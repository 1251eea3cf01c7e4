import Mathlib.Algebra.GroupWithZero.Nat
import Taas.Locks
import Taas.Transition

/-!
The `singleton` decorator. Threads call the constructors of the decorated classes, of which each
runs `__new__` and `__init__` under the lock of its decorator; while the original one runs, it may
call further constructors. Every access to the shared memory is a step of its own. Only the
constructor of its own class sets the attribute `_singleton_initialized` of an object: no decorated
class inherits from a decorated one, and `__new__` makes an object of the class.
-/
namespace Taas.Singletons

open Locks Transition

variable {T C L : Type} [DecidableEq T] [DecidableEq L]

/-- What a constructor call does next: first what `singleton_new` does, then `singleton_init`. An
exit knows whether the original one has raised. -/
inductive Point
  | checkInstances
  | enterNew
  | checkAgain
  | originalNew
  | store (obj : ℕ)
  | exitNew (raised : Bool)
  | readInstance
  | enterInit (obj : ℕ)
  | checkInitialized (obj : ℕ)
  | originalInit (obj : ℕ)
  | mark (obj : ℕ)
  | exitInit (obj : ℕ) (raised : Bool)
  deriving DecidableEq

/-- The original methods, which may call further constructors. -/
def Point.isBody : Point → Bool
  | .originalNew | .originalInit _ => true
  | _ => false

def Point.holdsLock : Point → Bool
  | .checkAgain | .originalNew | .store _ | .exitNew _ => true
  | .checkInitialized _ | .originalInit _ | .mark _ | .exitInit _ _ => true
  | _ => false

structure Frame (C : Type) where
  cls : C
  point : Point
  deriving DecidableEq

inductive Event (C : Type)
  | initialized (obj : ℕ)
  | returned (cls : C) (obj : ℕ)
  deriving DecidableEq

/-- The objects are numbered as they are made. `objects` has their classes, and `initialized` their
attribute `_singleton_initialized`. -/
structure Memory (C : Type) where
  instances : C → Option ℕ := fun _ => none
  objects : List C := []
  initialized : ℕ → Bool := fun _ => false

structure Process (T C L : Type) where
  memory : Memory C := {}
  lock : L → Option T := fun _ => none
  frames : T → List (Frame C) := fun _ => []
  log : List (Event C) := []

def Memory.new (m : Memory C) (cls : C) : Memory C := { m with objects := m.objects ++ [cls] }

def Memory.store [DecidableEq C] (m : Memory C) (cls : C) (obj : ℕ) : Memory C :=
  { m with instances := Function.update m.instances cls (some obj) }

def Memory.mark (m : Memory C) (obj : ℕ) : Memory C :=
  { m with initialized := Function.update m.initialized obj true }

def Process.setFrames (p : Process T C L) (t : T) (stack : List (Frame C)) : Process T C L :=
  { p with frames := Function.update p.frames t stack }

/-- `with _lock:`, which waits until the lock is free. -/
def Process.enter (p : Process T C L) (t : T) (l : L) : Option (Process T C L) :=
  if p.lock l = none then some { p with lock := Function.update p.lock l (some t) } else none

def Process.exit (p : Process T C L) (l : L) : Process T C L :=
  { p with lock := Function.update p.lock l none }

/-- One step of the constructor of `cls`, which `rest` waits for. -/
def step [DecidableEq C] (lockOf : C → L) (p : Process T C L) (t : T) (cls : C)
    (rest : List (Frame C)) : Point → Option (Process T C L)
  | .checkInstances => some (p.setFrames t (⟨cls,
      if (p.memory.instances cls).isNone then .enterNew else .readInstance⟩ :: rest))
  | .enterNew => (p.enter t (lockOf cls)).map (·.setFrames t (⟨cls, .checkAgain⟩ :: rest))
  | .checkAgain => some (p.setFrames t (⟨cls,
      if (p.memory.instances cls).isNone then .originalNew else .exitNew false⟩ :: rest))
  | .originalNew => some ({ p with memory := p.memory.new cls }.setFrames t
      (⟨cls, .store p.memory.objects.length⟩ :: rest))
  | .store obj => some ({ p with memory := p.memory.store cls obj }.setFrames t
      (⟨cls, .exitNew false⟩ :: rest))
  | .exitNew false => some ((p.exit (lockOf cls)).setFrames t (⟨cls, .readInstance⟩ :: rest))
  | .exitNew true => some ((p.exit (lockOf cls)).setFrames t rest)
  | .readInstance =>
    match p.memory.instances cls with
    | none => some (p.setFrames t rest)
    | some obj => some (p.setFrames t (⟨cls, .enterInit obj⟩ :: rest))
  | .enterInit obj =>
    (p.enter t (lockOf cls)).map (·.setFrames t (⟨cls, .checkInitialized obj⟩ :: rest))
  | .checkInitialized obj => some (p.setFrames t (⟨cls,
      if p.memory.initialized obj then .exitInit obj false else .originalInit obj⟩ :: rest))
  | .originalInit obj => some (p.setFrames t (⟨cls, .mark obj⟩ :: rest))
  | .mark obj => some ({ p with
      memory := p.memory.mark obj
      log := p.log ++ [Event.initialized obj] }.setFrames t (⟨cls, .exitInit obj false⟩ :: rest))
  | .exitInit obj false => some ({ p.exit (lockOf cls) with
      log := p.log ++ [Event.returned cls obj] }.setFrames t rest)
  | .exitInit _ true => some ((p.exit (lockOf cls)).setFrames t rest)

/-- `raises`: the original method that the thread is in raises. What a constructor raises goes to
the original method that has called it, which may catch it. -/
inductive Act (T C : Type)
  | call (t : T) (cls : C)
  | step (t : T)
  | raises (t : T)

/-- The threads of a process and the decorated classes, each with the lock of its decorator. -/
def threads [DecidableEq C] (lockOf : C → L) : System (Process T C L) (Act T C) where
  init p := p = {}
  next p
    | .call t cls =>
      if (p.frames t).head?.all (·.point.isBody) then
        some (p.setFrames t (⟨cls, .checkInstances⟩ :: p.frames t))
      else none
    | .step t =>
      match p.frames t with
      | [] => none
      | frame :: rest => step lockOf p t frame.cls rest frame.point
    | .raises t =>
      match p.frames t with
      | ⟨cls, .originalNew⟩ :: rest => some (p.setFrames t (⟨cls, .exitNew true⟩ :: rest))
      | ⟨cls, .originalInit obj⟩ :: rest => some (p.setFrames t (⟨cls, .exitInit obj true⟩ :: rest))
      | _ => none

variable {lockOf : C → L} {p q : Process T C L} {m : Memory C} {t u : T} {cls : C} {obj : ℕ}
  {f g : Frame C} {rest stack : List (Frame C)} {point : Point} {log : List (Event C)}

def Frame.lock (lockOf : C → L) (f : Frame C) : Option L :=
  if f.point.holdsLock then some (lockOf f.cls) else none

def Process.held (lockOf : C → L) (p : Process T C L) (t : T) : List L :=
  (p.frames t).filterMap (Frame.lock lockOf)

omit [DecidableEq L] in
theorem held_setFrames (p : Process T C L) (t : T) (stack : List (Frame C)) :
    (p.setFrames t stack).held lockOf =
      Function.update (p.held lockOf) t (stack.filterMap (Frame.lock lockOf)) := by
  funext u
  by_cases hut : u = t
  · subst hut
    simp [Process.held, Process.setFrames]
  · simp [Process.held, Process.setFrames, hut]

omit [DecidableEq T] [DecidableEq L] in
theorem held_cons (hframes : p.frames t = f :: rest) (hholds : f.point.holdsLock = true) :
    p.held lockOf t = lockOf f.cls :: rest.filterMap (Frame.lock lockOf) := by
  simp [Process.held, hframes, Frame.lock, hholds]

/-- A thread that goes on without the lock of its constructor changing. -/
theorem accounted_setFrames (h : Accounted p.lock (p.held lockOf))
    (hsame : stack.filterMap (Frame.lock lockOf) = p.held lockOf t) :
    Accounted p.lock ((p.setFrames t stack).held lockOf) := by
  rw [held_setFrames, hsame, Function.update_eq_self]
  exact h

theorem accounted_enter (h : Accounted p.lock (p.held lockOf)) (hframes : p.frames t = f :: rest)
    (hholds : f.point.holdsLock = false) (hpoint : point.holdsLock = true)
    (henter : p.enter t (lockOf f.cls) = some q) :
    Accounted q.lock ((q.setFrames t (⟨f.cls, point⟩ :: rest)).held lockOf) := by
  simp only [Process.enter, Option.ite_none_right_eq_some, Option.some.injEq] at henter
  obtain ⟨hfree, rfl⟩ := henter
  have hacquired := h.acquire (t := t) hfree
  have hheld : p.held lockOf t = rest.filterMap (Frame.lock lockOf) := by
    simp [Process.held, hframes, Frame.lock, hholds]
  rw [held_setFrames]
  simp only [List.filterMap_cons, Frame.lock, hpoint, if_true]
  rwa [hheld] at hacquired

theorem accounted_exit (h : Accounted p.lock (p.held lockOf)) (hframes : p.frames t = f :: rest)
    (hholds : f.point.holdsLock = true)
    (hstack : stack.filterMap (Frame.lock lockOf) = rest.filterMap (Frame.lock lockOf)) :
    Accounted (p.exit (lockOf f.cls)).lock
      (((p.exit (lockOf f.cls)).setFrames t stack).held lockOf) := by
  have hreleased := h.release (held_cons hframes hholds)
  rw [held_setFrames, hstack]
  exact hreleased

/-- While a thread holds the lock of its constructor, no other frame of a thread does. -/
theorem not_held (h : Accounted p.lock (p.held lockOf)) (hframes : p.frames t = f :: rest)
    (hholds : f.point.holdsLock = true) (hg : g ∈ Function.update p.frames t rest u)
    (hgholds : g.point.holdsLock = true) : lockOf g.cls ≠ lockOf f.cls := by
  intro hlock
  have hreleased := h.release (held_cons hframes hholds)
  have hmem : lockOf f.cls ∈
      Function.update (p.held lockOf) t (rest.filterMap (Frame.lock lockOf)) u := by
    rw [← held_setFrames]
    exact List.mem_filterMap.mpr ⟨g, hg, by simp [Frame.lock, hgholds, hlock]⟩
  have hholder := hreleased.mem_iff.mp hmem
  simp at hholder

/-- Objects of the table of instances are of their class, and only those are ever initialized. -/
structure Memory.Ok (m : Memory C) : Prop where
  cls : ∀ cls obj, m.instances cls = some obj → m.objects[obj]? = some cls
  initialized : ∀ obj, m.initialized obj = true → ∃ cls, m.instances cls = some obj

/-- What is known where a constructor call stands. -/
def Frame.Ok (m : Memory C) (f : Frame C) : Prop :=
  match f.point with
  | .checkInstances | .enterNew | .checkAgain | .exitNew true => True
  | .originalNew => m.instances f.cls = none
  | .store obj => m.instances f.cls = none ∧ m.objects[obj]? = some f.cls
  | .exitNew false | .readInstance => (m.instances f.cls).isSome
  | .enterInit obj | .checkInitialized obj | .exitInit obj true => m.instances f.cls = some obj
  | .originalInit obj | .mark obj => m.instances f.cls = some obj ∧ m.initialized obj = false
  | .exitInit obj false => m.instances f.cls = some obj ∧ m.initialized obj = true

theorem Memory.Ok.new (h : m.Ok) (cls : C) : (m.new cls).Ok where
  cls cls' obj hinst := by
    have hold := h.cls cls' obj hinst
    obtain ⟨hlt, -⟩ := List.getElem?_eq_some_iff.mp hold
    rw [← hold]
    exact List.getElem?_append_left hlt
  initialized := h.initialized

theorem Memory.Ok.mark (h : m.Ok) (hinst : m.instances cls = some obj) : (m.mark obj).Ok where
  cls := h.cls
  initialized obj' hinit := by
    by_cases hobj : obj' = obj
    · exact ⟨cls, hobj ▸ hinst⟩
    · exact h.initialized obj' (by simpa [Memory.mark, hobj] using hinit)

theorem Frame.Ok.new (h : g.Ok m) (cls : C) : g.Ok (m.new cls) := by
  obtain ⟨cls', point⟩ := g
  cases point with
  | store obj =>
    obtain ⟨hnone, hobj⟩ := h
    obtain ⟨hlt, -⟩ := List.getElem?_eq_some_iff.mp hobj
    refine ⟨hnone, ?_⟩
    rw [← hobj]
    exact List.getElem?_append_left hlt
  | exitNew raised => cases raised <;> exact h
  | exitInit obj raised => cases raised <;> exact h
  | _ => exact h

/-- The frames that find an object not initialized hold the lock of its constructor. -/
theorem Frame.Ok.mark (h : g.Ok m) (hm : m.Ok) (hinst : m.instances cls = some obj)
    (hlock : g.point.holdsLock = true → g.cls ≠ cls) : g.Ok (m.mark obj) := by
  have hcls : ∀ obj', m.instances g.cls = some obj' → g.point.holdsLock = true → obj' ≠ obj := by
    rintro obj' hobj' hholds rfl
    have hsame := (hm.cls _ _ hobj').symm.trans (hm.cls _ _ hinst)
    exact hlock hholds (Option.some.inj hsame)
  obtain ⟨cls', point⟩ := g
  cases point with
  | originalInit obj' =>
    exact ⟨h.1, by simpa [Memory.mark, hcls obj' h.1 rfl] using h.2⟩
  | mark obj' => exact ⟨h.1, by simpa [Memory.mark, hcls obj' h.1 rfl] using h.2⟩
  | exitNew raised => cases raised <;> exact h
  | exitInit obj' raised =>
    cases raised with
    | false => exact ⟨h.1, by simpa [Memory.mark, hcls obj' h.1 rfl] using h.2⟩
    | true => exact h
  | _ => exact h

section

variable [DecidableEq C]

theorem Memory.Ok.store (h : m.Ok) (hnone : m.instances cls = none)
    (hobj : m.objects[obj]? = some cls) : (m.store cls obj).Ok where
  cls cls' obj' hinst := by
    by_cases hcls : cls' = cls
    · subst hcls
      obtain rfl : obj = obj' := by simpa [Memory.store] using hinst
      exact hobj
    · refine h.cls cls' obj' ?_
      simpa [Memory.store, hcls] using hinst
  initialized obj' hinit := by
    obtain ⟨cls', hinst⟩ := h.initialized obj' hinit
    have hcls : cls' ≠ cls := by
      rintro rfl
      rw [hnone] at hinst
      cases hinst
    exact ⟨cls', by simpa [Memory.store, hcls] using hinst⟩

/-- The frames that find no instance of a class hold the lock of its constructor. -/
theorem Frame.Ok.store (h : g.Ok m) (hnone : m.instances cls = none)
    (hlock : g.point.holdsLock = true → g.cls ≠ cls) : g.Ok (m.store cls obj) := by
  by_cases hcls : g.cls = cls
  · have hfree : g.point.holdsLock = false := by
      by_contra hholds
      exact hlock (by simpa using hholds) hcls
    obtain ⟨cls', point⟩ := g
    obtain rfl : cls' = cls := hcls
    cases point <;> simp_all [Frame.Ok, Point.holdsLock]
  · have hinst : (m.store cls obj).instances g.cls = m.instances g.cls := by
      simp [Memory.store, hcls]
    unfold Frame.Ok at *
    rw [hinst]
    exact h

end

/-- What holds of a process between any two steps. -/
structure Inv (lockOf : C → L) (p : Process T C L) : Prop where
  accounted : Accounted p.lock (p.held lockOf)
  memory : p.memory.Ok
  frames : ∀ t, ∀ f ∈ p.frames t, f.Ok p.memory

omit [DecidableEq L] in
theorem mem_setFrames (hg : g ∈ (p.setFrames t (f :: rest)).frames u) :
    g = f ∨ g ∈ Function.update p.frames t rest u := by
  by_cases hut : u = t
  · subst hut
    simpa [Process.setFrames] using hg
  · right
    simpa [Process.setFrames, hut] using hg

omit [DecidableEq L] in
theorem mem_of_update (hframes : p.frames t = f :: rest)
    (hg : g ∈ Function.update p.frames t rest u) : g ∈ p.frames u := by
  by_cases hut : u = t
  · subst hut
    rw [Function.update_self] at hg
    rw [hframes]
    exact List.mem_cons_of_mem _ hg
  · rwa [Function.update_of_ne hut] at hg

namespace Inv

/-- A thread goes on, and writes to the memory what the frames elsewhere may see. -/
theorem goOn (h : Inv lockOf p) (hframes : p.frames t = f :: rest) (g : Frame C) {m : Memory C}
    (hlock : g.lock lockOf = f.lock lockOf) (hm : m.Ok) (hg : g.Ok m)
    (hothers : ∀ f' : Frame C, f'.Ok p.memory →
      (f.point.holdsLock = true → f'.point.holdsLock = true → f'.cls ≠ f.cls) → f'.Ok m) :
    Inv lockOf ({ p with memory := m }.setFrames t (g :: rest)) where
  accounted := by
    have hsame : (g :: rest).filterMap (Frame.lock lockOf) = p.held lockOf t := by
      simp only [Process.held, hframes, List.filterMap_cons, hlock]
    exact accounted_setFrames h.accounted hsame
  memory := hm
  frames u f' hf' := by
    rcases mem_setFrames hf' with rfl | hold
    · exact hg
    · refine hothers f' (h.frames u f' (mem_of_update hframes hold)) fun hholds hholds' hcls => ?_
      exact not_held h.accounted hframes hholds hold hholds' (congrArg lockOf hcls)

theorem entered (h : Inv lockOf p) (hframes : p.frames t = f :: rest)
    (hholds : f.point.holdsLock = false) (hpoint : point.holdsLock = true)
    (henter : p.enter t (lockOf f.cls) = some q) (hf : Frame.Ok p.memory ⟨f.cls, point⟩) :
    Inv lockOf (q.setFrames t (⟨f.cls, point⟩ :: rest)) := by
  have haccounted := accounted_enter h.accounted hframes hholds hpoint henter
  simp only [Process.enter, Option.ite_none_right_eq_some, Option.some.injEq] at henter
  obtain ⟨-, rfl⟩ := henter
  refine ⟨haccounted, h.memory, fun u g hg => ?_⟩
  rcases mem_setFrames hg with rfl | hold
  · exact hf
  · exact h.frames u g (mem_of_update hframes hold)

theorem exited (h : Inv lockOf p) (hframes : p.frames t = f :: rest)
    (hholds : f.point.holdsLock = true)
    (hstack : stack = rest ∨ ∃ g : Frame C, stack = g :: rest ∧ g.point.holdsLock = false ∧
      g.Ok p.memory) :
    Inv lockOf ((p.exit (lockOf f.cls)).setFrames t stack) where
  accounted := by
    refine accounted_exit h.accounted hframes hholds ?_
    rcases hstack with rfl | ⟨g, rfl, hg, -⟩
    · rfl
    · simp [Frame.lock, hg]
  memory := h.memory
  frames u g hg := by
    have hold : g ∈ Function.update p.frames t rest u → g.Ok p.memory :=
      fun hg => h.frames u g (mem_of_update hframes hg)
    rcases hstack with rfl | ⟨g', rfl, -, hg'⟩
    · exact hold hg
    · rcases mem_setFrames hg with rfl | hg
      · exact hg'
      · exact hold hg

end Inv

section

variable [DecidableEq C]

theorem Inv.step (h : Inv lockOf p) (hframes : p.frames t = ⟨cls, point⟩ :: rest)
    (hstep : step lockOf p t cls rest point = some q) : Inv lockOf q := by
  have hf : Frame.Ok p.memory ⟨cls, point⟩ := h.frames t _ (by simp [hframes])
  have hkeep : ∀ f' : Frame C, f'.Ok p.memory → (point.holdsLock = true →
      f'.point.holdsLock = true → f'.cls ≠ cls) → f'.Ok p.memory := fun _ hf' _ => hf'
  cases point with
  | checkInstances =>
    obtain rfl := Option.some.inj hstep
    cases hinst : p.memory.instances cls with
    | none => exact h.goOn hframes ⟨cls, .enterNew⟩ rfl h.memory trivial hkeep
    | some obj =>
      exact h.goOn hframes ⟨cls, .readInstance⟩ rfl h.memory (by simp [Frame.Ok, hinst]) hkeep
  | enterNew =>
    obtain ⟨q', henter, rfl⟩ := Option.map_eq_some_iff.mp hstep
    exact h.entered hframes rfl rfl henter trivial
  | checkAgain =>
    obtain rfl := Option.some.inj hstep
    cases hinst : p.memory.instances cls with
    | none => exact h.goOn hframes ⟨cls, .originalNew⟩ rfl h.memory hinst hkeep
    | some obj =>
      exact h.goOn hframes ⟨cls, .exitNew false⟩ rfl h.memory (by simp [Frame.Ok, hinst]) hkeep
  | originalNew =>
    obtain rfl := Option.some.inj hstep
    refine h.goOn hframes ⟨cls, .store p.memory.objects.length⟩ rfl (h.memory.new cls) ⟨hf, ?_⟩
      fun f' hf' _ => hf'.new cls
    simp [Memory.new]
  | store obj =>
    obtain rfl := Option.some.inj hstep
    obtain ⟨hnone, hobj⟩ := hf
    refine h.goOn hframes ⟨cls, .exitNew false⟩ rfl (h.memory.store hnone hobj) ?_
      fun f' hf' hlock => hf'.store hnone (hlock rfl)
    simp [Frame.Ok, Memory.store]
  | exitNew raised =>
    cases raised with
    | false =>
      obtain rfl := Option.some.inj hstep
      exact h.exited hframes rfl (.inr ⟨⟨cls, .readInstance⟩, rfl, rfl, hf⟩)
    | true =>
      obtain rfl := Option.some.inj hstep
      exact h.exited hframes rfl (.inl rfl)
  | readInstance =>
    obtain ⟨obj, hinst⟩ := Option.isSome_iff_exists.mp hf
    simp only [Singletons.step, hinst, Option.some.injEq] at hstep
    obtain rfl := hstep
    exact h.goOn hframes ⟨cls, .enterInit obj⟩ rfl h.memory hinst hkeep
  | enterInit obj =>
    obtain ⟨q', henter, rfl⟩ := Option.map_eq_some_iff.mp hstep
    exact h.entered hframes rfl rfl henter hf
  | checkInitialized obj =>
    obtain rfl := Option.some.inj hstep
    cases hinit : p.memory.initialized obj with
    | false => exact h.goOn hframes ⟨cls, .originalInit obj⟩ rfl h.memory ⟨hf, hinit⟩ hkeep
    | true => exact h.goOn hframes ⟨cls, .exitInit obj false⟩ rfl h.memory ⟨hf, hinit⟩ hkeep
  | originalInit obj =>
    obtain rfl := Option.some.inj hstep
    exact h.goOn hframes ⟨cls, .mark obj⟩ rfl h.memory hf hkeep
  | mark obj =>
    obtain rfl := Option.some.inj hstep
    have hmarked := h.goOn hframes ⟨cls, .exitInit obj false⟩ rfl (h.memory.mark hf.1)
      ⟨hf.1, by simp [Memory.mark]⟩ fun f' hf' hlock => hf'.mark h.memory hf.1 (hlock rfl)
    exact ⟨hmarked.accounted, hmarked.memory, hmarked.frames⟩
  | exitInit obj raised =>
    cases raised with
    | false =>
      obtain rfl := Option.some.inj hstep
      have hexited := h.exited hframes rfl (.inl rfl)
      exact ⟨hexited.accounted, hexited.memory, hexited.frames⟩
    | true =>
      obtain rfl := Option.some.inj hstep
      exact h.exited hframes rfl (.inl rfl)

theorem Inv.next (h : Inv lockOf p) {act : Act T C} (hnext : (threads lockOf).next p act = some q) :
    Inv lockOf q := by
  cases act with
  | call t cls =>
    simp only [threads, Option.ite_none_right_eq_some, Option.some.injEq] at hnext
    obtain ⟨-, rfl⟩ := hnext
    refine ⟨accounted_setFrames h.accounted (by simp [Process.held, Frame.lock, Point.holdsLock]),
      h.memory, fun u g hg => ?_⟩
    rcases mem_setFrames hg with rfl | hold
    · trivial
    · rw [Function.update_eq_self] at hold
      exact h.frames u g hold
  | step t =>
    simp only [threads] at hnext
    split at hnext
    · cases hnext
    · rename_i frame rest hframes
      exact h.step hframes hnext
  | raises t =>
    simp only [threads] at hnext
    have hkeep : ∀ (f f' : Frame C), f'.Ok p.memory → (f.point.holdsLock = true →
      f'.point.holdsLock = true → f'.cls ≠ f.cls) → f'.Ok p.memory := fun _ _ hf' _ => hf'
    split at hnext
    · rename_i cls rest hframes
      obtain rfl := Option.some.inj hnext
      exact h.goOn hframes ⟨cls, .exitNew true⟩ rfl h.memory trivial (hkeep _)
    · rename_i cls obj rest hframes
      obtain rfl := Option.some.inj hnext
      have hf := h.frames t _ (by rw [hframes]; exact List.mem_cons_self)
      exact h.goOn hframes ⟨cls, .exitInit obj true⟩ rfl h.memory hf.1 (hkeep _)
    · cases hnext

omit [DecidableEq C] in
theorem inv_init : Inv lockOf ({} : Process T C L) where
  accounted := accounted_free
  memory := ⟨nofun, nofun⟩
  frames _ _ hf := by cases hf

/-- What the log says of the memory. -/
structure Logged (m : Memory C) (log : List (Event C)) : Prop where
  initialized : ∀ obj, log.count (.initialized obj) = if m.initialized obj then 1 else 0
  returned : ∀ cls obj, .returned cls obj ∈ log → m.instances cls = some obj
  before : ∀ cls obj before, before ++ [.returned cls obj] <+: log → .initialized obj ∈ before

namespace Logged

theorem new (h : Logged m log) (cls : C) : Logged (m.new cls) log :=
  ⟨h.initialized, h.returned, h.before⟩

theorem store (h : Logged m log) (hnone : m.instances cls = none) (obj : ℕ) :
    Logged (m.store cls obj) log where
  initialized := h.initialized
  returned cls' obj' hmem := by
    have hinst := h.returned cls' obj' hmem
    have hcls : cls' ≠ cls := by
      rintro rfl
      rw [hnone] at hinst
      cases hinst
    simpa [Memory.store, hcls] using hinst
  before := h.before

theorem mark (h : Logged m log) (hfalse : m.initialized obj = false) :
    Logged (m.mark obj) (log ++ [.initialized obj]) where
  initialized obj' := by
    have hcount := h.initialized obj'
    by_cases hobj : obj' = obj
    · subst hobj
      simpa [Memory.mark, hfalse] using hcount
    · simp [Memory.mark, hobj, Ne.symm hobj, hcount]
  returned cls obj' hmem := h.returned cls obj' (by simpa using hmem)
  before cls obj' before hprefix := by
    rcases List.prefix_concat_iff.mp hprefix with heq | hprefix
    · have hlast := (List.append_inj' heq rfl).2
      simp at hlast
    · exact h.before cls obj' before hprefix

theorem exit (h : Logged m log) (hinst : m.instances cls = some obj)
    (htrue : m.initialized obj = true) : Logged m (log ++ [.returned cls obj]) where
  initialized obj' := by
    rw [List.count_append, ← h.initialized obj', List.count_singleton]
    simp
  returned cls' obj' hmem := by
    rcases List.mem_append.mp hmem with hmem | hmem
    · exact h.returned cls' obj' hmem
    · obtain ⟨rfl, rfl⟩ : cls' = cls ∧ obj' = obj := by simpa using hmem
      exact hinst
  before cls' obj' before hprefix := by
    rcases List.prefix_concat_iff.mp hprefix with heq | hprefix
    · obtain ⟨rfl, hlast⟩ := List.append_inj' heq rfl
      obtain ⟨rfl, rfl⟩ : cls' = cls ∧ obj' = obj := by simpa using hlast
      have hcount := h.initialized obj'
      rw [if_pos htrue] at hcount
      exact List.count_pos_iff.mp (by omega)
    · exact h.before cls' obj' before hprefix

end Logged

omit [DecidableEq T] [DecidableEq C] in
theorem enter_memory {l : L} (h : p.enter t l = some q) :
    q.memory = p.memory ∧ q.log = p.log := by
  simp only [Process.enter, Option.ite_none_right_eq_some, Option.some.injEq] at h
  obtain ⟨-, rfl⟩ := h
  exact ⟨rfl, rfl⟩

theorem Logged.step (hlog : Logged p.memory p.log) (h : Inv lockOf p)
    (hframes : p.frames t = ⟨cls, point⟩ :: rest)
    (hstep : Singletons.step lockOf p t cls rest point = some q) : Logged q.memory q.log := by
  have hf : Frame.Ok p.memory ⟨cls, point⟩ := h.frames t _ (by simp [hframes])
  cases point with
  | enterNew | enterInit obj =>
    obtain ⟨q', henter, rfl⟩ := Option.map_eq_some_iff.mp hstep
    obtain ⟨hmemory, hsame⟩ := enter_memory henter
    change Logged q'.memory q'.log
    rwa [hmemory, hsame]
  | originalNew =>
    obtain rfl := Option.some.inj hstep
    exact hlog.new cls
  | store obj =>
    obtain rfl := Option.some.inj hstep
    exact hlog.store hf.1 obj
  | mark obj =>
    obtain rfl := Option.some.inj hstep
    exact hlog.mark hf.2
  | exitNew raised =>
    cases raised <;>
    · obtain rfl := Option.some.inj hstep
      exact hlog
  | readInstance =>
    simp only [Singletons.step] at hstep
    split at hstep <;>
    · obtain rfl := Option.some.inj hstep
      exact hlog
  | exitInit obj raised =>
    cases raised with
    | false =>
      obtain rfl := Option.some.inj hstep
      exact hlog.exit hf.1 hf.2
    | true =>
      obtain rfl := Option.some.inj hstep
      exact hlog
  | _ =>
    obtain rfl := Option.some.inj hstep
    exact hlog

theorem Logged.next (hlog : Logged p.memory p.log) (h : Inv lockOf p) {act : Act T C}
    (hnext : (threads lockOf).next p act = some q) : Logged q.memory q.log := by
  cases act with
  | call t cls =>
    simp only [threads, Option.ite_none_right_eq_some, Option.some.injEq] at hnext
    obtain ⟨-, rfl⟩ := hnext
    exact hlog
  | step t =>
    simp only [threads] at hnext
    split at hnext
    · cases hnext
    · rename_i frame rest hframes
      exact hlog.step h hframes hnext
  | raises t =>
    simp only [threads] at hnext
    split at hnext
    · obtain rfl := Option.some.inj hnext
      exact hlog
    · obtain rfl := Option.some.inj hnext
      exact hlog
    · cases hnext

theorem inv_of_trace {ok : Condition (Process T C L) (Act T C)} {acts : List (Act T C)}
    (h : Trace (threads lockOf) ok acts p) : Inv lockOf p ∧ Logged p.memory p.log := by
  refine Trace.invariant (P := fun p => Inv lockOf p ∧ Logged p.memory p.log) ?_ ?_ h
  · rintro p rfl
    exact ⟨inv_init, ⟨fun _ => rfl, nofun, fun _ _ _ h => by simp at h⟩⟩
  · rintro p act q ⟨hinv, hlog⟩ hnext
    exact ⟨hinv.next hnext, hlog.next hinv hnext⟩

/-- However the threads interleave and whatever the original methods raise: all calls of a
constructor that return give the same object, which `__init__` has by then brought to its end, once
and for all; and no two threads are at once in the `__init__` of an object. -/
theorem one_instance {acts : List (Act T C)} (h : Trace (threads lockOf) free acts p) :
    (∀ cls i j, .returned cls i ∈ p.log → .returned cls j ∈ p.log → i = j) ∧
    (∀ obj, p.log.count (.initialized obj) ≤ 1) ∧
    (∀ cls obj before, before ++ [.returned cls obj] <+: p.log → .initialized obj ∈ before) ∧
    (∀ t u f g obj, f ∈ p.frames t → g ∈ p.frames u → f.point = .originalInit obj →
      g.point = .originalInit obj → t = u) := by
  obtain ⟨hinv, hlog⟩ := inv_of_trace h
  refine ⟨fun cls i j hi hj => ?_, fun obj => ?_, hlog.before,
    fun t u f g obj hf hg hfpoint hgpoint => ?_⟩
  · exact Option.some.inj ((hlog.returned cls i hi).symm.trans (hlog.returned cls j hj))
  · rw [hlog.initialized obj]
    split <;> omega
  · have hfok := hinv.frames t f hf
    have hgok := hinv.frames u g hg
    simp only [Frame.Ok, hfpoint] at hfok
    simp only [Frame.Ok, hgpoint] at hgok
    have hcls : f.cls = g.cls := Option.some.inj
      ((hinv.memory.cls _ _ hfok.1).symm.trans (hinv.memory.cls _ _ hgok.1))
    refine hinv.accounted.unique (l := lockOf f.cls)
      (List.mem_filterMap.mpr ⟨f, hf, by simp [Frame.lock, hfpoint, Point.holdsLock]⟩)
      (List.mem_filterMap.mpr ⟨g, hg, ?_⟩)
    simp [Frame.lock, hgpoint, hcls, Point.holdsLock]

/-- Two threads that both find no instance before either has made one. -/
def race : List (Act Bool Unit) :=
  [.call true (), .call false (), .step true, .step false] ++
    List.replicate 6 (.step true) ++ List.replicate 4 (.step false) ++
    List.replicate 5 (.step true) ++ List.replicate 3 (.step false)

theorem one_instance_race : ∃ p : Process Bool Unit Unit,
    p.log = [.initialized 0, .returned () 0, .returned () 0] ∧
      ∀ obj, p.log.count (.initialized obj) ≤ 1 := by
  have hrun : ((replay (threads id) free [] race ({} : Process Bool Unit Unit)).map Process.log) =
      some [.initialized 0, .returned () 0, .returned () 0] := rfl
  obtain ⟨p, hp, hlog⟩ := Option.map_eq_some_iff.mp hrun
  exact ⟨p, hlog, (one_instance (trace_of_replay rfl hp)).2.1⟩

/-- The original methods call only constructors whose locks rank below that of their own. -/
def Ranked (rank : L → ℕ) (lockOf : C → L) : Condition (Process T C L) (Act T C)
  | _, p, .call t cls => ∀ f ∈ (p.frames t).head?, rank (lockOf cls) < rank (lockOf f.cls)
  | _, _, _ => True

/-- The constructors go on, and none is called any more. -/
def OnlySteps : Condition (Process T C L) (Act T C)
  | _, _, .step _ => True
  | _, _, _ => False

/-- The longest way from a point to the end of its constructor. -/
def Point.left : Point → ℕ
  | .checkInstances => 12
  | .enterNew => 11
  | .checkAgain => 10
  | .originalNew => 9
  | .store _ => 8
  | .exitNew _ => 7
  | .readInstance => 6
  | .enterInit _ => 5
  | .checkInitialized _ => 4
  | .originalInit _ => 3
  | .mark _ => 2
  | .exitInit _ _ => 1

def Point.enters : Point → Bool
  | .enterNew | .enterInit _ => true
  | _ => false

/-- The lock that a thread waits for, or takes next. -/
def Process.awaits (lockOf : C → L) (p : Process T C L) (t : T) : Option L :=
  (p.frames t).head?.bind fun f => if f.point.enters then some (lockOf f.cls) else none

/-- The locks of the constructors that a thread is in rank ever lower. -/
def Process.Sorted (rank : L → ℕ) (lockOf : C → L) (p : Process T C L) : Prop :=
  ∀ t, (p.frames t).Pairwise fun f g => rank (lockOf f.cls) < rank (lockOf g.cls)

theorem step_frames (hstep : step lockOf p t cls rest point = some q) :
    ∃ stack, q.frames = Function.update p.frames t stack ∧
      (stack = rest ∨ ∃ after, stack = ⟨cls, after⟩ :: rest ∧ after.left < point.left) := by
  cases point with
  | enterNew | enterInit obj =>
    simp only [step, Process.enter, Option.map_eq_some_iff, Option.ite_none_right_eq_some,
      Option.some.injEq] at hstep
    obtain ⟨q', ⟨-, rfl⟩, rfl⟩ := hstep
    exact ⟨_, rfl, .inr ⟨_, rfl, by simp [Point.left]⟩⟩
  | checkInstances | checkAgain | checkInitialized obj =>
    obtain rfl := Option.some.inj hstep
    refine ⟨_, rfl, .inr ⟨_, rfl, ?_⟩⟩
    split <;> simp [Point.left]
  | exitNew raised =>
    cases raised with
    | false =>
      obtain rfl := Option.some.inj hstep
      exact ⟨_, rfl, .inr ⟨_, rfl, by simp [Point.left]⟩⟩
    | true =>
      obtain rfl := Option.some.inj hstep
      exact ⟨_, rfl, .inl rfl⟩
  | readInstance =>
    simp only [step] at hstep
    split at hstep
    · obtain rfl := Option.some.inj hstep
      exact ⟨_, rfl, .inl rfl⟩
    · obtain rfl := Option.some.inj hstep
      exact ⟨_, rfl, .inr ⟨_, rfl, by simp [Point.left]⟩⟩
  | exitInit obj raised =>
    cases raised <;>
    · obtain rfl := Option.some.inj hstep
      exact ⟨_, rfl, .inl rfl⟩
  | originalNew | store obj | originalInit obj | mark obj =>
    obtain rfl := Option.some.inj hstep
    exact ⟨_, rfl, .inr ⟨_, rfl, by simp [Point.left]⟩⟩

/-- Only a lock that is held keeps a constructor from going on. -/
theorem step_isSome (hfree : point.enters = true → p.lock (lockOf cls) = none) :
    ∃ q, step lockOf p t cls rest point = some q := by
  cases point with
  | enterNew | enterInit obj =>
    simp [step, Process.enter, hfree rfl]
  | exitNew raised => cases raised <;> exact ⟨_, rfl⟩
  | exitInit obj raised => cases raised <;> exact ⟨_, rfl⟩
  | readInstance =>
    simp only [step]
    split <;> exact ⟨_, rfl⟩
  | _ => exact ⟨_, rfl⟩

variable {rank : L → ℕ}

omit [DecidableEq L] [DecidableEq C] in
theorem Sorted.update (h : p.Sorted rank lockOf)
    (hq : q.frames = Function.update p.frames t stack)
    (hstack : stack.Pairwise fun f g => rank (lockOf f.cls) < rank (lockOf g.cls)) :
    q.Sorted rank lockOf := by
  intro u
  rw [hq]
  by_cases hut : u = t
  · subst hut
    simpa using hstack
  · rw [Function.update_of_ne hut]
    exact h u

omit [DecidableEq L] [DecidableEq C] in
/-- A thread that goes on in the same constructor, or leaves it. -/
theorem Sorted.goOn (h : p.Sorted rank lockOf) (hframes : p.frames t = ⟨cls, point⟩ :: rest)
    (hq : q.frames = Function.update p.frames t stack)
    (hstack : stack = rest ∨ ∃ after, stack = ⟨cls, after⟩ :: rest) : q.Sorted rank lockOf := by
  have hold := h t
  rw [hframes, List.pairwise_cons] at hold
  refine Sorted.update h hq ?_
  rcases hstack with rfl | ⟨after, rfl⟩
  · exact hold.2
  · exact List.pairwise_cons.mpr hold

theorem Sorted.next (h : p.Sorted rank lockOf) {past : List (Act T C)} {act : Act T C}
    (hok : Ranked rank lockOf past p act) (hnext : (threads lockOf).next p act = some q) :
    q.Sorted rank lockOf := by
  cases act with
  | call t cls =>
    simp only [threads, Option.ite_none_right_eq_some, Option.some.injEq] at hnext
    obtain ⟨-, rfl⟩ := hnext
    refine Sorted.update h rfl (List.pairwise_cons.mpr ⟨fun g hg => ?_, h t⟩)
    have hold := h t
    cases hframes : p.frames t with
    | nil => simp [hframes] at hg
    | cons f rest =>
      have hcls : rank (lockOf cls) < rank (lockOf f.cls) := hok f (by simp [hframes])
      rw [hframes, List.pairwise_cons] at hold
      rw [hframes] at hg
      rcases List.mem_cons.mp hg with rfl | hrest
      · exact hcls
      · exact hcls.trans (hold.1 g hrest)
  | step t =>
    simp only [threads] at hnext
    split at hnext
    · cases hnext
    · rename_i frame rest hframes
      obtain ⟨stack, hq, hstack⟩ := step_frames hnext
      exact Sorted.goOn h hframes hq (hstack.imp_right fun ⟨after, heq, _⟩ => ⟨after, heq⟩)
  | raises t =>
    simp only [threads] at hnext
    split at hnext
    · rename_i cls rest hframes
      obtain rfl := Option.some.inj hnext
      exact Sorted.goOn h hframes rfl (.inr ⟨_, rfl⟩)
    · rename_i cls obj rest hframes
      obtain rfl := Option.some.inj hnext
      exact Sorted.goOn h hframes rfl (.inr ⟨_, rfl⟩)
    · cases hnext

theorem enters_not_holds (h : point.enters = true) : point.holdsLock = false := by
  cases point <;> simp_all [Point.enters, Point.holdsLock]

omit [DecidableEq C] in
/-- A thread holds only locks of constructors that wait for the one that it is in. -/
theorem ordered (h : Inv lockOf p) (hsorted : p.Sorted rank lockOf) :
    Ordered rank p.lock (p.awaits lockOf) := by
  intro t l l' hawaits hholder
  cases hframes : p.frames t with
  | nil => simp [Process.awaits, hframes] at hawaits
  | cons f rest =>
    simp only [Process.awaits, hframes, List.head?_cons, Option.bind_some,
      Option.ite_none_right_eq_some, Option.some.injEq] at hawaits
    obtain ⟨henters, rfl⟩ := hawaits
    have hmem := h.accounted.mem_iff.mpr hholder
    simp only [Process.held, hframes, List.filterMap_cons, Frame.lock, enters_not_holds henters,
      Bool.false_eq_true, if_false, List.mem_filterMap, Option.ite_none_right_eq_some,
      Option.some.injEq] at hmem
    obtain ⟨g, hg, -, rfl⟩ := hmem
    have hold := hsorted t
    rw [hframes, List.pairwise_cons] at hold
    exact hold.1 g hg

def Process.left [Fintype T] (p : Process T C L) : ℕ :=
  ∑ t, ((p.frames t).map fun f => f.point.left).sum

/-- While some thread is in a constructor, one of them can go on. -/
theorem exists_step [Fintype T] (h : Inv lockOf p) (hsorted : p.Sorted rank lockOf)
    (hbusy : ¬ ∀ t, p.frames t = []) :
    ∃ t q, (threads lockOf).next p (.step t) = some q ∧ q.Sorted rank lockOf ∧
      q.left < p.left := by
  obtain ⟨t, ht⟩ := not_forall.mp hbusy
  obtain ⟨u, hu, hfree⟩ := (ordered h hsorted).exists_unblocked t
  have hbusy : p.frames u ≠ [] := by
    rcases hu with rfl | ⟨l, hl⟩
    · exact ht
    · intro hnil
      have hmem := h.accounted.mem_iff.mpr hl
      simp [Process.held, hnil] at hmem
  obtain ⟨f, rest, hframes⟩ := List.exists_cons_of_ne_nil hbusy
  obtain ⟨q, hq⟩ : ∃ q, step lockOf p u f.cls rest f.point = some q :=
    step_isSome fun henters => hfree _ (by simp [Process.awaits, hframes, henters])
  have hnext : (threads lockOf).next p (.step u) = some q := by
    simp only [threads, hframes]
    exact hq
  obtain ⟨stack, hstack, hcases⟩ := step_frames hq
  refine ⟨u, q, hnext, Sorted.goOn hsorted hframes hstack
    (hcases.imp_right fun ⟨after, heq, _⟩ => ⟨after, heq⟩), ?_⟩
  have hsum := sum_update p.frames u stack fun frames => (frames.map fun f => f.point.left).sum
  have hlt : (stack.map fun f => f.point.left).sum <
      ((p.frames u).map fun f => f.point.left).sum := by
    have hpos : 0 < f.point.left := by cases f.point <;> simp [Point.left]
    rw [hframes, List.map_cons, List.sum_cons]
    rcases hcases with rfl | ⟨after, rfl, hafter⟩
    · omega
    · simp only [List.map_cons, List.sum_cons]
      omega
  unfold Process.left
  rw [hstack]
  beta_reduce at hsum
  omega

/-- Where the decorated classes can be ranked so that the original methods of each call only
constructors of lower ones, no run leads to a deadlock: every thread can be brought out of all its
constructors, however many of them wait for each other. -/
theorem constructors_can_end [Fintype T] {acts : List (Act T C)}
    (h : Trace (threads lockOf) (Ranked rank lockOf) acts p) :
    ∃ bs q, Path (threads lockOf) OnlySteps acts p bs q ∧ ∀ t, q.frames t = [] := by
  have hsorted : p.Sorted rank lockOf := by
    refine Trace.induct (I := fun _ p => p.Sorted rank lockOf) ?_ ?_ acts p h
    · rintro p rfl t
      exact .nil
    · intro past p act q _ hp hok hnext
      exact Sorted.next hp hok hnext
  have hends : ∃ bs q, Path (threads lockOf) OnlySteps acts p bs q ∧ (∀ t, q.frames t = []) ∧
      Inv lockOf q ∧ q.Sorted rank lockOf := by
    refine Path.exists_of_measure (P := fun p => Inv lockOf p ∧ p.Sorted rank lockOf) Process.left
      ?_ acts ⟨(inv_of_trace h).1, hsorted⟩
    rintro past p ⟨hinv, hsorted⟩ hbusy
    obtain ⟨t, q, hnext, hq, hlt⟩ := exists_step hinv hsorted hbusy
    exact ⟨.step t, q, trivial, hnext, ⟨hinv.next hnext, hq⟩, hlt⟩
  obtain ⟨bs, q, hpath, hframes, -⟩ := hends
  exact ⟨bs, q, hpath, hframes⟩

instance (past : List (Act T C)) (p : Process T C L) (act : Act T C) :
    Decidable (Ranked rank lockOf past p act) :=
  match act with
  | .call _ _ => inferInstanceAs (Decidable (∀ f ∈ _, _))
  | .step _ => isTrue trivial
  | .raises _ => isTrue trivial

/-- A thread that is in two constructors, of which the outer one keeps another thread waiting. -/
def nested : List (Act Bool Bool) :=
  .call true true :: List.replicate 9 (.step true) ++ .call true false ::
    List.replicate 9 (.step true) ++ .call false true :: List.replicate 2 (.step false)

theorem constructors_can_end_nested : ∃ (p q : Process Bool Bool Bool) (bs : List (Act Bool Bool)),
    ((threads id).next p (.step false)).isNone ∧
      Path (threads id) OnlySteps nested p bs q ∧ ∀ t, q.frames t = [] := by
  have hrun : ((replay (threads id) (Ranked Bool.toNat id) [] nested
      ({} : Process Bool Bool Bool)).map fun p => ((threads id).next p (.step false)).isNone) =
        some true := rfl
  obtain ⟨p, hp, hblocked⟩ := Option.map_eq_some_iff.mp hrun
  obtain ⟨bs, q, hpath, hends⟩ := constructors_can_end (trace_of_replay rfl hp)
  exact ⟨p, q, bs, hblocked, hpath, hends⟩

end

end Taas.Singletons
