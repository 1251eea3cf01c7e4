import Taas.Transition

/-!
The SIGINT and SIGTERM handlers under concurrent calls of `execute_async` on the event loop
of the main thread. A call saves the handlers it finds, installs one that cancels every task,
and puts the saved ones back when it ends. Neither half suspends, so each is one step, and
the steps of the calls interleave in any way.
-/
namespace Taas.RetrySignals

open Transition

variable {C U : Type}

inductive Sig | sigint | sigterm
  deriving DecidableEq

/-- The handler of a signal at process level. Python does not see a `foreign` one, which
was installed by other means; `noop` is what `loop.add_signal_handler` installs. -/
inductive ProcessHandler (U : Type)
  | foreign
  | noop
  | defaultIntHandler
  | sigDfl
  | user (u : U)
  deriving DecidableEq

/-- The callback of the event loop, with its arguments: `_cancel_all_on_signal` of a call, or
one of the application. -/
inductive Callback (C U : Type)
  | cancelAll (c : C)
  | user (u : U)
  deriving DecidableEq

/-- `loop._signal_handlers` and the handlers of the process. -/
@[ext] structure Handlers (C U : Type) where
  asyncio : Sig → Option (Callback C U)
  process : Sig → ProcessHandler U

namespace Handlers

/-- `signal.getsignal`, none for Python's `None`. -/
def getsignal (h : Handlers C U) (sig : Sig) : Option (ProcessHandler U) :=
  match h.process sig with
  | .foreign => none
  | p => some p

def signal (h : Handlers C U) (sig : Sig) (handler : ProcessHandler U) : Handlers C U :=
  { h with process := Function.update h.process sig handler }

def addSignalHandler (h : Handlers C U) (sig : Sig) (callback : Callback C U) : Handlers C U :=
  { h with asyncio := Function.update h.asyncio sig (some callback) }.signal sig .noop

def removeSignalHandler (h : Handlers C U) (sig : Sig) : Handlers C U :=
  match h.asyncio sig with
  | none => h
  | some _ =>
    { h with asyncio := Function.update h.asyncio sig none }.signal sig
      (match sig with
        | .sigint => .defaultIntHandler
        | .sigterm => .sigDfl)

end Handlers

/-- What a call saves for a signal. -/
structure Entry (C U : Type) where
  signalHandler : Option (ProcessHandler U)
  asyncioHandler : Option (Callback C U)

def Handlers.entry (h : Handlers C U) (sig : Sig) : Entry C U where
  signalHandler := h.getsignal sig
  asyncioHandler := h.asyncio sig

/-- The saved entries by signal. -/
abbrev Saved (C U : Type) := List (Sig × Entry C U)

/-- The first half of `execute_async`: save the handlers and install the cancel-all handler. -/
def install (c : C) (h : Handlers C U) : Saved C U × Handlers C U :=
  [Sig.sigint, Sig.sigterm].foldl (fun (saved, h) sig =>
    (saved ++ [(sig, h.entry sig)], h.addSignalHandler sig (.cancelAll c))) ([], h)

def restoreOn (h : Handlers C U) : Sig × Entry C U → Handlers C U
  | (sig, e) =>
    let h := match e.asyncioHandler with
      | some callback => h.addSignalHandler sig callback
      | none => h.removeSignalHandler sig
    match e.signalHandler with
    | some handler => h.signal sig handler
    | none => h

/-- The `finally` of `execute_async`. -/
def restore (saved : Saved C U) (h : Handlers C U) : Handlers C U := saved.foldl restoreOn h

/-- The handlers and the calls that run, oldest first, with what each of them saved. -/
structure Retries (C U : Type) where
  handlers : Handlers C U
  running : List (C × Saved C U) := []

/-- A call ends by success, exhaustion or cancellation. -/
inductive Act (C : Type)
  | start (c : C)
  | finish (c : C)
  deriving DecidableEq

def next [DecidableEq C] (s : Retries C U) : Act C → Option (Retries C U)
  | .start c =>
    if c ∈ s.running.map Prod.fst then none
    else
      let (saved, handlers) := install c s.handlers
      some { handlers := handlers, running := s.running ++ [(c, saved)] }
  | .finish c =>
    (s.running.lookup c).map fun saved =>
      { handlers := restore saved s.handlers
        running := s.running.filter fun x => x.1 ≠ c }

/-- Any number of calls, from the handlers `h`. -/
def retries [DecidableEq C] (h : Handlers C U) : System (Retries C U) (Act C) where
  init s := s = { handlers := h }
  next := next

/-- A cancel-all handler is installed for both signals. -/
def Installed (h : Handlers C U) : Prop :=
  ∀ sig, (∃ c, h.asyncio sig = some (.cancelAll c)) ∧ h.process sig = .noop

/-- The handlers are those of before the first call when no call runs, and the cancel-all
handler is installed when one does. -/
def Kept (h : Handlers C U) (s : Retries C U) : Prop :=
  (s.running = [] → s.handlers = h) ∧ (s.running ≠ [] → Installed s.handlers)

/-- Python sees the handlers of the process. -/
def Visible (h : Handlers C U) : Prop := ∀ sig, h.process sig ≠ .foreign

/-- The call that started when none was running ends when no other one runs, and it started
under handlers that Python sees. -/
def OutermostLast : Condition (Retries C U) (Act C)
  | _, s, .start _ => s.running = [] → Visible s.handlers
  | _, s, .finish c => s.running.head?.map Prod.fst = some c → s.running.length = 1

variable {h g : Handlers C U} {s t : Retries C U} {c : C}

/-- What a call saves. -/
def savedOf (h : Handlers C U) : Saved C U :=
  [(.sigint, h.entry .sigint), (.sigterm, h.entry .sigterm)]

theorem install_saved : (install c h).1 = savedOf h := rfl

theorem install_installed : Installed (install c h).2 := by
  intro sig
  cases sig with
  | sigint => exact ⟨⟨c, rfl⟩, rfl⟩
  | sigterm => exact ⟨⟨c, rfl⟩, rfl⟩

theorem removeSignalHandler_asyncio (h : Handlers C U) (sig : Sig) :
    (h.removeSignalHandler sig).asyncio = Function.update h.asyncio sig none := by
  unfold Handlers.removeSignalHandler
  split
  · rename_i hnone
    rw [← hnone, Function.update_eq_self]
  · rfl

theorem removeSignalHandler_process {sig sig' : Sig} (hne : sig' ≠ sig) :
    (h.removeSignalHandler sig).process sig' = h.process sig' := by
  unfold Handlers.removeSignalHandler
  cases h.asyncio sig with
  | none => rfl
  | some callback => exact Function.update_of_ne hne ..

theorem restoreOn_asyncio (sig : Sig) (e : Entry C U) :
    (restoreOn h (sig, e)).asyncio = Function.update h.asyncio sig e.asyncioHandler := by
  obtain ⟨signalHandler, asyncioHandler⟩ := e
  cases signalHandler <;> cases asyncioHandler <;>
    simp [restoreOn, Handlers.addSignalHandler, Handlers.signal, removeSignalHandler_asyncio]

theorem restoreOn_process_ne {sig sig' : Sig} (hne : sig' ≠ sig) (e : Entry C U) :
    (restoreOn h (sig, e)).process sig' = h.process sig' := by
  obtain ⟨signalHandler, asyncioHandler⟩ := e
  cases signalHandler <;> cases asyncioHandler <;>
    simp [restoreOn, Handlers.addSignalHandler, Handlers.signal, removeSignalHandler_process, hne]

theorem restoreOn_process_self {sig : Sig} {e : Entry C U} {handler : ProcessHandler U}
    (he : e.signalHandler = some handler) : (restoreOn h (sig, e)).process sig = handler := by
  obtain ⟨signalHandler, asyncioHandler⟩ := e
  cases he
  exact Function.update_self ..

theorem restore_asyncio : (restore (savedOf g) h).asyncio = g.asyncio := by
  funext sig
  simp only [restore, savedOf, List.foldl_cons, List.foldl_nil, restoreOn_asyncio]
  cases sig <;> rfl

theorem entry_visible {sig : Sig} (hv : g.process sig ≠ .foreign) :
    (g.entry sig).signalHandler = some (g.process sig) := by
  unfold Handlers.entry Handlers.getsignal
  cases hp : g.process sig with
  | foreign => exact absurd hp hv
  | _ => rfl

theorem restore_process {sig : Sig} (hv : g.process sig ≠ .foreign) :
    (restore (savedOf g) h).process sig = g.process sig := by
  simp only [restore, savedOf, List.foldl_cons, List.foldl_nil]
  cases sig with
  | sigint =>
    rw [restoreOn_process_ne (by simp)]
    exact restoreOn_process_self (entry_visible hv)
  | sigterm => exact restoreOn_process_self (entry_visible hv)

theorem restore_savedOf (hv : Visible g) : restore (savedOf g) h = g := by
  ext sig
  · rw [restore_asyncio]
  · rw [restore_process (hv sig)]

theorem Installed.visible (hi : Installed g) : Visible g := by
  intro sig
  rw [(hi sig).2]
  simp

/-- The call that started first saved the handlers `h`, and the others saved those of a
cancel-all handler. -/
structure Nested (h : Handlers C U) (s : Retries C U) : Prop where
  idle : s.running = [] → s.handlers = h
  installed : s.running ≠ [] → Installed s.handlers
  first : ∀ x rest, s.running = x :: rest → x.2 = savedOf h ∧ Visible h
  others : ∀ x rest, s.running = x :: rest →
    ∀ y ∈ rest, y.1 ≠ x.1 ∧ ∃ g, y.2 = savedOf g ∧ Installed g

theorem nested_init (h : Handlers C U) : Nested h { handlers := h } := by
  constructor <;> simp

variable [DecidableEq C]

theorem nested_start (hn : Nested h s) (hok : s.running = [] → Visible s.handlers)
    (hstep : next s (.start c) = some t) : Nested h t := by
  simp only [next, Option.ite_none_left_eq_some, Option.some.injEq] at hstep
  obtain ⟨hfresh, rfl⟩ := hstep
  refine ⟨by simp, fun _ => install_installed, ?_, ?_⟩
  · intro x rest hx
    cases hs : s.running with
    | nil =>
      have hidle := hn.idle hs
      simp only [hs, List.nil_append, List.cons.injEq] at hx
      obtain ⟨rfl, -⟩ := hx
      rw [install_saved, hidle]
      exact ⟨rfl, hidle ▸ hok hs⟩
    | cons y l =>
      simp only [hs, List.cons_append, List.cons.injEq] at hx
      obtain ⟨rfl, -⟩ := hx
      exact hn.first _ l hs
  · intro x rest hx y hy
    cases hs : s.running with
    | nil =>
      simp only [hs, List.nil_append, List.cons.injEq] at hx
      obtain ⟨-, rfl⟩ := hx
      simp at hy
    | cons z l =>
      simp only [hs, List.cons_append, List.cons.injEq] at hx
      obtain ⟨rfl, rfl⟩ := hx
      rcases List.mem_append.mp hy with hy | hy
      · exact hn.others z l hs y hy
      · have hinstalled := hn.installed (by simp [hs])
        rw [List.mem_singleton.mp hy]
        refine ⟨?_, s.handlers, install_saved, hinstalled⟩
        rintro rfl
        exact hfresh (by simp [hs])

theorem nested_finish (hn : Nested h s)
    (hok : s.running.head?.map Prod.fst = some c → s.running.length = 1)
    (hstep : next s (.finish c) = some t) : Nested h t := by
  obtain ⟨saved, hsaved, rfl⟩ := Option.map_eq_some_iff.mp hstep
  have hmem : (c, saved) ∈ s.running := by
    obtain ⟨before, after, hsplit, -⟩ := List.lookup_eq_some_iff.mp hsaved
    simp [hsplit]
  cases hs : s.running with
  | nil => simp [hs] at hmem
  | cons x rest =>
    obtain ⟨hfirst, hv⟩ := hn.first x rest hs
    have hothers := hn.others x rest hs
    by_cases hc : x.1 = c
    · -- the outermost call, which is the only one
      have hlen := hok (by simp [hs, hc])
      have hrest : rest = [] := by simpa [hs] using hlen
      subst hrest
      have hx : (c, saved) = x := by simpa [hs] using hmem
      subst hx
      have hnone : [(c, saved)].filter (fun y => y.1 ≠ c) = [] := by simp
      rw [hnone, show saved = savedOf h from hfirst, restore_savedOf hv]
      exact nested_init h
    · have hrest : (c, saved) ∈ rest := by
        rw [hs] at hmem
        refine (List.mem_cons.mp hmem).resolve_left ?_
        rintro rfl
        exact hc rfl
      obtain ⟨-, g, hg, hi⟩ := hothers _ hrest
      have hkeep : (x :: rest).filter (fun y => y.1 ≠ c) = x :: rest.filter fun y => y.1 ≠ c := by
        simp [hc]
      rw [hkeep, show saved = savedOf g from hg, restore_savedOf hi.visible]
      refine ⟨by simp, fun _ => hi, ?_, ?_⟩
      · intro y l hy
        obtain ⟨rfl, -⟩ := List.cons.inj hy
        exact ⟨hfirst, hv⟩
      · intro y l hy z hz
        obtain ⟨rfl, rfl⟩ := List.cons.inj hy
        exact hothers z (List.mem_of_mem_filter hz)

theorem nested_step {past : List (Act C)} {a : Act C} (hn : Nested h s)
    (hok : OutermostLast past s a) (hstep : next s a = some t) : Nested h t := by
  cases a with
  | start c => exact nested_start hn hok hstep
  | finish c => exact nested_finish hn hok hstep

/-- The outermost call must not end before the others: their cancel-all handler goes, unless
the handlers from before it were cancel-all handlers themselves. -/
theorem early_end_breaks (hn : Nested h s) (hh : ¬ Installed h)
    (houter : s.running.head?.map Prod.fst = some c) (hlen : s.running.length ≠ 1)
    (hstep : next s (.finish c) = some t) : ¬ Kept h t := by
  obtain ⟨saved, hsaved, rfl⟩ := Option.map_eq_some_iff.mp hstep
  cases hs : s.running with
  | nil => simp [hs] at houter
  | cons x rest =>
    obtain ⟨hfirst, hv⟩ := hn.first x rest hs
    have hothers := hn.others x rest hs
    have hx : x.1 = c := by simpa [hs] using houter
    have hsame : saved = x.2 := by
      rw [hs, ← hx, List.lookup_cons_self] at hsaved
      exact (Option.some.inj hsaved).symm
    rintro ⟨-, hinstalled⟩
    rw [hsame, hfirst, restore_savedOf hv] at hinstalled
    refine hh (hinstalled ?_)
    cases rest with
    | nil => simp [hs] at hlen
    | cons y l =>
      have hy := (hothers y List.mem_cons_self).1
      rw [← hx]
      simp [hy]

/-- In every run in which the outermost call ends last and starts under handlers that Python
sees, the handlers survive the calls. -/
theorem handlers_survive {as : List (Act C)} (ht : Trace (retries h) OutermostLast as s) :
    Kept h s := by
  have hn : Nested h s := by
    refine Trace.induct (M := retries h) (I := fun _ s => Nested h s) ?_
      (fun _ s a t _ hn hok hstep => nested_step hn hok hstep) as s ht
    rintro s rfl
    exact nested_init h
  exact ⟨hn.idle, hn.installed⟩

instance [DecidableEq U] (h : Handlers C U) : Decidable (Visible h) :=
  decidable_of_iff (h.process .sigint ≠ .foreign ∧ h.process .sigterm ≠ .foreign) <| by
    constructor
    · intro hboth sig
      cases sig with
      | sigint => exact hboth.1
      | sigterm => exact hboth.2
    · intro hall
      exact ⟨hall .sigint, hall .sigterm⟩

instance [DecidableEq U] (past : List (Act C)) (s : Retries C U) (a : Act C) :
    Decidable (OutermostLast past s a) :=
  match a with
  | .start _ => inferInstanceAs (Decidable (s.running = [] → Visible s.handlers))
  | .finish c => inferInstanceAs
      (Decidable (s.running.head?.map Prod.fst = some c → s.running.length = 1))

/-- The handlers of a server: of the process, and none of the event loop. -/
def server : Handlers ℕ Unit where
  asyncio _ := none
  process _ := .user ()

/-- Three calls that overlap without nesting, of which the outermost ends last. -/
theorem handlers_survive_overlap :
    ∃ s, Trace (retries server) OutermostLast
      [.start 0, .start 1, .start 2, .finish 1, .finish 2, .finish 0] s ∧ s.handlers = server := by
  obtain ⟨s, hs⟩ : ∃ s, replay (retries server) OutermostLast []
      [.start 0, .start 1, .start 2, .finish 1, .finish 2, .finish 0] { handlers := server } =
        some s := ⟨_, rfl⟩
  have ht : Trace (retries server) OutermostLast _ s := trace_of_replay rfl hs
  have hend : s.running = [] := by
    cases hs
    rfl
  exact ⟨s, ht, (handlers_survive ht).1 hend⟩

/-- The first of two overlapping calls ends: the second runs without the cancel-all handler.
Then the second ends, and the cancel-all handler of the first stays for good. -/
theorem overlap_loses_handlers :
    (¬ ∀ (as : List (Act ℕ)) (s : Retries ℕ Unit), Trace (retries server) free as s →
      Kept server s) ∧
    (∃ s, Trace (retries server) free [.start 0, .start 1, .finish 0] s ∧
      s.running.map Prod.fst = [1] ∧ ∀ sig, s.handlers.asyncio sig = none) ∧
    ∃ s, Trace (retries server) free [.start 0, .start 1, .finish 0, .finish 1] s ∧
      s.running.map Prod.fst = [] ∧ ∀ sig, s.handlers.asyncio sig = some (.cancelAll 0) ∧
        s.handlers.process sig = .noop := by
  obtain ⟨s, hs⟩ : ∃ s, replay (retries server) free [] [.start 0, .start 1, .finish 0]
      { handlers := server } = some s := ⟨_, rfl⟩
  obtain ⟨t, ht⟩ : ∃ t, replay (retries server) free [] [.start 0, .start 1, .finish 0, .finish 1]
      { handlers := server } = some t := ⟨_, rfl⟩
  have hunset : ∀ sig, s.handlers.asyncio sig = none := by
    cases hs
    intro sig
    cases sig <;> rfl
  have hsrun : s.running.map Prod.fst = [1] := by
    cases hs
    rfl
  refine ⟨?_, ⟨s, trace_of_replay rfl hs, hsrun, hunset⟩, t, trace_of_replay rfl ht, ?_, ?_⟩
  · intro hall
    have hne : s.running ≠ [] := by
      intro hnil
      simp [hnil] at hsrun
    obtain ⟨⟨c, hc⟩, -⟩ := (hall _ s (trace_of_replay rfl hs)).2 hne .sigint
    rw [hunset] at hc
    cases hc
  · cases ht
    rfl
  · cases ht
    intro sig
    cases sig with
    | sigint => exact ⟨rfl, rfl⟩
    | sigterm => exact ⟨rfl, rfl⟩

end Taas.RetrySignals
