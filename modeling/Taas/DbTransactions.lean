import Mathlib.Data.Option.Basic
import Taas.DbSessions

/-!
What the sessions of the decorator are for: one transaction for each task outside which it makes a
call, which the calls inside join and which ends with the outermost one. The context variables
keep to this as long as no task gets the id of the task that its inherited context names.
-/
namespace Taas.DbTransactions

open DbSessions Transition

variable {W : Type}

/-- A transaction with the number of calls that have joined it. -/
structure Transaction (W : Type) where
  entry : Entry
  autoCommit : Bool
  joined : ℕ := 0
  pending : List W := []

/-- The tasks, each outside a transaction or inside one of its own. -/
structure Ideal (W : Type) where
  tasks : TaskId → Option (Option (Transaction W)) := fun _ => none
  database : Manager → List W := fun _ => []

namespace Ideal

def setTask (a : Ideal W) (t : TaskId) (o : Option (Option (Transaction W))) : Ideal W :=
  { a with tasks := Function.update a.tasks t o }

def keep (a : Ideal W) (m : Manager) (l : List W) : Ideal W :=
  { a with database := Function.update a.database m (a.database m ++ l) }

/-- The transaction of the task, when it is inside one. -/
def transaction (a : Ideal W) (t : TaskId) : Option (Transaction W) := (a.tasks t).join

/-- The outermost call ends its transaction so. -/
def keeps (autoCommit : Bool) (how : Exit) (answer : Answer) : Bool :=
  how = .returned ∧ autoCommit ∧ answer.kept

def next (a : Ideal W) : Act W → Option (Ideal W)
  | .start t =>
    match a.tasks t with
    | none => some (a.setTask t (some none))
    | some _ => none
  | .spawn parent child =>
    match a.tasks parent, a.tasks child with
    | some _, none => some (a.setTask child (some none))
    | _, _ => none
  | .finish t =>
    match a.tasks t with
    | some none => some (a.setTask t none)
    | _ => none
  | .call t entry autoCommit =>
    (a.tasks t).map fun
      | none => a.setTask t (some (some { entry := entry, autoCommit := autoCommit }))
      | some x => a.setTask t (some (some { x with joined := x.joined + 1 }))
  | .write t w =>
    (a.transaction t).map fun x => a.setTask t (some (some { x with pending := x.pending ++ [w] }))
  | .commit t kept =>
    (a.transaction t).map fun x =>
      (a.setTask t (some (some { x with pending := [] }))).keep x.entry.manager
        (if kept then x.pending else [])
  | .rollback t =>
    (a.transaction t).map fun x => a.setTask t (some (some { x with pending := [] }))
  | .exit t how answer _ =>
    (a.transaction t).map fun x =>
      match x.joined with
      | 0 => (a.setTask t (some none)).keep x.entry.manager
          (if keeps x.autoCommit how answer then x.pending else [])
      | n + 1 => a.setTask t (some (some { x with joined := n }))

end Ideal

def transactions (W : Type) : System (Ideal W) (Act W) where
  init a := a = {}
  next := Ideal.next

/-- The context does not name the task itself. -/
def Foreign (t : TaskId) (context : Option (TaskId × SessionId)) : Prop :=
  ∀ c ∈ context, c.1 ≠ t

instance {t : TaskId} : ∀ context, Decidable (Foreign t context)
  | none => isTrue (by simp [Foreign])
  | some c => decidable_of_iff (c.1 ≠ t) (by simp [Foreign])

/-- No task gets the id of the task that its inherited context names. That task has ended then. -/
def OwnIds : Condition (State W) (Act W)
  | _, s, .spawn parent child => ∀ x ∈ s.tasks parent, Foreign child x.context
  | _, _, _ => True

/-- What a task inside a transaction looks like. -/
structure Inside (s : State W) (t : TaskId) (x : Task) (tr : Transaction W) (sid : SessionId)
    (token : Option (TaskId × SessionId)) (d : ℕ) : Prop where
  stack : x.stack = List.replicate tr.joined (.reused sid) ++
    [.root sid tr.entry tr.autoCommit token d]
  context : x.context = some (t, sid)
  token : Foreign t token
  lt : sid < s.fresh
  session : s.sessions sid = ⟨tr.entry.manager, tr.pending⟩

instance {past : List (Act W)} {s : State W} : ∀ act, Decidable (OwnIds past s act)
  | .spawn parent child =>
    inferInstanceAs (Decidable (∀ x ∈ s.tasks parent, Foreign child x.context))
  | .start _ | .finish _ | .call .. | .write .. | .commit .. | .rollback _ | .exit .. =>
    isTrue trivial

/-- How a task stands for the transaction that it is in. -/
inductive Stands (s : State W) (t : TaskId) (x : Task) : Option (Transaction W) → Prop
  | outside : x.stack = [] → Foreign t x.context → Stands s t x none
  | inside {tr : Transaction W} {sid : SessionId} {token : Option (TaskId × SessionId)} {d : ℕ} :
      Inside s t x tr sid token d → Stands s t x (some tr)

structure Simulates (s : State W) (a : Ideal W) : Prop where
  tasks : ∀ t, Option.Rel (Stands s t) (s.tasks t) (a.tasks t)
  apart : ∀ t u x y, s.tasks t = some x → s.tasks u = some y → ∀ f ∈ x.stack, ∀ g ∈ y.stack,
    f.session = g.session → t = u
  database : s.database = a.database

variable {s s' : State W} {a a' : Ideal W} {t u : TaskId} {x : Task} {sid : SessionId} {l : List W}
  {tr : Transaction W} {token : Option (TaskId × SessionId)} {d : ℕ} {past : List (Act W)}

/-- The transaction of a session has ended and `l` was kept of it. -/
structure Settled (s : State W) (sid : SessionId) (l : List W) (s' : State W) : Prop where
  tasks : s'.tasks = s.tasks
  fresh : s'.fresh = s.fresh
  sessions : s'.sessions = Function.update s.sessions sid ⟨(s.sessions sid).manager, []⟩
  database : s'.database = Function.update s.database (s.sessions sid).manager
    (s.database (s.sessions sid).manager ++ l)

theorem settled_settle (s : State W) (sid : SessionId) (kept : Bool) :
    Settled s sid (if kept then (s.sessions sid).pending else []) (s.settle sid kept) where
  tasks := rfl
  fresh := rfl
  sessions := rfl
  database := rfl

namespace Settled

theorem count (h : Settled s sid l s') (m : Manager) (f : DBSessionStats → DBSessionStats) :
    Settled s sid l (s'.count m f) where
  tasks := h.tasks
  fresh := h.fresh
  sessions := h.sessions
  database := h.database

theorem settle_false (h : Settled s sid l s') : Settled s sid l (s'.settle sid false) where
  tasks := h.tasks
  fresh := h.fresh
  sessions := by simp [State.settle, State.setPending, h.sessions]
  database := by simp [State.settle, State.setPending, h.database]

theorem rollbackSession (h : Settled s sid l s') (rolledBack : Bool) :
    Settled s sid l (rollbackSession s' sid rolledBack) := by
  cases rolledBack with
  | false => exact h.settle_false
  | true =>
    simp only [DbSessions.rollbackSession, if_true]
    exact h.settle_false.count _ _

end Settled

theorem settled_commitSession (s : State W) (sid : SessionId) (answer : Answer) :
    Settled s sid (if answer.kept then (s.sessions sid).pending else [])
      (commitSession s sid answer).1 := by
  cases answer with
  | done =>
    simp only [commitSession]
    exact (settled_settle s sid true).count _ _
  | raised kept => exact settled_settle s sid kept
  | interrupted kept => exact settled_settle s sid kept

/-- Leaving the generator keeps all of the transaction or nothing. -/
theorem settled_leaveGenerator (s : State W) (sid : SessionId) (autoCommit : Bool) (how : Exit)
    (answer : Answer) (rolledBack : Bool) :
    Settled s sid (if Ideal.keeps autoCommit how answer then (s.sessions sid).pending else [])
      (leaveGenerator s sid autoCommit how answer rolledBack) := by
  have hnone : Settled s sid [] (s.settle sid false) := settled_settle s sid false
  cases how with
  | raised =>
    have hrolled : Settled s sid [] (rollbackSession s sid rolledBack) := by
      cases rolledBack with
      | false => exact hnone
      | true =>
        simp only [rollbackSession, if_true]
        exact hnone.count _ _
    exact hrolled.settle_false
  | interrupted => exact hnone
  | returned =>
    cases autoCommit with
    | false => exact hnone
    | true =>
      have hcommit := settled_commitSession s sid answer
      have hkeeps : Ideal.keeps true .returned answer = answer.kept := by simp [Ideal.keeps]
      rw [hkeeps]
      cases answer with
      | done => exact hcommit.settle_false
      | raised kept => exact (hcommit.rollbackSession rolledBack).settle_false
      | interrupted kept => exact hcommit.settle_false

namespace Inside

theorem frame_session (h : Inside s t x tr sid token d) : ∀ f ∈ x.stack, f.session = sid := by
  intro f hf
  rw [h.stack] at hf
  rcases List.mem_append.mp hf with hf | hf
  · rw [List.eq_of_mem_replicate hf, Frame.session]
  · rw [List.mem_singleton.mp hf, Frame.session]

theorem root_mem (h : Inside s t x tr sid token d) :
    .root sid tr.entry tr.autoCommit token d ∈ x.stack := by
  simp [h.stack]

theorem head (h : Inside s t x tr sid token d) : x.stack.head?.map Frame.session = some sid := by
  rw [h.stack]
  cases tr.joined <;> simp [List.replicate_succ, Frame.session]

end Inside

/-- A task stands for the same transaction when its sessions are as they were. -/
theorem Stands.congr {o : Option (Transaction W)} (h : Stands s t x o)
    (hsessions : ∀ f ∈ x.stack, s'.sessions f.session = s.sessions f.session)
    (hfresh : s.fresh ≤ s'.fresh) : Stands s' t x o := by
  cases h with
  | outside hstack hforeign => exact .outside hstack hforeign
  | inside hin =>
    refine .inside ⟨hin.stack, hin.context, hin.token, hin.lt.trans_le hfresh, ?_⟩
    rw [← hin.session]
    exact hsessions _ hin.root_mem

theorem Stands.lt_fresh {o : Option (Transaction W)} (h : Stands s t x o) :
    ∀ f ∈ x.stack, f.session < s.fresh := by
  cases h with
  | outside hstack => simp [hstack]
  | inside hin =>
    intro f hf
    rw [hin.frame_session f hf]
    exact hin.lt

theorem Simulates.stands (h : Simulates s a) (hx : s.tasks t = some x) :
    ∃ o, a.tasks t = some o ∧ Stands s t x o := by
  have hrel := h.tasks t
  rw [hx] at hrel
  generalize ho : a.tasks t = o at hrel
  cases hrel with
  | some hs => exact ⟨_, rfl, hs⟩

theorem Simulates.dead (h : Simulates s a) (hx : s.tasks t = none) : a.tasks t = none := by
  have hrel := h.tasks t
  rw [hx] at hrel
  generalize ho : a.tasks t = o at hrel
  cases hrel with
  | none => rfl

/-- A step that changes one task, and of the sessions only those that no other task uses. -/
theorem Simulates.set {o : Option (Transaction W)} (h : Simulates s a)
    (htasks : s'.tasks = Function.update s.tasks t (some x))
    (hideal : a'.tasks = Function.update a.tasks t (some o))
    (hfresh : s.fresh ≤ s'.fresh)
    (hothers : ∀ u y, u ≠ t → s.tasks u = some y → ∀ f ∈ y.stack,
      s'.sessions f.session = s.sessions f.session ∧ ∀ g ∈ x.stack, g.session ≠ f.session)
    (hstands : Stands s' t x o) (hdatabase : s'.database = a'.database) : Simulates s' a' where
  tasks u := by
    rw [htasks, hideal]
    by_cases hu : u = t
    · subst hu
      simpa using Option.Rel.some hstands
    · rw [Function.update_of_ne hu, Function.update_of_ne hu]
      cases hy : s.tasks u with
      | none => rw [h.dead hy]; exact .none
      | some y =>
        obtain ⟨o', ho', hs⟩ := h.stands hy
        rw [ho']
        exact .some (hs.congr (fun f hf => (hothers u y hu hy f hf).1) hfresh)
  apart u v y z hy hz f hf g hg hfg := by
    rw [htasks] at hy hz
    by_cases hu : u = t <;> by_cases hv : v = t
    · rw [hu, hv]
    · subst hu
      rw [Function.update_self] at hy
      rw [Function.update_of_ne hv] at hz
      obtain rfl := Option.some.inj hy
      exact absurd hfg ((hothers v z hv hz g hg).2 f hf)
    · subst hv
      rw [Function.update_self] at hz
      rw [Function.update_of_ne hu] at hy
      obtain rfl := Option.some.inj hz
      exact absurd hfg.symm ((hothers u y hu hy f hf).2 g hg)
    · rw [Function.update_of_ne hu] at hy
      rw [Function.update_of_ne hv] at hz
      exact h.apart u v y z hy hz f hf g hg hfg
  database := hdatabase

theorem rel_congr {y : Option Task} {o : Option (Option (Transaction W))}
    (h : Option.Rel (Stands s t) y o) (hsessions : s'.sessions = s.sessions)
    (hfresh : s'.fresh = s.fresh) : Option.Rel (Stands s' t) y o := by
  cases h with
  | none => exact .none
  | some hs => exact .some (hs.congr (fun _ _ => by rw [hsessions]) hfresh.ge)

theorem Simulates.count (h : Simulates s a) (m : Manager)
    (f : DBSessionStats → DBSessionStats) : Simulates (s.count m f) a where
  tasks t := rel_congr (h.tasks t) rfl rfl
  apart := h.apart
  database := h.database

theorem getCurrentContextSession_of_foreign (h : Foreign t x.context) :
    x.getCurrentContextSession t = none := by
  unfold Task.getCurrentContextSession
  cases hc : x.context with
  | none => rfl
  | some c => simp [h c hc]

theorem getCurrentContextSession_of_own (h : x.context = some (t, sid)) :
    x.getCurrentContextSession t = some sid := by
  simp [Task.getCurrentContextSession, h]

/-- The task whose innermost call has a session is inside a transaction. -/
theorem Simulates.inside (h : Simulates s a) (hsid : s.session t = some sid) :
    ∃ x tr token d, s.tasks t = some x ∧ a.transaction t = some tr ∧
      Inside s t x tr sid token d := by
  obtain ⟨x, hx, hhead⟩ := Option.bind_eq_some_iff.mp hsid
  obtain ⟨o, ho, hs⟩ := h.stands hx
  cases o with
  | none =>
    cases hs with
    | outside hstack => simp [hstack] at hhead
  | some tr =>
    cases hs with
    | inside hin =>
      obtain rfl := Option.some.inj (hin.head.symm.trans hhead)
      exact ⟨x, tr, _, _, hx, by simp [Ideal.transaction, ho], hin⟩

theorem Simulates.others (h : Simulates s a) (hx : s.tasks t = some x)
    (hin : Inside s t x tr sid token d) :
    ∀ u y, u ≠ t → s.tasks u = some y → ∀ f ∈ y.stack, f.session ≠ sid := by
  intro u y hu hy f hf hfs
  exact hu (h.apart u t y x hy hx f hf _ hin.root_mem hfs)

/-- A body works in its session: the transaction goes on with what is pending then. -/
theorem Simulates.inPlace (h : Simulates s a) (hx : s.tasks t = some x)
    (hin : Inside s t x tr sid token d) (htasks : s'.tasks = s.tasks) (hfresh : s'.fresh = s.fresh)
    (hsessions : s'.sessions = Function.update s.sessions sid ⟨tr.entry.manager, l⟩)
    (hideal : a'.tasks = Function.update a.tasks t (some (some { tr with pending := l })))
    (hdatabase : s'.database = a'.database) : Simulates s' a' := by
  refine h.set (by rw [htasks, Function.update_eq_self_iff.mpr hx.symm]) hideal hfresh.ge ?_ ?_
    hdatabase
  · intro u y hu hy f hf
    have hne := h.others hx hin u y hu hy f hf
    refine ⟨by rw [hsessions, Function.update_of_ne hne], fun g hg => ?_⟩
    rw [hin.frame_session g hg]
    exact hne.symm
  · refine .inside ⟨hin.stack, hin.context, hin.token, by rw [hfresh]; exact hin.lt, ?_⟩
    rw [hsessions, Function.update_self]

theorem simulates_call (h : Simulates s a) (hx : s.tasks t = some x) (entry : Entry)
    (autoCommit : Bool) :
    ∃ a', Ideal.next a (.call t entry autoCommit) = some a' ∧
      Simulates (enter s t x entry autoCommit) a' := by
  obtain ⟨o, ho, hs⟩ := h.stands hx
  refine ⟨_, by rw [Ideal.next, ho, Option.map_some], ?_⟩
  cases hs with
  | outside hstack hforeign =>
    simp only [enter, getCurrentContextSession_of_foreign hforeign]
    refine h.set rfl rfl (Nat.le_succ _) ?_
      (.inside (d := x.callDepth) ⟨?_, rfl, hforeign, Nat.lt_succ_self _, ?_⟩) h.database
    · intro u y hu hy f hf
      obtain ⟨o', _, hs'⟩ := h.stands hy
      have hlt := hs'.lt_fresh f hf
      refine ⟨Function.update_of_ne hlt.ne _ _, fun g hg => ?_⟩
      rw [hstack, List.mem_singleton] at hg
      rw [hg]
      exact hlt.ne'
    · rw [hstack]
      rfl
    · exact Function.update_self ..
  | @inside tr sid token d hin =>
    simp only [enter, getCurrentContextSession_of_own hin.context]
    refine h.set rfl rfl le_rfl ?_
      (.inside (d := d) ⟨?_, hin.context, hin.token, hin.lt, hin.session⟩) h.database
    · intro u y hu hy f hf
      refine ⟨rfl, fun g hg => ?_⟩
      have hne := h.others hx hin u y hu hy f hf
      rcases List.mem_cons.mp hg with rfl | hg
      · exact hne.symm
      · rw [hin.frame_session g hg]
        exact hne.symm
    · rw [hin.stack, List.replicate_succ, List.cons_append]

theorem Simulates.ends (h : Simulates s a) (a' : Ideal W) (hx : s.tasks t = some x)
    (hin : Inside s t x tr sid token d) (hsettled : Settled s sid l s')
    (hideal : a'.tasks = Function.update a.tasks t (some none))
    (hdatabase : a'.database =
      Function.update a.database tr.entry.manager (a.database tr.entry.manager ++ l)) :
    Simulates (s'.setTask t (some { context := token, callDepth := d, stack := [] })) a' := by
  refine h.set (by rw [State.setTask, hsettled.tasks]) hideal hsettled.fresh.ge ?_
    (.outside rfl hin.token) ?_
  · intro u y hu hy f hf
    refine ⟨?_, by simp⟩
    change s'.sessions f.session = _
    rw [hsettled.sessions, Function.update_of_ne (h.others hx hin u y hu hy f hf)]
  · change s'.database = _
    rw [hsettled.database, hdatabase, hin.session, h.database]

theorem simulates_exit (h : Simulates s a) (hx : s.tasks t = some x) {how : Exit} {answer : Answer}
    {rolledBack : Bool} (hleave : leave s t x how answer rolledBack = some s') :
    ∃ a', Ideal.next a (.exit t how answer rolledBack) = some a' ∧ Simulates s' a' := by
  obtain ⟨o, ho, hs⟩ := h.stands hx
  cases hs with
  | outside hstack => simp [leave, hstack] at hleave
  | @inside tr sid token d hin =>
    have htr : a.transaction t = some tr := by simp [Ideal.transaction, ho]
    refine ⟨_, Option.map_eq_some_iff.mpr ⟨tr, htr, rfl⟩, ?_⟩
    cases hjoined : tr.joined with
    | zero =>
      have hroot : x.stack = [.root sid tr.entry tr.autoCommit token d] := by
        simpa [hjoined] using hin.stack
      have hsettled := settled_leaveGenerator s sid tr.autoCommit how answer rolledBack
      rw [hin.session] at hsettled
      have hends := h.ends ((a.setTask t (some none)).keep tr.entry.manager
        (if Ideal.keeps tr.autoCommit how answer then tr.pending else [])) hx hin hsettled rfl rfl
      simp only [leave, hroot] at hleave
      cases hentry : tr.entry with
      | dbContextSession =>
        rw [hentry] at hleave hends
        obtain rfl := Option.some.inj hleave
        exact hends.count _ _
      | generator m =>
        rw [hentry] at hleave hends
        obtain rfl := Option.some.inj hleave
        exact hends
    | succ n =>
      have hreused : x.stack = .reused sid :: (List.replicate n (.reused sid) ++
          [.root sid tr.entry tr.autoCommit token d]) := by
        simpa [hjoined, List.replicate_succ] using hin.stack
      simp only [leave, hreused] at hleave
      obtain rfl := Option.some.inj hleave
      refine h.set rfl rfl le_rfl ?_ (.inside ⟨rfl, hin.context, hin.token, hin.lt, hin.session⟩)
        h.database
      intro u y hu hy f hf
      refine ⟨rfl, fun g hg => ?_⟩
      have hmem : g ∈ x.stack := by
        rw [hreused]
        exact List.mem_cons_of_mem _ hg
      rw [hin.frame_session g hmem]
      exact (h.others hx hin u y hu hy f hf).symm

theorem Simulates.begins (h : Simulates s a) (hstack : x.stack = [])
    (hforeign : Foreign t x.context) :
    Simulates (s.setTask t (some x)) (a.setTask t (some none)) := by
  refine h.set rfl rfl le_rfl ?_ (.outside hstack hforeign) h.database
  intro u y _ _ f _
  exact ⟨rfl, by simp [hstack]⟩

theorem Simulates.finish (h : Simulates s a) (t : TaskId) :
    Simulates (s.setTask t none) (a.setTask t none) where
  tasks u := by
    by_cases hu : u = t
    · subst hu
      simp only [State.setTask, Ideal.setTask, Function.update_self]
      exact .none
    · simp only [State.setTask, Ideal.setTask, Function.update_of_ne hu]
      exact rel_congr (h.tasks u) rfl rfl
  apart u v y z hy hz := by
    have hback : ∀ w z, (s.setTask t none).tasks w = some z → s.tasks w = some z := by
      intro w z hw
      by_cases hwt : w = t
      · simp [State.setTask, hwt] at hw
      · simpa [State.setTask, hwt] using hw
    exact h.apart u v y z (hback u y hy) (hback v z hz)
  database := h.database

/-- Every step of the sessions is the step of the transactions with the same label. -/
theorem simulates_step {act : Act W} (h : Simulates s a) (hok : OwnIds past s act)
    (hstep : (sessions W).next s act = some s') :
    ∃ a', (transactions W).next a act = some a' ∧ Simulates s' a' := by
  change next s act = some s' at hstep
  cases act with
  | start t =>
    simp only [next] at hstep
    split at hstep
    · rename_i hx
      obtain rfl := Option.some.inj hstep
      exact ⟨_, by simp [transactions, Ideal.next, h.dead hx], h.begins rfl (by simp [Foreign])⟩
    · cases hstep
  | spawn parent child =>
    simp only [next] at hstep
    split at hstep
    · rename_i x hx hchild
      obtain rfl := Option.some.inj hstep
      obtain ⟨o, ho, -⟩ := h.stands hx
      exact ⟨_, by simp [transactions, Ideal.next, ho, h.dead hchild],
        h.begins rfl (hok x hx)⟩
    · cases hstep
  | finish t =>
    simp only [next] at hstep
    split at hstep
    · rename_i c d hx
      obtain rfl := Option.some.inj hstep
      obtain ⟨o, ho, hs⟩ := h.stands hx
      cases hs with
      | outside => exact ⟨_, by simp [transactions, Ideal.next, ho], h.finish t⟩
      | inside hin =>
        have hstack := hin.stack
        simp at hstack
    · cases hstep
  | call t entry autoCommit =>
    obtain ⟨x, hx, rfl⟩ := Option.map_eq_some_iff.mp hstep
    exact simulates_call h hx entry autoCommit
  | write t w =>
    obtain ⟨sid, hsid, rfl⟩ := Option.map_eq_some_iff.mp hstep
    obtain ⟨x, tr, token, d, hx, htr, hin⟩ := h.inside hsid
    refine ⟨_, Option.map_eq_some_iff.mpr ⟨tr, htr, rfl⟩, ?_⟩
    refine h.inPlace hx hin rfl rfl ?_ rfl h.database
    simp [State.setPending, hin.session]
  | commit t kept =>
    obtain ⟨sid, hsid, rfl⟩ := Option.map_eq_some_iff.mp hstep
    obtain ⟨x, tr, token, d, hx, htr, hin⟩ := h.inside hsid
    refine ⟨_, Option.map_eq_some_iff.mpr ⟨tr, htr, rfl⟩, ?_⟩
    have hsettled := settled_settle s sid kept
    refine h.inPlace hx hin hsettled.tasks hsettled.fresh ?_ rfl ?_
    · rw [hsettled.sessions, hin.session]
    · rw [hsettled.database, hin.session, h.database]
      rfl
  | rollback t =>
    obtain ⟨sid, hsid, rfl⟩ := Option.map_eq_some_iff.mp hstep
    obtain ⟨x, tr, token, d, hx, htr, hin⟩ := h.inside hsid
    refine ⟨_, Option.map_eq_some_iff.mpr ⟨tr, htr, rfl⟩, ?_⟩
    have hsettled := settled_settle s sid false
    refine h.inPlace hx hin hsettled.tasks hsettled.fresh ?_ rfl ?_
    · rw [hsettled.sessions, hin.session]
    · rw [hsettled.database, h.database]
      simp [Ideal.setTask]
  | exit t how answer rolledBack =>
    obtain ⟨x, hx, hleave⟩ := Option.bind_eq_some_iff.mp hstep
    exact simulates_exit h hx hleave

theorem simulates_init : Simulates ({} : State W) {} where
  tasks _ := .none
  apart := by simp
  database := rfl

theorem simulates_of_trace {as : List (Act W)} (h : Trace (sessions W) OwnIds as s) :
    ∃ a, Trace (transactions W) free as a ∧ Simulates s a := by
  refine h.simulates ?_ fun _ _ _ _ _ hR hok hstep => simulates_step hR hok hstep
  rintro s rfl
  exact ⟨{}, rfl, simulates_init⟩

/-- The transaction of a task is what is pending in the session of its innermost call. -/
theorem Simulates.pending (h : Simulates s a) (t : TaskId) :
    (s.session t).map s.sessions =
      (a.transaction t).map fun tr => ⟨tr.entry.manager, tr.pending⟩ := by
  cases hx : s.tasks t with
  | none => simp [State.session, Ideal.transaction, hx, h.dead hx]
  | some x =>
    obtain ⟨o, ho, hs⟩ := h.stands hx
    cases hs with
    | outside hstack => simp [State.session, Ideal.transaction, hx, ho, hstack]
    | inside hin =>
      simp only [State.session, Ideal.transaction, hx, ho, Option.bind_some, hin.head,
        Option.map_some, hin.session, Option.join_some]

/-- Along every run the sessions are the transactions of the tasks: each task has its own, with the
same things pending, and the databases have kept the same. -/
theorem sessions_are_transactions {as : List (Act W)} {s : State W}
    (h : Trace (sessions W) OwnIds as s) :
    ∃ a, Trace (transactions W) free as a ∧ s.database = a.database ∧
      (∀ t, (s.session t).map s.sessions =
        (a.transaction t).map fun tr => ⟨tr.entry.manager, tr.pending⟩) ∧
      ∀ t u sid, s.session t = some sid → s.session u = some sid → t = u := by
  obtain ⟨a, ha, hsim⟩ := simulates_of_trace h
  refine ⟨a, ha, hsim.database, hsim.pending, fun t u sid ht hu => ?_⟩
  obtain ⟨x, tr, token, d, hx, -, hin⟩ := hsim.inside ht
  obtain ⟨y, tr', token', d', hy, -, hin'⟩ := hsim.inside hu
  exact hsim.apart t u x y hx hy _ hin.root_mem _ hin'.root_mem rfl

/-- A request task whose body writes, makes a call that raises, and goes on. -/
def body : List (Act ℕ) :=
  [.write 0 7, .spawn 0 1, .call 1 .dbContextSession true, .call 0 .dbContextSession false,
    .write 0 8, .write 1 9, .exit 0 .raised .done true, .exit 1 .returned .done true]

/-- The child task commits before the request does. -/
theorem sessions_are_transactions_request :
    ∃ (s : State ℕ) (a : Ideal ℕ),
      Trace (transactions ℕ) free (.start 0 :: .call 0 .dbContextSession true :: body) a ∧
        s.database = a.database ∧ s.database .mainDatabase = [9] := by
  have hkept : (replay (sessions ℕ) OwnIds [] (.start 0 :: .call 0 .dbContextSession true :: body)
      {}).map (fun s => s.database .mainDatabase) = some [9] := by decide
  obtain ⟨s, hs, hkept⟩ := Option.map_eq_some_iff.mp hkept
  obtain ⟨a, ha, hdatabase, -⟩ := sessions_are_transactions (trace_of_replay rfl hs)
  exact ⟨s, a, ha, hdatabase, hkept⟩

/-- Every task finds the session of its innermost call, or none outside its calls. -/
def Sound (s : State W) : Prop :=
  ∀ t, ∀ x ∈ s.tasks t, x.getCurrentContextSession t = s.session t

/-- Each step leads to such a state. -/
def StaysSound : Condition (State W) (Act W) :=
  fun _ s act => ∀ s', next s act = some s' → Sound s'

theorem Simulates.sound (h : Simulates s a) : Sound s := by
  intro t x hx
  obtain ⟨o, -, hs⟩ := h.stands hx
  rw [State.session, hx, Option.bind_some]
  cases hs with
  | outside hstack hforeign =>
    rw [getCurrentContextSession_of_foreign hforeign, hstack]
    rfl
  | inside hin => rw [getCurrentContextSession_of_own hin.context, hin.head]

/-- A task whose inherited context names its own id finds the session of another task. -/
theorem ownIds_of_staysSound {act : Act W} {u : State W} (hstep : next s act = some u)
    (h : StaysSound past s act) : OwnIds past s act := by
  cases act with
  | spawn parent child =>
    intro x hx c hc hown
    have hchild := h u hstep child { x with stack := [] }
    simp only [next] at hstep
    split at hstep
    · rename_i y hy hnone
      obtain rfl := Option.some.inj (hx.symm.trans hy)
      obtain rfl := Option.some.inj hstep
      obtain rfl : c.1 = child := hown
      have hsound := hchild (by simp [State.setTask])
      rw [getCurrentContextSession_of_own (x := { x with stack := [] }) hc] at hsound
      simp [State.session, State.setTask] at hsound
    · cases hstep
  | _ => trivial

/-- The context variable stays with the calls exactly in the runs in which no task gets the id of
the task that its inherited context names. -/
theorem staysSound_iff_ownIds {as : List (Act W)} {s : State W} :
    Trace (sessions W) StaysSound as s ↔ Trace (sessions W) OwnIds as s := by
  constructor
  · refine Trace.induct ?_ ?_ as s
    · exact fun s hs => ⟨s, hs, .nil⟩
    · exact fun as s act t _ ih hok hnext => ih.snoc (ownIds_of_staysSound hnext hok) hnext
  · intro h
    refine (Trace.induct (I := fun as s => Trace (sessions W) OwnIds as s ∧
      Trace (sessions W) StaysSound as s) ?_ ?_ as s h).2
    · exact fun s hs => ⟨⟨s, hs, .nil⟩, ⟨s, hs, .nil⟩⟩
    · intro as s act t _ ih hok hnext
      refine ⟨ih.1.snoc hok hnext, ih.2.snoc ?_ hnext⟩
      intro s' hs'
      obtain ⟨a, -, hsim⟩ := simulates_of_trace ih.1
      obtain ⟨a', -, hsim'⟩ := simulates_step hsim hok hs'
      exact hsim'.sound

/-- What the task writes, of these steps. -/
def writesOf (t : TaskId) (as : List (Act W)) : List W :=
  as.filterMap fun
    | .write u w => if u = t then some w else none
    | _ => none

/-- The calls in progress inside the outermost call of the task after one more step; `none` when the
outermost call has ended or its body has ended the transaction itself. -/
def nesting (t : TaskId) : Option ℕ → Act W → Option ℕ
  | none, _ => none
  | some n, .call u _ _ => if u = t then some (n + 1) else some n
  | some n, .exit u _ _ _ => if u = t then (match n with | 0 => none | k + 1 => some k) else some n
  | some n, .commit u _ => if u = t then none else some n
  | some n, .rollback u => if u = t then none else some n
  | some n, _ => some n

theorem transaction_setTask {o : Option (Option (Transaction W))} :
    (a.setTask u o).transaction t = if t = u then o.join else a.transaction t := by
  by_cases h : t = u
  · subst h
    simp [Ideal.transaction, Ideal.setTask]
  · simp [Ideal.transaction, Ideal.setTask, h]

theorem transaction_keep {m : Manager} : (a.keep m l).transaction t = a.transaction t := rfl

/-- A step of the task itself inside its outermost call, or of another task. -/
theorem nested_step {act : Act W} {n : ℕ} (htr : a.transaction t = some tr)
    (hn : nesting t (some tr.joined) act = some n) (hnext : Ideal.next a act = some a') :
    a'.transaction t =
      some { tr with joined := n, pending := tr.pending ++ writesOf t [act] } := by
  have halive : a.tasks t = some (some tr) := Option.join_eq_some_iff.mp htr
  -- the steps of other tasks: nothing of this one changes
  have hother : ∀ {u o m l}, t ≠ u → n = tr.joined → writesOf t [act] = [] →
      (a' = a.setTask u o ∨ a' = (a.setTask u o).keep m l) → a'.transaction t =
        some { tr with joined := n, pending := tr.pending ++ writesOf t [act] } := by
    rintro u o m l hne rfl hwrites (rfl | rfl)
    · simp [transaction_setTask, hne, htr, hwrites]
    · simp [transaction_keep, transaction_setTask, hne, htr, hwrites]
  cases act with
  | start u =>
    simp only [Ideal.next] at hnext
    split at hnext
    · rename_i hdead
      have hne : t ≠ u := by
        rintro rfl
        simp [halive] at hdead
      exact hother (m := .mainDatabase) (l := []) hne (by simpa [nesting] using hn.symm) rfl
        (.inl (Option.some.inj hnext).symm)
    · cases hnext
  | spawn parent child =>
    simp only [Ideal.next] at hnext
    split at hnext
    · rename_i hdead
      have hne : t ≠ child := by
        rintro rfl
        simp [halive] at hdead
      exact hother (m := .mainDatabase) (l := []) hne (by simpa [nesting] using hn.symm) rfl
        (.inl (Option.some.inj hnext).symm)
    · cases hnext
  | finish u =>
    simp only [Ideal.next] at hnext
    split at hnext
    · rename_i houtside
      have hne : t ≠ u := by
        rintro rfl
        simp [halive] at houtside
      exact hother (m := .mainDatabase) (l := []) hne (by simpa [nesting] using hn.symm) rfl
        (.inl (Option.some.inj hnext).symm)
    · cases hnext
  | call u entry autoCommit =>
    obtain ⟨o, ho, rfl⟩ := Option.map_eq_some_iff.mp hnext
    by_cases hu : t = u
    · subst hu
      obtain rfl := Option.some.inj (halive.symm.trans ho)
      obtain rfl : tr.joined + 1 = n := by simpa [nesting] using hn
      simp [transaction_setTask, writesOf]
    · have hjoined : n = tr.joined := by simpa [nesting, Ne.symm hu] using hn.symm
      cases o with
      | none => exact hother (m := .mainDatabase) (l := []) hu hjoined rfl (.inl rfl)
      | some x => exact hother (m := .mainDatabase) (l := []) hu hjoined rfl (.inl rfl)
  | write u w =>
    obtain ⟨x, hx, rfl⟩ := Option.map_eq_some_iff.mp hnext
    obtain rfl : tr.joined = n := by simpa [nesting] using hn
    by_cases hu : t = u
    · subst hu
      obtain rfl := Option.some.inj (htr.symm.trans hx)
      simp [transaction_setTask, writesOf]
    · exact hother (m := .mainDatabase) (l := []) hu rfl (by simp [writesOf, Ne.symm hu]) (.inl rfl)
  | commit u kept =>
    obtain ⟨x, hx, rfl⟩ := Option.map_eq_some_iff.mp hnext
    by_cases hu : t = u
    · simp [nesting, hu] at hn
    · exact hother hu (by simpa [nesting, Ne.symm hu] using hn.symm) rfl (.inr rfl)
  | rollback u =>
    obtain ⟨x, hx, rfl⟩ := Option.map_eq_some_iff.mp hnext
    by_cases hu : t = u
    · simp [nesting, hu] at hn
    · exact hother (m := .mainDatabase) (l := []) hu (by simpa [nesting, Ne.symm hu] using hn.symm)
        rfl (.inl rfl)
  | exit u how answer rolledBack =>
    obtain ⟨x, hx, rfl⟩ := Option.map_eq_some_iff.mp hnext
    by_cases hu : t = u
    · subst hu
      obtain rfl := Option.some.inj (htr.symm.trans hx)
      cases hjoined : tr.joined with
      | zero => simp [nesting, hjoined] at hn
      | succ k =>
        obtain rfl : k = n := by simpa [nesting, hjoined] using hn
        simp [transaction_setTask, writesOf]
    · have hsame : n = tr.joined := by simpa [nesting, Ne.symm hu] using hn.symm
      cases hjoined : x.joined with
      | zero =>
        rw [hjoined] at hother
        exact hother hu hsame rfl (.inr rfl)
      | succ k =>
        rw [hjoined] at hother
        exact hother (m := .mainDatabase) (l := []) hu hsame rfl (.inl rfl)

theorem nested_path {as : List (Act W)} {n : ℕ} (hp : Path (transactions W) free past a as a')
    (htr : a.transaction t = some tr)
    (hn : as.foldl (nesting t) (some tr.joined) = some n) :
    a'.transaction t = some { tr with joined := n, pending := tr.pending ++ writesOf t as } := by
  induction hp generalizing n with
  | nil =>
    obtain rfl : tr.joined = n := Option.some.inj hn
    simp [htr, writesOf]
  | @snoc b c bs act _ _ hnext ih =>
    rw [List.foldl_append] at hn
    cases hk : bs.foldl (nesting t) (some tr.joined) with
    | none => simp [hk, nesting] at hn
    | some k =>
      have hstep := nested_step (ih hk) (by simpa [hk] using hn) hnext
      rw [hstep]
      simp [writesOf, List.filterMap_append]

/-- When an outermost call ends, all that its task has written since it began is kept, in order, or
nothing of it: all when the body returned, the outermost call commits and the commit is kept. What
the calls inside asked for has no say. -/
theorem outermost_call_ends {as mid : List (Act W)} {s s₀ s₁ s₂ : State W} {t : TaskId} {x : Task}
    {entry : Entry} {autoCommit : Bool} {how : Exit} {answer : Answer} {rolledBack : Bool}
    (htrace : Trace (sessions W) OwnIds as s) (hx : s.tasks t = some x) (houtside : x.stack = [])
    (hcall : next s (.call t entry autoCommit) = some s₀)
    (hmid : Path (sessions W) OwnIds (as ++ [.call t entry autoCommit]) s₀ mid s₁)
    (hnested : mid.foldl (nesting t) (some 0) = some 0)
    (hexit : next s₁ (.exit t how answer rolledBack) = some s₂) :
    s₂.database = Function.update s₁.database entry.manager (s₁.database entry.manager ++
      if Ideal.keeps autoCommit how answer then writesOf t mid else []) := by
  obtain ⟨a, -, hsim⟩ := simulates_of_trace htrace
  have hok : OwnIds as s (.call t entry autoCommit) := trivial
  have hok' : OwnIds as s₁ (.exit t how answer rolledBack) := trivial
  obtain ⟨a₀, hcall', hsim₀⟩ := simulates_step hsim hok hcall
  obtain ⟨a₁, hmid', hsim₁⟩ := hmid.simulates
    (fun _ _ _ _ _ hR hok hstep => simulates_step hR hok hstep) hsim₀
  obtain ⟨a₂, hexit', hsim₂⟩ := simulates_step hsim₁ hok' hexit
  have hopen : a₀.transaction t = some { entry := entry, autoCommit := autoCommit } := by
    obtain ⟨o, ho, hs⟩ := hsim.stands hx
    cases hs with
    | outside =>
      simp only [transactions, Ideal.next, ho, Option.map_some, Option.some.injEq] at hcall'
      subst hcall'
      simp [transaction_setTask]
    | inside hin =>
      have hstack := hin.stack
      simp [houtside] at hstack
  have hend := nested_path hmid' hopen hnested
  simp only [transactions, Ideal.next, hend, Option.map_some, Option.some.injEq] at hexit'
  subst hexit'
  rw [hsim₂.database, hsim₁.database]
  simp [Ideal.keep, Ideal.setTask]

/-- The request keeps what it wrote itself and in the call that raised. -/
theorem outermost_call_ends_request :
    ∃ s : State ℕ, s.database .mainDatabase = [9] ++ writesOf 0 body := by
  have hrun : ((next {} (.start 0)).bind fun s => (next s (.call 0 .dbContextSession true)).bind
      fun s₀ => (replay (sessions ℕ) OwnIds [.start 0, .call 0 .dbContextSession true] body s₀).bind
      fun s₁ => (next s₁ (.exit 0 .returned .done true)).map fun _ =>
        (s.tasks 0, s₁.database .mainDatabase)) = some (some {}, [9]) := by decide
  obtain ⟨s, hs, hrun⟩ := Option.bind_eq_some_iff.mp hrun
  obtain ⟨s₀, hs₀, hrun⟩ := Option.bind_eq_some_iff.mp hrun
  obtain ⟨s₁, hs₁, hrun⟩ := Option.bind_eq_some_iff.mp hrun
  obtain ⟨s₂, hs₂, hrun⟩ := Option.map_eq_some_iff.mp hrun
  obtain ⟨htask, hkept⟩ := Prod.mk.inj hrun
  have htrace : Trace (sessions ℕ) OwnIds [.start 0] s := ⟨{}, rfl, .single trivial hs⟩
  have hends := outermost_call_ends htrace htask rfl hs₀ (replay_path hs₁) (by decide) hs₂
  refine ⟨s₂, ?_⟩
  rw [hends, ← hkept]
  rfl

end Taas.DbTransactions
