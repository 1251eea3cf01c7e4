import Mathlib.Logic.Function.Basic
import Taas.Transition

/-!
`subscribe` and `unsubscribe` of the aiokafka service next to its main consumption loop. The
loop of every subscription iterates over the consumer of the main loop. A record that has
arrived is handed to one of the iterators, any of them, and a loop that is cancelled stops
the consumer. The service runs throughout.
-/
namespace Taas.Subscriptions

open Transition

variable {I R E : Type}

/-- The channels of the main loop's consumer, and how a record is decoded, none for a record
that cannot be. -/
structure Service (R E : Type) where
  consumerChannels : List String
  decode : String → R → Option E

/-- The event that the handler of a channel would be called with. -/
def Service.eventOf (S : Service R E) (channel : String) (value : Option R) : Option E :=
  value.bind (S.decode channel)

/-- A subscription: how many messages had arrived when it was made and when it was ended,
whether its loop has started and whether that has stopped the consumer, and the messages
that its loop was handed. -/
structure Subscription where
  channel : String
  since : ℕ
  unsubscribed : Option ℕ := none
  started : Bool := false
  closed : Bool := false
  took : List ℕ := []

/-- Messages are numbered as they arrive. `waiting` are those that the consumer holds. -/
structure State (I R : Type) where
  arrived : List (String × Option R) := []
  waiting : List ℕ := []
  stopped : Bool := false
  mainTook : List ℕ := []
  subscriptions : I → Option Subscription := fun _ => none

inductive Act (I R : Type)
  | subscribe (i : I) (channel : String)
  | start (i : I)
  | arrive (channel : String) (value : Option R)
  | takeMain (n : ℕ)
  | take (i : I) (n : ℕ)
  | unsubscribe (i : I)
  | close (i : I)

def State.put [DecidableEq I] (s : State I R) (i : I) (sub : Subscription) : State I R :=
  { s with subscriptions := Function.update s.subscriptions i (some sub) }

def State.arrive (S : Service R E) (s : State I R) (channel : String) (value : Option R) :
    State I R :=
  { s with
    arrived := s.arrived ++ [(channel, value)]
    waiting := s.waiting ++ if channel ∈ S.consumerChannels then [s.arrived.length] else [] }

/-- The main loop is handed a message. -/
def State.takeMain (s : State I R) (n : ℕ) : State I R :=
  { s with waiting := s.waiting.erase n, mainTook := s.mainTook ++ [n] }

/-- The loop of a subscription is in its `async for`. -/
def Subscription.Iterating (sub : Subscription) : Prop :=
  sub.started ∧ sub.unsubscribed = none

instance (sub : Subscription) : Decidable sub.Iterating :=
  inferInstanceAs (Decidable (_ ∧ _))

/-- A cancelled loop stops the consumer in its `finally`, unless its task had not started. -/
def next [DecidableEq I] (S : Service R E) (s : State I R) : Act I R → Option (State I R)
  | .subscribe i channel =>
    match s.subscriptions i with
    | none => some (s.put i { channel := channel, since := s.arrived.length })
    | some _ => none
  | .start i => (s.subscriptions i).bind fun sub =>
    if sub.started = false ∧ sub.unsubscribed = none then
      some (s.put i { sub with started := true })
    else none
  | .arrive channel value => some (s.arrive S channel value)
  | .takeMain n =>
    if s.stopped = false ∧ n ∈ s.waiting then
      some (s.takeMain n)
    else none
  | .take i n => (s.subscriptions i).bind fun sub =>
    if sub.Iterating ∧ s.stopped = false ∧ n ∈ s.waiting then
      some ({ s with waiting := s.waiting.erase n }.put i { sub with took := sub.took ++ [n] })
    else none
  | .unsubscribe i => (s.subscriptions i).bind fun sub =>
    if sub.unsubscribed = none then
      some (s.put i { sub with unsubscribed := some s.arrived.length })
    else none
  | .close i => (s.subscriptions i).bind fun sub =>
    if sub.started ∧ sub.unsubscribed ≠ none ∧ sub.closed = false then
      some ({ s with stopped := true }.put i { sub with closed := true })
    else none

def service [DecidableEq I] (S : Service R E) : System (State I R) (Act I R) where
  init s := s = {}
  next := next S

/-- The message is one for the handler: of its channel, arrived between `subscribe` and
`unsubscribe`, and one that can be decoded. -/
def Wanted (S : Service R E) (s : State I R) (sub : Subscription) (n : ℕ) : Prop :=
  sub.since ≤ n ∧ (∀ m, sub.unsubscribed = some m → n < m) ∧
    ∃ value, s.arrived[n]? = some (sub.channel, value) ∧ (S.eventOf sub.channel value).isSome

/-- The consumer has not been stopped, and the main loop has each message of its channels, or
it still waits. -/
def MainServed (S : Service R E) (s : State I R) : Prop :=
  s.stopped = false ∧ ∀ (n : ℕ) channel value, s.arrived[n]? = some (channel, value) →
    channel ∈ S.consumerChannels → n ∈ s.waiting ∨ n ∈ s.mainTook

/-- The handler has each message that it wants, or that still waits while it is subscribed, and
has been called with none of another channel. -/
def Served (S : Service R E) (s : State I R) (sub : Subscription) : Prop :=
  (∀ n, Wanted S s sub n → n ∈ sub.took ∨ sub.unsubscribed = none ∧ n ∈ s.waiting) ∧
  ∀ n ∈ sub.took, ∀ channel value, s.arrived[n]? = some (channel, value) →
    (S.eventOf sub.channel value).isSome → channel = sub.channel

def Isolated (S : Service R E) (s : State I R) : Prop :=
  MainServed S s ∧ ∀ i sub, s.subscriptions i = some sub → Served S s sub

/-- A message that a subscribed handler wants arrives on a channel of the consumer, is not
handed to the main loop and does not wait when the handler is unsubscribed. No loop of a
subscription is handed a message, and none that has started is cancelled up to its
`finally`. -/
def Apart (S : Service R E) : Condition (State I R) (Act I R)
  | _, s, .arrive channel value => channel ∈ S.consumerChannels ∨
      ∀ i sub, s.subscriptions i = some sub → sub.unsubscribed = none → sub.channel = channel →
        S.eventOf channel value = none
  | _, s, .takeMain n => ∀ i sub, s.subscriptions i = some sub → ¬ Wanted S s sub n
  | _, s, .unsubscribe i => ∀ sub, s.subscriptions i = some sub →
      ∀ n ∈ s.waiting, ¬ Wanted S s sub n
  | _, _, .take _ _ | _, _, .close _ => False
  | _, _, .subscribe _ _ | _, _, .start _ => True

structure Inv (S : Service R E) (s : State I R) : Prop where
  nodup : s.waiting.Nodup
  fetched : ∀ n ∈ s.waiting, ∃ channel value, s.arrived[n]? = some (channel, value) ∧
    channel ∈ S.consumerChannels
  notMain : ∀ n ∈ s.waiting, n ∉ s.mainTook
  notTaken : ∀ i sub, s.subscriptions i = some sub → ∀ n ∈ sub.took, n ∉ s.waiting
  mainTaken : ∀ n ∈ s.mainTook, n < s.arrived.length
  taken : ∀ i sub, s.subscriptions i = some sub → ∀ n ∈ sub.took, n < s.arrived.length
  since : ∀ i sub, s.subscriptions i = some sub → sub.since ≤ s.arrived.length
  ended : ∀ i sub, s.subscriptions i = some sub → ∀ m, sub.unsubscribed = some m →
    m ≤ s.arrived.length

variable {S : Service R E} {s t : State I R} {i : I} {sub : Subscription} {n : ℕ}

theorem Inv.lt_arrived (h : Inv S s) (hn : n ∈ s.waiting) : n < s.arrived.length := by
  obtain ⟨channel, value, hget, -⟩ := h.fetched n hn
  exact (List.getElem?_eq_some_iff.mp hget).1

theorem Wanted.lt_arrived (h : Wanted S s sub n) : n < s.arrived.length := by
  obtain ⟨-, -, value, hget, -⟩ := h
  exact (List.getElem?_eq_some_iff.mp hget).1

theorem inv_init : Inv S ({} : State I R) where
  nodup := List.nodup_nil
  fetched := by simp
  notMain := by simp
  notTaken := by simp
  mainTaken := by simp
  taken := by simp
  since := by simp
  ended := by simp

theorem isolated_init : Isolated S ({} : State I R) :=
  ⟨⟨rfl, by simp⟩, by simp⟩

theorem arrived_arrive {channel : String} {value : Option R} (h : n < s.arrived.length) :
    (s.arrive S channel value).arrived[n]? = s.arrived[n]? :=
  List.getElem?_append_left h

theorem last_arrive {channel : String} {value : Option R} :
    (s.arrive S channel value).arrived[s.arrived.length]? = some (channel, value) := by
  simp [State.arrive]

theorem mem_waiting_arrive {channel : String} {value : Option R} :
    n ∈ (s.arrive S channel value).waiting ↔
      n ∈ s.waiting ∨ channel ∈ S.consumerChannels ∧ n = s.arrived.length := by
  by_cases hchannel : channel ∈ S.consumerChannels <;> simp [State.arrive, hchannel]

theorem wanted_arrive {channel : String} {value : Option R} (h : n < s.arrived.length) :
    Wanted S (s.arrive S channel value) sub n ↔ Wanted S s sub n := by
  unfold Wanted
  rw [arrived_arrive h]

theorem arrive_inv (h : Inv S s) (channel : String) (value : Option R) :
    Inv S (s.arrive S channel value) := by
  have hnew : ∀ n ∈ s.waiting, n ≠ s.arrived.length := by
    intro n hn
    exact (h.lt_arrived hn).ne
  have hlength : (s.arrive S channel value).arrived.length = s.arrived.length + 1 := by
    simp [State.arrive]
  refine ⟨?_, ?_, ?_, ?_, ?_, ?_, ?_, ?_⟩
  · unfold State.arrive
    rw [List.nodup_append]
    refine ⟨h.nodup, ?_, ?_⟩
    · split <;> simp
    · intro n hn m hm
      split at hm
      · rw [List.mem_singleton.mp hm]
        exact hnew n hn
      · cases hm
  · intro n hn
    rcases mem_waiting_arrive.mp hn with hn | ⟨hchannel, rfl⟩
    · rw [arrived_arrive (h.lt_arrived hn)]
      exact h.fetched n hn
    · exact ⟨channel, value, last_arrive, hchannel⟩
  · intro n hn hmain
    rcases mem_waiting_arrive.mp hn with hn | ⟨-, rfl⟩
    · exact h.notMain n hn hmain
    · exact absurd (h.mainTaken _ hmain) (lt_irrefl _)
  · intro i sub hsub n hn hwaiting
    rcases mem_waiting_arrive.mp hwaiting with hwaiting | ⟨-, rfl⟩
    · exact h.notTaken i sub hsub n hn hwaiting
    · exact absurd (h.taken i sub hsub _ hn) (lt_irrefl _)
  · intro n hn
    rw [hlength]
    exact Nat.lt_succ_of_lt (h.mainTaken n hn)
  · intro i sub hsub n hn
    rw [hlength]
    exact Nat.lt_succ_of_lt (h.taken i sub hsub n hn)
  · intro i sub hsub
    rw [hlength]
    exact Nat.le_succ_of_le (h.since i sub hsub)
  · intro i sub hsub m hm
    rw [hlength]
    exact Nat.le_succ_of_le (h.ended i sub hsub m hm)

theorem arrive_isolated (h : Inv S s) (channel : String) (value : Option R) :
    Isolated S (s.arrive S channel value) ↔ Isolated S s ∧
      (channel ∈ S.consumerChannels ∨ ∀ i sub, s.subscriptions i = some sub →
        sub.unsubscribed = none → sub.channel = channel → S.eventOf channel value = none) := by
  constructor
  · rintro ⟨⟨hrunning, hmain⟩, hserved⟩
    refine ⟨⟨⟨hrunning, ?_⟩, ?_⟩, ?_⟩
    · intro n c v hget hchannel
      have hlt := (List.getElem?_eq_some_iff.mp hget).1
      refine (hmain n c v ((arrived_arrive hlt).trans hget) hchannel).imp_left fun hn => ?_
      exact (mem_waiting_arrive.mp hn).resolve_right fun hlast => hlt.ne hlast.2
    · intro i sub hsub
      obtain ⟨hgets, hown⟩ := hserved i sub hsub
      constructor
      · intro n hn
        refine (hgets n ((wanted_arrive hn.lt_arrived).mpr hn)).imp_right fun ⟨hactive, hw⟩ => ?_
        exact ⟨hactive, (mem_waiting_arrive.mp hw).resolve_right
          fun hlast => hn.lt_arrived.ne hlast.2⟩
      · intro n hn c v hget
        have hlt := (List.getElem?_eq_some_iff.mp hget).1
        exact hown n hn c v ((arrived_arrive hlt).trans hget)
    · by_contra hlost
      push Not at hlost
      obtain ⟨hchannel, i, sub, hsub, hactive, rfl, hevent⟩ := hlost
      have hwanted : Wanted S (s.arrive S sub.channel value) sub s.arrived.length :=
        ⟨h.since i sub hsub, by simp [hactive], value, last_arrive,
          Option.isSome_iff_ne_none.mpr hevent⟩
      rcases (hserved i sub hsub).1 _ hwanted with htook | ⟨-, hw⟩
      · exact absurd (h.taken i sub hsub _ htook) (lt_irrefl _)
      · rcases mem_waiting_arrive.mp hw with hw | ⟨hmem, -⟩
        · exact absurd (h.lt_arrived hw) (lt_irrefl _)
        · exact hchannel hmem
  · rintro ⟨⟨⟨hrunning, hmain⟩, hserved⟩, hapart⟩
    refine ⟨⟨hrunning, ?_⟩, ?_⟩
    · intro n c v hget hchannel
      have hlt : n < s.arrived.length + 1 := by
        simpa [State.arrive] using (List.getElem?_eq_some_iff.mp hget).1
      rcases Nat.lt_succ_iff_lt_or_eq.mp hlt with hlt | rfl
      · rw [arrived_arrive hlt] at hget
        exact (hmain n c v hget hchannel).imp_left fun hn => mem_waiting_arrive.mpr (Or.inl hn)
      · rw [last_arrive] at hget
        cases hget
        exact Or.inl (mem_waiting_arrive.mpr (Or.inr ⟨hchannel, rfl⟩))
    · intro i sub hsub
      obtain ⟨hgets, hown⟩ := hserved i sub hsub
      constructor
      · intro n hn
        have hlt : n < s.arrived.length + 1 := by simpa [State.arrive] using hn.lt_arrived
        rcases Nat.lt_succ_iff_lt_or_eq.mp hlt with hlt | rfl
        · refine (hgets n ((wanted_arrive hlt).mp hn)).imp_right fun ⟨hactive, hw⟩ => ?_
          exact ⟨hactive, mem_waiting_arrive.mpr (Or.inl hw)⟩
        · obtain ⟨-, hended, v, hget, hevent⟩ := hn
          rw [last_arrive] at hget
          cases hget
          have hactive : sub.unsubscribed = none := by
            cases hm : sub.unsubscribed with
            | none => rfl
            | some m => exact absurd (h.ended i sub hsub m hm) (not_le_of_gt (hended m hm))
          refine Or.inr ⟨hactive, mem_waiting_arrive.mpr (Or.inr ⟨?_, rfl⟩)⟩
          rcases hapart with hchannel | hnone
          · exact hchannel
          · rw [hnone i sub hsub hactive rfl] at hevent
            cases hevent
      · intro n hn c v hget
        rw [arrived_arrive (h.taken i sub hsub n hn)] at hget
        exact hown n hn c v hget

theorem takeMain_inv (h : Inv S s) (hn : n ∈ s.waiting) : Inv S (s.takeMain n) := by
  have herase : ∀ m ∈ s.waiting.erase n, m ≠ n ∧ m ∈ s.waiting := by
    intro m hm
    exact (List.Nodup.mem_erase_iff h.nodup).mp hm
  refine ⟨h.nodup.erase n, ?_, ?_, ?_, ?_, h.taken, h.since, h.ended⟩
  · intro m hm
    exact h.fetched m (herase m hm).2
  · intro m hm hmain
    rcases List.mem_append.mp hmain with hmain | hmain
    · exact h.notMain m (herase m hm).2 hmain
    · exact (herase m hm).1 (List.mem_singleton.mp hmain)
  · intro i sub hsub m hm hwaiting
    exact h.notTaken i sub hsub m hm (herase m hwaiting).2
  · intro m hm
    rcases List.mem_append.mp hm with hm | hm
    · exact h.mainTaken m hm
    · rw [List.mem_singleton.mp hm]
      exact h.lt_arrived hn

theorem takeMain_isolated (h : Inv S s) (hn : n ∈ s.waiting) :
    Isolated S (s.takeMain n) ↔
      Isolated S s ∧ ∀ i sub, s.subscriptions i = some sub → ¬ Wanted S s sub n := by
  have herase : ∀ m, m ∈ s.waiting.erase n ↔ m ≠ n ∧ m ∈ s.waiting := by
    intro m
    exact List.Nodup.mem_erase_iff h.nodup
  constructor
  · rintro ⟨⟨hrunning, hmain⟩, hserved⟩
    refine ⟨⟨⟨hrunning, ?_⟩, ?_⟩, ?_⟩
    · intro m c v hget hchannel
      rcases hmain m c v hget hchannel with hm | hm
      · exact Or.inl ((herase m).mp hm).2
      · rcases List.mem_append.mp hm with hm | hm
        · exact Or.inr hm
        · rw [List.mem_singleton.mp hm]
          exact Or.inl hn
    · intro i sub hsub
      obtain ⟨hgets, hown⟩ := hserved i sub hsub
      refine ⟨?_, hown⟩
      intro m hm
      exact (hgets m hm).imp_right fun ⟨hactive, hw⟩ => ⟨hactive, ((herase m).mp hw).2⟩
    · intro i sub hsub hwanted
      rcases (hserved i sub hsub).1 n hwanted with htook | ⟨-, hw⟩
      · exact h.notTaken i sub hsub n htook hn
      · exact ((herase n).mp hw).1 rfl
  · rintro ⟨⟨⟨hrunning, hmain⟩, hserved⟩, hapart⟩
    refine ⟨⟨hrunning, ?_⟩, ?_⟩
    · intro m c v hget hchannel
      by_cases hmn : m = n
      · exact Or.inr (List.mem_append_right _ (List.mem_singleton.mpr hmn))
      · exact (hmain m c v hget hchannel).imp (fun hm => (herase m).mpr ⟨hmn, hm⟩)
          (List.mem_append_left _)
    · intro i sub hsub
      obtain ⟨hgets, hown⟩ := hserved i sub hsub
      refine ⟨?_, hown⟩
      intro m hm
      refine (hgets m hm).imp_right fun ⟨hactive, hw⟩ => ⟨hactive, (herase m).mpr ⟨?_, hw⟩⟩
      rintro rfl
      exact hapart i sub hsub hm

variable [DecidableEq I]

theorem put_self (s : State I R) (i : I) (sub : Subscription) :
    (s.put i sub).subscriptions i = some sub :=
  Function.update_self ..

theorem put_other (s : State I R) {i j : I} (sub : Subscription) (h : j ≠ i) :
    (s.put i sub).subscriptions j = s.subscriptions j :=
  Function.update_of_ne h ..

theorem forall_put {P : Subscription → Prop} :
    (∀ j x, (s.put i sub).subscriptions j = some x → P x) ↔
      P sub ∧ ∀ j x, j ≠ i → s.subscriptions j = some x → P x := by
  constructor
  · intro h
    refine ⟨h i sub (put_self ..), ?_⟩
    intro j x hj hx
    exact h j x ((put_other s sub hj).trans hx)
  · rintro ⟨hsub, hothers⟩ j x hx
    by_cases hj : j = i
    · subst hj
      rw [put_self] at hx
      obtain rfl := Option.some.inj hx
      exact hsub
    · rw [put_other s sub hj] at hx
      exact hothers j x hj hx

theorem put_inv (h : Inv S s) (htook : ∀ n ∈ sub.took, n ∉ s.waiting ∧ n < s.arrived.length)
    (hsince : sub.since ≤ s.arrived.length)
    (hended : ∀ m, sub.unsubscribed = some m → m ≤ s.arrived.length) : Inv S (s.put i sub) where
  nodup := h.nodup
  fetched := h.fetched
  notMain := h.notMain
  notTaken := forall_put.mpr ⟨fun n hn => (htook n hn).1, fun j x _ => h.notTaken j x⟩
  mainTaken := h.mainTaken
  taken := forall_put.mpr ⟨fun n hn => (htook n hn).2, fun j x _ => h.taken j x⟩
  since := forall_put.mpr ⟨hsince, fun j x _ => h.since j x⟩
  ended := forall_put.mpr ⟨hended, fun j x _ => h.ended j x⟩

theorem isolated_put : Isolated S (s.put i sub) ↔
    MainServed S s ∧ Served S s sub ∧
      ∀ j x, j ≠ i → s.subscriptions j = some x → Served S s x :=
  and_congr_right fun _ => forall_put (P := Served S s)

theorem isolated_iff_at {x : Subscription} (hx : s.subscriptions i = some x) : Isolated S s ↔
    MainServed S s ∧ Served S s x ∧
      ∀ j x, j ≠ i → s.subscriptions j = some x → Served S s x := by
  refine and_congr_right fun _ => ?_
  constructor
  · intro hall
    exact ⟨hall i x hx, fun j y _ hy => hall j y hy⟩
  · rintro ⟨hserved, hothers⟩ j y hy
    by_cases hj : j = i
    · subst hj
      obtain rfl := Option.some.inj (hx.symm.trans hy)
      exact hserved
    · exact hothers j y hj hy

theorem subscribe_step (h : Inv S s) (hi : s.subscriptions i = none) (channel : String) :
    let sub : Subscription := { channel := channel, since := s.arrived.length }
    Inv S (s.put i sub) ∧ (Isolated S (s.put i sub) ↔ Isolated S s) := by
  intro sub
  refine ⟨put_inv h (by simp [sub]) (le_refl _) (by simp [sub]), ?_⟩
  have hserved : Served S s sub := by
    constructor
    · intro n hn
      have hlt := hn.lt_arrived
      have hle : s.arrived.length ≤ n := hn.1
      omega
    · simp [sub]
  rw [isolated_put]
  refine and_congr_right fun _ => ?_
  constructor
  · rintro ⟨-, hothers⟩ j x hx
    refine hothers j x ?_ hx
    rintro rfl
    rw [hi] at hx
    cases hx
  · intro hall
    exact ⟨hserved, fun j x _ hx => hall j x hx⟩

theorem start_step (h : Inv S s) (hi : s.subscriptions i = some sub) :
    Inv S (s.put i { sub with started := true }) ∧
      (Isolated S (s.put i { sub with started := true }) ↔ Isolated S s) := by
  refine ⟨put_inv h (fun n hn => ⟨h.notTaken i sub hi n hn, h.taken i sub hi n hn⟩)
    (h.since i sub hi) (h.ended i sub hi), ?_⟩
  rw [isolated_put, isolated_iff_at hi]
  exact Iff.rfl

/-- A message that waits is no message that the handler wants when it is unsubscribed. -/
theorem unsubscribe_step (h : Inv S s) (hi : s.subscriptions i = some sub)
    (hactive : sub.unsubscribed = none) :
    Inv S (s.put i { sub with unsubscribed := some s.arrived.length }) ∧
      (Isolated S (s.put i { sub with unsubscribed := some s.arrived.length }) ↔
        Isolated S s ∧ ∀ n ∈ s.waiting, ¬ Wanted S s sub n) := by
  refine ⟨put_inv h (fun n hn => ⟨h.notTaken i sub hi n hn, h.taken i sub hi n hn⟩)
    (h.since i sub hi) ?_, ?_⟩
  · intro m hm
    exact (Option.some.inj hm).ge
  have hwanted : ∀ n, Wanted S s { sub with unsubscribed := some s.arrived.length } n ↔
      Wanted S s sub n := by
    intro n
    constructor
    · rintro ⟨hsince, -, hvalue⟩
      exact ⟨hsince, by simp [hactive], hvalue⟩
    · intro hn
      refine ⟨hn.1, ?_, hn.2.2⟩
      intro m hm
      exact Option.some.inj hm ▸ hn.lt_arrived
  have hserved : Served S s { sub with unsubscribed := some s.arrived.length } ↔
      Served S s sub ∧ ∀ n ∈ s.waiting, ¬ Wanted S s sub n := by
    constructor
    · rintro ⟨hgets, hown⟩
      have htook : ∀ n, Wanted S s sub n → n ∈ sub.took := by
        intro n hn
        rcases hgets n ((hwanted n).mpr hn) with htook | ⟨hnone, -⟩
        · exact htook
        · cases hnone
      refine ⟨⟨fun n hn => Or.inl (htook n hn), hown⟩, ?_⟩
      intro n hwaiting hn
      exact h.notTaken i sub hi n (htook n hn) hwaiting
    · rintro ⟨⟨hgets, hown⟩, hnone⟩
      refine ⟨?_, hown⟩
      intro n hn
      have hn' := (hwanted n).mp hn
      rcases hgets n hn' with htook | ⟨-, hwaiting⟩
      · exact Or.inl htook
      · exact absurd hn' (hnone n hwaiting)
  rw [isolated_put, isolated_iff_at hi, hserved]
  tauto

theorem take_step (h : Inv S s) (hi : s.subscriptions i = some sub) (hn : n ∈ s.waiting) :
    let u := { s with waiting := s.waiting.erase n }.put i { sub with took := sub.took ++ [n] }
    Inv S u ∧ ¬ Isolated S u := by
  intro u
  have herase : ∀ m, m ∈ s.waiting.erase n ↔ m ≠ n ∧ m ∈ s.waiting := by
    intro m
    exact List.Nodup.mem_erase_iff h.nodup
  have hinv : Inv S { s with waiting := s.waiting.erase n } :=
    ⟨h.nodup.erase n, fun m hm => h.fetched m ((herase m).mp hm).2,
      fun m hm => h.notMain m ((herase m).mp hm).2,
      fun j x hx m hm hw => h.notTaken j x hx m hm ((herase m).mp hw).2,
      h.mainTaken, h.taken, h.since, h.ended⟩
  constructor
  · refine put_inv hinv ?_ (h.since i sub hi) (h.ended i sub hi)
    intro m hm
    rcases List.mem_append.mp hm with hm | hm
    · exact ⟨hinv.notTaken i sub hi m hm, h.taken i sub hi m hm⟩
    · rw [List.mem_singleton.mp hm]
      exact ⟨fun hw => ((herase n).mp hw).1 rfl, h.lt_arrived hn⟩
  · rintro ⟨⟨-, hmain⟩, -⟩
    obtain ⟨channel, value, hget, hchannel⟩ := h.fetched n hn
    rcases hmain n channel value hget hchannel with hw | hm
    · exact ((herase n).mp hw).1 rfl
    · exact h.notMain n hn hm

theorem close_step (h : Inv S s) (hi : s.subscriptions i = some sub) :
    let u := { s with stopped := true }.put i { sub with closed := true }
    Inv S u ∧ ¬ Isolated S u := by
  intro u
  have hinv : Inv S { s with stopped := true } :=
    ⟨h.nodup, h.fetched, h.notMain, h.notTaken, h.mainTaken, h.taken, h.since, h.ended⟩
  constructor
  · exact put_inv hinv (fun n hn => ⟨h.notTaken i sub hi n hn, h.taken i sub hi n hn⟩)
      (h.since i sub hi) (h.ended i sub hi)
  · rintro ⟨⟨hrunning, -⟩, -⟩
    cases hrunning

/-- A step keeps the subscriptions isolated exactly when it meets `Apart`. -/
theorem next_isolated (past : List (Act I R)) {a : Act I R} (h : Inv S s)
    (hnext : next S s a = some t) :
    Inv S t ∧ (Isolated S t ↔ Isolated S s ∧ Apart S past s a) := by
  cases a with
  | subscribe i channel =>
    simp only [next] at hnext
    split at hnext
    · rename_i hi
      cases hnext
      obtain ⟨hinv, hiff⟩ := subscribe_step h hi channel
      exact ⟨hinv, hiff.trans ⟨fun hs => ⟨hs, trivial⟩, And.left⟩⟩
    · cases hnext
  | start i =>
    obtain ⟨sub, hi, hnext⟩ := Option.bind_eq_some_iff.mp hnext
    split at hnext
    · cases hnext
      obtain ⟨hinv, hiff⟩ := start_step h hi
      exact ⟨hinv, hiff.trans ⟨fun hs => ⟨hs, trivial⟩, And.left⟩⟩
    · cases hnext
  | arrive channel value =>
    cases hnext
    exact ⟨arrive_inv h channel value, arrive_isolated h channel value⟩
  | takeMain n =>
    simp only [next] at hnext
    split at hnext
    · rename_i hn
      cases hnext
      exact ⟨takeMain_inv h hn.2, takeMain_isolated h hn.2⟩
    · cases hnext
  | take i n =>
    obtain ⟨sub, hi, hnext⟩ := Option.bind_eq_some_iff.mp hnext
    split at hnext
    · rename_i hn
      cases hnext
      obtain ⟨hinv, hnot⟩ := take_step h hi hn.2.2
      exact ⟨hinv, iff_of_false hnot fun hboth => hboth.2⟩
    · cases hnext
  | unsubscribe i =>
    obtain ⟨sub, hi, hnext⟩ := Option.bind_eq_some_iff.mp hnext
    split at hnext
    · rename_i hactive
      cases hnext
      obtain ⟨hinv, hiff⟩ := unsubscribe_step h hi hactive
      refine ⟨hinv, hiff.trans (and_congr_right fun _ => ?_)⟩
      simp [Apart, hi]
    · cases hnext
  | close i =>
    obtain ⟨sub, hi, hnext⟩ := Option.bind_eq_some_iff.mp hnext
    split at hnext
    · cases hnext
      obtain ⟨hinv, hnot⟩ := close_step h hi
      exact ⟨hinv, iff_of_false hnot fun hboth => hboth.2⟩
    · cases hnext

theorem inv_of_trace {as : List (Act I R)} (h : Trace (service S) free as s) : Inv S s := by
  refine Trace.invariant ?_ (fun s a t hs hnext => (next_isolated [] hs hnext).1) h
  rintro s rfl
  exact inv_init

/-- The runs whose steps all meet `Apart` are those that leave every subscription and the main
loop isolated. -/
theorem isolated_iff (S : Service R E) (as : List (Act I R)) (s : State I R) :
    Trace (service S) (Apart S) as s ↔ Trace (service S) free as s ∧ Isolated S s := by
  apply Trace.iff_of_step
  · rintro s rfl
    exact isolated_init
  · intro past s a t htrace hnext
    exact (next_isolated past (inv_of_trace htrace) hnext).2

def ordersService : Service String String where
  consumerChannels := ["orders"]
  decode _ raw := some raw

/-- A handler of another channel is called with a message of `orders`, which the main loop never
gets, and to unsubscribe it stops the consumer of the main loop. -/
theorem handler_takes_and_stops :
    (¬ ∀ (S : Service String String) as (s : State ℕ String),
      Trace (service S) free as s → Isolated S s) ∧
    ∃ s : State ℕ String, Trace (service ordersService) free
        [.subscribe 7 "refunds", .start 7, .arrive "orders" (some "paid"), .take 7 0,
          .unsubscribe 7, .close 7] s ∧
      (s.subscriptions 7).map Subscription.took = some [0] ∧
      ordersService.eventOf "refunds" (some "paid") = some "paid" ∧
      s.waiting = [] ∧ s.mainTook = [] ∧ s.stopped = true := by
  have h₀ : Trace (service ordersService) free [] ({} : State ℕ String) := ⟨{}, rfl, Path.nil⟩
  have h₁ := h₀.snoc (a := Act.subscribe 7 "refunds") trivial rfl
  have h₂ := h₁.snoc (a := Act.start 7) trivial rfl
  have h₃ := h₂.snoc (a := Act.arrive "orders" (some "paid")) trivial rfl
  have h₄ := h₃.snoc (a := Act.take 7 0) trivial rfl
  have h₅ := h₄.snoc (a := Act.unsubscribe 7) trivial rfl
  have h₆ := h₅.snoc (a := Act.close 7) trivial rfl
  refine ⟨?_, _, h₆, rfl, rfl, rfl, rfl, rfl⟩
  intro hall
  cases (hall ordersService _ _ h₆).1.1

end Taas.Subscriptions
