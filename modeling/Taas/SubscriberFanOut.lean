import Mathlib.Data.List.TakeWhile
import Taas.ConsumerGroups
import Taas.Transition

/-!
Handlers registered with `@messaging.subscriber` in the two Kafka backends. In the aiokafka
backend overlapping calls of `apply` materialise the registrations, one consumer each; they
interleave where a consumer is being started. Kafka gives each record of a topic to one
member of every consumer group. The service runs throughout.
-/
namespace Taas.SubscriberFanOut

open Transition ConsumerGroups

variable {R E : Type}

/-- What decoding a record's value gives. The loops of the handlers expect a MsgDecoderError,
and decoding `raises` other exceptions too. -/
inductive Decoded (E : Type)
  | event (e : E)
  | decoderError
  | raises

/-- How a handler ends; `cancelled` stands for what is no Exception. -/
inductive Outcome | returns | exception | cancelled

/-- The event that a handler is called with for a record, if it is called. -/
def eventOf (decode : String → R → Decoded E) (topic : String) (value : Option R) : Option E :=
  match value.map (decode topic) with
  | some (.event e) => some e
  | _ => none

structure PendingSubscription where
  topic : String
  agentName : String
  groupId : Option String := none

/-- The group of a registration: `group_id or f'{base}_agent_{agent_name}'`. -/
def PendingSubscription.resolvedGroup (base : String) (p : PendingSubscription) : String :=
  match p.groupId with
  | some g => if g = "" then base ++ "_agent_" ++ p.agentName else g
  | none => base ++ "_agent_" ++ p.agentName

def PendingSubscription.dedupeKey (base : String) (p : PendingSubscription) : String × String :=
  (p.topic, p.resolvedGroup base)

/-- A consumer that has been started: the position of its registration, its topic and group,
and how many records had been published then. -/
structure Agent where
  registration : ℕ
  topic : String
  group : String
  offset : ℕ

def Agent.dedupeKey (a : Agent) : String × String := (a.topic, a.group)

/-- `_consume_loop`, with the records that its consumer holds and the events that it has
called the handler with. -/
structure ConsumeLoop (R E : Type) where
  agent : Agent
  waiting : List (Option R) := []
  handled : List E := []
  running : Bool := true

def ConsumeLoop.turn (decode : String → R → Decoded E) (l : ConsumeLoop R E) (value : Option R)
    (rest : List (Option R)) (outcome : Outcome) : ConsumeLoop R E :=
  let l := { l with waiting := rest }
  match value.map (decode l.agent.topic) with
  | none => l
  | some .decoderError => l
  | some .raises => { l with running := false }
  | some (.event e) =>
    let l := { l with handled := l.handled ++ [e] }
    match outcome with
    | .cancelled => { l with running := false }
    | .returns | .exception => l

inductive ApplyStatus
  | starting
  | returned (position : ℕ)
  | raised

/-- A call of `apply`: its copy of the registrations, and those from the one whose consumer is
being started on. -/
structure ApplyCall where
  snapshot : List (PendingSubscription × ℕ)
  todo : List (PendingSubscription × ℕ)
  status : ApplyStatus

structure Messaging (R E : Type) where
  pending : List PendingSubscription := []
  applied : List (String × String) := []
  calls : List ApplyCall := []
  loops : List (ConsumeLoop R E) := []
  published : List (String × Option R) := []

/-- A member of a consumer group: the consumer of the main loop, or that of a handler. -/
inductive Member
  | main
  | agent (i : ℕ)

inductive Act (R : Type)
  | subscriber (p : PendingSubscription)
  | apply
  | started (call : ℕ)
  | startFailed (call : ℕ)
  | publish (topic : String) (value : Option R) (choose : String → Member)
  | take (loop : ℕ) (outcome : Outcome)

/-- The settings of the service, and how it decodes. -/
structure Service (R E : Type) where
  consumerGroupId : String
  consumerChannels : List String
  decode : String → R → Decoded E

namespace Messaging

variable (S : Service R E)

/-- An `apply` goes on: it skips what is applied up to the next consumer to start. -/
def proceed (s : Messaging R E) (snapshot todo : List (PendingSubscription × ℕ)) : ApplyCall :=
  let todo := todo.dropWhile fun x => x.1.dedupeKey S.consumerGroupId ∈ s.applied
  { snapshot := snapshot
    todo := todo
    status := match todo with
      | [] => .returned s.published.length
      | _ :: _ => .starting }

/-- The consumer of a registration has started. -/
def register (s : Messaging R E) (p : PendingSubscription) (i : ℕ) : Messaging R E :=
  { s with
    loops := s.loops ++ [{ agent := {
      registration := i
      topic := p.topic
      group := p.resolvedGroup S.consumerGroupId
      offset := s.published.length } }]
    applied := s.applied ++ [p.dedupeKey S.consumerGroupId] }

def Subscribed (s : Messaging R E) (topic : String) : Member → Prop
  | .main => topic ∈ S.consumerChannels
  | .agent i => ∃ l, s.loops[i]? = some l ∧ l.running ∧ l.agent.topic = topic

def group (s : Messaging R E) : Member → String
  | .main => S.consumerGroupId
  | .agent i => (s.loops[i]?.map fun l => l.agent.group).getD ""

/-- The consumers that have been started. -/
def agents (s : Messaging R E) : List Agent := s.loops.map ConsumeLoop.agent

end Messaging

/-- A record reaches the consumer of a loop if Kafka chose it for its group. -/
def feed (topic : String) (value : Option R) (choose : String → Member) (i : ℕ)
    (l : ConsumeLoop R E) : ConsumeLoop R E :=
  match choose l.agent.group with
  | .agent j =>
    if j = i ∧ l.running ∧ l.agent.topic = topic then { l with waiting := l.waiting ++ [value] }
    else l
  | .main => l

def next (S : Service R E) (s : Messaging R E) : Act R → Option (Messaging R E)
  | .subscriber p => some { s with pending := s.pending ++ [p] }
  | .apply => some { s with calls := s.calls ++ [s.proceed S s.pending.zipIdx s.pending.zipIdx] }
  | .started c =>
    match s.calls[c]? with
    | some ⟨snapshot, (p, i) :: rest, .starting⟩ =>
      let s := s.register S p i
      some { s with calls := s.calls.set c (s.proceed S snapshot rest) }
    | _ => none
  | .startFailed c =>
    match s.calls[c]? with
    | some ⟨snapshot, todo, .starting⟩ =>
      some { s with calls := s.calls.set c ⟨snapshot, todo, .raised⟩ }
    | _ => none
  | .publish topic value choose =>
    some { s with
      loops := s.loops.mapIdx (feed topic value choose)
      published := s.published ++ [(topic, value)] }
  | .take i outcome =>
    match s.loops[i]? with
    | some l =>
      match l.running, l.waiting with
      | true, value :: rest =>
        some { s with loops := s.loops.set i (l.turn S.decode value rest outcome) }
      | _, _ => none
    | none => none

def messaging (S : Service R E) : System (Messaging R E) (Act R) where
  init s := s = {}
  next := next S

/-- The events that were published on a topic from a position on. -/
def publishedFrom (decode : String → R → Decoded E) (published : List (String × Option R))
    (topic : String) (offset : ℕ) : List E :=
  ((published.drop offset).filter fun x => x.1 = topic).filterMap fun x => eventOf decode topic x.2

/-- Every handler that an `apply` was given which has returned has one consume loop. It runs,
and has called the handler, or holds the records to call it, with what was published on its
channel since before that. -/
def FannedOut (S : Service R E) (s : Messaging R E) : Prop :=
  ∀ c ∈ s.calls, ∀ position, c.status = .returned position → ∀ p i, (p, i) ∈ c.snapshot →
    ∃ (k : ℕ) (l : ConsumeLoop R E), s.loops[k]? = some l ∧
      (∀ (j : ℕ) l', s.loops[j]? = some l' → (l'.agent.registration = i ↔ j = k)) ∧
      l.running ∧ l.agent.topic = p.topic ∧ l.agent.offset ≤ position ∧
      l.handled ++ l.waiting.filterMap (eventOf S.decode p.topic) =
        publishedFrom S.decode s.published p.topic l.agent.offset

/-- The loop outlives the record: decoding raises no exception but a MsgDecoderError, and the
handler nothing but an Exception. -/
def Survived (decode : String → R → Decoded E) (topic : String) (value : Option R)
    (outcome : Outcome) : Prop :=
  match value.map (decode topic) with
  | some .raises => False
  | some (.event _) => outcome ≠ .cancelled
  | some .decoderError | none => True

/-- Kafka gives a record to one member of each group. No two handlers of a channel have one
name; a consumer has started when no other `apply` has started one for its channel and group;
and the loops outlive their records. -/
def Distinct (S : Service R E) : Condition (Messaging R E) (Act R)
  | _, s, .subscriber p => p.groupId = none ∧
      ∀ q ∈ s.pending, q.topic = p.topic → q.agentName ≠ p.agentName
  | _, s, .started c => ∀ snapshot p i rest,
      s.calls[c]? = some ⟨snapshot, (p, i) :: rest, .starting⟩ →
      p.dedupeKey S.consumerGroupId ∉ s.applied
  | _, s, .publish topic _ choose => Assigns (s.Subscribed S topic) (s.group S) choose
  | _, s, .take i outcome => ∀ l value rest, s.loops[i]? = some l → l.waiting = value :: rest →
      Survived S.decode l.agent.topic value outcome
  | _, _, .apply | _, _, .startFailed _ => True

/-- Registrations have distinct keys, and the consumers that have been started are those of
distinct registrations, which are the applied ones. -/
structure Wired (S : Service R E) (s : Messaging R E) : Prop where
  names : (s.pending.map (PendingSubscription.dedupeKey S.consumerGroupId)).Nodup
  groups : ∀ p ∈ s.pending, p.groupId = none
  applied : s.agents.map Agent.dedupeKey = s.applied
  distinct : s.applied.Nodup
  registered : ∀ a ∈ s.agents, ∃ p, s.pending[a.registration]? = some p ∧
    a.dedupeKey = p.dedupeKey S.consumerGroupId
  offsets : ∀ a ∈ s.agents, a.offset ≤ s.published.length

/-- The loop runs and has missed nothing. -/
def Fed (S : Service R E) (published : List (String × Option R)) (l : ConsumeLoop R E) : Prop :=
  l.running = true ∧
    l.handled ++ l.waiting.filterMap (eventOf S.decode l.agent.topic) =
      publishedFrom S.decode published l.agent.topic l.agent.offset

/-- What a call of `apply` has done so far. -/
structure Prepared (S : Service R E) (s : Messaging R E) (c : ApplyCall) : Prop where
  pending : ∀ x ∈ c.snapshot, s.pending[x.2]? = some x.1
  todo : ∀ x ∈ c.todo, x ∈ c.snapshot
  applied : ∀ x ∈ c.snapshot, x ∈ c.todo ∨ x.1.dedupeKey S.consumerGroupId ∈ s.applied
  returned : ∀ position, c.status = .returned position → ∀ x ∈ c.snapshot,
    ∃ a ∈ s.agents, a.dedupeKey = x.1.dedupeKey S.consumerGroupId ∧ a.offset ≤ position

structure Inv (S : Service R E) (s : Messaging R E) : Prop where
  wired : Wired S s
  fed : ∀ l ∈ s.loops, Fed S s.published l
  prepared : ∀ c ∈ s.calls, Prepared S s c

variable {S : Service R E} {s t : Messaging R E} {p q : PendingSubscription} {i c : ℕ}

theorem resolvedGroup_default (hp : p.groupId = none) (base : String) :
    p.resolvedGroup base = base ++ "_agent_" ++ p.agentName := by
  simp [PendingSubscription.resolvedGroup, hp]

theorem agentName_of_dedupeKey (hp : p.groupId = none) (hq : q.groupId = none) {base : String}
    (h : p.dedupeKey base = q.dedupeKey base) : p.topic = q.topic ∧ p.agentName = q.agentName := by
  simp only [PendingSubscription.dedupeKey, Prod.mk.injEq, resolvedGroup_default hp,
    resolvedGroup_default hq, String.append_right_inj] at h
  exact h

theorem resolvedGroup_ne (hp : p.groupId = none) (base : String) : p.resolvedGroup base ≠ base := by
  intro h
  have hlength := congrArg String.length h
  rw [resolvedGroup_default hp, String.length_append, String.length_append] at hlength
  have hagent : "_agent_".length = 7 := rfl
  omega

/-- What a call has done stays done when registrations and consumers are added. -/
theorem Prepared.mono {call : ApplyCall} (h : Prepared S s call)
    (hpending : ∀ (i : ℕ) p, s.pending[i]? = some p → t.pending[i]? = some p)
    (happlied : ∀ k ∈ s.applied, k ∈ t.applied) (hagents : ∀ a ∈ s.agents, a ∈ t.agents) :
    Prepared S t call where
  pending x hx := hpending _ _ (h.pending x hx)
  todo := h.todo
  applied x hx := (h.applied x hx).imp_right (happlied _)
  returned position hstatus x hx := by
    obtain ⟨a, ha, hkey⟩ := h.returned position hstatus x hx
    exact ⟨a, hagents a ha, hkey⟩

/-- Going on, a call skips what is applied, and returns when nothing is left. -/
theorem prepared_proceed (hw : Wired S s) {snapshot todo : List (PendingSubscription × ℕ)}
    (hpending : ∀ x ∈ snapshot, s.pending[x.2]? = some x.1) (htodo : ∀ x ∈ todo, x ∈ snapshot)
    (happlied : ∀ x ∈ snapshot, x ∈ todo ∨ x.1.dedupeKey S.consumerGroupId ∈ s.applied) :
    Prepared S s (s.proceed S snapshot todo) := by
  have hskip : ∀ x ∈ snapshot,
      x ∈ todo.dropWhile (fun x => x.1.dedupeKey S.consumerGroupId ∈ s.applied) ∨
        x.1.dedupeKey S.consumerGroupId ∈ s.applied := by
    intro x hx
    rcases happlied x hx with hmem | hmem
    · rw [← List.takeWhile_append_dropWhile
        (p := fun x => decide (x.1.dedupeKey S.consumerGroupId ∈ s.applied)) (l := todo)] at hmem
      rcases List.mem_append.mp hmem with htake | hdrop
      · exact Or.inr (by simpa using List.mem_takeWhile_imp htake)
      · exact Or.inl hdrop
    · exact Or.inr hmem
  refine ⟨hpending, ?_, hskip, ?_⟩
  · intro x hx
    exact htodo x ((List.dropWhile_sublist _).subset hx)
  · intro position hstatus x hx
    simp only [Messaging.proceed] at hstatus
    split at hstatus
    · rename_i hnil
      have hkey : x.1.dedupeKey S.consumerGroupId ∈ s.applied := by
        rcases hskip x hx with hmem | hmem
        · rw [hnil] at hmem
          cases hmem
        · exact hmem
      rw [← hw.applied] at hkey
      obtain ⟨a, ha, hakey⟩ := List.mem_map.mp hkey
      cases hstatus
      exact ⟨a, ha, hakey, hw.offsets a ha⟩
    · cases hstatus

theorem pending_append {pending : List PendingSubscription} (h : pending[i]? = some q) :
    (pending ++ [p])[i]? = some q := by
  rw [List.getElem?_append_left (List.getElem?_eq_some_iff.mp h).1, h]

theorem mem_calls_set {calls : List ApplyCall} {call d : ApplyCall} (h : d ∈ calls.set c call) :
    d ∈ calls ∨ d = call :=
  List.mem_or_eq_of_mem_set h

theorem subscriber_inv (h : Inv S s) (hp : p.groupId = none)
    (hname : ∀ q ∈ s.pending, q.topic = p.topic → q.agentName ≠ p.agentName) :
    Inv S { s with pending := s.pending ++ [p] } where
  wired := {
    names := by
      rw [List.map_append, List.map_singleton, List.nodup_append]
      refine ⟨h.wired.names, List.nodup_singleton _, ?_⟩
      intro k hk k' hk' heq
      obtain ⟨q, hq, rfl⟩ := List.mem_map.mp hk
      rw [List.mem_singleton] at hk'
      rw [hk'] at heq
      obtain ⟨htopic, hagent⟩ := agentName_of_dedupeKey (h.wired.groups q hq) hp heq
      exact hname q hq htopic hagent
    groups := by
      intro q hq
      rcases List.mem_append.mp hq with hq | hq
      · exact h.wired.groups q hq
      · rw [List.mem_singleton.mp hq]
        exact hp
    applied := h.wired.applied
    distinct := h.wired.distinct
    registered := by
      intro a ha
      obtain ⟨q, hq, hkey⟩ := h.wired.registered a ha
      exact ⟨q, pending_append hq, hkey⟩
    offsets := h.wired.offsets }
  fed := h.fed
  prepared d hd := (h.prepared d hd).mono
    (fun _ _ hq => pending_append hq) (fun _ hk => hk) (fun _ ha => ha)

theorem apply_inv (h : Inv S s) :
    Inv S { s with calls := s.calls ++ [s.proceed S s.pending.zipIdx s.pending.zipIdx] } where
  wired := ⟨h.wired.names, h.wired.groups, h.wired.applied, h.wired.distinct,
    h.wired.registered, h.wired.offsets⟩
  fed := h.fed
  prepared d hd := by
    have hpending : ∀ x ∈ s.pending.zipIdx, s.pending[x.2]? = some x.1 := by
      intro x hx
      exact List.mem_zipIdx_iff_getElem?.mp hx
    have hprepared : Prepared S s d := by
      rcases List.mem_append.mp hd with hd | hd
      · exact h.prepared d hd
      · rw [List.mem_singleton.mp hd]
        exact prepared_proceed h.wired hpending (fun _ hx => hx) (fun _ hx => Or.inl hx)
    exact hprepared.mono (fun _ _ hq => hq) (fun _ hk => hk) (fun _ ha => ha)

theorem agents_register : (s.register S p i).agents = s.agents ++ [{
      registration := i
      topic := p.topic
      group := p.resolvedGroup S.consumerGroupId
      offset := s.published.length }] := by
  simp [Messaging.agents, Messaging.register]

/-- A consumer has started for a registration that is not applied. -/
theorem register_wired (h : Wired S s) (hp : s.pending[i]? = some p)
    (hnew : p.dedupeKey S.consumerGroupId ∉ s.applied) : Wired S (s.register S p i) where
  names := h.names
  groups := h.groups
  applied := by
    rw [agents_register, List.map_append, h.applied]
    rfl
  distinct := by
    change (s.applied ++ [p.dedupeKey S.consumerGroupId]).Nodup
    rw [List.nodup_append]
    refine ⟨h.distinct, List.nodup_singleton _, ?_⟩
    intro k hk k' hk' heq
    rw [heq, List.mem_singleton.mp hk'] at hk
    exact hnew hk
  registered := by
    intro a ha
    rw [agents_register] at ha
    rcases List.mem_append.mp ha with ha | ha
    · exact h.registered a ha
    · rw [List.mem_singleton.mp ha]
      exact ⟨p, hp, rfl⟩
  offsets := by
    intro a ha
    rw [agents_register] at ha
    rcases List.mem_append.mp ha with ha | ha
    · exact h.offsets a ha
    · rw [List.mem_singleton.mp ha]
      exact le_refl _

theorem publishedFrom_length (decode : String → R → Decoded E)
    (published : List (String × Option R)) (topic : String) :
    publishedFrom decode published topic published.length = [] := by
  simp [publishedFrom]

theorem started_inv (h : Inv S s) {snapshot rest : List (PendingSubscription × ℕ)}
    (hc : s.calls[c]? = some ⟨snapshot, (p, i) :: rest, .starting⟩)
    (hnew : p.dedupeKey S.consumerGroupId ∉ s.applied) :
    Inv S { s.register S p i with
      calls := s.calls.set c ((s.register S p i).proceed S snapshot rest) } := by
  have hcall := h.prepared _ (List.mem_of_getElem? hc)
  have hhead : (p, i) ∈ snapshot := hcall.todo _ (List.mem_cons_self ..)
  have hwired := register_wired h.wired (hcall.pending _ hhead) hnew
  refine ⟨⟨hwired.names, hwired.groups, hwired.applied, hwired.distinct, hwired.registered,
    hwired.offsets⟩, ?_, ?_⟩
  · intro l hl
    rcases List.mem_append.mp hl with hl | hl
    · exact h.fed l hl
    · rw [List.mem_singleton.mp hl]
      exact ⟨rfl, (publishedFrom_length ..).symm⟩
  · intro d hd
    have hprepared : Prepared S (s.register S p i) d := by
      rcases mem_calls_set hd with hd | rfl
      · refine (h.prepared d hd).mono (fun _ _ hq => hq) ?_ ?_
        · intro k hk
          exact List.mem_append_left _ hk
        · intro a ha
          rw [agents_register]
          exact List.mem_append_left _ ha
      · refine prepared_proceed hwired hcall.pending ?_ ?_
        · intro x hx
          exact hcall.todo x (List.mem_cons_of_mem _ hx)
        · intro x hx
          rcases hcall.applied x hx with hmem | hmem
          · rcases List.mem_cons.mp hmem with rfl | hmem
            · exact Or.inr (List.mem_append_right _ (List.mem_singleton_self _))
            · exact Or.inl hmem
          · exact Or.inr (List.mem_append_left _ hmem)
    exact hprepared.mono (fun _ _ hq => hq) (fun _ hk => hk) (fun _ ha => ha)

theorem startFailed_inv (h : Inv S s) {snapshot todo : List (PendingSubscription × ℕ)}
    (hc : s.calls[c]? = some ⟨snapshot, todo, .starting⟩) :
    Inv S { s with calls := s.calls.set c ⟨snapshot, todo, .raised⟩ } where
  wired := ⟨h.wired.names, h.wired.groups, h.wired.applied, h.wired.distinct,
    h.wired.registered, h.wired.offsets⟩
  fed := h.fed
  prepared d hd := by
    have hprepared : Prepared S s d := by
      rcases mem_calls_set hd with hd | rfl
      · exact h.prepared d hd
      · have hcall := h.prepared _ (List.mem_of_getElem? hc)
        exact ⟨hcall.pending, hcall.todo, hcall.applied, fun _ hstatus => by cases hstatus⟩
    exact hprepared.mono (fun _ _ hq => hq) (fun _ hk => hk) (fun _ ha => ha)

/-- Entries with one key are at one position of a list whose keys are distinct. -/
theorem position_unique {α β : Type} {f : α → β} {xs : List α} (h : (xs.map f).Nodup) {i j : ℕ}
    {x y : α} (hi : xs[i]? = some x) (hj : xs[j]? = some y) (hkey : f x = f y) : i = j := by
  have hlt : i < (xs.map f).length := by
    rw [List.length_map]
    exact (List.getElem?_eq_some_iff.mp hi).1
  have hsame : (xs.map f)[i]? = (xs.map f)[j]? := by
    rw [List.getElem?_map, List.getElem?_map, hi, hj, Option.map_some, Option.map_some, hkey]
  exact (List.getElem?_inj hlt h).mp hsame

theorem agent_alone (h : Wired S s) {topic : String} (hi : s.Subscribed S topic (.agent i)) :
    Alone (s.Subscribed S topic) (s.group S) (.agent i) := by
  obtain ⟨l, hl, -, htopic⟩ := hi
  have hagent : s.agents[i]? = some l.agent := by simp [Messaging.agents, hl]
  obtain ⟨p, hp, hkey⟩ := h.registered _ (List.mem_of_getElem? hagent)
  have hgroup : s.group S (.agent i) = l.agent.group := by simp [Messaging.group, hl]
  intro m hm hsame
  rw [hgroup] at hsame
  cases m with
  | main =>
    have hbase : l.agent.group = p.resolvedGroup S.consumerGroupId := congrArg Prod.snd hkey
    have hne := resolvedGroup_ne (h.groups p (List.mem_of_getElem? hp)) S.consumerGroupId
    rw [← hbase, ← hsame] at hne
    exact absurd rfl hne
  | agent j =>
    obtain ⟨l', hl', -, htopic'⟩ := hm
    have hgroup' : l'.agent.group = l.agent.group := by
      simpa [Messaging.group, hl'] using hsame
    have hkeys : l'.agent.dedupeKey = l.agent.dedupeKey := by
      simp [Agent.dedupeKey, htopic, htopic', hgroup']
    have hagent' : s.agents[j]? = some l'.agent := by simp [Messaging.agents, hl']
    rw [position_unique (h.applied ▸ h.distinct) hagent' hagent hkeys]

theorem publishedFrom_append (decode : String → R → Decoded E)
    {published : List (String × Option R)} {offset : ℕ} (h : offset ≤ published.length)
    (topic : String) (x : String × Option R) :
    publishedFrom decode (published ++ [x]) topic offset =
      publishedFrom decode published topic offset ++
        if x.1 = topic then (eventOf decode topic x.2).toList else [] := by
  unfold publishedFrom
  rw [List.drop_append_of_le_length h, List.filter_append, List.filterMap_append]
  congr 1
  by_cases htopic : x.1 = topic
  · cases hevent : eventOf decode topic x.2 <;> simp [htopic, hevent]
  · simp [htopic]

theorem feed_agent (topic : String) (value : Option R) (choose : String → Member) (i : ℕ)
    (l : ConsumeLoop R E) : (feed topic value choose i l).agent = l.agent := by
  unfold feed
  split
  · split <;> rfl
  · rfl

theorem agents_feed (topic : String) (value : Option R) (choose : String → Member)
    (loops : List (ConsumeLoop R E)) :
    (loops.mapIdx (feed topic value choose)).map ConsumeLoop.agent =
      loops.map ConsumeLoop.agent := by
  apply List.ext_getElem?
  intro i
  rw [List.getElem?_map, List.getElem?_mapIdx, List.getElem?_map, Option.map_map]
  cases loops[i]? with
  | none => rfl
  | some l => exact congrArg some (feed_agent topic value choose i l)

/-- A loop whose consumer is alone in its group gets each record of its topic. -/
theorem feed_fed {l : ConsumeLoop R E} {published : List (String × Option R)} {topic : String}
    {choose : String → Member} (value : Option R) (h : Fed S published l)
    (hoffset : l.agent.offset ≤ published.length)
    (hchosen : l.agent.topic = topic → choose l.agent.group = .agent i) :
    Fed S (published ++ [(topic, value)]) (feed topic value choose i l) := by
  obtain ⟨hrunning, hevents⟩ := h
  unfold Fed
  rw [feed_agent, publishedFrom_append S.decode hoffset]
  by_cases htopic : l.agent.topic = topic
  · have hfeed : feed topic value choose i l = { l with waiting := l.waiting ++ [value] } := by
      simp [feed, hchosen htopic, hrunning, htopic]
    rw [hfeed]
    refine ⟨hrunning, ?_⟩
    rw [if_pos htopic.symm, ← hevents, List.filterMap_append, List.append_assoc]
    cases hevent : eventOf S.decode l.agent.topic value <;> simp [hevent]
  · have hfeed : feed topic value choose i l = l := by
      unfold feed
      split
      · simp [htopic]
      · rfl
    rw [hfeed, if_neg (Ne.symm htopic), List.append_nil]
    exact ⟨hrunning, hevents⟩

theorem publish_inv (h : Inv S s) {topic : String} (value : Option R) {choose : String → Member}
    (hchoose : Assigns (s.Subscribed S topic) (s.group S) choose) :
    Inv S { s with
      loops := s.loops.mapIdx (feed topic value choose)
      published := s.published ++ [(topic, value)] } := by
  have hagents : (s.loops.mapIdx (feed topic value choose)).map ConsumeLoop.agent = s.agents :=
    agents_feed topic value choose s.loops
  refine ⟨⟨h.wired.names, h.wired.groups, ?_, h.wired.distinct, ?_, ?_⟩, ?_, ?_⟩
  · rw [Messaging.agents, hagents, h.wired.applied]
  · rw [Messaging.agents, hagents]
    exact h.wired.registered
  · rw [Messaging.agents, hagents]
    intro a ha
    rw [List.length_append]
    exact Nat.le_add_right_of_le (h.wired.offsets a ha)
  · intro l hl
    obtain ⟨i, hi⟩ := List.getElem?_of_mem hl
    rw [List.getElem?_mapIdx] at hi
    obtain ⟨l', hl', rfl⟩ := Option.map_eq_some_iff.mp hi
    have hfed := h.fed l' (List.mem_of_getElem? hl')
    have hagent : l'.agent ∈ s.agents := List.mem_map_of_mem (List.mem_of_getElem? hl')
    refine feed_fed value hfed (h.wired.offsets _ hagent) ?_
    intro htopic
    have hsubscribed : s.Subscribed S topic (.agent i) := ⟨l', hl', hfed.1, htopic⟩
    have hreceives := hchoose.receives hsubscribed (agent_alone h.wired hsubscribed)
    have hgroup : s.group S (.agent i) = l'.agent.group := by simp [Messaging.group, hl']
    rw [hgroup] at hreceives
    exact hreceives
  · intro d hd
    refine (h.prepared d hd).mono (fun _ _ hq => hq) (fun _ hk => hk) ?_
    intro a ha
    rw [Messaging.agents, hagents]
    exact ha

theorem turn_agent (decode : String → R → Decoded E) (l : ConsumeLoop R E) (value : Option R)
    (rest : List (Option R)) (outcome : Outcome) :
    (l.turn decode value rest outcome).agent = l.agent := by
  unfold ConsumeLoop.turn
  dsimp only
  split
  · rfl
  · rfl
  · rfl
  · cases outcome <;> rfl

/-- A record that the loop outlives moves from those that wait to the handler. -/
theorem turn_fed {l : ConsumeLoop R E} {published : List (String × Option R)} {value : Option R}
    {rest : List (Option R)} {outcome : Outcome} (h : Fed S published l)
    (hwaiting : l.waiting = value :: rest)
    (hsurvived : Survived S.decode l.agent.topic value outcome) :
    Fed S published (l.turn S.decode value rest outcome) := by
  obtain ⟨hrunning, hevents⟩ := h
  unfold Fed
  rw [turn_agent, ← hevents, hwaiting]
  unfold Survived at hsurvived
  unfold ConsumeLoop.turn
  cases hdecoded : value.map (S.decode l.agent.topic) with
  | none => simp [eventOf, hdecoded, hrunning]
  | some d =>
    rw [hdecoded] at hsurvived
    cases d with
    | decoderError => simp [eventOf, hdecoded, hrunning]
    | raises => exact hsurvived.elim
    | event e =>
      cases outcome with
      | cancelled => exact absurd rfl hsurvived
      | returns => simp [eventOf, hdecoded, hrunning]
      | exception => simp [eventOf, hdecoded, hrunning]

theorem take_inv (h : Inv S s) {l : ConsumeLoop R E} {value : Option R} {rest : List (Option R)}
    {outcome : Outcome} (hl : s.loops[i]? = some l) (hwaiting : l.waiting = value :: rest)
    (hsurvived : Survived S.decode l.agent.topic value outcome) :
    Inv S { s with loops := s.loops.set i (l.turn S.decode value rest outcome) } := by
  have hagents : (s.loops.set i (l.turn S.decode value rest outcome)).map ConsumeLoop.agent =
      s.agents := by
    have hagent : s.agents[i]? = some l.agent := by simp [Messaging.agents, hl]
    rw [List.map_set, turn_agent]
    apply List.ext_getElem?
    intro j
    by_cases hj : i = j
    · subst hj
      rw [hagent, List.getElem?_set_self]
      exact (List.getElem?_eq_some_iff.mp hagent).1
    · rw [List.getElem?_set_ne hj]
      rfl
  refine ⟨⟨h.wired.names, h.wired.groups, ?_, h.wired.distinct, ?_, ?_⟩, ?_, ?_⟩
  · rw [Messaging.agents, hagents, h.wired.applied]
  · rw [Messaging.agents, hagents]
    exact h.wired.registered
  · rw [Messaging.agents, hagents]
    exact h.wired.offsets
  · intro l' hl'
    rcases List.mem_or_eq_of_mem_set hl' with hl' | rfl
    · exact h.fed l' hl'
    · exact turn_fed (h.fed l (List.mem_of_getElem? hl)) hwaiting hsurvived
  · intro d hd
    refine (h.prepared d hd).mono (fun _ _ hq => hq) (fun _ hk => hk) ?_
    intro a ha
    rw [Messaging.agents, hagents]
    exact ha

theorem distinct_inv (past : List (Act R)) (s : Messaging R E) (a : Act R) (t : Messaging R E)
    (h : Inv S s) (hok : Distinct S past s a) (hnext : next S s a = some t) : Inv S t := by
  cases a with
  | subscriber p =>
    cases hnext
    exact subscriber_inv h hok.1 hok.2
  | apply =>
    cases hnext
    exact apply_inv h
  | started c =>
    simp only [next] at hnext
    split at hnext
    · rename_i snapshot p i rest hc
      cases hnext
      exact started_inv h hc (hok snapshot p i rest hc)
    · cases hnext
  | startFailed c =>
    simp only [next] at hnext
    split at hnext
    · rename_i snapshot todo hc
      cases hnext
      exact startFailed_inv h hc
    · cases hnext
  | publish topic value choose =>
    cases hnext
    exact publish_inv h value hok
  | take i outcome =>
    simp only [next] at hnext
    split at hnext
    · rename_i l hl
      split at hnext
      · rename_i value rest hrunning hwaiting
        cases hnext
        exact take_inv h hl hwaiting (hok l value rest hl hwaiting)
      · cases hnext
    · cases hnext

theorem inv_init : Inv S {} where
  wired := {
    names := List.nodup_nil
    groups := by simp
    applied := rfl
    distinct := List.nodup_nil
    registered := by simp [Messaging.agents]
    offsets := by simp [Messaging.agents] }
  fed := by simp
  prepared := by simp

theorem Inv.fannedOut (h : Inv S s) : FannedOut S s := by
  intro call hcall position hstatus p i hmem
  have hprepared := h.prepared call hcall
  have hp := hprepared.pending (p, i) hmem
  obtain ⟨a, ha, hkey, hoffset⟩ := hprepared.returned position hstatus (p, i) hmem
  obtain ⟨k, hk⟩ := List.getElem?_of_mem ha
  rw [Messaging.agents, List.getElem?_map] at hk
  obtain ⟨l, hl, rfl⟩ := Option.map_eq_some_iff.mp hk
  obtain ⟨hrunning, hevents⟩ := h.fed l (List.mem_of_getElem? hl)
  have htopic : l.agent.topic = p.topic := congrArg Prod.fst hkey
  refine ⟨k, l, hl, ?_, hrunning, htopic, hoffset, ?_⟩
  · intro j l' hl'
    have hmem' : l'.agent ∈ s.agents := List.mem_map_of_mem (List.mem_of_getElem? hl')
    obtain ⟨q, hq, hkey'⟩ := h.wired.registered _ hmem'
    have hagent : s.agents[k]? = some l.agent := by simp [Messaging.agents, hl]
    have hagent' : s.agents[j]? = some l'.agent := by simp [Messaging.agents, hl']
    constructor
    · intro hregistration
      rw [hregistration] at hq
      obtain rfl := Option.some.inj (hp.symm.trans hq)
      exact position_unique (h.wired.applied ▸ h.wired.distinct) hagent' hagent
        (hkey'.trans hkey.symm)
    · rintro rfl
      have hsame := Option.some.inj (hagent'.symm.trans hagent)
      rw [hsame] at hq hkey' ⊢
      exact position_unique h.wired.names hq hp (hkey'.symm.trans hkey)
  · rw [htopic] at hevents
    exact hevents

structure BrokerSubscriber where
  channel : String
  group : String

/-- `group_id or service.kafka_config.KAFKA_CONSUMER_GROUP_ID`. -/
def PendingSubscription.brokerSubscriber (base : String) (p : PendingSubscription) :
    BrokerSubscriber where
  channel := p.topic
  group := match p.groupId with
    | some g => if g = "" then base else g
    | none => base

/-- The subscribers when the broker starts: the handlers, then those of the main loop. -/
def brokerSubscribers (base : String) (handlers : List PendingSubscription)
    (mainChannels : List String) : List BrokerSubscriber :=
  handlers.map (PendingSubscription.brokerSubscriber base) ++
    mainChannels.map fun channel => { channel := channel, group := base }

def SubscribedTo (subscribers : List BrokerSubscriber) (topic : String) (i : ℕ) : Prop :=
  ∃ b, subscribers[i]? = some b ∧ b.channel = topic

def groupOf (subscribers : List BrokerSubscriber) (i : ℕ) : String :=
  (subscribers[i]?.map BrokerSubscriber.group).getD ""

/-- A published record, and the subscriber that it goes to in each group. -/
structure Delivery (R : Type) where
  topic : String
  value : Option R
  choose : String → ℕ

/-- The records that `_agent_handler` of the `i`th subscriber is called with. -/
def handed (deliveries : List (Delivery R)) (i : ℕ) (b : BrokerSubscriber) : List (Option R) :=
  (deliveries.filter fun d => d.topic = b.channel ∧ d.choose b.group = i).map Delivery.value

/-- Whatever Kafka chooses, the handler gets the records of its channel. `_agent_handler`
reports a MsgDecoderError, and no record meets another exception. -/
def GetsAll (S : Service R E) (subscribers : List BrokerSubscriber) (i : ℕ)
    (b : BrokerSubscriber) : Prop :=
  ∀ deliveries : List (Delivery R),
    (∀ d ∈ deliveries, d.value.map (S.decode d.topic) ≠ some .raises ∧
      Assigns (SubscribedTo subscribers d.topic) (groupOf subscribers) d.choose) →
    handed deliveries i b = (deliveries.filter fun d => d.topic = b.channel).map Delivery.value

/-- No other subscriber has the channel and the group. -/
def OnlyOne (subscribers : List BrokerSubscriber) (i : ℕ) (b : BrokerSubscriber) : Prop :=
  ∀ (j : ℕ) b', subscribers[j]? = some b' → b'.channel = b.channel → b'.group = b.group → j = i

variable {subscribers : List BrokerSubscriber} {b : BrokerSubscriber}

theorem groupOf_some (hb : subscribers[i]? = some b) : groupOf subscribers i = b.group := by
  simp [groupOf, hb]

theorem alone_iff_onlyOne (hb : subscribers[i]? = some b) :
    Alone (SubscribedTo subscribers b.channel) (groupOf subscribers) i ↔
      OnlyOne subscribers i b := by
  constructor
  · intro halone j b' hb' hchannel hgroup
    refine halone j ⟨b', hb', hchannel⟩ ?_
    rw [groupOf_some hb', groupOf_some hb, hgroup]
  · rintro honly j ⟨b', hb', hchannel⟩ hgroup
    rw [groupOf_some hb', groupOf_some hb] at hgroup
    exact honly j b' hb' hchannel hgroup

theorem getsAll_iff (hb : subscribers[i]? = some b) :
    GetsAll S subscribers i b ↔ OnlyOne subscribers i b := by
  have hsubscribed : SubscribedTo subscribers b.channel i := ⟨b, hb, rfl⟩
  rw [← alone_iff_onlyOne hb, ← receives_iff_alone hsubscribed]
  constructor
  · intro hall choose hassigns
    let tombstone : Delivery R := { topic := b.channel, value := none, choose := choose }
    have hgets := hall [tombstone] (by simpa [tombstone] using hassigns)
    rw [groupOf_some hb]
    by_contra hne
    simp [handed, tombstone, hne] at hgets
  · intro hreceives deliveries hvalid
    unfold handed
    congr 1
    refine List.filter_congr fun d hd => ?_
    by_cases htopic : d.topic = b.channel
    · have hassigns := (hvalid d hd).2
      rw [htopic] at hassigns
      have hchosen := hreceives d.choose hassigns
      rw [groupOf_some hb] at hchosen
      simp [htopic, hchosen]
    · simp [htopic]

/-- Without `group_id`, all subscribers have one group. -/
theorem brokerSubscribers_group (base : String) {handlers : List PendingSubscription}
    (mainChannels : List String) (hgroups : ∀ q ∈ handlers, q.groupId = none) :
    ∀ b ∈ brokerSubscribers base handlers mainChannels, b.group = base := by
  intro b hb
  rcases List.mem_append.mp hb with hb | hb
  · obtain ⟨q, hq, rfl⟩ := List.mem_map.mp hb
    simp [PendingSubscription.brokerSubscriber, hgroups q hq]
  · obtain ⟨channel, -, rfl⟩ := List.mem_map.mp hb
    rfl

theorem brokerSubscribers_handler (base : String) {handlers : List PendingSubscription}
    (mainChannels : List String) (hp : handlers[i]? = some p) :
    (brokerSubscribers base handlers mainChannels)[i]? = some (p.brokerSubscriber base) := by
  have hlt : i < (handlers.map (PendingSubscription.brokerSubscriber base)).length := by
    rw [List.length_map]
    exact (List.getElem?_eq_some_iff.mp hp).1
  rw [brokerSubscribers, List.getElem?_append_left hlt, List.getElem?_map, hp, Option.map_some]

theorem onlyOne_iff {base : String} {handlers : List PendingSubscription}
    {mainChannels : List String} (hgroups : ∀ q ∈ handlers, q.groupId = none)
    (hp : handlers[i]? = some p) :
    OnlyOne (brokerSubscribers base handlers mainChannels) i (p.brokerSubscriber base) ↔
      (∀ (j : ℕ) q, handlers[j]? = some q → q.topic = p.topic → j = i) ∧
        p.topic ∉ mainChannels := by
  have hgroup := brokerSubscribers_group base mainChannels hgroups
  have hb := brokerSubscribers_handler base mainChannels hp
  have hbase := hgroup _ (List.mem_of_getElem? hb)
  constructor
  · intro honly
    constructor
    · intro j q hq htopic
      have hb' := brokerSubscribers_handler base mainChannels hq
      exact honly j _ hb' htopic ((hgroup _ (List.mem_of_getElem? hb')).trans hbase.symm)
    · intro hmain
      obtain ⟨k, hk⟩ := List.getElem?_of_mem hmain
      have hb' : (brokerSubscribers base handlers mainChannels)[handlers.length + k]? =
          some { channel := p.topic, group := base } := by
        rw [brokerSubscribers, List.getElem?_append_right (by simp)]
        simp [hk]
      have hsame := honly _ _ hb' rfl hbase.symm
      have hlt := (List.getElem?_eq_some_iff.mp hp).1
      omega
  · rintro ⟨hhandlers, hmain⟩ j b' hb' hchannel -
    rcases lt_or_ge j handlers.length with hj | hj
    · have hq : handlers[j]? = some (handlers.get ⟨j, hj⟩) := by simp [hj]
      have hb'' := brokerSubscribers_handler base mainChannels hq
      obtain rfl := Option.some.inj (hb''.symm.trans hb')
      exact hhandlers j _ hq hchannel
    · rw [brokerSubscribers, List.getElem?_append_right (by simpa using hj)] at hb'
      obtain ⟨channel, hmem, rfl⟩ := List.mem_map.mp (List.mem_of_getElem? hb')
      have htopic : channel = p.topic := hchannel
      rw [htopic] at hmem
      exact absurd hmem hmain

/-- In the aiokafka backend each registered handler gets every record of its channel in one
loop, in every run whose steps meet `Distinct`. In the FastStream backend a handler does
exactly when its channel has no other handler and no subscriber of the main loop. -/
theorem subscribers_fan_out (S : Service R E) :
    (∀ as s, Trace (messaging S) (Distinct S) as s → FannedOut S s) ∧
    ∀ handlers mainChannels, (∀ q ∈ handlers, q.groupId = none) →
      ∀ (i : ℕ) p, handlers[i]? = some p →
        (GetsAll S (brokerSubscribers S.consumerGroupId handlers mainChannels) i
            (p.brokerSubscriber S.consumerGroupId) ↔
          (∀ (j : ℕ) q, handlers[j]? = some q → q.topic = p.topic → j = i) ∧
            p.topic ∉ mainChannels) := by
  constructor
  · intro as s htrace
    have hinv : Inv S s := Trace.induct (I := fun _ s => Inv S s)
      (fun s hs => by
        rw [hs]
        exact inv_init)
      (fun past s a t _ h hok hnext => distinct_inv past s a t h hok hnext) as s htrace
    exact hinv.fannedOut
  · intro handlers mainChannels hgroups i p hp
    rw [getsAll_iff (brokerSubscribers_handler _ mainChannels hp), onlyOne_iff hgroups hp]

def plainService : Service String String where
  consumerGroupId := "base"
  consumerChannels := []
  decode _ raw := .event raw

def billing : PendingSubscription := { topic := "orders", agentName := "billing" }

def audit : PendingSubscription := { topic := "orders", agentName := "audit" }

/-- The `i`th handler's group is `base_agent_` and its name. -/
def chooseAgent (group : String) : Member := .agent (if group = "base_agent_billing" then 0 else 1)

/-- Handlers with two names get one message each. -/
theorem subscribers_fan_out_two :
    (∃ s, Trace (messaging plainService) (Distinct plainService)
      [.subscriber billing, .subscriber audit, .apply, .started 0, .started 0,
        .publish "orders" (some "paid") chooseAgent, .take 0 .returns] s ∧
      FannedOut plainService s ∧ s.loops.map ConsumeLoop.handled = [["paid"], []]) ∧
    GetsAll plainService (brokerSubscribers "base" [billing] []) 0
      (billing.brokerSubscriber "base") := by
  constructor
  · have h₀ : Trace (messaging plainService) (Distinct plainService) [] {} := ⟨{}, rfl, Path.nil⟩
    have h₁ := h₀.snoc (a := Act.subscriber billing) ⟨rfl, by simp⟩ rfl
    have h₂ := h₁.snoc (a := Act.subscriber audit) ⟨rfl, by simp [billing, audit]⟩ rfl
    have h₃ := h₂.snoc (a := Act.apply) trivial rfl
    have h₄ := h₃.snoc (a := Act.started 0) (by
      intro snapshot p i rest h
      simp) rfl
    have h₅ := h₄.snoc (a := Act.started 0) (by
      intro snapshot p i rest h
      cases h
      decide) rfl
    have h₆ := h₅.snoc (a := Act.publish "orders" (some "paid") chooseAgent) (by
      rintro (_ | i) hm
      · cases hm
      · match i, hm with
        | 0, _ => exact ⟨⟨_, rfl, rfl, rfl⟩, rfl⟩
        | 1, _ => exact ⟨⟨_, rfl, rfl, rfl⟩, rfl⟩
        | i + 2, ⟨_, hl, _⟩ => cases hl) rfl
    have h₇ := h₆.snoc (a := Act.take 0 .returns) (by
      intro l value rest h hwaiting
      cases h
      cases hwaiting
      exact Outcome.noConfusion) rfl
    exact ⟨_, h₇, (subscribers_fan_out plainService).1 _ _ h₇, rfl⟩
  · refine ((subscribers_fan_out plainService).2 [billing] [] (by simp [billing]) 0 billing
      rfl).mpr ⟨?_, by simp⟩
    rintro (_ | j) q hq _
    · rfl
    · cases hq

/-- What Kafka promises, and no other condition. -/
def KafkaOnly (S : Service R E) : Condition (Messaging R E) (Act R)
  | _, s, .publish topic _ choose => Assigns (s.Subscribed S topic) (s.group S) choose
  | _, _, _ => True

/-- Of two handlers with one name the second has no loop, and of two overlapping calls of
`apply` each starts one for the same handler. With FastStream one of two handlers of a
channel gets nothing. -/
theorem twins_miss_messages :
    (¬ ∀ (S : Service String String) as s, Trace (messaging S) (KafkaOnly S) as s →
      FannedOut S s) ∧
    (∃ s, Trace (messaging plainService) (KafkaOnly plainService)
      [.subscriber billing, .apply, .apply, .started 0, .started 1] s ∧
      s.loops.map (fun l => l.agent.registration) = [0, 0]) ∧
    ¬ GetsAll plainService (brokerSubscribers "base" [billing, audit] []) 1
      (audit.brokerSubscriber "base") := by
  have h₀ : Trace (messaging plainService) (KafkaOnly plainService) [] {} :=
    ⟨{}, rfl, Path.nil⟩
  have h₁ := h₀.snoc (a := Act.subscriber billing) trivial rfl
  refine ⟨?_, ?_, ?_⟩
  · intro hall
    have h₂ := h₁.snoc (a := Act.subscriber billing) trivial rfl
    have h₃ := h₂.snoc (a := Act.apply) trivial rfl
    have h₄ := h₃.snoc (a := Act.started 0) trivial rfl
    obtain ⟨k, l, hl, hregistration, -⟩ := hall plainService _ _ h₄ _ (List.mem_singleton_self _)
      0 rfl billing 1 (by simp [Messaging.proceed])
    have hposition := (hregistration k l hl).mpr rfl
    match k, hl with
    | 0, hl =>
      cases hl
      cases hposition
    | k + 1, hl => cases hl
  · have h₂ := h₁.snoc (a := Act.apply) trivial rfl
    have h₃ := h₂.snoc (a := Act.apply) trivial rfl
    have h₄ := h₃.snoc (a := Act.started 0) trivial rfl
    have h₅ := h₄.snoc (a := Act.started 1) trivial rfl
    exact ⟨_, h₅, rfl⟩
  · rw [getsAll_iff rfl]
    intro honly
    cases honly 0 _ rfl rfl rfl

end Taas.SubscriberFanOut
