import Taas.OutboxPoller

/-!
The order in which the events of one channel and ordering key are published. A batch is
claimed in `created_at` order and published in that order, but nothing ties the rows of a
key together: after a failed publish the poller goes on to the next event, and the rows
of a key may be claimed by several workers. While no batch passes over an earlier event of
the key and no publish fails before a later one, the key is published in order.
-/
namespace Taas.OutboxOrder

open Python Sql Outbox Transition OutboxPoller

variable {J : Type} {n : ℕ}

/-- The `created_at` of the row `id` when its event has this channel and ordering key. -/
def stamp (channel : String) (key : Option String) (t : OutboxTable J) (id : String) : Option ℤ :=
  (t.get? id).bind fun e =>
    if e.channel = channel ∧ e.orderingKey = key then some e.createdAt else none

/-- Both rows have the channel and the key, and `i` was created before `j`. -/
def Before (channel : String) (key : Option String) (t : OutboxTable J) (i j : String) : Prop :=
  ∃ a ∈ stamp channel key t i, ∃ b ∈ stamp channel key t j, a < b

instance (channel : String) (key : Option String) (t : OutboxTable J) (i j : String) :
    Decidable (Before channel key t i j) := by
  unfold Before
  infer_instance

/-- What a step publishes successfully. -/
def published (s : Poller J n) : Act J n → List String
  | .publishReturns _ w => ((s.worker w).publishing.map Prod.fst).toList
  | _ => []

/-- Whenever an event of the key was published, every earlier one already was or is dead. -/
def PublishedInOrder (channel : String) (key : Option String) (x : Poller J n × List String) :
    Prop :=
  ∀ l id l', x.2 = l ++ id :: l' → ∀ j, Before channel key x.1.table j id →
    j ∈ l ∨ ∃ e, x.1.table.get? j = some e ∧ e.status = .deadLetter

/-- No event of the key is saved with a `created_at` before that of a claimed one, no batch
takes an event of the key while an earlier one is being processed or out of the reach of
the claim query, and no publish raises that a later event of the key waits behind. -/
def KeyKept (channel : String) (key : Option String) : Condition (Poller J n) (Act J n) :=
  fun _ s a =>
    match a with
    | .save _ created _ m => m.channel = channel ∧ m.orderingKey = key →
        ∀ id ∈ s.claims, ∀ b ∈ stamp channel key s.table id, b ≤ created
    | .fetch now _ ids => ∀ id ∈ ids, ∀ x ∈ s.table.rows, Before channel key s.table x.1 id →
        x.2.status ≠ .processing ∧ (x.2.status = .pending → claimable now x.2 = true)
    | .publishRaises w => ∀ event ∈ (s.worker w).publishing, ∀ later ∈ (s.worker w).batch,
        ¬ Before channel key s.table event.1 later.1
    | _ => True

instance (channel : String) (key : Option String) (as : List (Act J n)) (s : Poller J n)
    (a : Act J n) : Decidable (KeyKept channel key as s a) :=
  match a with
  | .save _ _ _ _ | .fetch _ _ _ | .handOff _ | .publishReturns _ _ | .publishRaises _
  | .crash _ | .resetStale _ => by unfold KeyKept; infer_instance

/-- The ids that a worker will publish, the one in progress first. -/
def queue (x : Worker J) : List String := (x.publishing.toList ++ x.batch).map Prod.fst

/-- The publications so far are in order, and so are those that each queue still brings. -/
structure Ordered (channel : String) (key : Option String) (x : Poller J n × List String) :
    Prop where
  published : ∀ l id l', x.2 = l ++ id :: l' → ∀ j, Before channel key x.1.table j id → j ∈ l
  covered : ∀ w l id l', queue (x.1.worker w) = l ++ id :: l' →
    ∀ j, Before channel key x.1.table j id → j ∈ x.2 ∨ j ∈ l
  status : ∀ id e, x.1.table.get? id = some e →
    e.status = .pending ∨ e.status = .processing ∨ e.status = .published ∧ id ∈ x.2
  claimed : ∀ id ∈ x.2, id ∈ x.1.claims
  queued : ∀ w, ∀ id ∈ queue (x.1.worker w), id ∈ x.1.claims
  rows : ∀ id ∈ x.1.claims, ∃ e, x.1.table.get? id = some e

variable {config : OutboxConfig} {s s' : Poller J n} {a : Act J n} {as : List (Act J n)}
variable {t t' : OutboxTable J} {now : ℤ} {id i j : String} {ids : List String} {w : Fin n}
variable {channel : String} {key : Option String} {record : List String}

theorem stamp_of_map {f : String → OutboxEvent J → OutboxEvent J}
    (hf : ∀ j e, (f j e).channel = e.channel ∧ (f j e).orderingKey = e.orderingKey ∧
      (f j e).createdAt = e.createdAt)
    (htable : ∀ j, t'.get? j = (t.get? j).map (f j)) (j : String) :
    stamp channel key t' j = stamp channel key t j := by
  unfold stamp
  rw [htable j]
  cases t.get? j with
  | none => rfl
  | some e =>
    obtain ⟨h1, h2, h3⟩ := hf j e
    simp [h1, h2, h3]

theorem before_congr (h : ∀ j, stamp channel key t' j = stamp channel key t j) :
    Before channel key t' i j ↔ Before channel key t i j := by
  unfold Before
  rw [h i, h j]

theorem stamp_fetchPendingBatch (j : String) :
    stamp channel key (fetchPendingBatch now ids t) j = stamp channel key t j := by
  apply stamp_of_map _ (get?_fetchPendingBatch now ids t)
  intro j e
  split <;> simp

theorem stamp_markPublished (j : String) :
    stamp channel key (markPublished now id t) j = stamp channel key t j := by
  apply stamp_of_map _ (get?_markPublished now id t)
  intro j e
  split <;> simp

theorem stamp_resetStaleProcessing {timeoutSeconds : Option ℤ} (j : String) :
    stamp channel key (resetStaleProcessing config timeoutSeconds now t).1 j =
      stamp channel key t j := by
  apply stamp_of_map _ (get?_resetStaleProcessing config timeoutSeconds now t)
  intro j e
  split <;> simp

theorem exists_row_of_mem_stamp {b : ℤ} (h : b ∈ stamp channel key t j) :
    ∃ e, t.get? j = some e ∧ e.createdAt = b := by
  obtain ⟨e, he, hb⟩ := Option.bind_eq_some_iff.mp (Option.mem_def.mp h)
  simp only [Option.ite_none_right_eq_some, Option.some.injEq] at hb
  exact ⟨e, he, hb.2⟩

theorem Before.exists_rows (h : Before channel key t i j) :
    ∃ e f, t.get? i = some e ∧ t.get? j = some f ∧ e.createdAt < f.createdAt := by
  obtain ⟨a, ha, b, hb, hab⟩ := h
  obtain ⟨e, he, rfl⟩ := exists_row_of_mem_stamp ha
  obtain ⟨f, hf, rfl⟩ := exists_row_of_mem_stamp hb
  exact ⟨e, f, he, hf, hab⟩

/-- A row is before a claimed one after a save only if it was before it already. -/
theorem before_of_save {created : ℤ} {m : RawMessage J}
    (ht : t.insert id (m.event config created) = some t')
    (hrow : ∃ e, t.get? j = some e)
    (hlate : m.channel = channel ∧ m.orderingKey = key → ∀ b ∈ stamp channel key t j, b ≤ created)
    (h : Before channel key t' i j) : Before channel key t i j := by
  obtain ⟨hnew, hget⟩ := Table.insert_eq_some ht
  have hold : ∀ k, k ≠ id → stamp channel key t' k = stamp channel key t k := by
    intro k hk
    simp [stamp, hget k, hk]
  have hj : j ≠ id := by
    rintro rfl
    obtain ⟨e, he⟩ := hrow
    simp [hnew] at he
  obtain ⟨a, ha, b, hb, hab⟩ := h
  rw [hold j hj] at hb
  by_cases hi : i = id
  · subst hi
    have hstamp : stamp channel key t' i = if m.channel = channel ∧ m.orderingKey = key then
        some created else none := by
      simp [stamp, hget i, RawMessage.event]
    rw [hstamp] at ha
    simp only [Option.mem_def, Option.ite_none_right_eq_some, Option.some.injEq] at ha
    have := hlate ha.1 b hb
    omega
  · rw [hold i hi] at ha
    exact ⟨a, ha, b, hb, hab⟩

/-- Steps that only move statuses, and to PUBLISHED only those of published rows. -/
theorem Ordered.ofStatuses (hi : Ordered channel key (s, record))
    (hstamp : ∀ j, stamp channel key s'.table j = stamp channel key s.table j)
    (hstatus : ∀ j e', s'.table.get? j = some e' → ∃ e, s.table.get? j = some e ∧
      (e'.status = .pending ∨ e'.status = .processing ∨ e'.status = .published ∧ j ∈ record ∨
        e'.status = e.status))
    (hrows : ∀ j e, s.table.get? j = some e → ∃ e', s'.table.get? j = some e')
    (hclaims : s'.claims = s.claims)
    (hqueue : ∀ w, ∃ l, queue (s.worker w) = l ++ queue (s'.worker w) ∧
      ∀ i ∈ l, ∀ j ∈ queue (s'.worker w), ¬ Before channel key s.table i j) :
    Ordered channel key (s', record) := by
  refine ⟨fun l id l' h j hj => ?_, fun w l id l' h j hj => ?_, fun id e' he' => ?_,
    fun id hid => ?_, fun w id hid => ?_, fun id hid => ?_⟩
  · exact hi.published l id l' h j ((before_congr hstamp).mp hj)
  · have hj' := (before_congr hstamp).mp hj
    obtain ⟨gone, hgone, hfree⟩ := hqueue w
    change queue (s'.worker w) = l ++ id :: l' at h
    have hold : queue (s.worker w) = (gone ++ l) ++ id :: l' := by
      rw [hgone, h, List.append_assoc]
    rcases hi.covered w _ id l' hold j hj' with hrec | hmem
    · exact Or.inl hrec
    · rcases List.mem_append.mp hmem with hg | hl
      · exact absurd hj' (hfree j hg id (by simp [h]))
      · exact Or.inr hl
  · obtain ⟨e, he, hs⟩ := hstatus id e' he'
    rcases hs with hs | hs | hs | hs
    · exact Or.inl hs
    · exact Or.inr (Or.inl hs)
    · exact Or.inr (Or.inr hs)
    · rw [hs]
      exact hi.status id e he
  · exact hclaims ▸ hi.claimed id hid
  · obtain ⟨gone, hgone, _⟩ := hqueue w
    have hmem : id ∈ queue (s.worker w) := by
      rw [hgone]
      exact List.mem_append_right _ hid
    exact hclaims ▸ hi.queued w id hmem
  · have hid' : id ∈ s.claims := hclaims ▸ hid
    obtain ⟨e, he⟩ := hi.rows id hid'
    exact hrows id e he

theorem ordered_save {created : ℤ} {m : RawMessage J} (hi : Ordered channel key (s, record))
    (ht : s.table.insert id (m.event config created) = some t)
    (hok : m.channel = channel ∧ m.orderingKey = key →
      ∀ i ∈ s.claims, ∀ b ∈ stamp channel key s.table i, b ≤ created) :
    Ordered channel key ({ s with clock := now, table := t }, record) := by
  obtain ⟨hnew, hget⟩ := Table.insert_eq_some ht
  have hbefore : ∀ i ∈ s.claims, ∀ j, Before channel key t j i →
      Before channel key s.table j i := by
    intro i hmem j
    exact before_of_save ht (hi.rows i hmem) fun hm => hok hm i hmem
  refine ⟨fun l i l' h j hj => ?_, fun w l i l' h j hj => ?_, fun i e he => ?_, hi.claimed,
    hi.queued, fun i hmem => ?_⟩
  · have hmem : i ∈ record := by
      change record = l ++ i :: l' at h
      simp [h]
    exact hi.published l i l' h j (hbefore i (hi.claimed i hmem) j hj)
  · have hmem : i ∈ queue (s.worker w) := by
      change queue (s.worker w) = l ++ i :: l' at h
      simp [h]
    exact hi.covered w l i l' h j (hbefore i (hi.queued w i hmem) j hj)
  · change t.get? i = some e at he
    rw [hget i] at he
    split at he
    · obtain rfl := Option.some.inj he
      exact Or.inl rfl
    · exact hi.status i e he
  · obtain ⟨e, he⟩ := hi.rows i hmem
    have hne : i ≠ id := by
      rintro rfl
      simp [hnew] at he
    exact ⟨e, by show t.get? i = some e; rw [hget i, if_neg hne, he]⟩

/-- An unpublished row that is before a claimed one is in the batch ahead of it. -/
theorem mem_ahead_of_before {l l' : List String} (hi : Ordered channel key (s, record))
    (hids : Fetches config (some config.batchSize) now s.table (l ++ id :: l'))
    (hok : ∀ x ∈ s.table.rows, Before channel key s.table x.1 id →
      x.2.status ≠ .processing ∧ (x.2.status = .pending → claimable now x.2 = true))
    (hj : Before channel key s.table j id) : j ∈ record ∨ j ∈ l := by
  obtain ⟨e, f, he, hf, hlt⟩ := hj.exists_rows
  have hrow : (j, e) ∈ s.table.rows := (s.table.mem_rows_iff j e).mpr he
  obtain ⟨hproc, hpend⟩ := hok (j, e) hrow hj
  rcases hi.status j e he with hs | hs | ⟨_, hrec⟩
  · right
    have hsel : j ∈ l ++ id :: l' := by
      by_contra hnot
      -- the limit was used up by rows that are not later than `j`
      have hle := (hids.full (j, e) hrow (hpend hs) hnot).2 id (by simp) f hf
      change f.createdAt ≤ e.createdAt at hle
      omega
    rcases List.mem_append.mp hsel with hl | hr
    · exact hl
    · have hsorted := (List.pairwise_append.mp hids.sorted).2.1
      rcases List.mem_cons.mp hr with rfl | hr
      · rw [he] at hf
        obtain rfl := Option.some.inj hf
        omega
      · have hle := (List.pairwise_cons.mp hsorted).1 j hr f hf e he
        change f.createdAt ≤ e.createdAt at hle
        omega
  · exact absurd hs hproc
  · exact Or.inl hrec

theorem ordered_fetch (hi : Ordered channel key (s, record))
    (hids : Fetches config (some config.batchSize) now s.table ids)
    (hok : ∀ i ∈ ids, ∀ x ∈ s.table.rows, Before channel key s.table x.1 i →
      x.2.status ≠ .processing ∧ (x.2.status = .pending → claimable now x.2 = true)) :
    Ordered channel key
      ({ s.setWorker w { batch := (fetchPendingBatch now ids s.table).rowsOf ids } with
        clock := now
        table := fetchPendingBatch now ids s.table
        claims := ids ++ s.claims }, record) := by
  have hqueue : queue { batch := (fetchPendingBatch now ids s.table).rowsOf ids } = ids := by
    apply Table.rowsOf_keys
    intro i hmem
    obtain ⟨e, he, _⟩ := hids.row hmem
    exact ⟨_, by rw [get?_fetchPendingBatch, he]; rfl⟩
  have hbefore : ∀ i j, Before channel key (fetchPendingBatch now ids s.table) i j ↔
      Before channel key s.table i j := fun i j => before_congr stamp_fetchPendingBatch
  refine ⟨fun l id l' h j hj => ?_, fun v l id l' h j hj => ?_, fun id e' he' => ?_,
    fun id hid => ?_, fun v id hid => ?_, fun id hid => ?_⟩
  · exact hi.published l id l' h j ((hbefore j id).mp hj)
  · have hj' := (hbefore j id).mp hj
    by_cases hv : v = w
    · subst hv
      simp only [setWorker_self, hqueue] at h
      rw [h] at hids
      exact mem_ahead_of_before hi hids (hok id (by simp [h])) hj'
    · simp only [setWorker_of_ne hv] at h
      exact hi.covered v l id l' h j hj'
  · change (fetchPendingBatch now ids s.table).get? id = some e' at he'
    rw [get?_fetchPendingBatch] at he'
    obtain ⟨e, he, rfl⟩ := Option.map_eq_some_iff.mp he'
    by_cases hmem : id ∈ ids
    · simp [hmem]
    · simp only [hmem, if_false]
      exact hi.status id e he
  · exact List.mem_append_right _ (hi.claimed id hid)
  · by_cases hv : v = w
    · subst hv
      simp only [setWorker_self, hqueue] at hid
      exact List.mem_append_left _ hid
    · simp only [setWorker_of_ne hv] at hid
      exact List.mem_append_right _ (hi.queued v id hid)
  · have hrow : ∃ e, s.table.get? id = some e := by
      rcases List.mem_append.mp hid with hmem | hmem
      · obtain ⟨e, he, _⟩ := hids.row hmem
        exact ⟨e, he⟩
      · exact hi.rows id hmem
    obtain ⟨e, he⟩ := hrow
    exact ⟨_, by show (fetchPendingBatch now ids s.table).get? id = _
                 rw [get?_fetchPendingBatch, he]; rfl⟩

/-- The head of a queue may be published: what comes before it is. -/
theorem ordered_recorded {x : Worker J} (hi : Ordered channel key (s, record))
    (hhead : queue (s.worker w) = id :: queue x) :
    Ordered channel key (s.setWorker w x, record ++ [id]) := by
  refine ⟨fun l k l' h j hj => ?_, fun v l k l' h j hj => ?_, fun k e he => ?_,
    fun k hk => ?_, fun v k hk => ?_, hi.rows⟩
  · change record ++ [id] = l ++ k :: l' at h
    rcases List.eq_nil_or_concat l' with rfl | ⟨l'', last, rfl⟩
    · obtain ⟨rfl, hlast⟩ := List.append_inj' h rfl
      obtain rfl := List.singleton_inj.mp hlast
      rcases hi.covered w [] _ _ hhead j hj with hrec | hnil
      · exact hrec
      · cases hnil
    · have hsplit : record ++ [id] = (l ++ k :: l'') ++ [last] := by
        rw [h]
        simp
      obtain ⟨hrec, _⟩ := List.append_inj' hsplit rfl
      exact hi.published l k l'' hrec j hj
  · show j ∈ record ++ [id] ∨ j ∈ l
    by_cases hv : v = w
    · subst hv
      simp only [setWorker_self] at h
      have hold : queue (s.worker v) = (id :: l) ++ k :: l' := by
        rw [hhead, h, List.cons_append]
      rcases hi.covered v _ k l' hold j hj with hrec | hmem
      · exact Or.inl (List.mem_append_left _ hrec)
      · rcases List.mem_cons.mp hmem with rfl | hl
        · exact Or.inl (by simp)
        · exact Or.inr hl
    · simp only [setWorker_of_ne hv] at h
      rcases hi.covered v l k l' h j hj with hrec | hl
      · exact Or.inl (List.mem_append_left _ hrec)
      · exact Or.inr hl
  · rcases hi.status k e he with hs | hs | ⟨hs, hrec⟩
    · exact Or.inl hs
    · exact Or.inr (Or.inl hs)
    · exact Or.inr (Or.inr ⟨hs, List.mem_append_left _ hrec⟩)
  · rcases List.mem_append.mp hk with hrec | hlast
    · exact hi.claimed k hrec
    · obtain rfl := List.mem_singleton.mp hlast
      exact hi.queued w _ (by simp [hhead])
  · by_cases hv : v = w
    · subst hv
      simp only [setWorker_self] at hk
      exact hi.queued v k (by rw [hhead]; exact List.mem_cons_of_mem _ hk)
    · simp only [setWorker_of_ne hv] at hk
      exact hi.queued v k hk

theorem ordered_publishReturns {event : String × OutboxEvent J}
    (hi : Ordered channel key (s, record)) (hp : (s.worker w).publishing = some event) :
    Ordered channel key
      ({ s.setWorker w { s.worker w with publishing := none } with
        clock := now
        table := markPublished now event.1 s.table }, record ++ [event.1]) := by
  have hhead : queue (s.worker w) = event.1 :: queue { s.worker w with publishing := none } := by
    simp [queue, hp]
  refine (ordered_recorded hi hhead).ofStatuses stamp_markPublished (fun j e' he' => ?_)
    (fun j e he => ?_) rfl fun v => ⟨[], rfl, by simp⟩
  · change (markPublished now event.1 s.table).get? j = some e' at he'
    rw [get?_markPublished] at he'
    obtain ⟨e, he, rfl⟩ := Option.map_eq_some_iff.mp he'
    refine ⟨e, he, ?_⟩
    split
    · rename_i hj
      simp [hj]
    · simp
  · exact ⟨_, by show (markPublished now event.1 s.table).get? j = _
                 rw [get?_markPublished]
                 exact congrArg _ he⟩

/-- A worker that drops the head of its queue, or all of it, leaves the rest covered. -/
theorem ordered_setWorker {x : Worker J} {gone : List String} (hi : Ordered channel key (s, record))
    (hgone : queue (s.worker w) = gone ++ queue x)
    (hfree : ∀ i ∈ gone, ∀ j ∈ queue x, ¬ Before channel key s.table i j)
    (htable : s'.table = s.table) (hclaims : s'.claims = s.claims)
    (hworker : s'.worker = (s.setWorker w x).worker) : Ordered channel key (s', record) := by
  refine hi.ofStatuses (fun j => by rw [htable]) (fun j e' he' => ⟨e', ?_, by simp⟩)
    (fun j e he => ⟨e, by rw [htable, he]⟩) hclaims fun v => ?_
  · rw [← htable]
    exact he'
  · rw [hworker]
    by_cases hv : v = w
    · subst hv
      rw [setWorker_self]
      exact ⟨gone, hgone, hfree⟩
    · rw [setWorker_of_ne hv]
      exact ⟨[], by simp⟩

theorem ordered_step (hi : Ordered channel key (s, record)) (hok : KeyKept channel key as s a)
    (hstep : next config s a = some s') :
    Ordered channel key (s', record ++ published s a) := by
  rcases next_cases hstep with ⟨now, created, j, m, t, rfl, _, _, ht, rfl⟩ |
      ⟨now, w, ids, rfl, _, _, _, hids, rfl⟩ | ⟨w, event, batch, rfl, hb, hp, rfl⟩ |
      ⟨now, w, event, rfl, _, hp, rfl⟩ | ⟨w, event, moved, rfl, hp, rfl⟩ | ⟨w, rfl, rfl⟩ |
      ⟨now, rfl, _, rfl⟩
  · simpa [published] using ordered_save hi ht hok
  · simpa [published] using ordered_fetch hi hids hok
  · show Ordered channel key (_, record ++ [])
    rw [List.append_nil]
    have hsame : queue (s.worker w) = [] ++ queue { batch := batch, publishing := some event } := by
      simp [queue, hb, hp]
    exact ordered_setWorker hi hsame (fun i hmem => absurd hmem (by simp)) rfl rfl rfl
  · have hpub : published s (.publishReturns now w) = [event.1] := by simp [published, hp]
    rw [hpub]
    exact ordered_publishReturns hi hp
  · show Ordered channel key (_, record ++ [])
    rw [List.append_nil]
    have hhead : queue (s.worker w) =
        [event.1] ++ queue { s.worker w with publishing := none } := by
      simp [queue, hp]
    refine ordered_setWorker hi hhead (fun i hi' j hj => ?_) rfl rfl rfl
    obtain rfl := List.mem_singleton.mp hi'
    obtain ⟨later, hmem, rfl⟩ := List.mem_map.mp hj
    exact hok event hp later (by simpa using hmem)
  · show Ordered channel key (_, record ++ [])
    rw [List.append_nil]
    exact ordered_setWorker hi (List.append_nil _).symm
      (fun _ _ j hj => absurd hj (by simp [queue]))
      rfl rfl rfl
  · show Ordered channel key (_, record ++ [])
    rw [List.append_nil]
    refine hi.ofStatuses stamp_resetStaleProcessing (fun j e' he' => ?_) (fun j e he => ?_) rfl
      fun w => ⟨[], by simp⟩
    · change (resetStaleProcessing config none now s.table).1.get? j = some e' at he'
      rw [get?_resetStaleProcessing] at he'
      obtain ⟨e, he, rfl⟩ := Option.map_eq_some_iff.mp he'
      refine ⟨e, he, ?_⟩
      split <;> simp
    · exact ⟨_, by show (resetStaleProcessing config none now s.table).1.get? j = _
                   rw [get?_resetStaleProcessing, he]; rfl⟩

/-- In every run that keeps the key together, its events are published in the order of
their `created_at`. -/
theorem key_published_in_order {x : Poller J n × List String}
    (h : Trace ((pollers J n config).recording published) ((KeyKept channel key).ignoring String)
      as x) : PublishedInOrder channel key x := by
  have hi : Ordered channel key x := by
    refine Trace.induct (M := (pollers J n config).recording published)
      (I := fun _ x => Ordered channel key x) ?_ ?_ as x h
    · intro x hinit
      obtain ⟨s, record⟩ := x
      have hs : s = { clock := s.clock, table := Table.empty } := hinit.1
      obtain rfl : record = [] := hinit.2
      rw [hs]
      refine ⟨fun l id l' hrec => ?_, fun w l id l' hq => ?_, fun id e he => ?_,
        fun id hid => ?_, fun w id hid => ?_, fun id hid => ?_⟩
      · simp at hrec
      · simp [queue] at hq
      · simp [Table.get?_empty] at he
      · cases hid
      · simp [queue] at hid
      · cases hid
    · intro _ x a y _ hi hok hstep
      obtain ⟨hnext, hrec⟩ := recording_next hstep
      obtain ⟨s', record⟩ := y
      obtain rfl : record = x.2 ++ published x.1 a := hrec
      exact ordered_step hi hok hnext
  exact fun l id l' hrec j hj => Or.inl (hi.published l id l' hrec j hj)

theorem recording_init (clock : ℤ) :
    ((pollers J n config).recording published).init
      ({ clock := clock, table := Table.empty }, []) :=
  ⟨rfl, rfl⟩

def message : RawMessage Unit where
  channel := "orders"
  payload := ()
  eventType := "OrderPlaced"
  orderingKey := some "user-1"
  headers := ()

/-- The worker of the first event crashes; the second is claimed when the first is published. -/
theorem key_published_in_order_shared :
    let as : List (Act Unit 2) :=
      [.save 0 0 "a" message, .save 1 1 "b" message, .fetch 2 0 ["a"], .handOff 0, .crash 0,
        .resetStale 30000003, .fetch 30000004 1 ["a"], .handOff 1, .publishReturns 30000005 1,
        .fetch 30000006 0 ["b"], .handOff 0, .publishReturns 30000007 0]
    ∃ x, Trace ((pollers Unit 2 { batchSize := 1 }).recording published)
        ((KeyKept "orders" (some "user-1")).ignoring String) as x ∧
      x.2 = ["a", "b"] ∧ PublishedInOrder "orders" (some "user-1") x := by
  intro as
  have h : (replay ((pollers Unit 2 { batchSize := 1 }).recording published)
      ((KeyKept "orders" (some "user-1")).ignoring String) [] as
      ({ clock := 0, table := Table.empty }, [])).map Prod.snd = some ["a", "b"] := by
    decide +kernel
  obtain ⟨x, hrun, hrec⟩ := Option.map_eq_some_iff.mp h
  have ht := trace_of_replay (recording_init 0) hrun
  exact ⟨x, ht, hrec, key_published_in_order ht⟩

/-- One event of the key was published and an earlier one is neither published nor dead. -/
def passedOver (x : Poller Unit n × List String) : Bool :=
  x.2 = ["b"] ∧ Before "orders" (some "user-1") x.1.table "a" "b" ∧
    (x.1.table.get? "a").all fun e => e.status ≠ .deadLetter

theorem not_in_order_of_passedOver {x : Poller Unit n × List String} (h : passedOver x = true) :
    ¬ PublishedInOrder "orders" (some "user-1") x := by
  intro horder
  simp only [passedOver, decide_eq_true_eq] at h
  obtain ⟨hrec, hbefore, hdead⟩ := h
  rcases horder [] "b" [] hrec "a" hbefore with hnil | ⟨e, he, hs⟩
  · cases hnil
  · simp [he, hs] at hdead

theorem exists_passedOver (config : OutboxConfig) (as : List (Act Unit n))
    (h : (replay ((pollers Unit n config).recording published) free [] as
      ({ clock := 0, table := Table.empty }, [])).map passedOver = some true) :
    ∃ x, Trace ((pollers Unit n config).recording published) free as x ∧
      ¬ PublishedInOrder "orders" (some "user-1") x := by
  obtain ⟨x, hrun, hpassed⟩ := Option.map_eq_some_iff.mp h
  exact ⟨x, trace_of_replay (recording_init 0) hrun, not_in_order_of_passedOver hpassed⟩

/-- A later event is published first when the publish of the earlier one raises, while
another worker holds the earlier one, when the earlier one is more than a week old, and
when the earlier one is saved after it. -/
theorem earlier_event_is_passed_over :
    (¬ ∀ (config : OutboxConfig) (channel : String) (key : Option String) (as : List (Act Unit 1))
      (x : Poller Unit 1 × List String), Trace ((pollers Unit 1 config).recording published) free
        as x → PublishedInOrder channel key x) ∧
    (∃ x, Trace ((pollers Unit 2 {}).recording published) free
      [.save 0 0 "a" message, .fetch 0 0 ["a"], .save 1 1 "b" message, .fetch 1 1 ["b"],
        .handOff 0, .handOff 1, .publishReturns 2 1] x ∧
      ¬ PublishedInOrder "orders" (some "user-1") x) ∧
    (∃ x, Trace ((pollers Unit 1 {}).recording published) free
      [.save 0 0 "a" message, .save 1 1 "b" message, .fetch (days 7 + 1) 0 ["b"], .handOff 0,
        .publishReturns (days 7 + 2) 0] x ∧
      ¬ PublishedInOrder "orders" (some "user-1") x) ∧
    ∃ x, Trace ((pollers Unit 1 {}).recording published) free
      [.save 1 1 "b" message, .fetch 1 0 ["b"], .handOff 0, .publishReturns 2 0,
        .save 3 0 "a" message] x ∧
      ¬ PublishedInOrder "orders" (some "user-1") x := by
  refine ⟨fun hclaim => ?_, exists_passedOver _ _ (by decide +kernel),
    exists_passedOver _ _ (by decide +kernel), exists_passedOver _ _ (by decide +kernel)⟩
  obtain ⟨x, ht, hnot⟩ := exists_passedOver (n := 1) {}
    [.save 0 0 "a" message, .save 1 1 "b" message, .fetch 2 0 ["a", "b"], .handOff 0,
      .publishRaises 0, .handOff 0, .publishReturns 3 0] (by decide +kernel)
  exact hnot (hclaim {} _ _ _ x ht)

end Taas.OutboxOrder
