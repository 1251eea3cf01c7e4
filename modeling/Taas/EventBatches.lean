import Mathlib.Data.List.Nodup
import Mathlib.Data.List.Range
import Taas.EventProcessor
import Taas.Fallible
import Taas.Transition

/-!
`process_events_batch` of the fast event processor, with parallel execution enabled. Any number of
batches and clean-ups run interleaved and share the set of processing tasks; each runs from one
suspension to the next in one step. A task that has ended leaves the set when its callback runs,
which is before the callbacks of those that wait for it.
-/
namespace Taas.EventBatches

open EventProcessor Transition

structure EventProcessorConfig where
  maxConcurrentTasks : ℤ := 10

/-- The last check of `validate`; the others read nothing that the batches use. -/
def EventProcessorConfig.validate (config : EventProcessorConfig) : Except String Unit :=
  if config.maxConcurrentTasks ≤ 0 then
    .error ("max_concurrent_tasks must be > 0, got " ++ toString config.maxConcurrentTasks)
  else .ok ()

/-- How `process_event` ends on an event: with a result, an `Exception` or a `CancelledError`. -/
inductive Outcome
  | returned (result : ProcessingResult)
  | raised (error : String)
  | cancelled

inductive Status
  | running
  | ended (outcome : Outcome)

/-- What `_process_event_for_batch` has put into the results of its batch. -/
def stored (event : BaseEvent) : Status → Option ProcessingResult
  | .running => none
  | .ended (.returned result) => some result
  | .ended (.raised error) => some {
      success := false
      eventId := event.eventId
      error := some error
      message := "Batch processing error" }
  | .ended .cancelled => none

structure BatchTask where
  batch : ℕ
  index : ℕ
  status : Status := .running

/-- A batch waits for the first of some tasks to end, or for all of them; in the latter case
somebody may have cancelled it. -/
inductive Phase
  | waiting (fs : List ℕ)
  | gathering (children : List ℕ) (cancelled : Bool)
  | returned
  | cancelled

structure Batch where
  events : List BaseEvent
  pendingIndices : List ℕ
  results : List (Option ProcessingResult)
  phase : Phase

/-- The tasks are numbered as they are created. `spinning`: a batch loops without a suspension, and
nothing else runs any more. -/
structure Processor where
  tasks : List BatchTask := []
  processingTasks : List ℕ := []
  batches : ℕ → Option Batch := fun _ => none
  cleanups : ℕ → Option (List ℕ) := fun _ => none
  spinning : Bool := false

def Processor.setBatch (p : Processor) (b : ℕ) (x : Batch) : Processor :=
  { p with batches := Function.update p.batches b (some x) }

def startTask (b : ℕ) (p : Processor) (idx : ℕ) : Processor :=
  { p with
    tasks := p.tasks ++ [{ batch := b, index := idx }]
    processingTasks := p.processingTasks ++ [p.tasks.length] }

/-- The loop of a batch, up to its next suspension or its end. -/
def advance (config : EventProcessorConfig) (p : Processor) (b : ℕ) (x : Batch) : Processor :=
  if x.pendingIndices = [] then
    p.setBatch b { x with
      phase := if p.processingTasks = [] then .returned else .gathering p.processingTasks false }
  else
    let availableSlots : ℤ := config.maxConcurrentTasks - p.processingTasks.length
    let batchSize : ℤ := min availableSlots x.pendingIndices.length
    let p' := if 0 < batchSize then (x.pendingIndices.take batchSize.toNat).foldl (startTask b) p
      else p
    let rest := if 0 < batchSize then x.pendingIndices.drop batchSize.toNat else x.pendingIndices
    if p'.processingTasks = [] then { p' with spinning := true }
    else p'.setBatch b { x with pendingIndices := rest, phase := .waiting p'.processingTasks }

/-- A parallel batch from its first line on. -/
def Batch.start (events : List BaseEvent) : Batch where
  events := events
  pendingIndices := List.range events.length
  results := List.replicate events.length none
  phase := .returned

/-- The sequential branch, for what `process_event` gives. -/
def processSequentially (processEvent : BaseEvent → Except String ProcessingResult)
    (events : List BaseEvent) : Except String (List ProcessingResult) :=
  events.foldlM (fun singleResults event => do
    let result ← processEvent event
    return singleResults ++ [result]) []

/-- `ends`: a task ends. `discard`: the callback of a task that has ended. `cancel`: somebody
cancels a batch. -/
inductive Act
  | call (b : ℕ) (events : List BaseEvent)
  | ends (k : ℕ) (outcome : Outcome)
  | discard (k : ℕ)
  | resume (b : ℕ)
  | cancel (b : ℕ)
  | cleanup (c : ℕ)
  | cleanupEnds (c : ℕ)

/-- The task has ended and the callbacks of those that wait for it have been reached. -/
def Processor.announced (p : Processor) (k : ℕ) : Bool :=
  match p.tasks[k]? with
  | some { status := .ended _, .. } => k ∉ p.processingTasks
  | _ => false

def Processor.cancelledTask (p : Processor) (k : ℕ) : Bool :=
  match p.tasks[k]? with
  | some { status := .ended .cancelled, .. } => true
  | _ => false

/-- A batch runs again. Awaiting a task that was cancelled raises. -/
def resume (config : EventProcessorConfig) (p : Processor) (b : ℕ) : Option Processor :=
  match p.batches b with
  | none => none
  | some x =>
    match x.phase with
    | .waiting fs =>
      if fs.any p.announced then
        if fs.any p.cancelledTask then some (p.setBatch b { x with phase := .cancelled })
        else some (advance config p b x)
      else none
    | .gathering children cancelled =>
      if children.all p.announced then
        some (p.setBatch b { x with phase := if cancelled then .cancelled else .returned })
      else none
    | _ => none

def endTask (p : Processor) (k : ℕ) (outcome : Outcome) : Option Processor :=
  match p.tasks[k]? with
  | some { batch := b, index := idx, status := .running } =>
    let p' := { p with tasks := p.tasks.set k ⟨b, idx, .ended outcome⟩ }
    match p.batches b with
    | some x =>
      match x.events[idx]? with
      | some event =>
        some (p'.setBatch b { x with results := x.results.set idx (stored event (.ended outcome)) })
      | none => none
    | none => none
  | _ => none

def next (config : EventProcessorConfig) (p : Processor) (act : Act) : Option Processor :=
  if p.spinning then none else
    match act with
    | .call b events =>
      match p.batches b with
      | none => some (advance config p b (.start events))
      | some _ => none
    | .ends k outcome => endTask p k outcome
    | .discard k =>
      match p.tasks[k]? with
      | some { status := .ended _, .. } =>
        some { p with processingTasks := p.processingTasks.erase k }
      | _ => none
    | .resume b => resume config p b
    | .cancel b =>
      match p.batches b with
      | none => none
      | some x =>
        match x.phase with
        | .waiting _ => some (p.setBatch b { x with phase := .cancelled })
        | .gathering children _ => some (p.setBatch b { x with phase := .gathering children true })
        | _ => none
    | .cleanup c =>
      match p.cleanups c with
      | none =>
        if p.processingTasks = [] then some p
        else some { p with cleanups := Function.update p.cleanups c (some p.processingTasks) }
      | some _ => none
    | .cleanupEnds c =>
      match p.cleanups c with
      | none => none
      | some children =>
        if children.all p.announced then
          some { p with
            processingTasks := []
            cleanups := Function.update p.cleanups c none }
        else none

/-- The batches of one processor with parallel execution. -/
def batches (config : EventProcessorConfig) : System Processor Act where
  init p := p = {}
  next := next config

/-- A clean-up that ends clears no task which has begun since its call. -/
def ClearsNothing : Condition Processor Act
  | _, p, .cleanupEnds _ => p.processingTasks = []
  | _, _, _ => True

instance {past : List Act} {p : Processor} : ∀ act, Decidable (ClearsNothing past p act)
  | .cleanupEnds _ => inferInstanceAs (Decidable (p.processingTasks = []))
  | .call .. | .ends .. | .discard _ | .resume _ | .cancel _ | .cleanup _ => isTrue trivial

variable {config : EventProcessorConfig} {p p' : Processor} {b c k : ℕ} {x : Batch}

theorem endTask_eq {outcome : Outcome} (h : endTask p k outcome = some p') :
    ∃ b idx x event, p.tasks[k]? = some ⟨b, idx, .running⟩ ∧ p.batches b = some x ∧
      x.events[idx]? = some event ∧
      p' = { p with tasks := p.tasks.set k ⟨b, idx, .ended outcome⟩ }.setBatch b
        { x with results := x.results.set idx (stored event (.ended outcome)) } := by
  unfold endTask at h
  split at h
  · rename_i b idx hk
    split at h
    · rename_i x hx
      split at h
      · rename_i event hevent
        exact ⟨b, idx, x, event, hk, hx, hevent, (Option.some.inj h).symm⟩
      · cases h
    · cases h
  · cases h

/-- A batch goes on, a task ends, a batch changes its phase, or only the set and the clean-ups
change. -/
theorem next_cases {act : Act} (h : next config p act = some p') :
    p.spinning = false ∧
      ((∃ b x, p' = advance config p b x ∧ (p.batches b = none ∨ p.batches b = some x)) ∨
      (∃ k outcome, act = .ends k outcome ∧ endTask p k outcome = some p') ∨
      (∃ b x phase, p.batches b = some x ∧ p' = p.setBatch b { x with phase := phase }) ∨
      (p'.tasks = p.tasks ∧ p'.batches = p.batches ∧ p'.spinning = p.spinning)) := by
  unfold next at h
  split at h
  · cases h
  · rename_i hspinning
    refine ⟨by simpa using hspinning, ?_⟩
    cases act with
    | call b events =>
      simp only at h
      split at h
      · rename_i hb
        exact .inl ⟨b, _, (Option.some.inj h).symm, .inl hb⟩
      · cases h
    | ends k outcome => exact .inr (.inl ⟨k, outcome, rfl, h⟩)
    | discard k =>
      simp only at h
      split at h
      · obtain rfl := Option.some.inj h
        exact .inr (.inr (.inr ⟨rfl, rfl, rfl⟩))
      · cases h
    | resume b =>
      simp only [resume] at h
      split at h
      · cases h
      · rename_i x hx
        split at h
        · split at h
          · split at h
            · exact .inr (.inr (.inl ⟨b, x, _, hx, (Option.some.inj h).symm⟩))
            · exact .inl ⟨b, x, (Option.some.inj h).symm, .inr hx⟩
          · cases h
        · split at h
          · exact .inr (.inr (.inl ⟨b, x, _, hx, (Option.some.inj h).symm⟩))
          · cases h
        · cases h
    | cancel b =>
      simp only at h
      split at h
      · cases h
      · rename_i x hx
        split at h
        · exact .inr (.inr (.inl ⟨b, x, _, hx, (Option.some.inj h).symm⟩))
        · exact .inr (.inr (.inl ⟨b, x, _, hx, (Option.some.inj h).symm⟩))
        · cases h
    | cleanup c =>
      simp only at h
      split at h
      · split at h
        · obtain rfl := Option.some.inj h
          exact .inr (.inr (.inr ⟨rfl, rfl, rfl⟩))
        · obtain rfl := Option.some.inj h
          exact .inr (.inr (.inr ⟨rfl, rfl, rfl⟩))
      · cases h
    | cleanupEnds c =>
      simp only at h
      split at h
      · cases h
      · split at h
        · obtain rfl := Option.some.inj h
          exact .inr (.inr (.inr ⟨rfl, rfl, rfl⟩))
        · cases h

variable {tasks : List BatchTask} {t : BatchTask} {processing idxs rest : List ℕ}

def started (tasks : List BatchTask) (b : ℕ) : List ℕ :=
  (tasks.filter fun t => t.batch = b).map BatchTask.index

/-- The set holds every task that runs, and no more than the limit. -/
structure Shared (config : EventProcessorConfig) (tasks : List BatchTask) (processing : List ℕ) :
    Prop where
  nodup : processing.Nodup
  bound : processing.length ≤ config.maxConcurrentTasks.toNat
  known : ∀ k ∈ processing, k < tasks.length
  running : ∀ (k : ℕ) (t : BatchTask), tasks[k]? = some t → t.status = .running → k ∈ processing

/-- The events of a batch are started in order, each once, and what has ended is stored. -/
structure Filed (tasks : List BatchTask) (b : ℕ) (x : Batch) : Prop where
  order : started tasks b ++ x.pendingIndices = List.range x.events.length
  length : x.results.length = x.events.length
  unstarted : ∀ i ∈ x.pendingIndices, x.results[i]? = some none
  results : ∀ (k : ℕ) (t : BatchTask) (e : BaseEvent), tasks[k]? = some t → t.batch = b →
    x.events[t.index]? = some e → x.results[t.index]? = some (stored e t.status)

/-- What a batch waits for has been created; one that waits for all tasks, or has returned, has
started all of its own. -/
def Awaits (tasks : List BatchTask) (b : ℕ) (x : Batch) : Prop :=
  match x.phase with
  | .waiting fs => fs ≠ [] ∧ ∀ k ∈ fs, k < tasks.length
  | .gathering children _ => x.pendingIndices = [] ∧ (∀ k ∈ children, k < tasks.length) ∧
      ∀ (k : ℕ) (t : BatchTask),
        tasks[k]? = some t → t.batch = b → t.status = .running → k ∈ children
  | .returned => x.pendingIndices = [] ∧ ∀ (k : ℕ) (t : BatchTask),
      tasks[k]? = some t → t.batch = b → t.status ≠ .running
  | .cancelled => True

structure Inv (config : EventProcessorConfig) (p : Processor) : Prop where
  shared : Shared config p.tasks p.processingTasks
  batch : ∀ b x, p.batches b = some x → Filed p.tasks b x ∧ Awaits p.tasks b x
  owner : ∀ (k : ℕ) (t : BatchTask), p.tasks[k]? = some t → (p.batches t.batch).isSome

theorem inv_init : Inv config {} where
  shared := ⟨List.nodup_nil, Nat.zero_le _, by simp, by simp⟩
  batch := by simp
  owner := by simp

def newTasks (b : ℕ) (idxs : List ℕ) : List BatchTask :=
  idxs.map fun idx => { batch := b, index := idx }

theorem foldl_startTask (b : ℕ) (idxs : List ℕ) (p : Processor) :
    idxs.foldl (startTask b) p = { p with
      tasks := p.tasks ++ newTasks b idxs
      processingTasks := p.processingTasks ++ List.range' p.tasks.length idxs.length } := by
  induction idxs generalizing p with
  | nil => simp [newTasks]
  | cons idx idxs ih =>
    rw [List.foldl_cons, ih]
    simp [startTask, newTasks, List.range'_succ, List.append_assoc]

theorem mem_newTasks (h : t ∈ newTasks b idxs) :
    t.batch = b ∧ t.status = .running ∧ t.index ∈ idxs := by
  obtain ⟨idx, hidx, rfl⟩ := List.mem_map.mp h
  exact ⟨rfl, rfl, hidx⟩

theorem getElem?_append_newTasks (h : (tasks ++ newTasks b idxs)[k]? = some t) :
    tasks[k]? = some t ∨ tasks.length ≤ k ∧ k < tasks.length + idxs.length ∧
      t ∈ newTasks b idxs := by
  rw [List.getElem?_append] at h
  split at h
  · exact .inl h
  · refine .inr ⟨by omega, ?_, List.mem_of_getElem? h⟩
    have hlt := (List.getElem?_eq_some_iff.mp h).1
    simp only [newTasks, List.length_map] at hlt
    omega

theorem Shared.start (h : Shared config tasks processing) (b : ℕ) (idxs : List ℕ)
    (hroom : processing.length + idxs.length ≤ config.maxConcurrentTasks.toNat) :
    Shared config (tasks ++ newTasks b idxs)
      (processing ++ List.range' tasks.length idxs.length) where
  nodup := by
    refine h.nodup.append List.nodup_range' fun k hk hnew => ?_
    have hlt := h.known k hk
    have hle := (List.mem_range'_1.mp hnew).1
    omega
  bound := by simpa using hroom
  known k hk := by
    simp only [List.length_append, newTasks, List.length_map]
    rcases List.mem_append.mp hk with hk | hk
    · exact Nat.lt_add_right _ (h.known k hk)
    · exact (List.mem_range'_1.mp hk).2
  running k t hk hrunning := by
    rcases getElem?_append_newTasks hk with hk | ⟨hle, hlt, -⟩
    · exact List.mem_append_left _ (h.running k t hk hrunning)
    · exact List.mem_append_right _ (List.mem_range'_1.mpr ⟨hle, hlt⟩)

theorem started_append_newTasks (tasks : List BatchTask) (b c : ℕ) (idxs : List ℕ) :
    started (tasks ++ newTasks b idxs) c = started tasks c ++ if b = c then idxs else [] := by
  by_cases h : b = c
  · simp [started, newTasks, List.filter_map, Function.comp_def, h]
  · simp [started, newTasks, List.filter_map, Function.comp_def, h]

theorem Filed.start (h : Filed tasks b x) (hpending : x.pendingIndices = idxs ++ rest)
    (phase : Phase) :
    Filed (tasks ++ newTasks b idxs) b { x with pendingIndices := rest, phase := phase } where
  order := by
    rw [started_append_newTasks, if_pos rfl, List.append_assoc, ← hpending]
    exact h.order
  length := h.length
  unstarted i hi := h.unstarted i (by simp [hpending, hi])
  results k t e hk ht he := by
    rcases getElem?_append_newTasks hk with hk | ⟨-, -, hnew⟩
    · exact h.results k t e hk ht he
    · obtain ⟨-, hstatus, hidx⟩ := mem_newTasks hnew
      rw [hstatus]
      exact h.unstarted t.index (by simp [hpending, hidx])

theorem Filed.start_other (h : Filed tasks c x) (hne : b ≠ c) :
    Filed (tasks ++ newTasks b idxs) c x where
  order := by
    rw [started_append_newTasks, if_neg hne, List.append_nil]
    exact h.order
  length := h.length
  unstarted := h.unstarted
  results k t e hk ht he := by
    rcases getElem?_append_newTasks hk with hk | ⟨-, -, hnew⟩
    · exact h.results k t e hk ht he
    · exact absurd ((mem_newTasks hnew).1.symm.trans ht) hne

theorem Awaits.start_other (h : Awaits tasks c x) (hne : b ≠ c) :
    Awaits (tasks ++ newTasks b idxs) c x := by
  have hold : ∀ (k : ℕ) (t : BatchTask), (tasks ++ newTasks b idxs)[k]? = some t → t.batch = c →
      tasks[k]? = some t := by
    intro k t hk ht
    rcases getElem?_append_newTasks hk with hk | ⟨-, -, hnew⟩
    · exact hk
    · exact absurd ((mem_newTasks hnew).1.symm.trans ht) hne
  have hlength : ∀ k, k < tasks.length → k < (tasks ++ newTasks b idxs).length := by
    intro k hk
    rw [List.length_append]
    exact Nat.lt_add_right _ hk
  unfold Awaits at h ⊢
  split at h
  · exact ⟨h.1, fun k hk => hlength k (h.2 k hk)⟩
  · exact ⟨h.1, fun k hk => hlength k (h.2.1 k hk),
      fun k t hk ht => h.2.2 k t (hold k t hk ht) ht⟩
  · exact ⟨h.1, fun k t hk ht => h.2 k t (hold k t hk ht) ht⟩
  · trivial

theorem Inv.setBatch (h : Shared config p.tasks p.processingTasks)
    (hother : ∀ c y, b ≠ c → p.batches c = some y → Filed p.tasks c y ∧ Awaits p.tasks c y)
    (howner : ∀ (k : ℕ) (t : BatchTask), p.tasks[k]? = some t →
      t.batch = b ∨ (p.batches t.batch).isSome)
    (hfiled : Filed p.tasks b x) (hawaits : Awaits p.tasks b x) : Inv config (p.setBatch b x) where
  shared := h
  batch c y hy := by
    by_cases hc : c = b
    · subst hc
      obtain rfl : x = y := by simpa [Processor.setBatch] using hy
      exact ⟨hfiled, hawaits⟩
    · exact hother c y (Ne.symm hc) (by simpa [Processor.setBatch, hc] using hy)
  owner k t hk := by
    by_cases hb : t.batch = b
    · simp [Processor.setBatch, hb]
    · simpa [Processor.setBatch, hb] using (howner k t hk).resolve_left hb

theorem Inv.setPhase (h : Inv config p) (hx : p.batches b = some x) {phase : Phase}
    (hawaits : Awaits p.tasks b { x with phase := phase }) :
    Inv config (p.setBatch b { x with phase := phase }) := by
  obtain ⟨hfiled, -⟩ := h.batch b x hx
  exact Inv.setBatch h.shared (fun c y _ hy => h.batch c y hy)
    (fun k t hk => .inr (h.owner k t hk))
    ⟨hfiled.order, hfiled.length, hfiled.unstarted, hfiled.results⟩ hawaits

theorem inv_advance (h : Inv config p) (hx : Filed p.tasks b x) :
    Inv config (advance config p b x) := by
  have hothers : ∀ c y, b ≠ c → p.batches c = some y → Filed p.tasks c y ∧ Awaits p.tasks c y :=
    fun c y _ hy => h.batch c y hy
  have howner : ∀ (k : ℕ) (t : BatchTask), p.tasks[k]? = some t →
      t.batch = b ∨ (p.batches t.batch).isSome := fun k t hk => .inr (h.owner k t hk)
  unfold advance
  split
  · rename_i hpending
    refine Inv.setBatch h.shared hothers howner ⟨hx.order, hx.length, hx.unstarted, hx.results⟩ ?_
    by_cases hprocessing : p.processingTasks = []
    · simp only [Awaits, hprocessing, if_true]
      refine ⟨hpending, fun k t hk _ hrunning => ?_⟩
      have hmem := h.shared.running k t hk hrunning
      simp [hprocessing] at hmem
    · simp only [Awaits, hprocessing, if_false]
      exact ⟨hpending, h.shared.known, fun k t hk _ hs => h.shared.running k t hk hs⟩
  · rename_i hpending
    have hsome : 0 < x.pendingIndices.length := List.length_pos_iff.mpr hpending
    by_cases hsize : 0 < min (config.maxConcurrentTasks - (p.processingTasks.length : ℤ))
        (x.pendingIndices.length : ℤ)
    · -- at least one task begins, so the set is not empty
      simp only [hsize, if_true, foldl_startTask]
      generalize hn : (min (config.maxConcurrentTasks - (p.processingTasks.length : ℤ))
        (x.pendingIndices.length : ℤ)).toNat = n
      have hlen : (x.pendingIndices.take n).length = n := by
        rw [List.length_take]
        omega
      have hnonempty : p.processingTasks ++
          List.range' p.tasks.length (x.pendingIndices.take n).length ≠ [] := by
        intro hnil
        have hlength := congrArg List.length hnil
        simp only [List.length_append, List.length_range', hlen, List.length_nil] at hlength
        omega
      rw [if_neg hnonempty]
      have hshared := h.shared.start b (x.pendingIndices.take n) (by omega)
      refine Inv.setBatch hshared ?_ ?_ (hx.start (List.take_append_drop n _).symm _)
        ⟨hnonempty, hshared.known⟩
      · intro c y hc hy
        obtain ⟨hfiled, hawaits⟩ := h.batch c y hy
        exact ⟨hfiled.start_other hc, hawaits.start_other hc⟩
      · intro k t hk
        rcases getElem?_append_newTasks hk with hk | ⟨-, -, hnew⟩
        · exact .inr (h.owner k t hk)
        · exact .inl (mem_newTasks hnew).1
    · simp only [hsize, if_false]
      split
      · exact ⟨h.shared, h.batch, h.owner⟩
      · rename_i hnonempty
        exact Inv.setBatch h.shared hothers howner ⟨hx.order, hx.length, hx.unstarted, hx.results⟩
          ⟨hnonempty, h.shared.known⟩

theorem filed_start (h : Inv config p) (hb : p.batches b = none) (events : List BaseEvent) :
    Filed p.tasks b (.start events) := by
  have hnone : ∀ (k : ℕ) (t : BatchTask), p.tasks[k]? = some t → t.batch ≠ b := by
    rintro k t hk rfl
    have howner := h.owner k t hk
    simp [hb] at howner
  refine ⟨?_, by simp [Batch.start], ?_, fun k t e hk ht => absurd ht (hnone k t hk)⟩
  · have hstarted : started p.tasks b = [] := by
      simp only [started, List.map_eq_nil_iff, List.filter_eq_nil_iff, decide_eq_true_eq]
      intro t ht
      obtain ⟨k, hk, rfl⟩ := List.mem_iff_getElem.mp ht
      exact hnone k _ (List.getElem?_eq_getElem hk)
    simp [hstarted, Batch.start]
  · intro i hi
    simp only [Batch.start, List.mem_range] at hi ⊢
    simp [hi]

theorem inv_resume (h : Inv config p) (hstep : resume config p b = some p') : Inv config p' := by
  unfold resume at hstep
  split at hstep
  · cases hstep
  · rename_i x hx
    obtain ⟨hfiled, hawaits⟩ := h.batch b x hx
    split at hstep
    · split at hstep
      · split at hstep
        · obtain rfl := Option.some.inj hstep
          exact h.setPhase hx trivial
        · obtain rfl := Option.some.inj hstep
          exact inv_advance h hfiled
      · cases hstep
    · rename_i children cancelled hphase
      split at hstep
      · rename_i hall
        obtain rfl := Option.some.inj hstep
        refine h.setPhase hx ?_
        cases cancelled with
        | true => trivial
        | false =>
          simp only [Awaits, hphase] at hawaits
          refine ⟨hawaits.1, fun k t hk ht hrunning => ?_⟩
          have hmem := hawaits.2.2 k t hk ht hrunning
          have hannounced := List.all_eq_true.mp hall k hmem
          simp only [Processor.announced, hk] at hannounced
          split at hannounced
          · rename_i o heq
            rw [Option.some.inj heq] at hrunning
            cases hrunning
          · cases hannounced
      · cases hstep
    · cases hstep

/-- One task for each index of a batch. -/
theorem Filed.unique (h : Filed tasks b x) {j : ℕ} {u : BatchTask} (hj : tasks[j]? = some u)
    (hk : tasks[k]? = some t) (hu : u.batch = b) (ht : t.batch = b) (hindex : u.index = t.index) :
    j = k := by
  have hnodup : (started tasks b).Nodup :=
    (h.order ▸ List.nodup_range : (started tasks b ++ x.pendingIndices).Nodup).of_append_left
  have hpairs : tasks.Pairwise fun u t => u.batch = b → t.batch = b → u.index ≠ t.index := by
    simpa [started, List.Nodup, List.pairwise_map, List.pairwise_filter] using hnodup
  obtain ⟨hjlt, rfl⟩ := List.getElem?_eq_some_iff.mp hj
  obtain ⟨hklt, rfl⟩ := List.getElem?_eq_some_iff.mp hk
  have hget := List.pairwise_iff_getElem.mp hpairs
  rcases lt_trichotomy j k with hlt | heq | hgt
  · exact absurd hindex (hget j k hjlt hklt hlt hu ht)
  · exact heq
  · exact absurd hindex.symm (hget k j hklt hjlt hgt ht hu)

section

variable {idx j : ℕ} {outcome : Outcome}

theorem started_set_ended (hk : tasks[k]? = some ⟨b, idx, .running⟩) (c : ℕ) :
    started (tasks.set k ⟨b, idx, .ended outcome⟩) c = started tasks c := by
  have hkeys : ∀ l : List BatchTask, started l c =
      ((l.map fun t => (t.batch, t.index)).filter fun x => x.1 = c).map Prod.snd := by
    intro l
    simp [started, List.filter_map, Function.comp_def]
  have hsame : (tasks.set k ⟨b, idx, .ended outcome⟩).map (fun t => (t.batch, t.index)) =
      tasks.map fun t => (t.batch, t.index) := by
    have hself : ∀ (keys : List (ℕ × ℕ)) (x : ℕ × ℕ), keys[k]? = some x → keys.set k x = keys := by
      intro keys x hx
      obtain ⟨hlt, rfl⟩ := List.getElem?_eq_some_iff.mp hx
      exact List.set_getElem_self hlt
    rw [List.map_set]
    exact hself _ _ (by simp [hk])
  rw [hkeys, hkeys, hsame]

theorem getElem?_set_ended (h : (tasks.set k ⟨b, idx, .ended outcome⟩)[j]? = some t) :
    j ≠ k ∧ tasks[j]? = some t ∨ j = k ∧ t = ⟨b, idx, .ended outcome⟩ := by
  rw [List.getElem?_set] at h
  split at h
  · rename_i heq
    split at h
    · exact .inr ⟨heq.symm, (Option.some.inj h).symm⟩
    · cases h
  · rename_i hne
    exact .inl ⟨Ne.symm hne, h⟩

theorem running_of_set_ended (h : (tasks.set k ⟨b, idx, .ended outcome⟩)[j]? = some t)
    (hstatus : t.status = .running) : tasks[j]? = some t := by
  rcases getElem?_set_ended h with ⟨-, h⟩ | ⟨-, rfl⟩
  · exact h
  · cases hstatus

theorem Shared.ends (h : Shared config tasks processing) :
    Shared config (tasks.set k ⟨b, idx, .ended outcome⟩) processing where
  nodup := h.nodup
  bound := h.bound
  known i hi := by simpa using h.known i hi
  running i t hi hstatus := h.running i t (running_of_set_ended hi hstatus) hstatus

theorem Awaits.ends (h : Awaits tasks c x) :
    Awaits (tasks.set k ⟨b, idx, .ended outcome⟩) c x := by
  unfold Awaits at h ⊢
  split at h
  · exact ⟨h.1, fun i hi => by simpa using h.2 i hi⟩
  · exact ⟨h.1, fun i hi => by simpa using h.2.1 i hi,
      fun i t hi ht hs => h.2.2 i t (running_of_set_ended hi hs) ht hs⟩
  · exact ⟨h.1, fun i t hi ht hs => h.2 i t (running_of_set_ended hi hs) ht hs⟩
  · trivial

theorem Filed.ends_other (h : Filed tasks c x) (hk : tasks[k]? = some ⟨b, idx, .running⟩)
    (hne : b ≠ c) : Filed (tasks.set k ⟨b, idx, .ended outcome⟩) c x where
  order := by
    rw [started_set_ended hk]
    exact h.order
  length := h.length
  unstarted := h.unstarted
  results i t e hi ht he := by
    rcases getElem?_set_ended hi with ⟨-, hi⟩ | ⟨-, rfl⟩
    · exact h.results i t e hi ht he
    · exact absurd ht hne

theorem Filed.ends (h : Filed tasks b x) (hk : tasks[k]? = some ⟨b, idx, .running⟩)
    {event : BaseEvent} (hevent : x.events[idx]? = some event) :
    Filed (tasks.set k ⟨b, idx, .ended outcome⟩) b
      { x with results := x.results.set idx (stored event (.ended outcome)) } where
  order := by
    rw [started_set_ended hk]
    exact h.order
  length := by simpa using h.length
  unstarted i hi := by
    have hmem : idx ∈ started tasks b := List.mem_map.mpr
      ⟨⟨b, idx, .running⟩, List.mem_filter.mpr ⟨List.mem_of_getElem? hk, by simp⟩, rfl⟩
    have hnodup : (started tasks b ++ x.pendingIndices).Nodup := h.order ▸ List.nodup_range
    have hne : idx ≠ i := fun heq => (List.nodup_append.mp hnodup).2.2 idx hmem i hi heq
    rw [List.getElem?_set_ne hne]
    exact h.unstarted i hi
  results i t e hi ht he := by
    rcases getElem?_set_ended hi with ⟨hne, hi⟩ | ⟨-, rfl⟩
    · have hindex : idx ≠ t.index := fun heq => hne (h.unique hi hk ht rfl heq.symm)
      rw [List.getElem?_set_ne hindex]
      exact h.results i t e hi ht he
    · obtain rfl := Option.some.inj (hevent.symm.trans he)
      have hlt : idx < x.results.length := by
        rw [h.length]
        exact (List.getElem?_eq_some_iff.mp hevent).1
      exact List.getElem?_set_self hlt

theorem inv_endTask (h : Inv config p) (hstep : endTask p k outcome = some p') :
    Inv config p' := by
  obtain ⟨b, idx, x, event, hk, hx, hevent, rfl⟩ := endTask_eq hstep
  obtain ⟨hfiled, hawaits⟩ := h.batch b x hx
  refine Inv.setBatch (p := { p with tasks := p.tasks.set k ⟨b, idx, .ended outcome⟩ })
    h.shared.ends ?_ ?_ (hfiled.ends hk hevent) hawaits.ends
  · intro c y hne hy
    obtain ⟨hfiled', hawaits'⟩ := h.batch c y hy
    exact ⟨hfiled'.ends_other hk hne, hawaits'.ends⟩
  · intro j t hj
    rcases getElem?_set_ended hj with ⟨-, hj⟩ | ⟨-, rfl⟩
    · exact .inr (h.owner j t hj)
    · exact .inl rfl

end

theorem inv_step {past : List Act} {act : Act} (h : Inv config p) (hok : ClearsNothing past p act)
    (hstep : next config p act = some p') : Inv config p' := by
  unfold next at hstep
  split at hstep
  · cases hstep
  · cases act with
    | call b events =>
      simp only at hstep
      split at hstep
      · rename_i hb
        obtain rfl := Option.some.inj hstep
        exact inv_advance h (filed_start h hb events)
      · cases hstep
    | ends k outcome => exact inv_endTask h hstep
    | discard k =>
      simp only at hstep
      split at hstep
      · rename_i b idx o hk
        obtain rfl := Option.some.inj hstep
        refine ⟨⟨h.shared.nodup.erase k, ?_, ?_, ?_⟩, h.batch, h.owner⟩
        · exact (List.length_erase_le).trans h.shared.bound
        · exact fun j hj => h.shared.known j (List.mem_of_mem_erase hj)
        · intro j t hj hs
          have hne : j ≠ k := by
            rintro rfl
            obtain rfl := Option.some.inj (hk.symm.trans hj)
            cases hs
          exact (List.mem_erase_of_ne hne).mpr (h.shared.running j t hj hs)
      · cases hstep
    | resume b => exact inv_resume h hstep
    | cancel b =>
      simp only at hstep
      split at hstep
      · cases hstep
      · rename_i x hx
        obtain ⟨-, hawaits⟩ := h.batch b x hx
        split at hstep
        · obtain rfl := Option.some.inj hstep
          exact h.setPhase hx trivial
        · rename_i hphase
          obtain rfl := Option.some.inj hstep
          simp only [Awaits, hphase] at hawaits
          exact h.setPhase hx hawaits
        · cases hstep
    | cleanup c =>
      simp only at hstep
      split at hstep
      · split at hstep
        · obtain rfl := Option.some.inj hstep
          exact h
        · obtain rfl := Option.some.inj hstep
          exact ⟨h.shared, h.batch, h.owner⟩
      · cases hstep
    | cleanupEnds c =>
      simp only at hstep
      split at hstep
      · cases hstep
      · split at hstep
        · obtain rfl := Option.some.inj hstep
          have hempty : p.processingTasks = [] := hok
          exact ⟨hempty ▸ h.shared, h.batch, h.owner⟩
        · cases hstep

theorem inv_of_trace {as : List Act} (h : Trace (batches config) ClearsNothing as p) :
    Inv config p := by
  refine Trace.induct (I := fun _ p => Inv config p) ?_ ?_ as p h
  · rintro p rfl
    exact inv_init
  · intro as p act p' _ ih hok hnext
    exact inv_step ih hok hnext

/-- In every state of a run, tasks that run at once are at most as many as the limit, whatever the
number of batches. -/
theorem running_le_maxConcurrentTasks {as : List Act}
    (h : Trace (batches config) ClearsNothing as p) {l : List ℕ} (hl : l.Nodup)
    (hrunning : ∀ k ∈ l, ∃ b idx, p.tasks[k]? = some ⟨b, idx, .running⟩) :
    l.length ≤ config.maxConcurrentTasks.toNat := by
  have hshared := (inv_of_trace h).shared
  have hsubset : l ⊆ p.processingTasks := by
    intro k hk
    obtain ⟨b, idx, htask⟩ := hrunning k hk
    exact hshared.running k _ htask rfl
  exact (hl.subperm hsubset).length_le.trans hshared.bound

/-- Two events under a limit of one. -/
def events : List BaseEvent := [⟨"created", "1", 0⟩, ⟨"created", "2", 0⟩]

def processed : ProcessingResult := { eventId := "1" }

/-- The second event begins when the first has ended. -/
def oneByOne : List Act :=
  [.call 0 events, .ends 0 (.returned processed), .discard 0, .resume 0,
    .ends 1 (.returned processed), .discard 1, .resume 0]

theorem running_le_maxConcurrentTasks_one :
    ∃ p : Processor, (∀ k ∈ [0], ∃ b idx, p.tasks[k]? = some ⟨b, idx, .running⟩) ∧
      [0].length ≤ 1 := by
  have hrun : ((replay (batches ⟨1⟩) ClearsNothing [] [.call 0 events] {}).map
      fun p => p.tasks) = some [⟨0, 0, .running⟩] := rfl
  obtain ⟨p, hp, htasks⟩ := Option.map_eq_some_iff.mp hrun
  have hrunning : ∀ k ∈ [0], ∃ b idx, p.tasks[k]? = some ⟨b, idx, .running⟩ := by
    simp [htasks]
  exact ⟨p, hrunning, running_le_maxConcurrentTasks (trace_of_replay rfl hp) (by simp) hrunning⟩

theorem Inv.returned (h : Inv config p) (hx : p.batches b = some x)
    (hreturned : x.phase = .returned) {i : ℕ} {e : BaseEvent} (he : x.events[i]? = some e) :
    ∃ k o, p.tasks[k]? = some ⟨b, i, .ended o⟩ ∧
      (∀ (j : ℕ) (t : BatchTask), p.tasks[j]? = some t → t.batch = b → t.index = i → j = k) ∧
      x.results[i]? = some (stored e (.ended o)) := by
  obtain ⟨hfiled, hawaits⟩ := h.batch b x hx
  simp only [Awaits, hreturned] at hawaits
  have hmem : i ∈ started p.tasks b := by
    have horder := hfiled.order
    rw [hawaits.1, List.append_nil] at horder
    rw [horder]
    exact List.mem_range.mpr (List.getElem?_eq_some_iff.mp he).1
  obtain ⟨⟨c, idx, status⟩, ht, rfl⟩ := List.mem_map.mp hmem
  obtain ⟨htasks, hc⟩ := List.mem_filter.mp ht
  obtain rfl : c = b := by simpa using hc
  obtain ⟨k, hlt, hk⟩ := List.mem_iff_getElem.mp htasks
  have hk' : p.tasks[k]? = some ⟨c, idx, status⟩ := by rw [List.getElem?_eq_getElem hlt, hk]
  cases status with
  | running => exact absurd rfl (hawaits.2 k _ hk' rfl)
  | ended o =>
    exact ⟨k, o, hk', fun j t hj hb hi => hfiled.unique hj hk' hb rfl hi,
      hfiled.results k _ e hk' rfl he⟩

/-- A batch that has returned has run one task for each of its events, in order, and its results are
what these have stored: none is missing unless its task was cancelled. -/
theorem returned_results {as : List Act} (h : Trace (batches config) ClearsNothing as p)
    (hx : p.batches b = some x) (hreturned : x.phase = .returned) :
    x.results.length = x.events.length ∧
      ∀ (i : ℕ) (e : BaseEvent), x.events[i]? = some e →
        ∃ k o, p.tasks[k]? = some ⟨b, i, .ended o⟩ ∧
          (∀ (j : ℕ) (t : BatchTask), p.tasks[j]? = some t → t.batch = b → t.index = i → j = k) ∧
          x.results[i]? = some (stored e (.ended o)) := by
  have hinv := inv_of_trace h
  exact ⟨(hinv.batch b x hx).1.length, fun i e he => hinv.returned hx hreturned he⟩

/-- The batch at the end of the run. -/
def finished : Batch where
  events := events
  pendingIndices := []
  results := [some processed, some processed]
  phase := .returned

theorem replay_oneByOne :
    ((replay (batches ⟨1⟩) ClearsNothing [] oneByOne {}).map
      fun p => (p.batches 0, p.tasks.length)) = some (some finished, 2) := rfl

theorem returned_results_one_by_one :
    ∃ (k : ℕ) (o : Outcome), k < 2 ∧
      finished.results[1]? = some (stored ⟨"created", "2", 0⟩ (.ended o)) := by
  obtain ⟨p, hp, hresult⟩ := Option.map_eq_some_iff.mp replay_oneByOne
  obtain ⟨hbatch, hlength⟩ := Prod.mk.inj hresult
  obtain ⟨k, o, hk, -, hstored⟩ :=
    (returned_results (trace_of_replay rfl hp) hbatch rfl).2 1 _ rfl
  have hlt := (List.getElem?_eq_some_iff.mp hk).1
  exact ⟨k, o, by omega, hstored⟩

/-- How `process_event` ends when it gives this. -/
def outcomeOf : Except String ProcessingResult → Outcome
  | .ok result => .returned result
  | .error error => .raised error

/-- Each task ends as `processEvent` says for its event. -/
def Processes (processEvent : BaseEvent → Except String ProcessingResult) :
    Condition Processor Act
  | _, p, .ends k outcome => ∀ t ∈ p.tasks[k]?, ∀ x ∈ p.batches t.batch, ∀ e ∈ x.events[t.index]?,
      outcome = outcomeOf (processEvent e)
  | past, p, act => ClearsNothing past p act

/-- Each task that has ended has ended so. -/
def Processed (processEvent : BaseEvent → Except String ProcessingResult) (p : Processor) : Prop :=
  ∀ (k : ℕ) (t : BatchTask) (o : Outcome) (x : Batch) (e : BaseEvent), p.tasks[k]? = some t →
    t.status = .ended o → p.batches t.batch = some x → x.events[t.index]? = some e →
    o = outcomeOf (processEvent e)

variable {processEvent : BaseEvent → Except String ProcessingResult}

theorem clearsNothing_of_processes {past : List Act} {act : Act}
    (h : Processes processEvent past p act) : ClearsNothing past p act := by
  cases act with
  | ends k outcome => trivial
  | _ => exact h

theorem setBatch_events {q : Processor} {u z : Batch} (hx : q.batches b = some x)
    (hz : (q.setBatch b u).batches c = some z) (hu : u.events = x.events) :
    ∃ y, q.batches c = some y ∧ z.events = y.events := by
  by_cases hc : c = b
  · subst hc
    obtain rfl : u = z := by simpa [Processor.setBatch] using hz
    exact ⟨x, hx, hu⟩
  · exact ⟨z, by simpa [Processor.setBatch, hc] using hz, rfl⟩

/-- The tasks that have ended are old ones, and the batches keep their events. -/
theorem advance_keeps (config : EventProcessorConfig)
    (hb : p.batches b = none ∨ p.batches b = some x) :
    (∀ (k : ℕ) (t : BatchTask), (advance config p b x).tasks[k]? = some t →
      p.tasks[k]? = some t ∨ t.status = .running) ∧
      ∀ c y z, p.batches c = some y → (advance config p b x).batches c = some z →
        z.events = y.events := by
  have hset : ∀ q : Processor, q.batches = p.batches → ∀ u : Batch, u.events = x.events →
      ∀ c y z, p.batches c = some y → (q.setBatch b u).batches c = some z →
        z.events = y.events := by
    intro q hq u hu c y z hy hz
    by_cases hc : c = b
    · subst hc
      obtain rfl : u = z := by simpa [Processor.setBatch] using hz
      obtain rfl := Option.some.inj ((hb.resolve_left (by simp [hy])).symm.trans hy)
      exact hu
    · have hz' : p.batches c = some z := by simpa [Processor.setBatch, hc, hq] using hz
      rw [Option.some.inj (hz'.symm.trans hy)]
  have hold : ∀ c y z, p.batches c = some y → p.batches c = some z → z.events = y.events :=
    fun c y z hy hz => by rw [Option.some.inj (hz.symm.trans hy)]
  unfold advance
  split
  · exact ⟨fun k t hk => .inl hk, hset p rfl _ rfl⟩
  · by_cases hsize : 0 < min (config.maxConcurrentTasks - (p.processingTasks.length : ℤ))
        (x.pendingIndices.length : ℤ)
    · have hnew : ∀ (k : ℕ) (t : BatchTask) idxs, (p.tasks ++ newTasks b idxs)[k]? = some t →
          p.tasks[k]? = some t ∨ t.status = .running := fun k t idxs hk =>
        (getElem?_append_newTasks hk).imp_right fun h => (mem_newTasks h.2.2).2.1
      simp only [hsize, if_true, foldl_startTask]
      split
      · exact ⟨fun k t hk => hnew k t _ hk, hold⟩
      · exact ⟨fun k t hk => hnew k t _ hk, hset _ rfl _ rfl⟩
    · simp only [hsize, if_false]
      split
      · exact ⟨fun k t hk => .inl hk, hold⟩
      · exact ⟨fun k t hk => .inl hk, hset p rfl _ rfl⟩

theorem processed_step {past : List Act} {act : Act} (hinv : Inv config p)
    (h : Processed processEvent p) (hok : Processes processEvent past p act)
    (hstep : next config p act = some p') : Processed processEvent p' := by
  intro k t o z e hk hstatus hz he
  obtain ⟨-, ⟨b, x, rfl, hb⟩ | ⟨j, outcome, rfl, hend⟩ | ⟨b, x, phase, hx, rfl⟩ |
    ⟨htasks, hbatches, -⟩⟩ := next_cases hstep
  · obtain ⟨hold, hevents⟩ := advance_keeps config hb
    have hk' := (hold k t hk).resolve_right (by simp [hstatus])
    obtain ⟨y, hy⟩ := Option.isSome_iff_exists.mp (hinv.owner k t hk')
    exact h k t o y e hk' hstatus hy (by rw [← hevents t.batch y z hy hz]; exact he)
  · obtain ⟨b, idx, x, event, hj, hx, hevent, rfl⟩ := endTask_eq hend
    obtain ⟨y, hy, hevents⟩ := setBatch_events (q := { p with
      tasks := p.tasks.set j ⟨b, idx, .ended outcome⟩ }) hx hz rfl
    rw [hevents] at he
    rcases getElem?_set_ended hk with ⟨-, hk⟩ | ⟨rfl, rfl⟩
    · exact h k t o y e hk hstatus hy he
    · obtain rfl := Status.ended.inj hstatus
      exact hok _ hj y hy e he
  · obtain ⟨y, hy, hevents⟩ := setBatch_events hx hz rfl
    rw [hevents] at he
    exact h k t o y e hk hstatus hy he
  · rw [htasks] at hk
    rw [hbatches] at hz
    exact h k t o z e hk hstatus hz he

theorem processed_of_trace {as : List Act}
    (h : Trace (batches config) (Processes processEvent) as p) :
    Inv config p ∧ Processed processEvent p := by
  refine Trace.induct (I := fun _ p => Inv config p ∧ Processed processEvent p) ?_ ?_ as p h
  · rintro p rfl
    exact ⟨inv_init, by simp [Processed]⟩
  · intro as p act p' _ ih hok hnext
    exact ⟨inv_step ih.1 (clearsNothing_of_processes hok) hnext,
      processed_step ih.1 ih.2 hok hnext⟩

/-- Where the sequential branch gives results for the events of a batch, the batch returns the same
ones, in the same order. -/
theorem parallel_eq_sequential {as : List Act} {results : List ProcessingResult}
    (h : Trace (batches config) (Processes processEvent) as p) (hx : p.batches b = some x)
    (hreturned : x.phase = .returned)
    (hsequential : processSequentially processEvent x.events = .ok results) :
    x.results = results.map some := by
  obtain ⟨hinv, hprocessed⟩ := processed_of_trace h
  have hall : List.Forall₂ (fun e r => processEvent e = .ok r) x.events results := by
    refine Fallible.foldlM_ok (P := List.Forall₂ fun e r => processEvent e = .ok r) ?_ [] .nil
      hsequential
    intro done e rs rs' hdone hstep
    obtain ⟨r, hr, hrs⟩ := Fallible.bind_ok hstep
    obtain rfl := Except.ok.inj hrs
    exact List.rel_append hdone (.cons hr .nil)
  refine List.ext_getElem? fun i => ?_
  rw [List.getElem?_map]
  cases he : x.events[i]? with
  | none =>
    have hlength := (hinv.batch b x hx).1.length
    rw [List.getElem?_eq_none_iff] at he
    have hsame := hall.length_eq
    rw [List.getElem?_eq_none (by omega), List.getElem?_eq_none (by omega)]
    rfl
  | some e =>
    obtain ⟨k, o, hk, -, hstored⟩ := hinv.returned hx hreturned he
    obtain ⟨hlt, rfl⟩ := List.getElem?_eq_some_iff.mp he
    have hlt' : i < results.length := by
      rw [← hall.length_eq]
      exact hlt
    have hr := hall.get hlt hlt'
    rw [hstored, hprocessed k _ o x _ hk rfl hx he, List.getElem?_eq_getElem hlt']
    simp only [List.get_eq_getElem] at hr
    rw [hr]
    rfl

/-- Every event gives the same result. -/
theorem parallel_eq_sequential_one_by_one :
    finished.results = [processed, processed].map some := by
  obtain ⟨p, hp, hresult⟩ := Option.map_eq_some_iff.mp replay_oneByOne
  obtain ⟨hbatch, -⟩ := Prod.mk.inj hresult
  have hsame : ∀ l q, ∀ act ∈ oneByOne, ClearsNothing l q act →
      Processes (fun _ => .ok processed) l q act := by
    intro l q act hact _
    simp only [oneByOne, List.mem_cons, List.not_mem_nil, or_false] at hact
    rcases hact with rfl | rfl | rfl | rfl | rfl | rfl | rfl
    · trivial
    · exact fun _ _ _ _ _ _ => rfl
    · trivial
    · trivial
    · exact fun _ _ _ _ _ _ => rfl
    · trivial
    · trivial
  exact parallel_eq_sequential ⟨{}, rfl, (replay_path hp).mono hsame⟩ hbatch rfl rfl

theorem advance_spinning (hmax : 0 < config.maxConcurrentTasks) (p : Processor) (b : ℕ)
    (x : Batch) : (advance config p b x).spinning = p.spinning := by
  unfold advance
  split
  · rfl
  · rename_i hpending
    have hsome : 0 < x.pendingIndices.length := List.length_pos_iff.mpr hpending
    by_cases hsize : 0 < min (config.maxConcurrentTasks - (p.processingTasks.length : ℤ))
        (x.pendingIndices.length : ℤ)
    · simp only [hsize, if_true, foldl_startTask]
      split
      · rename_i hnil
        have hlength := congrArg List.length hnil
        simp only [List.length_append, List.length_range', List.length_take,
          List.length_nil] at hlength
        omega
      · rfl
    · simp only [hsize, if_false]
      split
      · rename_i hnil
        rw [hnil, List.length_nil] at hsize
        omega
      · rfl

theorem next_spinning {act : Act} (hmax : 0 < config.maxConcurrentTasks)
    (hstep : next config p act = some p') : p'.spinning = false := by
  obtain ⟨hfalse, ⟨b, x, rfl, -⟩ | ⟨k, o, -, hend⟩ | ⟨b, x, phase, -, rfl⟩ | ⟨-, -, hsame⟩⟩ :=
    next_cases hstep
  · rw [advance_spinning hmax, hfalse]
  · obtain ⟨b, idx, x, event, -, -, -, rfl⟩ := endTask_eq hend
    exact hfalse
  · exact hfalse
  · exact hsame.trans hfalse

theorem validate_eq_ok : config.validate = .ok () ↔ 0 < config.maxConcurrentTasks := by
  unfold EventProcessorConfig.validate
  split
  · simp only [reduceCtorEq, false_iff]
    omega
  · simp only [true_iff]
    omega

/-- `validate` accepts the limits with which no run stalls the event loop. -/
theorem validate_iff_never_spins :
    config.validate = .ok () ↔
      ∀ as p, Trace (batches config) free as p → p.spinning = false := by
  rw [validate_eq_ok]
  constructor
  · intro hmax as p
    refine Trace.induct (I := fun _ p => p.spinning = false) ?_ ?_ as p
    · rintro p rfl
      rfl
    · exact fun _ _ _ _ _ _ _ hnext => next_spinning hmax hnext
  · intro hnever
    by_contra hmax
    have hspins : next config {} (.call 0 [⟨"", "", 0⟩]) = some { spinning := true } := by
      simp [next, advance, Batch.start, hmax]
    have htrace : Trace (batches config) free [.call 0 [⟨"", "", 0⟩]] { spinning := true } :=
      ⟨{}, rfl, .single trivial hspins⟩
    exact absurd (hnever _ _ htrace) (by simp)

/-- Tasks end, their callbacks run and batches go on; nothing else happens. -/
def OnlyTasks : Condition Processor Act
  | _, _, .ends .. => True
  | _, _, .discard _ => True
  | _, _, .resume _ => True
  | _, _, _ => False

theorem inv_of_path {past as : List Act} (hp : Path (batches config) OnlyTasks past p as p')
    (h : Inv config p) : Inv config p' := by
  refine hp.preserves (P := Inv config) ?_ h
  intro l x act y hx hok hnext
  have hclears : ClearsNothing l x act := by
    cases act with
    | cleanupEnds c => exact absurd hok id
    | _ => trivial
  exact inv_step hx hclears hnext

/-- Where a batch is. -/
def place (p : Processor) (b : ℕ) : Option (Phase × List ℕ) :=
  (p.batches b).map fun x => (x.phase, x.pendingIndices)

theorem exists_endTask {b idx : ℕ} (h : Inv config p)
    (hk : p.tasks[k]? = some ⟨b, idx, .running⟩) (outcome : Outcome) :
    ∃ p', endTask p k outcome = some p' ∧ p'.tasks = p.tasks.set k ⟨b, idx, .ended outcome⟩ ∧
      p'.processingTasks = p.processingTasks ∧ p'.spinning = p.spinning ∧
      ∀ c, place p' c = place p c := by
  obtain ⟨x, hx⟩ := Option.isSome_iff_exists.mp (h.owner k _ hk)
  obtain ⟨hfiled, -⟩ := h.batch b x hx
  have hmem : idx ∈ started p.tasks b := List.mem_map.mpr
    ⟨⟨b, idx, .running⟩, List.mem_filter.mpr ⟨List.mem_of_getElem? hk, by simp⟩, rfl⟩
  have hlt : idx < x.events.length := by
    rw [← List.mem_range, ← hfiled.order]
    exact List.mem_append_left _ hmem
  have hend : endTask p k outcome =
      some ({ p with tasks := p.tasks.set k ⟨b, idx, .ended outcome⟩ }.setBatch b { x with
        results := x.results.set idx (stored x.events[idx] (.ended outcome)) }) := by
    simp only [endTask, hk, hx, List.getElem?_eq_getElem hlt]
  refine ⟨_, hend, rfl, rfl, rfl, fun c => ?_⟩
  by_cases hc : c = b
  · subst hc
    simp [place, Processor.setBatch, hx]
  · simp [place, Processor.setBatch, hc]

theorem exists_path_ended (h : Inv config p) (hs : p.spinning = false) (past : List Act) (n : ℕ)
    (hn : n ≤ p.tasks.length) :
    ∃ as q, Path (batches config) OnlyTasks past p as q ∧ q.spinning = false ∧
      q.tasks.length = p.tasks.length ∧ q.processingTasks = p.processingTasks ∧
      (∀ (k : ℕ) (t : BatchTask), k < n → q.tasks[k]? = some t → t.status ≠ .running) ∧
      ∀ c, place q c = place p c := by
  induction n with
  | zero => exact ⟨[], p, .nil, hs, rfl, rfl, by simp, fun _ => rfl⟩
  | succ n ih =>
    obtain ⟨as, q, hp, hqs, hlength, hprocessing, hended, hplace⟩ := ih (by omega)
    have hqn : n < q.tasks.length := by omega
    have hsucc : ∀ k, k < n + 1 → k ≠ n → k < n := fun k _ _ => by omega
    rcases hget : q.tasks[n] with ⟨b, idx, status⟩
    have htask : q.tasks[n]? = some ⟨b, idx, status⟩ := by rw [List.getElem?_eq_getElem hqn, hget]
    cases status with
    | ended o =>
      refine ⟨as, q, hp, hqs, hlength, hprocessing, fun k t hk ht => ?_, hplace⟩
      by_cases hkn : k = n
      · subst hkn
        obtain rfl := Option.some.inj (htask.symm.trans ht)
        simp
      · exact hended k t (hsucc k hk hkn) ht
    | running =>
      obtain ⟨r, hr, htasks, hprocessing', hspinning, hplace'⟩ :=
        exists_endTask (inv_of_path hp h) htask (.raised "")
      have hstep : (batches config).next q (.ends n (.raised "")) = some r := by
        simp [batches, next, hqs, hr]
      have hok : OnlyTasks (past ++ as) q (.ends n (.raised "")) := trivial
      refine ⟨_, r, hp.snoc hok hstep, hspinning.trans hqs,
        by rw [htasks, List.length_set, hlength],
        hprocessing'.trans hprocessing, fun k t hk ht => ?_, fun c => (hplace' c).trans (hplace c)⟩
      rw [htasks] at ht
      rcases getElem?_set_ended ht with ⟨hkn, ht⟩ | ⟨-, rfl⟩
      · exact hended k t (hsucc k hk hkn) ht
      · simp

theorem exists_path_discarded (h : Inv config p) (hs : p.spinning = false) (past : List Act)
    (hended : ∀ (k : ℕ) (t : BatchTask), p.tasks[k]? = some t → t.status ≠ .running) :
    ∃ as q, Path (batches config) OnlyTasks past p as q ∧
      q = { p with processingTasks := [] } := by
  generalize hl : p.processingTasks = l
  induction l generalizing p past with
  | nil => exact ⟨[], p, .nil, by rw [← hl]⟩
  | cons k l ih =>
    have hlt := h.shared.known k (by simp [hl])
    rcases hget : p.tasks[k] with ⟨b, idx, status⟩
    have htask : p.tasks[k]? = some ⟨b, idx, status⟩ := by rw [List.getElem?_eq_getElem hlt, hget]
    cases status with
    | running => exact absurd rfl (hended k _ htask)
    | ended o =>
      have hstep : (batches config).next p (.discard k) = some { p with processingTasks := l } := by
        simp [batches, next, hs, htask, hl]
      have hok : OnlyTasks past p (.discard k) := trivial
      have hinv := inv_of_path (Path.single hok hstep) h
      obtain ⟨as, q, hp, hq⟩ := ih (p := { p with processingTasks := l }) hinv hs
        (past ++ [.discard k]) hended rfl
      exact ⟨_, q, (Path.single hok hstep).append hp, hq⟩

/-- Everything that runs can end with its callbacks, and every batch stays where it is. -/
theorem exists_path_quiet (h : Inv config p) (hs : p.spinning = false) (past : List Act) :
    ∃ as q, Path (batches config) OnlyTasks past p as q ∧ q.spinning = false ∧
      q.processingTasks = [] ∧
      (∀ k, k < p.tasks.length → q.announced k = true) ∧ ∀ c, place q c = place p c := by
  obtain ⟨as, q, hp, hqs, hlength, -, hended, hplace⟩ := exists_path_ended h hs past _ le_rfl
  have hended' : ∀ (k : ℕ) (t : BatchTask), q.tasks[k]? = some t → t.status ≠ .running := by
    intro k t hk
    refine hended k t ?_ hk
    rw [← hlength]
    exact (List.getElem?_eq_some_iff.mp hk).1
  obtain ⟨bs, r, hq, rfl⟩ := exists_path_discarded (inv_of_path hp h) hqs (past ++ as) hended'
  refine ⟨as ++ bs, _, hp.append hq, hqs, rfl, fun k hk => ?_, hplace⟩
  rw [← hlength] at hk
  rcases hget : q.tasks[k] with ⟨b, idx, status⟩
  have htask : q.tasks[k]? = some ⟨b, idx, status⟩ := by rw [List.getElem?_eq_getElem hk, hget]
  cases status with
  | running => exact absurd rfl (hended' k _ htask)
  | ended o => simp [Processor.announced, htask]

/-- A batch is over: it has returned or was cancelled. -/
def Over (p : Processor) (b : ℕ) : Prop :=
  ∃ x, p.batches b = some x ∧ (x.phase = .returned ∨ x.phase = .cancelled)

/-- With the set empty, a batch that goes on returns or starts an event. -/
theorem advance_of_empty (hmax : 0 < config.maxConcurrentTasks) (hempty : p.processingTasks = [])
    (x : Batch) : Over (advance config p b x) b ∨
      ∃ y, (advance config p b x).batches b = some y ∧
        y.pendingIndices.length < x.pendingIndices.length := by
  unfold advance
  split
  · exact .inl ⟨{ x with phase := .returned }, by simp [Processor.setBatch, hempty], .inl rfl⟩
  · rename_i hpending
    have hsome : 0 < x.pendingIndices.length := List.length_pos_iff.mpr hpending
    have hsize : 0 < min (config.maxConcurrentTasks - (p.processingTasks.length : ℤ))
        (x.pendingIndices.length : ℤ) := by
      rw [hempty, List.length_nil]
      omega
    simp only [hsize, if_true, foldl_startTask]
    split
    · rename_i hnil
      have hlength := congrArg List.length hnil
      simp only [List.length_append, List.length_range', List.length_take, List.length_nil]
        at hlength
      omega
    · refine .inr ⟨_, by simp [Processor.setBatch]; rfl, ?_⟩
      rw [List.length_drop]
      omega

/-- No batch is ever stuck: from every state of a run, each batch can be brought to its end by tasks
that end, their callbacks and batches that go on. -/
theorem batch_can_end {as : List Act} (hconfig : config.validate = .ok ())
    (h : Trace (batches config) ClearsNothing as p) (hx : p.batches b = some x) :
    ∃ bs q, Path (batches config) OnlyTasks as p bs q ∧ Over q b := by
  have hmax := validate_eq_ok.mp hconfig
  have hspinning : p.spinning = false := validate_iff_never_spins.mp hconfig as p (by
    obtain ⟨s₀, h₀, hp⟩ := h
    exact ⟨s₀, h₀, hp.mono fun _ _ _ _ _ => trivial⟩)
  have hinv := inv_of_trace h
  clear h hconfig
  generalize hn : x.pendingIndices.length = n
  induction n using Nat.strong_induction_on generalizing p x as with
  | _ n ih =>
    obtain ⟨cs, q, hp, hqs, hempty, hannounced, hplace⟩ := exists_path_quiet hinv hspinning as
    obtain ⟨-, hawaits⟩ := hinv.batch b x hx
    obtain ⟨y, hy, hsame⟩ := Option.map_eq_some_iff.mp
      ((hplace b).trans (by rw [place, hx, Option.map_some]))
    obtain ⟨hphase, hpending⟩ := Prod.mk.inj hsame
    have hresume : (batches config).next q (.resume b) = resume config q b := by
      simp [batches, next, hqs]
    have hok : OnlyTasks (as ++ cs) q (.resume b) := trivial
    cases hxphase : x.phase with
    | returned => exact ⟨[], p, .nil, x, hx, .inl hxphase⟩
    | cancelled => exact ⟨[], p, .nil, x, hx, .inr hxphase⟩
    | gathering children cancelled =>
      simp only [Awaits, hxphase] at hawaits
      have hall : children.all q.announced = true :=
        List.all_eq_true.mpr fun k hk => hannounced k (hawaits.2.1 k hk)
      have hstep : resume config q b = some (q.setBatch b { y with
          phase := if cancelled then .cancelled else .returned }) := by
        simp [resume, hy, hphase, hxphase, hall]
      refine ⟨_, _, hp.snoc hok (hresume.trans hstep),
        { y with phase := if cancelled then .cancelled else .returned },
        by simp [Processor.setBatch], ?_⟩
      cases cancelled with
      | true => exact .inr rfl
      | false => exact .inl rfl
    | waiting fs =>
      simp only [Awaits, hxphase] at hawaits
      obtain ⟨k, hk⟩ := List.exists_mem_of_ne_nil fs hawaits.1
      have hany : fs.any q.announced = true :=
        List.any_eq_true.mpr ⟨k, hk, hannounced k (hawaits.2 k hk)⟩
      by_cases hcancelled : fs.any q.cancelledTask = true
      · have hstep : resume config q b = some (q.setBatch b { y with phase := .cancelled }) := by
          simp only [resume, hy, hphase, hxphase, hany, hcancelled, if_true]
        exact ⟨_, _, hp.snoc hok (hresume.trans hstep), { y with phase := .cancelled },
          by simp [Processor.setBatch], .inr rfl⟩
      · have hstep : resume config q b = some (advance config q b y) := by
          simp only [resume, hy, hphase, hxphase, hany, hcancelled, if_true]
          rfl
        have hpath := hp.snoc hok (hresume.trans hstep)
        rcases advance_of_empty (b := b) hmax hempty y with hover | ⟨z, hz, hlt⟩
        · exact ⟨_, _, hpath, hover⟩
        · rw [hpending, hn] at hlt
          obtain ⟨ds, r, hr, hover⟩ := ih _ hlt hz
            (by rw [advance_spinning hmax, hqs]) (inv_of_path hpath hinv) rfl
          exact ⟨_, r, hpath.append hr, hover⟩

/-- A batch that waits for its first event, with a second one to start. -/
theorem batch_can_end_first :
    ∃ (p q : Processor) (bs : List Act), p.processingTasks = [0] ∧
      Path (batches ⟨1⟩) OnlyTasks [.call 0 events] p bs q ∧ Over q 0 := by
  have hrun : ((replay (batches ⟨1⟩) ClearsNothing [] [.call 0 events] {}).map
      fun p => (p.processingTasks, p.batches 0)) = some ([0], some {
        events := events
        pendingIndices := [1]
        results := [none, none]
        phase := .waiting [0] }) := rfl
  obtain ⟨p, hp, hresult⟩ := Option.map_eq_some_iff.mp hrun
  obtain ⟨hprocessing, hbatch⟩ := Prod.mk.inj hresult
  obtain ⟨bs, q, hpath, hover⟩ := batch_can_end rfl (trace_of_replay rfl hp) hbatch
  exact ⟨p, q, bs, hprocessing, hpath, hover⟩

end Taas.EventBatches
