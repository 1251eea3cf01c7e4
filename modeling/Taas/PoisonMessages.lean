import Taas.EventProcessor
import Taas.MsgEncoder

/-!
The aiokafka consumer on messages with any bytes. Nothing checks the types of the fields that a
message brings, so the handling works on fields that may be anything: an event type that
is no key, a retry count that is no number.
-/
namespace Taas.PoisonMessages

open Python Retry EventProcessor MsgEncoder

structure Consumer where
  encoder : Encoder
  fmt : MessageEncodingType
  settings : MessagingSettings := {}
  config : EventProcessorConfig := {}
  autoCommit : Bool := false
  maxWorkers : ℤ := 1

/-- A message that is not null, and what its handling meets: the registered handlers, with the
outcomes that their executions will have, and the publication of its dead letter. -/
structure Incoming where
  value : ByteArray
  handlers : String → Option EventHandler := fun _ => none
  publishDlq : Except String Unit := .ok ()

structure Attempts where
  retryCount : Value
  executions : ℕ := 0
  effects : List Effect := []

/-- `handlerRegistry.get_handler(event.event_type)`. -/
def getHandler (handlers : String → Option EventHandler) (eventType : Value) :
    Except PyError (Option EventHandler) :=
  match eventType with
  | .str name => .ok (handlers name)
  | v =>
    if v.hashable then .ok none
    else .error {
      type := .typeError
      text := "unhashable type: '" ++ v.typeName ++ "'" }

def isNumber : Value → Bool
  | .bool _ | .int _ | .float _ => true
  | _ => false

/-- The TypeError of a comparison with an integer. -/
def notANumber (operator : String) (v : Value) : String :=
  "'" ++ operator ++ "' not supported between instances of '" ++ v.typeName ++ "' and 'int'"

def addOne : Value → Except String Value
  | .bool b => .ok (.int (b.toNat + 1))
  | .int n => .ok (.int (n + 1))
  | .float x => .ok (.float (x + 1))
  | .str _ => .error "can only concatenate str (not \"int\") to str"
  | .bytes _ => .error "can't concat int to bytes"
  | .list _ => .error "'int' object is not iterable"
  | v => .error ("unsupported operand type(s) for +=: '" ++ v.typeName ++ "' and 'int'")

/-- `retry_count >= n`. -/
def atLeast (n : ℤ) : Value → Except String Bool
  | .bool b => .ok (n ≤ b.toNat)
  | .int k => .ok (n ≤ k)
  | .float x => .ok (Float.ofInt n ≤ x)
  | v => .error (notANumber ">=" v)

def isNegative : Value → Except String Bool
  | .bool _ => .ok false
  | .int k => .ok (k < 0)
  | .float x => .ok (x < 0)
  | v => .error (notANumber "<" v)

def Attempts.countFailure (config : EventProcessorConfig) (p : Attempts) : Except String Attempts :=
  (addOne p.retryCount).map fun count =>
    { p with
      retryCount := count
      effects := p.effects ++ if config.enableMetrics then [.retried] else [] }

/-- `process_event_with_handler`, up to the success of its result. A failed count raises in the
place of what it counts. -/
def attempt (config : EventProcessorConfig) (handler : EventHandler) (p : Attempts) :
    Except String Bool × Attempts :=
  let called : Attempts :=
    { p with executions := p.executions + 1, effects := p.effects ++ [.executed] }
  match handler.handleEvent p.executions with
  | .returns result =>
    if result.success then (.ok true, called)
    else
      match called.countFailure config with
      | .ok counted => (.ok false, counted)
      | .error e => (.error e, called)
  | .raises error =>
    match called.countFailure config with
    | .ok counted => (.error error, counted)
    | .error e => (.error e, called)

def processAny (config : EventProcessorConfig) (handler : Option EventHandler) (e : Event) :
    Bool × Attempts :=
  let start : Attempts := { retryCount := e.value "retry_count" }
  match handler with
  | none => (false, start)
  | some handler =>
    match
      if config.retryEnabled then executeAsync (attempt config handler) maxAttempts start
      else attempt config handler start
    with
    | (.ok success, p) => (success, p)
    | (.error _, p) => (false, p)

/-- `send_to_dlq`: building the `DlqEvent` checks the retry count. -/
def sendAnyToDlq (publishDlq : Except String Unit) (retryCount : Value) : Except String Unit :=
  match isNegative retryCount with
  | .error e => .error e
  | .ok true => .error "retry_count must be >= 0"
  | .ok false => publishDlq

def Consumer.processDecoded (c : Consumer) (handlers : String → Option EventHandler)
    (publishDlq : Except String Unit) (e : Event) : Handling :=
  match getHandler handlers (e.value "event_type") with
  | .error _ => { effects := .failed :: maybeCommit c.autoCommit }
  | .ok handler =>
    let (success, p) := processAny c.config handler e
    if success then { effects := p.effects ++ .processed :: maybeCommit c.autoCommit }
    else if c.settings.dlqEnabled then
      match atLeast c.settings.retryMaxRetries p.retryCount with
      | .error error => { effects := p.effects ++ [.failed], raised := some error }
      | .ok true =>
        match sendAnyToDlq publishDlq p.retryCount with
        | .ok _ =>
          { effects := p.effects ++ .failed :: .deadLettered :: maybeCommit c.autoCommit }
        | .error error => { effects := p.effects ++ [.failed], raised := some error }
      | .ok false => { effects := p.effects ++ [.failed, .retried] }
    else { effects := p.effects ++ [.failed] }

/-- `_process_message`: the debug line after decoding reads `event.event_id`. -/
def Consumer.processMessage (c : Consumer) (m : Incoming) : Handling :=
  match c.encoder.decodeMsg c.fmt m.value with
  | .error e =>
    if e.type = .msgDecoderError then { effects := .failed :: maybeCommit c.autoCommit }
    else { raised := some e.text }
  | .ok (.plain v) =>
    { raised := some ("'" ++ v.typeName ++ "' object has no attribute 'event_id'") }
  | .ok (.event e) => c.processDecoded m.handlers m.publishDlq e

/-- `_run_consuming` on the messages that arrive: the handlings, and the exception that ends the
loop. With several workers the handlings are tasks, whose exceptions are only reported. -/
def Consumer.runConsuming (c : Consumer) : List Incoming → List Handling × Option String
  | [] => ([], none)
  | m :: ms =>
    let h := c.processMessage m
    let (hs, e) := c.runConsuming ms
    if c.maxWorkers ≤ 1 ∧ h.raised.isSome then ([h], h.raised) else (h :: hs, e)

/-- The message is decoded or refused, its handling returns and counts it once, and the loop
goes on to the next message. -/
structure Consumer.Survives (c : Consumer) (m : Incoming) : Prop where
  decodes : (∃ e, c.encoder.decodeMsg c.fmt m.value = .ok (.event e)) ∨
    ∃ e, c.encoder.decodeMsg c.fmt m.value = .error e ∧ e.type = .msgDecoderError
  returns : (c.processMessage m).raised = none
  counted : (c.processMessage m).effects.count .processed +
    (c.processMessage m).effects.count .failed = 1
  goesOn : ∀ ms, c.runConsuming (m :: ms) =
    (c.processMessage m :: (c.runConsuming ms).1, (c.runConsuming ms).2)

/-- The handling of an event returns: its event type is no key, its handling succeeds, there is
no dead letter queue, or its retry count is a number and the dead letter that is due can be
published. -/
def Consumer.Completes (c : Consumer) (m : Incoming) (e : Event) : Prop :=
  ∀ handler, getHandler m.handlers (e.value "event_type") = .ok handler →
    (processAny c.config handler e).1 ∨ c.settings.dlqEnabled = false ∨
      isNumber (e.value "retry_count") ∧
        (atLeast c.settings.retryMaxRetries (processAny c.config handler e).2.retryCount =
            .ok true →
          sendAnyToDlq m.publishDlq (processAny c.config handler e).2.retryCount = .ok ())

/-- A JSON message is an object that describes an event; a MessagePack message is one, names a
class that it does not fit, or cannot be decoded. The handling of the event completes. -/
def Consumer.Harmless (c : Consumer) (m : Incoming) : Prop :=
  match c.fmt with
  | .json => ∃ text v entries serializer, String.fromUTF8? m.value = some text ∧
      c.encoder.msgspec.jsonDecode text = .ok v ∧ NamesClass v entries serializer ∧
      c.encoder.Describes entries serializer ∧
      c.Completes m (c.encoder.eventOf entries serializer)
  | .msgpack => ∀ v, c.encoder.msgspec.msgpackDecode m.value = .ok v →
      ∃ entries serializer, NamesClass v entries serializer ∧
        (c.encoder.Describes entries serializer →
          c.Completes m (c.encoder.eventOf entries serializer))

variable {c : Consumer} {m : Incoming} {e : Event}

/-- The attempts neither process nor fail the message, and keep what a retry count is. -/
structure Counts (number : Bool) (p : Attempts) : Prop where
  isNumber : isNumber p.retryCount = number
  processed : p.effects.count .processed = 0
  failed : p.effects.count .failed = 0

theorem addOne_isNumber {v w : Value} (h : addOne v = .ok w) :
    isNumber w = true ∧ isNumber v = true := by
  cases v <;> simp [addOne] at h <;> subst h <;> exact ⟨rfl, rfl⟩

theorem counts_countFailure {config : EventProcessorConfig} {number : Bool} {p q : Attempts}
    (hp : Counts number p) (h : p.countFailure config = .ok q) : Counts number q := by
  unfold Attempts.countFailure at h
  cases hadd : addOne p.retryCount with
  | error e => simp [hadd, Except.map] at h
  | ok count =>
    rw [hadd] at h
    obtain rfl := Except.ok.inj h
    obtain ⟨hcount, hold⟩ := addOne_isNumber hadd
    obtain ⟨hn, hprocessed, hfailed⟩ := hp
    refine ⟨hcount.trans (hold.symm.trans hn), ?_, ?_⟩
    · cases config.enableMetrics <;> simp [hprocessed]
    · cases config.enableMetrics <;> simp [hfailed]

theorem counts_attempt {config : EventProcessorConfig} {handler : EventHandler} {number : Bool}
    {p : Attempts} (hp : Counts number p) : Counts number (attempt config handler p).2 := by
  have hcalled : Counts number
      { p with executions := p.executions + 1, effects := p.effects ++ [.executed] } := by
    refine ⟨hp.isNumber, ?_, ?_⟩
    · simp [hp.processed]
    · simp [hp.failed]
  unfold attempt
  dsimp only
  cases handler.handleEvent p.executions with
  | returns result =>
    dsimp only
    split
    · exact hcalled
    · split
      · exact counts_countFailure hcalled ‹_›
      · exact hcalled
  | raises error =>
    dsimp only
    split
    · exact counts_countFailure hcalled ‹_›
    · exact hcalled

theorem counts_processAny (config : EventProcessorConfig) (handler : Option EventHandler)
    (e : Event) :
    Counts (isNumber (e.value "retry_count")) (processAny config handler e).2 := by
  have hstart : Counts (isNumber (e.value "retry_count"))
      ({ retryCount := e.value "retry_count" } : Attempts) := ⟨rfl, rfl, rfl⟩
  unfold processAny
  cases handler with
  | none => exact hstart
  | some handler =>
    dsimp only
    have hend : Counts (isNumber (e.value "retry_count"))
        (if config.retryEnabled then
            executeAsync (attempt config handler) maxAttempts
              { retryCount := e.value "retry_count" }
          else attempt config handler { retryCount := e.value "retry_count" }).2 := by
      split
      · exact executeAsync_keeps (fun p hp => counts_attempt hp) _ _ hstart
      · exact counts_attempt hstart
    split
    · rename_i h
      rwa [h] at hend
    · rename_i h
      rwa [h] at hend

theorem atLeast_error_iff (n : ℤ) (v : Value) :
    (∃ text, atLeast n v = .error text) ↔ isNumber v = false := by
  cases v <;> simp [atLeast, isNumber]

theorem count_maybeCommit (autoCommit : Bool) :
    (maybeCommit autoCommit).count .processed = 0 ∧ (maybeCommit autoCommit).count .failed = 0 := by
  cases autoCommit <;> exact ⟨rfl, rfl⟩

/-- The handling of a decoded event counts it once, and returns exactly when it completes. -/
theorem processDecoded_spec (c : Consumer) (m : Incoming) (e : Event) :
    ((c.processDecoded m.handlers m.publishDlq e).effects.count .processed +
      (c.processDecoded m.handlers m.publishDlq e).effects.count .failed = 1) ∧
    ((c.processDecoded m.handlers m.publishDlq e).raised = none ↔ c.Completes m e) := by
  obtain ⟨hcommitted, hcommitted'⟩ := count_maybeCommit c.autoCommit
  unfold Consumer.processDecoded Consumer.Completes
  cases hh : getHandler m.handlers (e.value "event_type") with
  | error err => simp [hcommitted, hcommitted']
  | ok handler =>
    obtain ⟨hnumber, hprocessed, hfailed⟩ := counts_processAny c.config handler e
    simp only [Except.ok.injEq, forall_eq']
    by_cases hs : (processAny c.config handler e).1 = true
    · simp [hs, hprocessed, hfailed, hcommitted, hcommitted']
    · by_cases hd : c.settings.dlqEnabled = true
      · simp only [hs, hd, if_true, if_false, Bool.false_eq_true]
        cases ha : atLeast c.settings.retryMaxRetries
            (processAny c.config handler e).2.retryCount with
        | error text =>
          have hnot := (atLeast_error_iff _ _).mp ⟨text, ha⟩
          rw [hnumber] at hnot
          simp [hprocessed, hfailed, hnot]
        | ok reached =>
          have hyes : isNumber (e.value "retry_count") = true := by
            by_contra hno
            have hno' : isNumber (processAny c.config handler e).2.retryCount = false := by
              simpa [hnumber] using hno
            obtain ⟨text, ht⟩ := (atLeast_error_iff c.settings.retryMaxRetries _).mpr hno'
            simp [ha] at ht
          cases reached with
          | false => simp [hprocessed, hfailed, hyes]
          | true =>
            cases hsend : sendAnyToDlq m.publishDlq
                (processAny c.config handler e).2.retryCount with
            | ok u => simp [hprocessed, hfailed, hcommitted, hcommitted', hyes]
            | error text => simp [hprocessed, hfailed]
      · simp [hs, hd, hprocessed, hfailed]

def untyped (p : Processing) : Attempts where
  retryCount := .int p.event.retryCount
  executions := p.executions
  effects := p.effects

theorem attempt_untyped (config : EventProcessorConfig) (handler : EventHandler) (p : Processing) :
    attempt config handler (untyped p) =
      ((processEventWithHandler config handler p).1.map ProcessingResult.success,
        untyped (processEventWithHandler config handler p).2) := by
  unfold attempt processEventWithHandler
  simp only [untyped]
  cases handler.handleEvent p.executions with
  | returns result =>
    cases hs : result.success <;>
      simp [hs, Except.map, Attempts.countFailure, addOne, Processing.countFailure]
  | raises error => simp [Except.map, Attempts.countFailure, addOne, Processing.countFailure]

theorem processAny_untyped (config : EventProcessorConfig) (handler : Option EventHandler)
    {event : BaseEvent} (hcount : e.value "retry_count" = .int event.retryCount) :
    processAny config handler e =
      ((processEvent config handler event).1.success,
        untyped (processEvent config handler event).2) := by
  unfold processAny processEvent
  cases handler with
  | none => simp [hcount, untyped]
  | some handler =>
    have hstart : ({ retryCount := e.value "retry_count" } : Attempts) =
        untyped { event := event } := by
      simp [hcount, untyped]
    have hloop := executeAsync_map (attempt_untyped config handler) maxAttempts { event := event }
    have honce := attempt_untyped config handler { event := event }
    simp only [hstart]
    cases config.retryEnabled with
    | true =>
      simp only [if_true, hloop]
      cases executeAsync (processEventWithHandler config handler) maxAttempts
          { event := event } with
      | mk result p => cases result <;> rfl
    | false =>
      simp only [Bool.false_eq_true, if_false, honce]
      cases processEventWithHandler config handler { event := event } with
      | mk result p => cases result <;> rfl

/-- On an event whose fields have their types the handling is that of `Taas.EventProcessor`. -/
theorem processDecoded_typed {event : BaseEvent} (c : Consumer)
    (handlers : String → Option EventHandler) (publishDlq : Except String Unit)
    (htype : e.value "event_type" = .str event.eventType)
    (hcount : e.value "retry_count" = .int event.retryCount) :
    c.processDecoded handlers publishDlq e =
      aiokafkaProcessMessage c.settings c.config c.autoCommit {
        value := some (.ok event)
        lookup := .ok (handlers event.eventType)
        publishDlq := publishDlq } := by
  have hget : getHandler handlers (e.value "event_type") = .ok (handlers event.eventType) := by
    rw [htype]
    rfl
  simp only [Consumer.processDecoded, hget, aiokafkaProcessMessage,
    processAny_untyped c.config (handlers event.eventType) hcount]
  cases processEvent c.config (handlers event.eventType) event with
  | mk result p =>
    have hdlq : sendAnyToDlq publishDlq (untyped p).retryCount = sendToDlq publishDlq p.event := by
      unfold sendAnyToDlq sendToDlq untyped isNegative
      by_cases hneg : p.event.retryCount < 0 <;> simp [hneg]
    dsimp only
    rw [hdlq]
    cases hs : result.success with
    | true => rfl
    | false =>
      by_cases hd : c.settings.dlqEnabled = true
      · by_cases hmax : c.settings.retryMaxRetries ≤ p.event.retryCount
        · cases sendToDlq publishDlq p.event <;> simp [hd, untyped, atLeast, hmax]
        · simp [hd, untyped, atLeast, hmax]
      · simp [hd, untyped]

theorem goesOn_of_returns (h : (c.processMessage m).raised = none) (ms : List Incoming) :
    c.runConsuming (m :: ms) =
      (c.processMessage m :: (c.runConsuming ms).1, (c.runConsuming ms).2) := by
  simp [Consumer.runConsuming, h]

theorem survives_event (h : c.encoder.decodeMsg c.fmt m.value = .ok (.event e)) :
    c.Survives m ↔ c.Completes m e := by
  have hprocess : c.processMessage m = c.processDecoded m.handlers m.publishDlq e := by
    simp [Consumer.processMessage, h]
  obtain ⟨hcounted, hreturns⟩ := processDecoded_spec c m e
  rw [← hprocess] at hcounted hreturns
  constructor
  · intro hs
    exact hreturns.mp hs.returns
  · intro hc
    have hnone := hreturns.mpr hc
    exact ⟨Or.inl ⟨e, h⟩, hnone, hcounted, goesOn_of_returns hnone⟩

theorem not_survives_plain {v : Value} (h : c.encoder.decodeMsg c.fmt m.value = .ok (.plain v)) :
    ¬ c.Survives m := by
  intro hs
  have hreturns := hs.returns
  simp [Consumer.processMessage, h] at hreturns

theorem survives_error {err : PyError} (h : c.encoder.decodeMsg c.fmt m.value = .error err) :
    c.Survives m ↔ err.type = .msgDecoderError := by
  constructor
  · intro hs
    rcases hs.decodes with ⟨e, he⟩ | ⟨err', herr, htype⟩
    · simp [h] at he
    · obtain rfl : err = err' := by simpa [h] using herr
      exact htype
  · intro htype
    obtain ⟨hcommitted, hcommitted'⟩ := count_maybeCommit c.autoCommit
    have hprocess : c.processMessage m = { effects := .failed :: maybeCommit c.autoCommit } := by
      simp [Consumer.processMessage, h, htype]
    refine ⟨Or.inr ⟨err, h, htype⟩, ?_, ?_, ?_⟩
    · rw [hprocess]
    · rw [hprocess]
      simp [hcommitted, hcommitted']
    · apply goesOn_of_returns
      rw [hprocess]

theorem exists_namesClass_iff {v : Value} {entries : List (Value × Value)} {serializer : Value}
    {Q : List (Value × Value) → Value → Prop} (hn : NamesClass v entries serializer) :
    (∃ entries serializer, NamesClass v entries serializer ∧ Q entries serializer) ↔
      Q entries serializer := by
  constructor
  · intro hex
    obtain ⟨entries', serializer', hn', hq⟩ := hex
    obtain ⟨rfl, rfl⟩ := namesClass_unique hn hn'
    exact hq
  · exact fun hq => ⟨entries, serializer, hn, hq⟩

/-- A message that msgspec could decode survives when it describes an event whose handling
completes, or when the TypeError of the class that it names becomes a `MsgDecoderError`. -/
theorem survives_reconstructed {v : Value} {f : PyError → PyError} (wraps : Prop)
    (h : c.encoder.decodeMsg c.fmt m.value = (c.encoder.reconstructEvent v).mapError f)
    (hf : ∀ text, (f { type := .typeError, text := text }).type = .msgDecoderError ↔ wraps) :
    c.Survives m ↔ ∃ entries serializer, NamesClass v entries serializer ∧
      (c.encoder.Describes entries serializer ∧
          c.Completes m (c.encoder.eventOf entries serializer) ∨
        ¬ c.encoder.Describes entries serializer ∧ wraps) := by
  by_cases hn : ∃ entries serializer, NamesClass v entries serializer
  · obtain ⟨entries, serializer, hn⟩ := hn
    rw [exists_namesClass_iff hn]
    obtain ⟨hdescribes, hraises⟩ := reconstruct_spec (m := c.encoder) hn
    by_cases hd : c.encoder.Describes entries serializer
    · rw [hdescribes hd] at h
      rw [survives_event h]
      simp [hd]
    · obtain ⟨text, ht⟩ := hraises hd
      rw [ht] at h
      rw [survives_error h, hf text]
      simp [hd]
  · rw [reconstruct_plain hn] at h
    constructor
    · intro hs
      exact absurd hs (not_survives_plain h)
    · intro hex
      obtain ⟨entries, serializer, hn', -⟩ := hex
      exact absurd ⟨entries, serializer, hn'⟩ hn

theorem survives_json (hfmt : c.fmt = .json) : c.Survives m ↔ c.Harmless m := by
  unfold Consumer.Harmless
  rw [hfmt]
  dsimp only
  cases htext : String.fromUTF8? m.value with
  | none =>
    have hdecode : c.encoder.decodeMsg c.fmt m.value = .error {
        type := .unicodeDecodeError
        text := "'utf-8' codec can't decode bytes" } := by
      rw [hfmt]
      simp [Encoder.decodeMsg, Encoder.decodeJson, htext, Except.mapError]
    rw [survives_error hdecode]
    simp
  | some text =>
    cases hv : c.encoder.msgspec.jsonDecode text with
    | error e =>
      have hdecode : c.encoder.decodeMsg c.fmt m.value = .error {
          type := .msgspec
          text := e } := by
        rw [hfmt]
        simp [Encoder.decodeMsg, Encoder.decodeJson, htext, hv, Except.mapError, bind, Except.bind]
      rw [survives_error hdecode]
      simp [hv]
    | ok v =>
      have hdecode : c.encoder.decodeMsg c.fmt m.value =
          (c.encoder.reconstructEvent v).mapError fun e =>
            if e.type = .jsonDecodeError then
              msgDecoderError ("Failed to decode JSON data: " ++ e.text) "JSON_DECODE_ERROR"
            else e := by
        rw [hfmt]
        simp [Encoder.decodeMsg, Encoder.decodeJson, htext, hv, Except.mapError, bind, Except.bind]
      rw [survives_reconstructed False hdecode (by simp)]
      simp [hv]

theorem survives_msgpack (hfmt : c.fmt = .msgpack) : c.Survives m ↔ c.Harmless m := by
  unfold Consumer.Harmless
  rw [hfmt]
  dsimp only
  cases hv : c.encoder.msgspec.msgpackDecode m.value with
  | error e =>
    have hdecode : c.encoder.decodeMsg c.fmt m.value = .error
        (msgDecoderError ("Failed to decode msgpack data: " ++ e) "MSGPACK_DECODE_ERROR") := by
      rw [hfmt]
      simp [Encoder.decodeMsg, Encoder.decodeMsgpack, hv, Except.mapError, bind, Except.bind]
    rw [survives_error hdecode]
    simp [msgDecoderError]
  | ok v =>
    have hdecode : c.encoder.decodeMsg c.fmt m.value =
        (c.encoder.reconstructEvent v).mapError fun e =>
          msgDecoderError ("Failed to decode msgpack data: " ++ e.text) "MSGPACK_DECODE_ERROR" := by
      rw [hfmt]
      simp [Encoder.decodeMsg, Encoder.decodeMsgpack, hv, Except.mapError, bind, Except.bind]
    rw [survives_reconstructed True hdecode (by simp [msgDecoderError])]
    simp only [Except.ok.injEq, forall_eq', and_true]
    refine exists_congr fun entries => exists_congr fun serializer => and_congr_right fun _ => ?_
    by_cases hd : c.encoder.Describes entries serializer <;> simp [hd]

/-- A message of any bytes survives exactly when it is harmless. -/
theorem survives_iff_harmless (c : Consumer) (m : Incoming) : c.Survives m ↔ c.Harmless m := by
  cases hfmt : c.fmt with
  | json => exact survives_json hfmt
  | msgpack => exact survives_msgpack hfmt

/-- A stream of harmless messages is handled to its end, and every message is counted once. -/
theorem runConsuming_harmless {ms : List Incoming} (h : ∀ m ∈ ms, c.Harmless m) :
    c.runConsuming ms = (ms.map c.processMessage, none) ∧
    ∀ x ∈ (c.runConsuming ms).1, x.effects.count .processed + x.effects.count .failed = 1 := by
  induction ms with
  | nil => exact ⟨rfl, by simp [Consumer.runConsuming]⟩
  | cons m ms ih =>
    obtain ⟨hrest, hcounts⟩ := ih fun x hx => h x (List.mem_cons_of_mem m hx)
    have hm : c.Survives m := by
      have hharmless := h m List.mem_cons_self
      cases hfmt : c.fmt with
      | json => exact (survives_json hfmt).mpr hharmless
      | msgpack => exact (survives_msgpack hfmt).mpr hharmless
    rw [hm.goesOn ms]
    constructor
    · rw [hrest, List.map_cons]
    · intro x hx
      rcases List.mem_cons.mp hx with rfl | hx
      · exact hm.counted
      · exact hcounts x hx

/-- A consumer on which msgspec decodes every message to the same value or error. -/
def decodingTo (fmt : MessageEncodingType) (decoded : Except String Value) : Consumer where
  encoder := {
    msgspec := {
      jsonEncode := fun _ => .error ""
      jsonDecode := fun _ => decoded
      msgpackEncode := fun _ => .error ""
      msgpackDecode := fun _ => decoded }
    fresh := fun _ => .str "" }
  fmt := fmt

def textCount : String :=
  "\x7b\"m_serializer\":\"baseevent_serializer\",\"event_type\":\"ping\",\"retry_count\":\"1\"\x7d"

/-- A JSON text that is cut off, a MessagePack nil, and an event whose retry count is a text:
the handling raises, and the loop of one worker ends with the next message unread. -/
theorem poison_message_stops_consumer :
    (¬ ∀ (c : Consumer) (m : Incoming), c.Survives m) ∧
    (let c := decodingTo .json (.error "Input data was truncated")
      let m : Incoming := { value := "\x7b".toUTF8 }
      c.runConsuming [m, m] =
        ([{ raised := some "Input data was truncated" }], some "Input data was truncated")) ∧
    (let c := decodingTo .msgpack (.ok .none)
      let m : Incoming := { value := ⟨#[0xc0]⟩ }
      (c.processMessage m).raised = some "'NoneType' object has no attribute 'event_id'") ∧
    (let c := decodingTo .json (.ok (.dict [(.str "m_serializer", .str "baseevent_serializer"),
        (.str "event_type", .str "ping"), (.str "retry_count", .str "1")]))
      let m : Incoming := { value := textCount.toUTF8 }
      (c.processMessage m).raised =
        some "'>=' not supported between instances of 'str' and 'int'") := by
  refine ⟨?_, ?_, ?_, ?_⟩
  · intro hclaim
    have hreturns := (hclaim (decodingTo .json (.error "Input data was truncated"))
      { value := "\x7b".toUTF8 }).returns
    revert hreturns
    decide
  · rfl
  · decide
  · decide

end Taas.PoisonMessages
