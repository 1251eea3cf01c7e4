import Taas.Retry

/-!
`EventProcessor.process_event` and the `_process_message` of the two Kafka consumers. One
handling of one message: what it counts, executes, sends to the dead letter queue and
commits, in order. Exceptions are their texts.
-/
namespace Taas.EventProcessor

open Retry

structure BaseEvent where
  eventType : String
  eventId : String
  retryCount : ℤ := 0

structure ProcessingResult where
  eventId : String
  success : Bool := true
  message : String := "Processed with OK status"
  retryCount : ℤ := 0
  error : Option String := none
  handlerName : Option String := none

inductive Execution
  | returns (result : ProcessingResult)
  | raises (error : String)

/-- A handler, with the outcome of its `n`-th execution on the event. -/
structure EventHandler where
  handlerName : String
  handleEvent : ℕ → Execution

structure EventProcessorConfig where
  retryEnabled : Bool := false
  enableMetrics : Bool := true

def maxAttempts : ℕ := 3

inductive Effect
  | executed
  | retried
  | processed
  | failed
  | deadLettered
  | committed
  deriving DecidableEq, Repr

structure Processing where
  event : BaseEvent
  executions : ℕ := 0
  effects : List Effect := []

def Processing.countFailure (config : EventProcessorConfig) (p : Processing) : Processing :=
  { p with
    event := { p.event with retryCount := p.event.retryCount + 1 }
    effects := p.effects ++ if config.enableMetrics then [.retried] else [] }

def processEventWithHandler (config : EventProcessorConfig) (handler : EventHandler)
    (p : Processing) : Except String ProcessingResult × Processing :=
  let called : Processing :=
    { p with executions := p.executions + 1, effects := p.effects ++ [.executed] }
  match handler.handleEvent p.executions with
  | .returns result =>
    (.ok { result with handlerName := some handler.handlerName },
      if result.success then called else called.countFailure config)
  | .raises error => (.error error, called.countFailure config)

/-- `process_event`, for the handler that the registry has for the event. -/
def processEvent (config : EventProcessorConfig) (handler : Option EventHandler)
    (event : BaseEvent) : ProcessingResult × Processing :=
  match handler with
  | none =>
    ({ eventId := event.eventId
       success := false
       message := "Handler not found"
       error := some ("No handler for event type: " ++ event.eventType) },
      { event := event })
  | some handler =>
    let outcome :=
      if config.retryEnabled then
        executeAsync (processEventWithHandler config handler) maxAttempts { event := event }
      else processEventWithHandler config handler { event := event }
    match outcome with
    | (.ok result, p) => (result, p)
    | (.error error, p) =>
      ({ eventId := event.eventId
         success := false
         message := "Failed"
         retryCount := p.event.retryCount
         error := some error
         handlerName := some handler.handlerName }, p)

structure MessagingSettings where
  retryMaxRetries : ℤ := 3
  dlqEnabled : Bool := true

inductive DecodeError
  | msgDecoder (message : String)
  | other (message : String)

/-- A message and what its handling meets. The value is none for a null message; the
look-up of the handler and the publication of the dead letter may raise. -/
structure Delivery where
  value : Option (Except DecodeError BaseEvent)
  lookup : Except String (Option EventHandler)
  publishDlq : Except String Unit := .ok ()

structure Handling where
  effects : List Effect := []
  raised : Option String := none

/-- `send_to_dlq`: building the `DlqEvent` checks the retry count. -/
def sendToDlq (publishDlq : Except String Unit) (event : BaseEvent) : Except String Unit :=
  if event.retryCount < 0 then .error "retry_count must be >= 0" else publishDlq

/-- `_maybe_commit`, up to the outcome of the commit. -/
def maybeCommit (autoCommit : Bool) : List Effect := if autoCommit then [] else [.committed]

def aiokafkaProcessMessage (settings : MessagingSettings) (config : EventProcessorConfig)
    (autoCommit : Bool) (d : Delivery) : Handling :=
  match d.value with
  | none => {}
  | some (.error (.msgDecoder _)) => { effects := .failed :: maybeCommit autoCommit }
  | some (.error (.other message)) => { raised := some message }
  | some (.ok event) =>
    match d.lookup with
    | .error _ => { effects := .failed :: maybeCommit autoCommit }
    | .ok handler =>
      let (result, p) := processEvent config handler event
      if result.success then { effects := p.effects ++ .processed :: maybeCommit autoCommit }
      else if settings.dlqEnabled ∧ settings.retryMaxRetries ≤ p.event.retryCount then
        match sendToDlq d.publishDlq p.event with
        | .ok _ => { effects := p.effects ++ .failed :: .deadLettered :: maybeCommit autoCommit }
        | .error e => { effects := p.effects ++ [.failed], raised := some e }
      else if settings.dlqEnabled then { effects := p.effects ++ [.failed, .retried] }
      else { effects := p.effects ++ [.failed] }

/-- `_process_message` of the FastStream consumer, which commits nothing itself. -/
def fastStreamProcessMessage (settings : MessagingSettings) (config : EventProcessorConfig)
    (d : Delivery) : Handling :=
  match d.value with
  | none => {}
  | some (.error (.msgDecoder _)) => { effects := [.failed] }
  | some (.error (.other message)) => { raised := some message }
  | some (.ok event) =>
    match d.lookup with
    | .error e => { raised := some e }
    | .ok handler =>
      let (result, p) := processEvent config handler event
      if result.success then { effects := p.effects ++ [.processed] }
      else if settings.dlqEnabled then
        if settings.retryMaxRetries ≤ p.event.retryCount then
          match sendToDlq d.publishDlq p.event with
          | .ok _ => { effects := p.effects ++ [.failed, .deadLettered] }
          | .error e => { effects := p.effects ++ [.failed], raised := some e }
        else { effects := p.effects ++ [.failed, .retried] }
      else { effects := p.effects ++ [.failed] }

/-- `_main_handler`: an exception of the handling is reported and swallowed. -/
def fastStreamMainHandler (settings : MessagingSettings) (config : EventProcessorConfig)
    (d : Delivery) : Handling :=
  { fastStreamProcessMessage settings config d with raised := none }

end Taas.EventProcessor
