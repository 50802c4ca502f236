import Mathlib.Data.List.Sort
import Arco.Data.Table

/-! Orchestration events, as the ledger stores them.

Each variant of the event enum is a structure that holds the payload fields which
the fold or the idempotency key reads. Identifiers, event ids and row versions are
strings: event ids are ULIDs, and Lean compares strings character by character as
Rust compares their UTF-8 bytes.
-/

namespace Arco.Flow

open Keyed

/-- Nanoseconds since the Unix epoch. -/
abbrev Timestamp := Int

inductive TaskOutcome where
  | succeeded
  | failed
  | skipped
  | cancelled
  deriving DecidableEq

inductive OutputVisibilityState where
  | pending
  | visible
  | failed
  deriving DecidableEq

inductive TimerType where
  | retry
  | heartbeatCheck
  | cron
  | slaCheck
  deriving DecidableEq

inductive TickStatus where
  | triggered
  | skipped (reason : String)
  | failed (error : String)
  deriving DecidableEq

inductive TriggerSource where
  | push (messageId : String)
  | poll (pollEpoch : Int)
  deriving DecidableEq

inductive SensorEvalStatus where
  | triggered
  | noNewData
  | error (message : String)
  | skippedStaleCursor
  deriving DecidableEq

inductive SensorStatus where
  | active
  | paused
  | error
  deriving DecidableEq

inductive SourceRef where
  | schedule (scheduleId tickId : String)
  | sensor (sensorId evalId : String)
  | backfill (backfillId chunkId : String)
  | manual (userId requestId : String)

inductive BackfillState where
  | pending
  | running
  | paused
  | succeeded
  | failed
  | cancelled
  deriving DecidableEq

def BackfillState.isValidTransition : BackfillState → BackfillState → Bool
  | .pending, .running | .paused, .running => true
  | .pending, .cancelled | .running, .cancelled | .paused, .cancelled => true
  | .running, .paused | .running, .succeeded | .running, .failed => true
  | _, _ => false

inductive PartitionSelector where
  | range (start stop : String)
  | explicit (partitionKeys : List String)
  | filter (filters : Map String String)
  deriving DecidableEq

inductive ChunkState where
  | pending
  | planned
  | running
  | succeeded
  | failed
  deriving DecidableEq

structure RunRequest where
  runKey : String
  requestFingerprint : String
  assetSelection : List String
  partitionSelection : Option (List String)
  codeVersion : Option String
  deriving DecidableEq

/-- One task of a plan. `dependsOn` lists upstream task keys of the same run. -/
structure TaskDef where
  key : String
  dependsOn : List String
  assetKey : Option String := none
  partitionKey : Option String := none
  maxAttempts : Nat := 3
  heartbeatTimeoutSec : Nat := 300
  requiresVisibleOutput : Bool := false

/-- The part of a worker's task output that the fold keeps. -/
structure TaskOutput where
  materializationId : Option String := none
  deltaTable : Option String := none
  deltaVersion : Option Int := none
  deltaPartition : Option String := none

structure OutputVisibilityUpdate where
  visibilityState : OutputVisibilityState
  publishedAt : Option Timestamp := none
  publishError : Option String := none

structure RunTriggered where
  runId : String
  planId : String
  runKey : Option String := none
  labels : Map String String := Table.empty
  codeVersion : Option String := none

structure PlanCreated where
  runId : String
  tasks : List TaskDef

structure RunCancelRequested where
  runId : String

structure AttemptRef where
  runId : String
  taskKey : String
  attempt : Nat
  attemptId : String

structure TaskHeartbeat extends AttemptRef where
  heartbeatAt : Option Timestamp := none

/-- The payload shared by `TaskFinished` and `TaskCompletionRecorded`. -/
structure TaskFinished extends AttemptRef where
  outcome : TaskOutcome
  materializationId : Option String := none
  errorMessage : Option String := none
  output : Option TaskOutput := none
  assetKey : Option String := none
  partitionKey : Option String := none
  codeVersion : Option String := none

structure TaskCompletionRecorded extends TaskFinished where
  outputVisibility : Option OutputVisibilityUpdate := none

structure TaskOutputVisibilityChanged extends AttemptRef, OutputVisibilityUpdate

structure DispatchRequested extends AttemptRef where
  workerQueue : String := "default-queue"
  dispatchId : String

structure DispatchEnqueued where
  dispatchId : String
  runId : Option String := none
  taskKey : Option String := none
  attempt : Option Nat := none
  cloudTaskId : String

structure TimerRequested where
  timerId : String
  timerType : TimerType
  runId : Option String := none
  taskKey : Option String := none
  attempt : Option Nat := none
  fireAt : Timestamp

structure TimerEnqueued where
  timerId : String
  runId : Option String := none
  taskKey : Option String := none
  attempt : Option Nat := none
  cloudTaskId : String

structure TimerFired where
  timerId : String
  timerType : TimerType
  runId : Option String := none
  taskKey : Option String := none
  attempt : Option Nat := none

structure ScheduleDefinitionUpserted where
  scheduleId : String
  cronExpression : String
  timezone : String
  catchupWindowMinutes : Nat
  assetSelection : List String
  codeVersion : Option String
  maxCatchupTicks : Nat
  enabled : Bool

structure ScheduleTicked where
  scheduleId : String
  scheduledFor : Timestamp
  tickId : String
  definitionVersion : String
  assetSelection : List String
  partitionSelection : Option (List String)
  status : TickStatus
  runKey : Option String
  requestFingerprint : Option String

structure SensorEvaluated where
  sensorId : String
  evalId : String
  cursorBefore : Option String
  cursorAfter : Option String
  expectedStateVersion : Option Nat
  triggerSource : TriggerSource
  runRequests : List RunRequest
  status : SensorEvalStatus

structure RunRequested where
  runKey : String
  requestFingerprint : String
  triggerSourceRef : SourceRef
  codeVersion : Option String := none

structure BackfillCreated where
  backfillId : String
  clientRequestId : String
  assetSelection : List String
  codeVersion : Option String
  partitionSelector : PartitionSelector
  totalPartitions : Nat
  chunkSize : Nat
  maxConcurrentRuns : Nat
  parentBackfillId : Option String

structure BackfillChunkPlanned where
  backfillId : String
  chunkId : String
  chunkIndex : Nat
  partitionKeys : List String
  runKey : String

structure BackfillStateChanged where
  backfillId : String
  fromState : BackfillState
  toState : BackfillState
  stateVersion : Nat

inductive OrchestrationEventData where
  | runTriggered (p : RunTriggered)
  | planCreated (p : PlanCreated)
  | runCancelRequested (p : RunCancelRequested)
  | taskStarted (p : AttemptRef)
  | taskHeartbeat (p : TaskHeartbeat)
  | taskFinished (p : TaskFinished)
  | taskCompletionRecorded (p : TaskCompletionRecorded)
  | taskOutputVisibilityChanged (p : TaskOutputVisibilityChanged)
  | dispatchRequested (p : DispatchRequested)
  | dispatchEnqueued (p : DispatchEnqueued)
  | timerRequested (p : TimerRequested)
  | timerEnqueued (p : TimerEnqueued)
  | timerFired (p : TimerFired)
  | scheduleDefinitionUpserted (p : ScheduleDefinitionUpserted)
  | scheduleTicked (p : ScheduleTicked)
  | sensorEvaluated (p : SensorEvaluated)
  | runRequested (p : RunRequested)
  | backfillCreated (p : BackfillCreated)
  | backfillChunkPlanned (p : BackfillChunkPlanned)
  | backfillStateChanged (p : BackfillStateChanged)
  | unknown

/-- The run that an event is associated with. -/
def OrchestrationEventData.runId : OrchestrationEventData → Option String
  | runTriggered p | planCreated p | runCancelRequested p | taskStarted p | taskHeartbeat p | taskFinished p
  | taskCompletionRecorded p | taskOutputVisibilityChanged p | dispatchRequested p => some p.runId
  | timerRequested p | dispatchEnqueued p | timerEnqueued p | timerFired p => p.runId
  | _ => none

/-- Functions that the fold takes from other crates. `utcNow` is the clock reading
taken while the event with the given id is folded. -/
structure Externals where
  runIdFromRunKey : (tenantId workspaceId runKey : String) → (tenantSecret : List UInt8) → String
  lineageJson : (runId taskKey : String) → (attempt : Nat) → (materializationId deltaTable : Option String) →
    (deltaVersion : Option Int) → (deltaPartition : Option String) → String
  fromTimestamp : (seconds : Int) → Option Timestamp
  utcNow : (eventId : String) → Timestamp
  sha256Hex : String → String

/-- Externals that keep no information, to run the model on concrete events. -/
def Externals.constant : Externals where
  runIdFromRunKey _ _ _ _ := ""
  lineageJson _ _ _ _ _ _ _ := ""
  fromTimestamp _ := none
  utcNow _ := 0
  sha256Hex _ := ""

namespace OrchestrationEventData

def eventType : OrchestrationEventData → String
  | runTriggered _ => "RunTriggered"
  | planCreated _ => "PlanCreated"
  | runCancelRequested _ => "RunCancelRequested"
  | taskStarted _ => "TaskStarted"
  | taskHeartbeat _ => "TaskHeartbeat"
  | taskFinished _ => "TaskFinished"
  | taskCompletionRecorded _ => "TaskCompletionRecorded"
  | taskOutputVisibilityChanged _ => "TaskOutputVisibilityChanged"
  | dispatchRequested _ => "DispatchRequested"
  | timerRequested _ => "TimerRequested"
  | dispatchEnqueued _ => "DispatchEnqueued"
  | timerEnqueued _ => "TimerEnqueued"
  | timerFired _ => "TimerFired"
  | scheduleDefinitionUpserted _ => "ScheduleDefinitionUpserted"
  | scheduleTicked _ => "ScheduleTicked"
  | sensorEvaluated _ => "SensorEvaluated"
  | runRequested _ => "RunRequested"
  | backfillCreated _ => "BackfillCreated"
  | backfillChunkPlanned _ => "BackfillChunkPlanned"
  | backfillStateChanged _ => "BackfillStateChanged"
  | unknown => "Unknown"

def visibilitySegment : OutputVisibilityState → String
  | .pending => "pending"
  | .visible => "visible"
  | .failed => "failed"

def backfillStateSegment : BackfillState → String
  | .pending => "PENDING"
  | .running => "RUNNING"
  | .paused => "PAUSED"
  | .succeeded => "SUCCEEDED"
  | .failed => "FAILED"
  | .cancelled => "CANCELLED"

def scheduleDefinitionIdempotencyKey (ext : Externals) (p : ScheduleDefinitionUpserted) : String :=
  let assets := ",".intercalate (p.assetSelection.insertionSort (· ≤ ·))
  let fingerprint := ext.sha256Hex
    s!"{p.cronExpression}|{p.timezone}|{p.catchupWindowMinutes}|{p.maxCatchupTicks}|{p.enabled}|{assets}"
  s!"sched_def:{p.scheduleId}:{fingerprint}"

def sensorEvaluatedIdempotencyKey (ext : Externals) (p : SensorEvaluated) : String :=
  match p.triggerSource with
  | .push messageId => s!"sensor_eval:{p.sensorId}:msg:{messageId}"
  | .poll pollEpoch =>
    let cursorHash := (p.cursorBefore.map ext.sha256Hex).getD "none"
    s!"sensor_eval:{p.sensorId}:poll:{pollEpoch}:{cursorHash}"

/-- The key under which an event is applied at most once. -/
def idempotencyKey (ext : Externals) : OrchestrationEventData → String
  | runTriggered p => let name := p.runKey.getD p.runId; s!"run:{name}"
  | planCreated p => s!"plan:{p.runId}"
  | runCancelRequested p => s!"cancel_req:{p.runId}"
  | taskStarted p => s!"started:{p.runId}:{p.taskKey}:{p.attempt}"
  | taskHeartbeat p =>
    match p.heartbeatAt with
    | none => s!"heartbeat:{p.runId}:{p.taskKey}:{p.attempt}:{p.attemptId}"
    | some ts => let millis := ts / 1000000; s!"heartbeat:{p.runId}:{p.taskKey}:{p.attempt}:{p.attemptId}:{millis}"
  | taskFinished p => s!"finished:{p.runId}:{p.taskKey}:{p.attempt}"
  | taskCompletionRecorded p => s!"finished:{p.runId}:{p.taskKey}:{p.attempt}"
  | taskOutputVisibilityChanged p =>
    let segment := visibilitySegment p.visibilityState
    s!"output_visibility:{p.runId}:{p.taskKey}:{p.attempt}:{segment}"
  | dispatchRequested p => s!"dispatch_req:{p.dispatchId}"
  | timerRequested p => s!"timer_req:{p.timerId}"
  | dispatchEnqueued p => s!"dispatch_ack:{p.dispatchId}"
  | timerEnqueued p => s!"timer_ack:{p.timerId}"
  | timerFired p => s!"timer_fired:{p.timerId}"
  | scheduleDefinitionUpserted p => scheduleDefinitionIdempotencyKey ext p
  | scheduleTicked p => s!"sched_tick:{p.tickId}"
  | sensorEvaluated p => sensorEvaluatedIdempotencyKey ext p
  | runRequested p => let fingerprint := ext.sha256Hex p.requestFingerprint; s!"runreq:{p.runKey}:{fingerprint}"
  | backfillCreated p => s!"backfill_create:{p.clientRequestId}"
  | backfillChunkPlanned p => s!"backfill_chunk:{p.backfillId}:{p.chunkIndex}"
  | backfillStateChanged p =>
    let segment := backfillStateSegment p.toState
    s!"backfill_state:{p.backfillId}:{p.stateVersion}:{segment}"
  | unknown => "unknown"

end OrchestrationEventData

structure Envelope where
  eventId : String
  eventType : String
  timestamp : Timestamp
  tenantId : String
  workspaceId : String
  idempotencyKey : String

structure OrchestrationEvent extends Envelope where
  data : OrchestrationEventData

/-- `OrchestrationEvent::new_with_timestamp`, with the generated event id as an argument. -/
def OrchestrationEvent.newWithTimestamp (ext : Externals) (eventId tenantId workspaceId : String)
    (data : OrchestrationEventData) (timestamp : Timestamp) : OrchestrationEvent where
  eventId := eventId
  eventType := data.eventType
  timestamp := timestamp
  tenantId := tenantId
  workspaceId := workspaceId
  idempotencyKey := data.idempotencyKey ext
  data := data

/-- An event of a fixed tenant and workspace at time zero, to run the model on. -/
def OrchestrationEvent.sample (eventId : String) (data : OrchestrationEventData) : OrchestrationEvent :=
  newWithTimestamp .constant eventId "tenant" "workspace" data 0

def PlanCreated.sample : PlanCreated := { runId := "run", tasks := [{ key := "extract", dependsOn := [] }] }

end Arco.Flow
