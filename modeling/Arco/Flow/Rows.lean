import Arco.Flow.Events

/-! The projection rows that the fold maintains, and the identifiers built from them.

A row carries the fields of its own key, so every table of the projection is a
`Keyed.Table` over the row's key function; loading a table and keying its rows again
is then the identity. Counters and attempts are 32-bit numbers in the source, and the same
as the natural numbers here as long as there are fewer than 2 ^ 32 rows.
-/

namespace Arco.Flow

open Keyed

inductive TaskState where
  | planned
  | blocked
  | ready
  | dispatched
  | running
  | retryWait
  | skipped
  | cancelled
  | failed
  | succeeded
  deriving DecidableEq

namespace TaskState

def rank : TaskState → Nat
  | planned => 0
  | blocked => 1
  | ready => 2
  | dispatched => 3
  | running => 4
  | retryWait => 5
  | skipped => 10
  | cancelled => 11
  | failed => 12
  | succeeded => 13

def isTerminal : TaskState → Bool
  | succeeded | failed | skipped | cancelled => true
  | _ => false

end TaskState

inductive RunState where
  | triggered
  | running
  | succeeded
  | failed
  | cancelled
  deriving DecidableEq

def RunState.isTerminal : RunState → Bool
  | .succeeded | .failed | .cancelled => true
  | _ => false

inductive DepResolution where
  | success
  | failed
  | skipped
  | cancelled
  deriving DecidableEq

inductive DispatchStatus where
  | pending
  | created
  deriving DecidableEq

inductive TimerState where
  | scheduled
  | fired
  | cancelled
  deriving DecidableEq

structure TaskRow where
  runId : String
  taskKey : String
  state : TaskState
  attempt : Nat
  attemptId : Option String
  startedAt : Option Timestamp
  completedAt : Option Timestamp
  errorMessage : Option String
  depsTotal : Nat
  depsSatisfiedCount : Nat
  maxAttempts : Nat
  heartbeatTimeoutSec : Nat
  lastHeartbeatAt : Option Timestamp
  readyAt : Option Timestamp
  assetKey : Option String
  partitionKey : Option String
  requiresVisibleOutput : Bool
  materializationId : Option String
  outputVisibilityState : Option OutputVisibilityState
  publishedAt : Option Timestamp
  publishError : Option String
  retryNotBefore : Option Timestamp
  deltaTable : Option String
  deltaVersion : Option Int
  deltaPartition : Option String
  executionLineageRef : Option String
  rowVersion : String
  deriving DecidableEq

def TaskRow.key (t : TaskRow) : String × String := (t.runId, t.taskKey)

structure DepSatisfactionRow where
  runId : String
  upstreamTaskKey : String
  downstreamTaskKey : String
  satisfied : Bool
  resolution : Option DepResolution
  satisfiedAt : Option Timestamp
  satisfyingAttempt : Option Nat
  rowVersion : String
  deriving DecidableEq

def DepSatisfactionRow.key (e : DepSatisfactionRow) : String × String × String :=
  (e.runId, e.upstreamTaskKey, e.downstreamTaskKey)

structure RunRow where
  runId : String
  planId : String
  state : RunState
  runKey : Option String
  labels : Map String String
  codeVersion : Option String
  cancelRequested : Bool
  tasksTotal : Nat
  tasksCompleted : Nat
  tasksSucceeded : Nat
  tasksFailed : Nat
  tasksSkipped : Nat
  tasksCancelled : Nat
  triggeredAt : Timestamp
  completedAt : Option Timestamp
  rowVersion : String
  deriving DecidableEq

structure DispatchOutboxRow where
  runId : String
  taskKey : String
  attempt : Nat
  dispatchId : String
  cloudTaskId : Option String
  status : DispatchStatus
  attemptId : String
  workerQueue : String
  createdAt : Timestamp
  rowVersion : String
  deriving DecidableEq

/-- The id of the dispatch of one attempt, `DispatchOutboxRow::dispatch_id`. -/
def dispatchIdOf (runId taskKey : String) (attempt : Nat) : String :=
  s!"dispatch:{runId}:{taskKey}:{attempt}"

structure TimerRow where
  timerId : String
  cloudTaskId : Option String
  timerType : TimerType
  runId : Option String
  taskKey : Option String
  attempt : Option Nat
  fireAt : Timestamp
  state : TimerState
  payload : Option String
  rowVersion : String
  deriving DecidableEq

structure ScheduleDefinitionRow where
  tenantId : String
  workspaceId : String
  scheduleId : String
  cronExpression : String
  timezone : String
  catchupWindowMinutes : Nat
  assetSelection : List String
  codeVersion : Option String
  maxCatchupTicks : Nat
  enabled : Bool
  createdAt : Timestamp
  rowVersion : String
  deriving DecidableEq

structure ScheduleStateRow where
  tenantId : String
  workspaceId : String
  scheduleId : String
  lastScheduledFor : Option Timestamp
  lastTickId : Option String
  lastRunKey : Option String
  rowVersion : String
  deriving DecidableEq

structure ScheduleTickRow where
  tenantId : String
  workspaceId : String
  tickId : String
  scheduleId : String
  scheduledFor : Timestamp
  definitionVersion : String
  assetSelection : List String
  partitionSelection : Option (List String)
  status : TickStatus
  runKey : Option String
  runId : Option String
  requestFingerprint : Option String
  rowVersion : String
  deriving DecidableEq

structure SensorStateRow where
  tenantId : String
  workspaceId : String
  sensorId : String
  cursor : Option String
  lastEvaluationAt : Option Timestamp
  lastEvalId : Option String
  status : SensorStatus
  stateVersion : Nat
  rowVersion : String
  deriving DecidableEq

structure SensorEvalRow where
  tenantId : String
  workspaceId : String
  evalId : String
  sensorId : String
  cursorBefore : Option String
  cursorAfter : Option String
  expectedStateVersion : Option Nat
  triggerSource : TriggerSource
  runRequests : List RunRequest
  status : SensorEvalStatus
  evaluatedAt : Timestamp
  rowVersion : String
  deriving DecidableEq

structure BackfillRow where
  tenantId : String
  workspaceId : String
  backfillId : String
  assetSelection : List String
  codeVersion : Option String
  partitionSelector : PartitionSelector
  chunkSize : Nat
  maxConcurrentRuns : Nat
  state : BackfillState
  stateVersion : Nat
  totalPartitions : Nat
  plannedChunks : Nat
  completedChunks : Nat
  failedChunks : Nat
  parentBackfillId : Option String
  createdAt : Timestamp
  rowVersion : String
  deriving DecidableEq

structure BackfillChunkRow where
  tenantId : String
  workspaceId : String
  chunkId : String
  backfillId : String
  chunkIndex : Nat
  partitionKeys : List String
  runKey : String
  runId : Option String
  state : ChunkState
  rowVersion : String
  deriving DecidableEq

structure PartitionStatusRow where
  tenantId : String
  workspaceId : String
  assetKey : String
  partitionKey : String
  lastMaterializationRunId : Option String
  lastMaterializationAt : Option Timestamp
  lastMaterializationCodeVersion : Option String
  lastAttemptRunId : Option String
  lastAttemptAt : Option Timestamp
  lastAttemptOutcome : Option TaskOutcome
  staleSince : Option Timestamp
  staleReasonCode : Option String
  partitionValues : Map String String
  deltaTable : Option String
  deltaVersion : Option Int
  deltaPartition : Option String
  executionLineageRef : Option String
  rowVersion : String
  deriving DecidableEq

def PartitionStatusRow.key (r : PartitionStatusRow) : String × String := (r.assetKey, r.partitionKey)

structure RunKeyIndexRow where
  tenantId : String
  workspaceId : String
  runKey : String
  runId : String
  requestFingerprint : String
  codeVersion : Option String
  createdAt : Timestamp
  rowVersion : String
  deriving DecidableEq

structure RunKeyConflictRow where
  tenantId : String
  workspaceId : String
  runKey : String
  existingFingerprint : String
  conflictingFingerprint : String
  conflictingEventId : String
  detectedAt : Timestamp
  deriving DecidableEq

/-- The key under which both the fold and the snapshot loader store a conflict. -/
def conflictIdOf (runKey eventId : String) : String := s!"conflict:{runKey}:{eventId}"

def RunKeyConflictRow.key (r : RunKeyConflictRow) : String := conflictIdOf r.runKey r.conflictingEventId

structure CatalogRunIndexRow where
  schemaVersion : Nat
  orgId : String
  workspaceId : String
  runId : String
  taskKey : String
  planId : String
  runKey : Option String
  kind : Option String
  referenceId : Option String
  sourceType : Option String
  runStatus : RunState
  cancelRequested : Bool
  taskStatus : TaskState
  assetKey : Option String
  targetNamespace : Option String
  targetTable : Option String
  partitionKey : Option String
  attempt : Nat
  attemptId : Option String
  requiresVisibleOutput : Bool
  materializationId : Option String
  outputVisibilityState : Option OutputVisibilityState
  publishedAt : Option Timestamp
  publishError : Option String
  deltaTable : Option String
  deltaVersion : Option Int
  deltaPartition : Option String
  executionLineageRef : Option String
  startedAt : Option Timestamp
  lastHeartbeatAt : Option Timestamp
  triggeredAt : Timestamp
  completedAt : Option Timestamp
  updatedAt : Timestamp
  codeVersion : Option String
  errorMessage : Option String
  rowVersion : String
  deriving DecidableEq

def CatalogRunIndexRow.primaryKey (r : CatalogRunIndexRow) : String × String × String × String :=
  (r.orgId, r.workspaceId, r.runId, r.taskKey)

structure IdempotencyKeyRow where
  tenantId : String
  workspaceId : String
  idempotencyKey : String
  eventId : String
  eventType : String
  recordedAt : Timestamp
  rowVersion : String
  deriving DecidableEq

end Arco.Flow
