import Arco.Data.Delta
import Arco.Flow.Fold

/-! Compaction: how folded states are persisted and loaded again.

A compaction folds a batch of events into the loaded state and writes either the rows
that changed, as a delta, or the whole state, as a new base. A load merges the deltas
into the base, row by row, and derives the dependency graph from the edges. Storage
returns what was written to it.
-/

namespace Arco.Flow

open Keyed

def pickNewer {V : Type} (version : V → String) (existing row : V) : V :=
  if version row < version existing then existing else row

def mergeRunRows : RunRow → RunRow → RunRow := pickNewer RunRow.rowVersion

def mergeCatalogRunIndexRows : CatalogRunIndexRow → CatalogRunIndexRow → CatalogRunIndexRow :=
  pickNewer CatalogRunIndexRow.rowVersion

def mergeDepSatisfactionRows : DepSatisfactionRow → DepSatisfactionRow → DepSatisfactionRow :=
  pickNewer DepSatisfactionRow.rowVersion

def mergeDispatchOutboxRows : DispatchOutboxRow → DispatchOutboxRow → DispatchOutboxRow :=
  pickNewer DispatchOutboxRow.rowVersion

def mergeTimerRows : TimerRow → TimerRow → TimerRow := pickNewer TimerRow.rowVersion

def mergeSensorStateRows : SensorStateRow → SensorStateRow → SensorStateRow := pickNewer SensorStateRow.rowVersion

def mergeSensorEvalRows : SensorEvalRow → SensorEvalRow → SensorEvalRow := pickNewer SensorEvalRow.rowVersion

def mergeIdempotencyKeyRows : IdempotencyKeyRow → IdempotencyKeyRow → IdempotencyKeyRow :=
  pickNewer IdempotencyKeyRow.rowVersion

def mergePartitionStatusRows : PartitionStatusRow → PartitionStatusRow → PartitionStatusRow :=
  pickNewer PartitionStatusRow.rowVersion

def mergeScheduleDefinitionRows : ScheduleDefinitionRow → ScheduleDefinitionRow → ScheduleDefinitionRow :=
  pickNewer ScheduleDefinitionRow.rowVersion

def mergeScheduleStateRows : ScheduleStateRow → ScheduleStateRow → ScheduleStateRow :=
  pickNewer ScheduleStateRow.rowVersion

def mergeScheduleTickRows : ScheduleTickRow → ScheduleTickRow → ScheduleTickRow := pickNewer ScheduleTickRow.rowVersion

def mergeBackfillChunkRows : BackfillChunkRow → BackfillChunkRow → BackfillChunkRow :=
  pickNewer BackfillChunkRow.rowVersion

/-- Rows with one version are compared by the rank of their state. -/
def mergeTaskRows (existing row : TaskRow) : TaskRow :=
  if existing.rowVersion < row.rowVersion then row
  else if row.rowVersion < existing.rowVersion then existing
  else if row.state.rank < existing.state.rank then existing
  else row

/-- The state version comes before the row version. -/
def mergeBackfillRows (existing row : BackfillRow) : BackfillRow :=
  if existing.stateVersion < row.stateVersion then row
  else if row.stateVersion < existing.stateVersion then existing
  else pickNewer BackfillRow.rowVersion existing row

/-- Only a larger version replaces an entry of the run key index. -/
def mergeRunKeyIndexRows (existing row : RunKeyIndexRow) : RunKeyIndexRow :=
  if existing.rowVersion < row.rowVersion then row else existing

/-- A conflict that is already known is kept. -/
def mergeRunKeyConflictRows (existing _row : RunKeyConflictRow) : RunKeyConflictRow := existing

namespace FoldState

def mergeStates (base delta : FoldState) : FoldState :=
  { base with
    runs := base.runs.merge mergeRunRows delta.runs
    tasks := base.tasks.merge mergeTaskRows delta.tasks
    catalogRunIndex := base.catalogRunIndex.merge mergeCatalogRunIndexRows delta.catalogRunIndex
    depSatisfaction := base.depSatisfaction.merge mergeDepSatisfactionRows delta.depSatisfaction
    timers := base.timers.merge mergeTimerRows delta.timers
    dispatchOutbox := base.dispatchOutbox.merge mergeDispatchOutboxRows delta.dispatchOutbox
    sensorState := base.sensorState.merge mergeSensorStateRows delta.sensorState
    sensorEvals := base.sensorEvals.merge mergeSensorEvalRows delta.sensorEvals
    backfills := base.backfills.merge mergeBackfillRows delta.backfills
    backfillChunks := base.backfillChunks.merge mergeBackfillChunkRows delta.backfillChunks
    runKeyIndex := base.runKeyIndex.merge mergeRunKeyIndexRows delta.runKeyIndex
    runKeyConflicts := base.runKeyConflicts.merge mergeRunKeyConflictRows delta.runKeyConflicts
    partitionStatus := base.partitionStatus.merge mergePartitionStatusRows delta.partitionStatus
    idempotencyKeys := base.idempotencyKeys.merge mergeIdempotencyKeyRows delta.idempotencyKeys
    scheduleDefinitions := base.scheduleDefinitions.merge mergeScheduleDefinitionRows delta.scheduleDefinitions
    scheduleState := base.scheduleState.merge mergeScheduleStateRows delta.scheduleState
    scheduleTicks := base.scheduleTicks.merge mergeScheduleTickRows delta.scheduleTicks }

def deltaFromStates (base current : FoldState) : FoldState where
  runs := base.runs.changed current.runs
  tasks := base.tasks.changed current.tasks
  catalogRunIndex := base.catalogRunIndex.changed current.catalogRunIndex
  depSatisfaction := base.depSatisfaction.changed current.depSatisfaction
  timers := base.timers.changed current.timers
  dispatchOutbox := base.dispatchOutbox.changed current.dispatchOutbox
  sensorState := base.sensorState.changed current.sensorState
  sensorEvals := base.sensorEvals.changed current.sensorEvals
  backfills := base.backfills.changed current.backfills
  backfillChunks := base.backfillChunks.changed current.backfillChunks
  runKeyIndex := base.runKeyIndex.changed current.runKeyIndex
  runKeyConflicts := base.runKeyConflicts.changed current.runKeyConflicts
  partitionStatus := base.partitionStatus.changed current.partitionStatus
  idempotencyKeys := base.idempotencyKeys.changed current.idempotencyKeys
  scheduleDefinitions := base.scheduleDefinitions.changed current.scheduleDefinitions
  scheduleState := base.scheduleState.changed current.scheduleState
  scheduleTicks := base.scheduleTicks.changed current.scheduleTicks

def deltaStateIsEmpty (s : FoldState) : Bool :=
  s.runs.rows.isEmpty && s.tasks.rows.isEmpty && s.catalogRunIndex.rows.isEmpty && s.depSatisfaction.rows.isEmpty &&
    s.timers.rows.isEmpty && s.dispatchOutbox.rows.isEmpty && s.sensorState.rows.isEmpty &&
    s.sensorEvals.rows.isEmpty && s.backfills.rows.isEmpty && s.backfillChunks.rows.isEmpty &&
    s.runKeyIndex.rows.isEmpty && s.runKeyConflicts.rows.isEmpty && s.partitionStatus.rows.isEmpty &&
    s.idempotencyKeys.rows.isEmpty && s.scheduleDefinitions.rows.isEmpty && s.scheduleState.rows.isEmpty &&
    s.scheduleTicks.rows.isEmpty

/-- Thirty days, for sensor evaluations and for idempotency keys. -/
def retention : Int := 30 * 24 * 60 * 60 * 1000000000

def pruneSensorEvals (s : FoldState) (retentionNow : Timestamp) : FoldState :=
  { s with sensorEvals := s.sensorEvals.filter fun row => retentionNow - retention ≤ row.evaluatedAt }

def pruneIdempotencyKeys (s : FoldState) (retentionNow : Timestamp) : FoldState :=
  { s with idempotencyKeys := s.idempotencyKeys.filter fun row => retentionNow - retention ≤ row.recordedAt }

def prune (s : FoldState) : Option Timestamp → FoldState
  | some retentionNow => (s.pruneSensorEvals retentionNow).pruneIdempotencyKeys retentionNow
  | none => s

def retentionReferenceTimeForState (s : FoldState) : Option Timestamp :=
  match (s.sensorEvals.rows.map (·.evaluatedAt)).max?, (s.idempotencyKeys.rows.map (·.recordedAt)).max? with
  | some a, some b => some (max a b)
  | some a, none => some a
  | none, some b => some b
  | none, none => none

/-- The latest time of a batch; a batch that is folded is not empty. -/
def retentionReferenceTimeForEvents (events : List OrchestrationEvent) : Option Timestamp :=
  (events.map (·.timestamp)).max?

def addUnique (m : TaskLists) (key : String × String) (taskKey : String) :
    TaskLists :=
  let known := (m.get key).getD []
  m.insert key (if taskKey ∈ known then known else known ++ [taskKey])

def addTaskEntry (m : TaskLists) (key : String × String) :
    TaskLists :=
  m.insert key ((m.get key).getD [])

def rebuildDependencyGraph (s : FoldState) : FoldState :=
  { s with
    taskDependencies := s.depSatisfaction.rows.foldl
      (fun m edge => addUnique m (edge.runId, edge.downstreamTaskKey) edge.upstreamTaskKey)
      (s.tasks.keys.foldl addTaskEntry Table.empty)
    taskDependents := s.depSatisfaction.rows.foldl
      (fun m edge => addUnique m (edge.runId, edge.upstreamTaskKey) edge.downstreamTaskKey) Table.empty }

def tables (s : FoldState) : FoldState :=
  { s with taskDependencies := Table.empty, taskDependents := Table.empty, tenantSecret := [] }

end FoldState

/-- The base snapshot, empty when there is none, and the deltas on top of it. -/
structure Store where
  base : FoldState := {}
  deltas : List FoldState := []

/-- How a compaction persists its result. -/
inductive Persist where
  | delta
  | collapse
  deriving DecidableEq

structure Batch where
  persist : Persist := .delta
  events : List OrchestrationEvent

namespace Store

open FoldState

def merged (store : Store) : FoldState := store.deltas.foldl mergeStates store.base

def loadCurrentState (store : Store) : FoldState :=
  (store.merged.prune store.merged.retentionReferenceTimeForState).rebuildDependencyGraph

def opened (secret : List UInt8) (store : Store) : FoldState :=
  { store.loadCurrentState with tenantSecret := secret }

def folded (ext : Externals) (secret : List UInt8) (store : Store) (events : List OrchestrationEvent) : FoldState :=
  foldEvents ext (store.opened secret) (events.insertionSort fun a b => a.eventId ≤ b.eventId)

def compacted (ext : Externals) (secret : List UInt8) (store : Store) (events : List OrchestrationEvent) : FoldState :=
  (store.folded ext secret events).prune (retentionReferenceTimeForEvents events)

/-- One compaction. An empty batch, and a delta without rows, leave the store as it is. -/
def compact (ext : Externals) (secret : List UInt8) (store : Store) (batch : Batch) : Store :=
  if batch.events = [] then store
  else
    let state := store.compacted ext secret batch.events
    let delta := (store.opened secret).deltaFromStates state
    match batch.persist with
    | .collapse => { base := state.tables, deltas := [] }
    | .delta => if delta.deltaStateIsEmpty then store else { store with deltas := store.deltas ++ [delta] }

def compactAll (ext : Externals) (secret : List UInt8) (store : Store) (batches : List Batch) : Store :=
  batches.foldl (compact ext secret) store

end Store

end Arco.Flow
