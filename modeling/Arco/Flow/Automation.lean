import Arco.Flow.Rows

/-! Schedules, sensors, backfills and the run key index.

These projections never read runs or tasks. All handlers but the one for a run request
compare the event id with the version of the row they would overwrite.
-/

namespace Arco.Flow

open Keyed

structure Automation where
  scheduleDefinitions : Table ScheduleDefinitionRow.scheduleId := Table.empty
  scheduleState : Table ScheduleStateRow.scheduleId := Table.empty
  scheduleTicks : Table ScheduleTickRow.tickId := Table.empty
  sensorState : Table SensorStateRow.sensorId := Table.empty
  sensorEvals : Table SensorEvalRow.evalId := Table.empty
  backfills : Table BackfillRow.backfillId := Table.empty
  backfillChunks : Table BackfillChunkRow.chunkId := Table.empty
  runKeyIndex : Table RunKeyIndexRow.runKey := Table.empty
  runKeyConflicts : Table RunKeyConflictRow.key := Table.empty

/-- An event is newer than a row when the row is absent or has a smaller version. -/
def isNewer {V : Type} (eventId : String) (version : V → String) (existing : Option V) : Bool :=
  match existing with
  | none => true
  | some row => decide (version row < eventId)

namespace Automation

def foldScheduleDefinitionUpserted (a : Automation) (ev : Envelope) (p : ScheduleDefinitionUpserted) :
    Automation × Bool :=
  let existing := a.scheduleDefinitions.find p.scheduleId
  if isNewer ev.eventId ScheduleDefinitionRow.rowVersion existing then
    ({ a with
      scheduleDefinitions := a.scheduleDefinitions.upsert {
        tenantId := ev.tenantId
        workspaceId := ev.workspaceId
        scheduleId := p.scheduleId
        cronExpression := p.cronExpression
        timezone := p.timezone
        catchupWindowMinutes := p.catchupWindowMinutes
        assetSelection := p.assetSelection
        codeVersion := p.codeVersion
        maxCatchupTicks := p.maxCatchupTicks
        enabled := p.enabled
        createdAt := (existing.map (·.createdAt)).getD ev.timestamp
        rowVersion := ev.eventId } }, true)
  else (a, false)

def newScheduleState (ev : Envelope) (scheduleId : String) : ScheduleStateRow where
  tenantId := ev.tenantId
  workspaceId := ev.workspaceId
  scheduleId := scheduleId
  lastScheduledFor := none
  lastTickId := none
  lastRunKey := none
  rowVersion := ""

def foldScheduleTicked (ext : Externals) (secret : List UInt8) (a : Automation) (ev : Envelope)
    (p : ScheduleTicked) : Automation × Bool :=
  let state := (a.scheduleState.find p.scheduleId).getD (newScheduleState ev p.scheduleId)
  let changed := decide (state.rowVersion < ev.eventId)
  let state := if changed then
      { state with
        lastScheduledFor := some p.scheduledFor
        lastTickId := some p.tickId
        lastRunKey := p.runKey
        rowVersion := ev.eventId }
    else state
  let a := { a with scheduleState := a.scheduleState.upsert state }
  if isNewer ev.eventId ScheduleTickRow.rowVersion (a.scheduleTicks.find p.tickId) then
    ({ a with
      scheduleTicks := a.scheduleTicks.upsert {
        tenantId := ev.tenantId
        workspaceId := ev.workspaceId
        tickId := p.tickId
        scheduleId := p.scheduleId
        scheduledFor := p.scheduledFor
        definitionVersion := p.definitionVersion
        assetSelection := p.assetSelection
        partitionSelection := p.partitionSelection
        status := p.status
        runKey := p.runKey
        runId := p.runKey.map fun k => ext.runIdFromRunKey ev.tenantId ev.workspaceId k secret
        requestFingerprint := p.requestFingerprint
        rowVersion := ev.eventId } }, true)
  else (a, changed)

def newSensorState (ev : Envelope) (sensorId : String) : SensorStateRow where
  tenantId := ev.tenantId
  workspaceId := ev.workspaceId
  sensorId := sensorId
  cursor := none
  lastEvaluationAt := none
  lastEvalId := none
  status := .active
  stateVersion := 0
  rowVersion := ""

def upsertSensorEval (a : Automation) (row : SensorEvalRow) : Automation × Bool :=
  if isNewer row.rowVersion SensorEvalRow.rowVersion (a.sensorEvals.find row.evalId) then
    ({ a with sensorEvals := a.sensorEvals.upsert row }, true)
  else (a, false)

/-- An evaluation that expects another state version is recorded as stale and moves no cursor. -/
def foldSensorEvaluated (a : Automation) (ev : Envelope) (p : SensorEvaluated) : Automation × Bool :=
  let state := (a.sensorState.find p.sensorId).getD (newSensorState ev p.sensorId)
  let a := { a with sensorState := a.sensorState.upsert state }
  let isStale := p.expectedStateVersion.any fun expected => state.stateVersion ≠ expected
  let recorded := a.upsertSensorEval {
    tenantId := ev.tenantId
    workspaceId := ev.workspaceId
    evalId := p.evalId
    sensorId := p.sensorId
    cursorBefore := p.cursorBefore
    cursorAfter := p.cursorAfter
    expectedStateVersion := p.expectedStateVersion
    triggerSource := p.triggerSource
    runRequests := p.runRequests
    status := if isStale then .skippedStaleCursor else p.status
    evaluatedAt := ev.timestamp
    rowVersion := ev.eventId }
  if isStale then recorded
  else if ev.eventId ≤ state.rowVersion then recorded
  else
    ({ recorded.1 with
      sensorState := recorded.1.sensorState.upsert { state with
        cursor := p.cursorAfter
        lastEvaluationAt := some ev.timestamp
        lastEvalId := some p.evalId
        rowVersion := ev.eventId
        stateVersion := state.stateVersion + 1 } }, true)

def shouldDropRunRequestedForStaleSensorEval (a : Automation) : SourceRef → Bool
  | .sensor _ evalId => (a.sensorEvals.find evalId).any fun row => row.status = .skippedStaleCursor
  | _ => false

/-- The correlated run id is written without a new row version. -/
def correlateRunToSource (a : Automation) (runId : String) : SourceRef → Automation
  | .schedule _ tickId =>
    match a.scheduleTicks.find tickId with
    | some tick => { a with scheduleTicks := a.scheduleTicks.upsert { tick with runId := some runId } }
    | none => a
  | .backfill _ chunkId =>
    match a.backfillChunks.find chunkId with
    | some chunk => { a with backfillChunks := a.backfillChunks.upsert { chunk with runId := some runId } }
    | none => a
  | .sensor _ _ | .manual _ _ => a

def foldRunRequested (ext : Externals) (secret : List UInt8) (a : Automation) (ev : Envelope)
    (p : RunRequested) : Automation × Bool :=
  if a.shouldDropRunRequestedForStaleSensorEval p.triggerSourceRef then (a, false)
  else match a.runKeyIndex.find p.runKey with
    | some existing =>
      if existing.requestFingerprint ≠ p.requestFingerprint then
        ({ a with
          runKeyConflicts := a.runKeyConflicts.upsert {
            tenantId := ev.tenantId
            workspaceId := ev.workspaceId
            runKey := p.runKey
            existingFingerprint := existing.requestFingerprint
            conflictingFingerprint := p.requestFingerprint
            conflictingEventId := ev.eventId
            detectedAt := ev.timestamp } }, true)
      else (a, true)
    | none =>
      let runId := ext.runIdFromRunKey ev.tenantId ev.workspaceId p.runKey secret
      let a := { a with
        runKeyIndex := a.runKeyIndex.upsert {
          tenantId := ev.tenantId
          workspaceId := ev.workspaceId
          runKey := p.runKey
          runId := runId
          requestFingerprint := p.requestFingerprint
          codeVersion := p.codeVersion
          createdAt := ev.timestamp
          rowVersion := ev.eventId } }
      (a.correlateRunToSource runId p.triggerSourceRef, true)

def chunkIdOf (backfillId : String) (index : Nat) : String := s!"{backfillId}:{index}"

/-- The first index from `index` on whose chunk has not been folded. Every step finds another chunk
row, so the number of rows bounds the search. -/
def contiguousFrom (chunks : Table BackfillChunkRow.chunkId) (backfillId : String) : Nat → Nat → Nat
  | 0, index => index
  | fuel + 1, index =>
    if chunks.contains (chunkIdOf backfillId index) then contiguousFrom chunks backfillId fuel (index + 1)
    else index

def nextChunkIndex (a : Automation) (backfillId : String) (index : Nat) : Nat :=
  contiguousFrom a.backfillChunks backfillId (a.backfillChunks.rows.length + 1) index

def foldBackfillCreated (a : Automation) (ev : Envelope) (p : BackfillCreated) : Automation × Bool :=
  if a.backfills.contains p.backfillId then (a, false)
  else
    ({ a with
      backfills := a.backfills.upsert {
        tenantId := ev.tenantId
        workspaceId := ev.workspaceId
        backfillId := p.backfillId
        assetSelection := p.assetSelection
        codeVersion := p.codeVersion
        partitionSelector := p.partitionSelector
        chunkSize := p.chunkSize
        maxConcurrentRuns := p.maxConcurrentRuns
        state := .running
        stateVersion := 1
        totalPartitions := p.totalPartitions
        plannedChunks := if 0 < p.chunkSize then a.nextChunkIndex p.backfillId 0 else 0
        completedChunks := 0
        failedChunks := 0
        parentBackfillId := p.parentBackfillId
        createdAt := ev.timestamp
        rowVersion := ev.eventId } }, true)

/-- Move the planned chunk counter of a backfill over the chunks that are present. -/
def advancePlannedChunks (a : Automation) (ev : Envelope) (backfillId : String) : Automation :=
  match a.backfills.find backfillId with
  | some backfill =>
    let nextIndex := a.nextChunkIndex backfillId backfill.plannedChunks
    if nextIndex ≠ backfill.plannedChunks then
      { a with
        backfills := a.backfills.upsert { backfill with plannedChunks := nextIndex, rowVersion := ev.eventId } }
    else a
  | none => a

def foldBackfillChunkPlanned (a : Automation) (ev : Envelope) (p : BackfillChunkPlanned) : Automation × Bool :=
  let existing := a.backfillChunks.find p.chunkId
  if isNewer ev.eventId BackfillChunkRow.rowVersion existing then
    let a := { a with
      backfillChunks := a.backfillChunks.upsert {
        tenantId := ev.tenantId
        workspaceId := ev.workspaceId
        chunkId := p.chunkId
        backfillId := p.backfillId
        chunkIndex := p.chunkIndex
        partitionKeys := p.partitionKeys
        runKey := p.runKey
        runId := existing.bind (·.runId)
        state := .planned
        rowVersion := ev.eventId } }
    (a.advancePlannedChunks ev p.backfillId, true)
  else (a, false)

def foldBackfillStateChanged (a : Automation) (ev : Envelope) (p : BackfillStateChanged) : Automation × Bool :=
  match a.backfills.find p.backfillId with
  | none => (a, false)
  | some backfill =>
    if ev.eventId ≤ backfill.rowVersion then (a, false)
    else if backfill.state ≠ p.fromState then (a, false)
    else if BackfillState.isValidTransition backfill.state p.toState = false then (a, false)
    else if p.stateVersion ≠ backfill.stateVersion + 1 then (a, false)
    else
      ({ a with
        backfills := a.backfills.upsert { backfill with
          state := p.toState
          stateVersion := p.stateVersion
          rowVersion := ev.eventId } }, true)

end Automation

end Arco.Flow
