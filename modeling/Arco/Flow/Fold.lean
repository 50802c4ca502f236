import Arco.Data.Text
import Arco.Flow.Automation
import Arco.Flow.Lifecycle

/-! The fold of one orchestration event into the projection state. -/

namespace Arco.Flow

open Keyed Text

structure FoldState extends Lifecycle, Automation where
  timers : Table TimerRow.timerId := Table.empty
  dispatchOutbox : Table DispatchOutboxRow.dispatchId := Table.empty
  catalogRunIndex : Table CatalogRunIndexRow.primaryKey := Table.empty
  partitionStatus : Table PartitionStatusRow.key := Table.empty
  idempotencyKeys : Table IdempotencyKeyRow.idempotencyKey := Table.empty
  tenantSecret : List UInt8 := []

structure ParsedTimerId where
  timerType : TimerType
  fireEpoch : Int
  runId : Option String
  taskKey : Option String
  attempt : Option Nat

def parseTimerType : String → Option TimerType
  | "retry" => some .retry
  | "heartbeat" => some .heartbeatCheck
  | "cron" => some .cron
  | "sla" => some .slaCheck
  | _ => none

/-- The epoch is the last component, whatever the number of components. -/
def parseTimerId (timerId : String) : Option ParsedTimerId := do
  let parts := splitString ':' timerId
  let first ← parts.head?
  if first ≠ "timer" then none
  let timerType ← parseTimerType (← parts[1]?)
  let fireEpoch ← parseI64 (← parts.getLast?)
  match timerType with
  | .cron => some ⟨timerType, fireEpoch, none, none, none⟩
  | .retry | .heartbeatCheck | .slaCheck =>
    let runId ← parts[2]?
    let taskKey ← parts[3]?
    let attempt ← parseU32 (← parts[4]?)
    some ⟨timerType, fireEpoch, some runId, some taskKey, some attempt⟩

namespace FoldState

def dispatchAttemptConsumed (s : FoldState) (runId taskKey : String) (attempt : Nat) : Bool :=
  (s.tasks.find (runId, taskKey)).any fun t => t.Consumed attempt

def pruneDispatchOutboxRow (s : FoldState) (runId taskKey : String) (attempt : Nat) : FoldState :=
  { s with dispatchOutbox := s.dispatchOutbox.erase (dispatchIdOf runId taskKey attempt) }

def foldTaskStarted (s : FoldState) (ev : Envelope) (p : AttemptRef) : FoldState × Bool :=
  let started := s.toLifecycle.updateTask (p.runId, p.taskKey) (TaskRow.start ev p)
  let s := { s with toLifecycle := started.1 }
  if started.2 then (s.pruneDispatchOutboxRow p.runId p.taskKey p.attempt, true) else (s, false)

/-- The fields that an early `DispatchEnqueued` could not know. -/
def missesAttemptId (row : DispatchOutboxRow) : Bool := row.attemptId = ""

def missesWorkerQueue (p : DispatchRequested) (row : DispatchOutboxRow) : Bool :=
  row.workerQueue = "" ∨ (row.workerQueue = "default-queue" ∧ p.workerQueue ≠ "default-queue")

def fillOutboxRow (p : DispatchRequested) (row : DispatchOutboxRow) : DispatchOutboxRow :=
  { row with
    attemptId := if missesAttemptId row then p.attemptId else row.attemptId
    workerQueue := if missesWorkerQueue p row then p.workerQueue else row.workerQueue }

def foldDispatchRequested (s : FoldState) (ev : Envelope) (p : DispatchRequested) : FoldState × Bool :=
  if s.dispatchAttemptConsumed p.runId p.taskKey p.attempt then
    (s.pruneDispatchOutboxRow p.runId p.taskKey p.attempt, false)
  else match s.dispatchOutbox.find p.dispatchId with
    | some existing =>
      let filled := fillOutboxRow p existing
      let task := s.toLifecycle.updateTask (p.runId, p.taskKey) (TaskRow.dispatch ev p.attempt filled.attemptId)
      -- the row keeps its version: it may already hold a later acknowledgement
      ({ s with toLifecycle := task.1, dispatchOutbox := s.dispatchOutbox.upsert filled },
        task.2 || missesAttemptId existing || missesWorkerQueue p existing)
    | none =>
      let task := s.toLifecycle.updateTask (p.runId, p.taskKey) (TaskRow.dispatch ev p.attempt p.attemptId)
      ({ s with
        toLifecycle := task.1
        dispatchOutbox := s.dispatchOutbox.upsert {
          runId := p.runId
          taskKey := p.taskKey
          attempt := p.attempt
          dispatchId := p.dispatchId
          cloudTaskId := none
          status := .pending
          attemptId := p.attemptId
          workerQueue := p.workerQueue
          createdAt := ev.timestamp
          rowVersion := ev.eventId } }, true)

def enqueuedAttempt (p : DispatchEnqueued) : Option (String × String × Nat) := do
  return (← p.runId, ← p.taskKey, ← p.attempt)

def acknowledge (s : FoldState) (ev : Envelope) (p : DispatchEnqueued) : FoldState × Bool :=
  match s.dispatchOutbox.find p.dispatchId with
  | some existing =>
    if ev.eventId ≤ existing.rowVersion then (s, false)
    else
      ({ s with
        dispatchOutbox := s.dispatchOutbox.upsert { existing with
          status := .created
          cloudTaskId := some p.cloudTaskId
          createdAt := ev.timestamp
          rowVersion := ev.eventId } }, true)
  | none =>
    match enqueuedAttempt p with
    | some (runId, taskKey, attempt) =>
      ({ s with
        dispatchOutbox := s.dispatchOutbox.upsert {
          runId := runId
          taskKey := taskKey
          attempt := attempt
          dispatchId := p.dispatchId
          cloudTaskId := some p.cloudTaskId
          status := .created
          attemptId := ""
          workerQueue := "default-queue"
          createdAt := ev.timestamp
          rowVersion := ev.eventId } }, true)
    | none => (s, false)

def foldDispatchEnqueued (s : FoldState) (ev : Envelope) (p : DispatchEnqueued) : FoldState × Bool :=
  match enqueuedAttempt p with
  | some (runId, taskKey, attempt) =>
    if s.dispatchAttemptConsumed runId taskKey attempt then
      (s.pruneDispatchOutboxRow runId taskKey attempt, false)
    else s.acknowledge ev p
  | none => s.acknowledge ev p

def setRetryNotBefore (s : FoldState) (ev : Envelope) (p : TimerRequested) : FoldState × Bool :=
  if p.timerType = .retry then
    match p.runId, p.taskKey, p.attempt with
    | some runId, some taskKey, some attempt =>
      let task := s.toLifecycle.updateTask (runId, taskKey) (TaskRow.setRetryNotBefore ev attempt p.fireAt)
      ({ s with toLifecycle := task.1 }, task.2)
    | _, _, _ => (s, false)
  else (s, false)

def fillTimer (p : TimerRequested) (row : TimerRow) : TimerRow :=
  { row with
    fireAt := p.fireAt
    runId := row.runId.or p.runId
    taskKey := row.taskKey.or p.taskKey
    attempt := row.attempt.or p.attempt }

def foldTimerRequested (s : FoldState) (ev : Envelope) (p : TimerRequested) : FoldState × Bool :=
  match s.timers.find p.timerId with
  | some existing =>
    let retry := { s with timers := s.timers.upsert (fillTimer p existing) }.setRetryNotBefore ev p
    (retry.1, decide (fillTimer p existing ≠ existing) || retry.2)
  | none =>
    let s := { s with
      timers := s.timers.upsert {
        timerId := p.timerId
        cloudTaskId := none
        timerType := p.timerType
        runId := p.runId
        taskKey := p.taskKey
        attempt := p.attempt
        fireAt := p.fireAt
        state := .scheduled
        payload := none
        rowVersion := ev.eventId } }
    ((s.setRetryNotBefore ev p).1, true)

/-- The row of a timer that is acknowledged or fires before it was requested. -/
def timerFromId (ext : Externals) (ev : Envelope) (timerId : String) (runId taskKey : Option String)
    (attempt : Option Nat) (cloudTaskId : Option String) (state : TimerState) : Option TimerRow :=
  (parseTimerId timerId).map fun parsed =>
    { timerId := timerId
      cloudTaskId := cloudTaskId
      timerType := parsed.timerType
      runId := runId.or parsed.runId
      taskKey := taskKey.or parsed.taskKey
      attempt := attempt.or parsed.attempt
      fireAt := (ext.fromTimestamp parsed.fireEpoch).getD (ext.utcNow ev.eventId)
      state := state
      payload := none
      rowVersion := ev.eventId }

/-- Change a timer that the event is newer than, or create it from its id. -/
def upsertTimer (s : FoldState) (ev : Envelope) (timerId : String) (change : TimerRow → TimerRow)
    (created : Option TimerRow) : FoldState × Bool :=
  match s.timers.find timerId with
  | some existing =>
    if ev.eventId ≤ existing.rowVersion then (s, false)
    else ({ s with timers := s.timers.upsert (change existing) }, true)
  | none =>
    match created with
    | some row => ({ s with timers := s.timers.upsert row }, true)
    | none => (s, false)

def foldTimerEnqueued (ext : Externals) (s : FoldState) (ev : Envelope) (p : TimerEnqueued) : FoldState × Bool :=
  s.upsertTimer ev p.timerId
    (fun row => { row with cloudTaskId := some p.cloudTaskId, rowVersion := ev.eventId })
    (timerFromId ext ev p.timerId p.runId p.taskKey p.attempt (some p.cloudTaskId) .scheduled)

def foldTimerFired (ext : Externals) (s : FoldState) (ev : Envelope) (p : TimerFired) : FoldState × Bool :=
  s.upsertTimer ev p.timerId
    (fun row => { row with state := .fired, rowVersion := ev.eventId })
    (timerFromId ext ev p.timerId p.runId p.taskKey p.attempt none .fired)

def newPartitionStatus (ev : Envelope) (assetKey partitionKey : String) : PartitionStatusRow where
  tenantId := ev.tenantId
  workspaceId := ev.workspaceId
  assetKey := assetKey
  partitionKey := partitionKey
  lastMaterializationRunId := none
  lastMaterializationAt := none
  lastMaterializationCodeVersion := none
  lastAttemptRunId := none
  lastAttemptAt := none
  lastAttemptOutcome := none
  staleSince := none
  staleReasonCode := none
  partitionValues := Table.empty
  deltaTable := none
  deltaVersion := none
  deltaPartition := none
  executionLineageRef := none
  rowVersion := ""

/-- Change the row of a partition unless it is newer than the event; a missing row is created. -/
def updatePartition (ev : Envelope) (assetKey partitionKey : String)
    (change : PartitionStatusRow → PartitionStatusRow) (t : Table PartitionStatusRow.key) :
    Table PartitionStatusRow.key :=
  let row := (t.find (assetKey, partitionKey)).getD (newPartitionStatus ev assetKey partitionKey)
  t.upsert (if ev.eventId < row.rowVersion then row else change row)

def updatePartitionMaterialization (ext : Externals) (ev : Envelope) (p : TaskFinished)
    (assetKey partitionKey : String) : Table PartitionStatusRow.key → Table PartitionStatusRow.key :=
  updatePartition ev assetKey partitionKey fun row =>
    { row with
      lastMaterializationRunId := some p.runId
      lastMaterializationAt := some ev.timestamp
      lastMaterializationCodeVersion := p.codeVersion
      deltaTable := p.metadata.deltaTable
      deltaVersion := p.metadata.deltaVersion
      deltaPartition := p.metadata.deltaPartition
      executionLineageRef := some (p.lineageRef ext)
      staleSince := none
      staleReasonCode := none
      rowVersion := ev.eventId }

def updatePartitionAttempt (ev : Envelope) (p : TaskFinished) (assetKey partitionKey : String) :
    Table PartitionStatusRow.key → Table PartitionStatusRow.key :=
  updatePartition ev assetKey partitionKey fun row =>
    { row with
      lastAttemptRunId := some p.runId
      lastAttemptAt := some ev.timestamp
      lastAttemptOutcome := some p.outcome
      rowVersion := ev.eventId }

def recordPartition (ext : Externals) (ev : Envelope) (p : TaskFinished) (t : Table PartitionStatusRow.key) :
    Table PartitionStatusRow.key :=
  match p.assetKey, p.effectivePartitionKey with
  | some assetKey, some partitionKey =>
    let t := if p.outcome = .succeeded then updatePartitionMaterialization ext ev p assetKey partitionKey t else t
    updatePartitionAttempt ev p assetKey partitionKey t
  | _, _ => t

def foldTaskFinished (ext : Externals) (s : FoldState) (ev : Envelope) (p : TaskFinished) : FoldState × Bool :=
  let finished := s.toLifecycle.foldTaskFinished ext ev p
  let s := { s with toLifecycle := finished.1 }
  if finished.2 then ({ s with partitionStatus := recordPartition ext ev p s.partitionStatus }, true)
  else (s, false)

def labelValue (labels : Map String String) (keys : List String) : Option String := keys.findSome? labels.get

def nonempty (s : String) : Option String := if s = "" then none else some s

def parseCatalogAssetKey (assetKey : String) : Option String × Option String :=
  match splitOnce '/' assetKey with
  | some (namespaceName, table) => (nonempty namespaceName, nonempty table)
  | none =>
    match splitOnce '.' assetKey with
    | some (namespaceName, table) => (nonempty namespaceName, nonempty table)
    | none => (none, some assetKey)

def catalogVersion (run : RunRow) (task : TaskRow) : String :=
  if run.rowVersion ≤ task.rowVersion then task.rowVersion else run.rowVersion

/-- A row that would keep its version keeps its update time. -/
def catalogRow (ev : Envelope) (run : RunRow) (task : TaskRow) (assetKey : String)
    (existing : Option CatalogRunIndexRow) : CatalogRunIndexRow where
  schemaVersion := 1
  orgId := ev.tenantId
  workspaceId := ev.workspaceId
  runId := run.runId
  taskKey := task.taskKey
  planId := run.planId
  runKey := run.runKey
  kind := labelValue run.labels ["kind", "run_kind"]
  referenceId := labelValue run.labels ["reference_id", "referenceId"]
  sourceType := labelValue run.labels ["source_type", "sourceType"]
  runStatus := run.state
  cancelRequested := run.cancelRequested
  taskStatus := task.state
  assetKey := some assetKey
  targetNamespace := (parseCatalogAssetKey assetKey).1
  targetTable := (parseCatalogAssetKey assetKey).2
  partitionKey := task.partitionKey
  attempt := task.attempt
  attemptId := task.attemptId
  requiresVisibleOutput := task.requiresVisibleOutput
  materializationId := task.materializationId
  outputVisibilityState := task.outputVisibilityState
  publishedAt := task.publishedAt
  publishError := task.publishError
  deltaTable := task.deltaTable
  deltaVersion := task.deltaVersion
  deltaPartition := task.deltaPartition
  executionLineageRef := task.executionLineageRef
  startedAt := task.startedAt
  lastHeartbeatAt := task.lastHeartbeatAt
  triggeredAt := run.triggeredAt
  completedAt := run.completedAt
  updatedAt := ((existing.filter fun row => row.rowVersion = catalogVersion run task).map (·.updatedAt)).getD
    ev.timestamp
  codeVersion := run.codeVersion
  errorMessage := task.errorMessage
  rowVersion := catalogVersion run task

def refreshTask (ev : Envelope) (run : RunRow) (t : Table CatalogRunIndexRow.primaryKey) (task : TaskRow) :
    Table CatalogRunIndexRow.primaryKey :=
  match task.assetKey with
  | some assetKey =>
    t.upsert (catalogRow ev run task assetKey (t.find (ev.tenantId, ev.workspaceId, run.runId, task.taskKey)))
  | none => t

def refreshCatalogRunIndexForRun (s : FoldState) (ev : Envelope) (runId : String) : FoldState :=
  match s.runs.find runId with
  | none => s
  | some run =>
    { s with
      catalogRunIndex := (s.tasks.rows.filter fun t => t.runId = runId).foldl (refreshTask ev run) s.catalogRunIndex }

def refreshed (ev : Envelope) (runId : String) (r : FoldState × Bool) : FoldState × Bool :=
  if r.2 then (r.1.refreshCatalogRunIndexForRun ev runId, true) else r

theorem refreshed_fst (ev : Envelope) (runId : String) (r : FoldState × Bool) :
    ∃ index, (refreshed ev runId r).1 = { r.1 with catalogRunIndex := index } := by
  unfold refreshed refreshCatalogRunIndexForRun
  split
  · dsimp only
    split <;> exact ⟨_, rfl⟩
  · exact ⟨_, rfl⟩

def onLifecycle (s : FoldState) (r : Lifecycle × Bool) : FoldState × Bool := ({ s with toLifecycle := r.1 }, r.2)

def onAutomation (s : FoldState) (r : Automation × Bool) : FoldState × Bool := ({ s with toAutomation := r.1 }, r.2)

def foldTaskOutputVisibilityChanged (s : FoldState) (ev : Envelope) (p : AttemptRef)
    (u : OutputVisibilityUpdate) : FoldState × Bool :=
  s.onLifecycle (s.toLifecycle.updateTask (p.runId, p.taskKey) (TaskRow.changeOutputVisibility ev p u))

def foldTaskCompletionRecorded (ext : Externals) (s : FoldState) (ev : Envelope) (p : TaskCompletionRecorded) :
    FoldState × Bool :=
  let finished := s.foldTaskFinished ext ev p.toTaskFinished
  match p.outputVisibility with
  | some update =>
    if finished.2 = true ∧ p.outcome = .succeeded then
      ((finished.1.foldTaskOutputVisibilityChanged ev p.toAttemptRef update).1, true)
    else finished
  | none => finished

def apply (ext : Externals) (s : FoldState) (ev : Envelope) : OrchestrationEventData → FoldState × Bool
  | .runTriggered p => refreshed ev p.runId (s.onLifecycle (s.toLifecycle.foldRunTriggered ev p))
  | .planCreated p => refreshed ev p.runId (s.onLifecycle (s.toLifecycle.foldPlanCreated ev p))
  | .runCancelRequested p => refreshed ev p.runId (s.onLifecycle (s.toLifecycle.foldRunCancelRequested ev p))
  | .taskStarted p => refreshed ev p.runId (s.foldTaskStarted ev p)
  | .taskHeartbeat p => refreshed ev p.runId
      (s.onLifecycle (s.toLifecycle.updateTask (p.runId, p.taskKey) (TaskRow.heartbeat ev p)))
  | .taskFinished p => refreshed ev p.runId (s.foldTaskFinished ext ev p)
  | .taskCompletionRecorded p => refreshed ev p.runId (s.foldTaskCompletionRecorded ext ev p)
  | .taskOutputVisibilityChanged p => refreshed ev p.runId
      (s.foldTaskOutputVisibilityChanged ev p.toAttemptRef p.toOutputVisibilityUpdate)
  | .dispatchRequested p => refreshed ev p.runId (s.foldDispatchRequested ev p)
  | .dispatchEnqueued p => s.foldDispatchEnqueued ev p
  | .timerRequested p => s.foldTimerRequested ev p
  | .timerEnqueued p => s.foldTimerEnqueued ext ev p
  | .timerFired p => s.foldTimerFired ext ev p
  | .scheduleDefinitionUpserted p => s.onAutomation (s.toAutomation.foldScheduleDefinitionUpserted ev p)
  | .scheduleTicked p => s.onAutomation (s.toAutomation.foldScheduleTicked ext s.tenantSecret ev p)
  | .sensorEvaluated p => s.onAutomation (s.toAutomation.foldSensorEvaluated ev p)
  | .runRequested p => s.onAutomation (s.toAutomation.foldRunRequested ext s.tenantSecret ev p)
  | .backfillCreated p => s.onAutomation (s.toAutomation.foldBackfillCreated ev p)
  | .backfillChunkPlanned p => s.onAutomation (s.toAutomation.foldBackfillChunkPlanned ev p)
  | .backfillStateChanged p => s.onAutomation (s.toAutomation.foldBackfillStateChanged ev p)
  | .unknown => (s, false)

def recordIdempotencyKey (s : FoldState) (ev : Envelope) : FoldState :=
  if s.idempotencyKeys.contains ev.idempotencyKey then s
  else
    { s with
      idempotencyKeys := s.idempotencyKeys.upsert {
        tenantId := ev.tenantId
        workspaceId := ev.workspaceId
        idempotencyKey := ev.idempotencyKey
        eventId := ev.eventId
        eventType := ev.eventType
        recordedAt := ev.timestamp
        rowVersion := ev.eventId } }

def foldEvent (ext : Externals) (s : FoldState) (e : OrchestrationEvent) : FoldState :=
  if s.idempotencyKeys.contains e.idempotencyKey then s
  else
    let r := s.apply ext e.toEnvelope e.data
    if r.2 then r.1.recordIdempotencyKey e.toEnvelope else r.1

def foldEvents (ext : Externals) (s : FoldState) (events : List OrchestrationEvent) : FoldState :=
  events.foldl (foldEvent ext) s

/-- The key of the event was not recorded before. -/
abbrev IsNew (s : FoldState) (e : OrchestrationEvent) : Prop := s.idempotencyKeys.contains e.idempotencyKey = false

variable {e : OrchestrationEvent}

theorem foldEvent_of_known (ext : Externals) {s : FoldState}
    (known : s.idempotencyKeys.contains e.idempotencyKey = true) : s.foldEvent ext e = s := by
  rw [foldEvent, if_pos known]

/-- What holds of a state and is kept by an event that is not a repetition. -/
@[elab_as_elim]
theorem foldEvent_cases {motive : FoldState → Prop} (ext : Externals) (s : FoldState) (e : OrchestrationEvent)
    (known : motive s) (new : s.IsNew e → motive (s.foldEvent ext e)) :
    motive (s.foldEvent ext e) := by
  cases isNew : s.idempotencyKeys.contains e.idempotencyKey with
  | true => rwa [foldEvent_of_known ext isNew]
  | false => exact new isNew

theorem recordIdempotencyKey_eq (s : FoldState) (ev : Envelope) :
    ∃ keys, s.recordIdempotencyKey ev = { s with idempotencyKeys := keys } := by
  unfold recordIdempotencyKey
  split <;> exact ⟨_, rfl⟩

theorem contains_recordIdempotencyKey (s : FoldState) (ev : Envelope) (key : String) :
    (s.recordIdempotencyKey ev).idempotencyKeys.contains key =
      (s.idempotencyKeys.contains key || decide (ev.idempotencyKey = key)) := by
  unfold recordIdempotencyKey
  split
  · rename_i known
    by_cases same : ev.idempotencyKey = key
    · rw [← same, known, Bool.true_or]
    · simp [same]
  · exact (Table.contains_upsert _ _ key).trans (Bool.or_comm _ _)

/-- An event that is not a repetition changes what its handler changes, and the idempotency keys. -/
theorem foldEvent_of_new (ext : Externals) {s : FoldState} (new : s.IsNew e) :
    ∃ keys, s.foldEvent ext e = { (s.apply ext e.toEnvelope e.data).1 with idempotencyKeys := keys } := by
  rw [foldEvent, if_neg (by simp [new])]
  dsimp only
  split
  · exact recordIdempotencyKey_eq _ _
  · exact ⟨_, rfl⟩

/-- An event of the automation tables that is not a repetition. Its key is recorded if it is applied. -/
theorem foldEvent_onAutomation {ext : Externals} {s : FoldState} {r : Automation × Bool} (new : s.IsNew e)
    (handled : s.apply ext e.toEnvelope e.data = s.onAutomation r) :
    (s.foldEvent ext e).toAutomation = r.1 ∧ ∀ key, (s.foldEvent ext e).idempotencyKeys.contains key =
      (s.idempotencyKeys.contains key || (r.2 && decide (e.idempotencyKey = key))) := by
  rw [foldEvent, if_neg (by simp [new]), handled]
  dsimp only [onAutomation]
  split
  · rename_i applied
    obtain ⟨_, recorded⟩ := recordIdempotencyKey_eq { s with toAutomation := r.1 } e.toEnvelope
    refine ⟨by rw [recorded], fun key => ?_⟩
    rw [contains_recordIdempotencyKey, applied, Bool.true_and]
  · rename_i unapplied
    exact ⟨rfl, fun key => by simp [unapplied]⟩

/-- Every event of the list meets the condition in the state that it is folded into. -/
def Throughout (ext : Externals) (condition : FoldState → OrchestrationEvent → Prop) :
    FoldState → List OrchestrationEvent → Prop
  | _, [] => True
  | s, e :: rest => condition s e ∧ Throughout ext condition (s.foldEvent ext e) rest

variable {ext : Externals} {condition : FoldState → OrchestrationEvent → Prop} {events : List OrchestrationEvent}
  {s : FoldState}

theorem foldEvents_induction (Inv : FoldState → Prop)
    (step : ∀ s e, Inv s → condition s e → Inv (s.foldEvent ext e)) (start : Inv s)
    (meets : Throughout ext condition s events) :
    Inv (foldEvents ext s events) := by
  induction events generalizing s with
  | nil => exact start
  | cons e rest ih => exact ih (step s e start meets.1) meets.2

theorem Throughout.of_forall (meets : ∀ e ∈ events, ∀ s, condition s e) (s : FoldState) :
    Throughout ext condition s events := by
  induction events generalizing s with
  | nil => trivial
  | cons e rest ih => exact ⟨meets e (by simp) s, ih (fun other member => meets other (by simp [member])) _⟩

theorem Throughout.imp {condition' : FoldState → OrchestrationEvent → Prop}
    (meets : Throughout ext condition s events) (implies : ∀ s e, condition s e → condition' s e) :
    Throughout ext condition' s events := by
  induction events generalizing s with
  | nil => trivial
  | cons e rest ih => exact ⟨implies s e meets.1, ih meets.2⟩

theorem foldEvents_invariant (Inv : FoldState → Prop) (step : ∀ s e, Inv s → Inv (s.foldEvent ext e))
    (start : Inv s) (events : List OrchestrationEvent) :
    Inv (foldEvents ext s events) := by
  induction events generalizing s with
  | nil => exact start
  | cons e rest ih => exact ih (step s e start)

/-- The states that some list of events leads to from the empty state. -/
def Reachable (ext : Externals) (s : FoldState) : Prop :=
  ∃ secret events, s = foldEvents ext { tenantSecret := secret } events

end FoldState

end Arco.Flow
