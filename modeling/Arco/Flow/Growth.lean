import Mathlib.Data.String.Basic
import Arco.Data.Delta
import Arco.Flow.Fold

/-! Tables whose rows only get newer.

The handlers of schedules, sensors, chunks, timers and partitions compare the event id with
the version of the row that they would overwrite, or keep its version. Whatever the ids of
the events, these tables keep their keys and no row version falls.
-/

namespace Arco.Flow

open Keyed Table

abbrev Rising {K V : Type} [DecidableEq K] {key : V → K} (version : V → String) : Table key → Table key → Prop :=
  Grows fun old row => version old ≤ version row

namespace Rising

variable {K V : Type} [DecidableEq K] {key : V → K} {version : V → String}

theorem refl (version : V → String) (t : Table key) : Rising version t t :=
  Grows.refl (fun row => le_refl (version row)) t

theorem trans {t t' t'' : Table key} (first : Rising version t t') (second : Rising version t' t'') :
    Rising version t t'' :=
  Grows.trans (fun _ _ _ => le_trans) first second

theorem upsert (t : Table key) (row : V) (above : ∀ old, t.find (key row) = some old → version old ≤ version row) :
    Rising version t (t.upsert row) :=
  Grows.upsert (fun old => le_refl (version old)) t row above

theorem upsert_of_find {t : Table key} {k : K} {old row : V} (found : t.find k = some old) (rowKey : key row = key old)
    (above : version old ≤ version row) : Rising version t (t.upsert row) := by
  refine upsert t row fun old' here => ?_
  rw [rowKey, key_of_find found, found] at here
  exact Option.some.inj here ▸ above

theorem upsert_of_missing {t : Table key} {row : V} (missing : t.find (key row) = none) : Rising version t (t.upsert row) :=
  upsert t row fun _ here => by cases missing.symm.trans here

/-- The row of a table at a key, or a row that stands for it. -/
theorem getD (version : V → String) (t : Table key) (k : K) {default : V} (defaultKey : key default = k) :
    key ((t.find k).getD default) = k ∧
      ∀ row, key row = k → version ((t.find k).getD default) ≤ version row → Rising version t (t.upsert row) := by
  cases found : t.find k with
  | none => exact ⟨defaultKey, fun row rowKey _ => upsert_of_missing (rowKey ▸ found)⟩
  | some old =>
    have oldKey := key_of_find found
    exact ⟨oldKey, fun row rowKey => upsert_of_find found (rowKey.trans oldKey.symm)⟩

/-- A row that is absent, or older than the event, is written with the event id. -/
theorem upsert_newer (t : Table key) (row : V)
    (newer : isNewer (version row) version (t.find (key row)) = true) : Rising version t (t.upsert row) := by
  refine upsert t row fun old found => ?_
  rw [found] at newer
  exact le_of_lt (of_decide_eq_true newer)

end Rising

namespace Automation

variable {a : Automation} {ev : Envelope}

structure Advances (a a' : Automation) : Prop where
  scheduleDefinitions : Rising ScheduleDefinitionRow.rowVersion a.scheduleDefinitions a'.scheduleDefinitions
  scheduleState : Rising ScheduleStateRow.rowVersion a.scheduleState a'.scheduleState
  scheduleTicks : Rising ScheduleTickRow.rowVersion a.scheduleTicks a'.scheduleTicks
  sensorState : Rising SensorStateRow.rowVersion a.sensorState a'.sensorState
  sensorEvals : Rising SensorEvalRow.rowVersion a.sensorEvals a'.sensorEvals
  backfillChunks : Rising BackfillChunkRow.rowVersion a.backfillChunks a'.backfillChunks
  runKeyIndex : Grows Eq a.runKeyIndex a'.runKeyIndex

namespace Advances

theorem refl (a : Automation) : Advances a a where
  scheduleDefinitions := .refl _ _
  scheduleState := .refl _ _
  scheduleTicks := .refl _ _
  sensorState := .refl _ _
  sensorEvals := .refl _ _
  backfillChunks := .refl _ _
  runKeyIndex := Grows.refl (fun _ => rfl) _

theorem trans {a a' a'' : Automation} (first : Advances a a') (second : Advances a' a'') : Advances a a'' where
  scheduleDefinitions := first.scheduleDefinitions.trans second.scheduleDefinitions
  scheduleState := first.scheduleState.trans second.scheduleState
  scheduleTicks := first.scheduleTicks.trans second.scheduleTicks
  sensorState := first.sensorState.trans second.sensorState
  sensorEvals := first.sensorEvals.trans second.sensorEvals
  backfillChunks := first.backfillChunks.trans second.backfillChunks
  runKeyIndex := Grows.trans (fun _ _ _ => Eq.trans) first.runKeyIndex second.runKeyIndex

/-- Writing backfills or conflicts leaves the other tables as they are. -/
theorem other (a : Automation) (backfills : Table BackfillRow.backfillId) (conflicts : Table RunKeyConflictRow.key) :
    Advances a { a with backfills := backfills, runKeyConflicts := conflicts } :=
  { Advances.refl a with }

end Advances

theorem advances_foldScheduleDefinitionUpserted (p : ScheduleDefinitionUpserted) :
    Advances a (a.foldScheduleDefinitionUpserted ev p).1 := by
  dsimp only [foldScheduleDefinitionUpserted]
  split
  · rename_i newer
    exact { Advances.refl a with scheduleDefinitions := Rising.upsert_newer _ _ newer }
  · exact .refl a

theorem advances_foldScheduleTicked (ext : Externals) (secret : List UInt8) (p : ScheduleTicked) :
    Advances a (a.foldScheduleTicked ext secret ev p).1 := by
  dsimp only [foldScheduleTicked]
  obtain ⟨stateKey, risen⟩ := Rising.getD ScheduleStateRow.rowVersion a.scheduleState p.scheduleId
    (show (newScheduleState ev p.scheduleId).scheduleId = p.scheduleId from rfl)
  generalize (a.scheduleState.find p.scheduleId).getD (newScheduleState ev p.scheduleId) = state at stateKey risen
  have stateRisen : Rising ScheduleStateRow.rowVersion a.scheduleState (a.scheduleState.upsert
      (if decide (state.rowVersion < ev.eventId) = true then
        { state with
          lastScheduledFor := some p.scheduledFor
          lastTickId := some p.tickId
          lastRunKey := p.runKey
          rowVersion := ev.eventId }
      else state)) := by
    split
    · rename_i newer
      exact risen _ stateKey (le_of_lt (of_decide_eq_true newer))
    · exact risen _ stateKey (le_refl _)
  split
  · rename_i newer
    exact { Advances.refl a with scheduleState := stateRisen, scheduleTicks := Rising.upsert_newer _ _ newer }
  · exact { Advances.refl a with scheduleState := stateRisen }

theorem advances_upsertSensorEval (a : Automation) (row : SensorEvalRow) : Advances a (a.upsertSensorEval row).1 := by
  unfold upsertSensorEval
  split
  · rename_i newer
    exact { Advances.refl a with sensorEvals := Rising.upsert_newer _ _ newer }
  · exact .refl a

@[simp] theorem sensorState_upsertSensorEval (row : SensorEvalRow) :
    (a.upsertSensorEval row).1.sensorState = a.sensorState := by
  unfold upsertSensorEval
  split <;> rfl

theorem advances_foldSensorEvaluated (p : SensorEvaluated) : Advances a (a.foldSensorEvaluated ev p).1 := by
  dsimp only [foldSensorEvaluated]
  obtain ⟨stateKey, risen⟩ := Rising.getD SensorStateRow.rowVersion a.sensorState p.sensorId
    (show (newSensorState ev p.sensorId).sensorId = p.sensorId from rfl)
  generalize (a.sensorState.find p.sensorId).getD (newSensorState ev p.sensorId) = state at stateKey risen
  have entered : Advances a { a with sensorState := a.sensorState.upsert state } :=
    { Advances.refl a with sensorState := risen _ stateKey (le_refl _) }
  split
  · exact entered.trans (advances_upsertSensorEval _ _)
  · split
    · exact entered.trans (advances_upsertSensorEval _ _)
    · rename_i later
      refine (entered.trans (advances_upsertSensorEval _ _)).trans { Advances.refl _ with sensorState := ?_ }
      refine Rising.upsert _ _ fun old found => ?_
      rw [sensorState_upsertSensorEval, find_upsert_self] at found
      cases found
      exact le_of_lt (not_le.mp later)

theorem advances_correlateRunToSource (a : Automation) (runId : String) (source : SourceRef) :
    Advances a (a.correlateRunToSource runId source) := by
  unfold correlateRunToSource
  split
  · split
    · rename_i tick found
      exact { Advances.refl a with scheduleTicks := Rising.upsert_of_find found rfl (le_refl _) }
    · exact .refl a
  · split
    · rename_i chunk found
      exact { Advances.refl a with backfillChunks := Rising.upsert_of_find found rfl (le_refl _) }
    · exact .refl a
  · exact .refl a
  · exact .refl a

theorem advances_foldRunRequested (ext : Externals) (secret : List UInt8) (p : RunRequested) :
    Advances a (a.foldRunRequested ext secret ev p).1 := by
  unfold foldRunRequested
  split
  · exact .refl a
  · split
    · split
      · exact .other a _ _
      · exact .refl a
    · rename_i unknown
      refine Advances.trans ?_ (advances_correlateRunToSource _ _ _)
      refine { Advances.refl a with runKeyIndex := Grows.upsert (fun _ => rfl) _ _ fun old found => ?_ }
      cases unknown.symm.trans found

theorem advances_foldBackfillCreated (p : BackfillCreated) : Advances a (a.foldBackfillCreated ev p).1 := by
  unfold foldBackfillCreated
  split
  · exact .refl a
  · exact .other a _ _

theorem advances_advancePlannedChunks (a : Automation) (backfillId : String) :
    Advances a (a.advancePlannedChunks ev backfillId) := by
  unfold advancePlannedChunks
  split
  · dsimp only
    split
    · exact .other a _ _
    · exact .refl a
  · exact .refl a

theorem advances_foldBackfillChunkPlanned (p : BackfillChunkPlanned) :
    Advances a (a.foldBackfillChunkPlanned ev p).1 := by
  dsimp only [foldBackfillChunkPlanned]
  split
  · rename_i newer
    refine Advances.trans ?_ (advances_advancePlannedChunks _ p.backfillId)
    exact { Advances.refl a with backfillChunks := Rising.upsert_newer _ _ newer }
  · exact .refl a

theorem advances_foldBackfillStateChanged (p : BackfillStateChanged) :
    Advances a (a.foldBackfillStateChanged ev p).1 := by
  unfold foldBackfillStateChanged
  split
  · exact .refl a
  · repeat' split
    all_goals first
      | exact .refl a
      | exact .other a _ _

def apply (ext : Externals) (secret : List UInt8) (a : Automation) (ev : Envelope) : OrchestrationEventData → Automation
  | .scheduleDefinitionUpserted p => (a.foldScheduleDefinitionUpserted ev p).1
  | .scheduleTicked p => (a.foldScheduleTicked ext secret ev p).1
  | .sensorEvaluated p => (a.foldSensorEvaluated ev p).1
  | .runRequested p => (a.foldRunRequested ext secret ev p).1
  | .backfillCreated p => (a.foldBackfillCreated ev p).1
  | .backfillChunkPlanned p => (a.foldBackfillChunkPlanned ev p).1
  | .backfillStateChanged p => (a.foldBackfillStateChanged ev p).1
  | _ => a

def OrchestrationEventData.plansRuns : OrchestrationEventData → Bool
  | .runRequested _ | .backfillCreated _ | .backfillChunkPlanned _ | .backfillStateChanged _ => true
  | _ => false

structure Apart (a a' : Automation) : Prop where
  backfills : a'.backfills = a.backfills
  backfillChunks : a'.backfillChunks = a.backfillChunks
  runKeyConflicts : a'.runKeyConflicts = a.runKeyConflicts

theorem apart_apply (ext : Externals) (secret : List UInt8) (a : Automation) (ev : Envelope)
    {data : OrchestrationEventData} (apart : OrchestrationEventData.plansRuns data = false) :
    Apart a (a.apply ext secret ev data) := by
  cases data with
  | scheduleDefinitionUpserted p =>
    dsimp only [apply, foldScheduleDefinitionUpserted]
    split <;> exact ⟨rfl, rfl, rfl⟩
  | scheduleTicked p =>
    dsimp only [apply, foldScheduleTicked]
    split <;> exact ⟨rfl, rfl, rfl⟩
  | sensorEvaluated p =>
    dsimp only [apply, foldSensorEvaluated, upsertSensorEval]
    repeat' split
    all_goals exact ⟨rfl, rfl, rfl⟩
  | runRequested p | backfillCreated p | backfillChunkPlanned p | backfillStateChanged p => cases apart
  | _ => exact ⟨rfl, rfl, rfl⟩

theorem advances_apply (ext : Externals) (secret : List UInt8) (a : Automation) (ev : Envelope)
    (data : OrchestrationEventData) : Advances a (a.apply ext secret ev data) := by
  cases data with
  | scheduleDefinitionUpserted p => exact advances_foldScheduleDefinitionUpserted p
  | scheduleTicked p => exact advances_foldScheduleTicked ext secret p
  | sensorEvaluated p => exact advances_foldSensorEvaluated p
  | runRequested p => exact advances_foldRunRequested ext secret p
  | backfillCreated p => exact advances_foldBackfillCreated p
  | backfillChunkPlanned p => exact advances_foldBackfillChunkPlanned p
  | backfillStateChanged p => exact advances_foldBackfillStateChanged p
  | _ => exact .refl a

end Automation

def OrchestrationEventData.writesOutbox : OrchestrationEventData → Bool
  | .taskStarted _ | .dispatchRequested _ | .dispatchEnqueued _ => true
  | _ => false

namespace FoldState

variable {ext : Externals} {ev : Envelope} {s : FoldState}

structure Advances (s s' : FoldState) : Prop where
  timers : Rising TimerRow.rowVersion s.timers s'.timers
  partitionStatus : Rising PartitionStatusRow.rowVersion s.partitionStatus s'.partitionStatus
  idempotencyKeys : Grows Eq s.idempotencyKeys s'.idempotencyKeys

namespace Advances

theorem refl (s : FoldState) : Advances s s where
  timers := .refl _ _
  partitionStatus := .refl _ _
  idempotencyKeys := Grows.refl (fun _ => rfl) _

theorem trans {s s' s'' : FoldState} (first : Advances s s') (second : Advances s' s'') : Advances s s'' where
  timers := first.timers.trans second.timers
  partitionStatus := first.partitionStatus.trans second.partitionStatus
  idempotencyKeys := Grows.trans (fun _ _ _ => Eq.trans) first.idempotencyKeys second.idempotencyKeys

/-- Writing the lifecycle or automation tables, the outbox or the catalog leaves the others as they are. -/
theorem other (s : FoldState) (l : Lifecycle) (a : Automation) (outbox : Table DispatchOutboxRow.dispatchId)
    (catalog : Table CatalogRunIndexRow.primaryKey) :
    Advances s { s with toLifecycle := l, toAutomation := a, dispatchOutbox := outbox, catalogRunIndex := catalog } :=
  { Advances.refl s with }

end Advances

theorem advances_refreshed {runId : String} {r : FoldState × Bool} (advances : Advances s r.1) :
    Advances s (refreshed ev runId r).1 := by
  unfold refreshed refreshCatalogRunIndexForRun
  split
  · split
    · exact advances
    · exact advances.trans (.other r.1 _ _ _ _)
  · exact advances

/-- What the handlers of runs, tasks, dispatches and timers leave as it is. -/
structure Frame (data : OrchestrationEventData) (s s' : FoldState) : Prop where
  automation : s'.toAutomation = s.toAutomation
  catalogRunIndex : s'.catalogRunIndex = s.catalogRunIndex
  tenantSecret : s'.tenantSecret = s.tenantSecret
  outbox : data.writesOutbox = false → s'.dispatchOutbox = s.dispatchOutbox
  advances : Advances s s'

theorem Frame.lifecycle (data : OrchestrationEventData) (s : FoldState) (l : Lifecycle) :
    Frame data s { s with toLifecycle := l } :=
  ⟨rfl, rfl, rfl, fun _ => rfl, .other s _ _ _ _⟩

/-- How an event is handled: by handlers that do not touch the automation tables, or by one of those tables. -/
inductive Handled (ext : Externals) (s : FoldState) (ev : Envelope) (data : OrchestrationEventData) : FoldState → Prop where
  | refreshes {runId : String} {r : FoldState × Bool} (frame : Frame data s r.1)
      (idle : s.toAutomation.apply ext s.tenantSecret ev data = s.toAutomation) :
      Handled ext s ev data (refreshed ev runId r).1
  | plain {s' : FoldState} (frame : Frame data s s')
      (idle : s.toAutomation.apply ext s.tenantSecret ev data = s.toAutomation) : Handled ext s ev data s'
  | automation : Handled ext s ev data { s with toAutomation := s.toAutomation.apply ext s.tenantSecret ev data }

theorem advances_setRetryNotBefore (s : FoldState) (p : TimerRequested) : Advances s (s.setRetryNotBefore ev p).1 := by
  unfold setRetryNotBefore
  split
  · split
    · exact .other s _ _ _ _
    · exact .refl s
  · exact .refl s

theorem advances_foldTimerRequested (p : TimerRequested) : Advances s (s.foldTimerRequested ev p).1 := by
  unfold foldTimerRequested
  split
  · rename_i existing found
    refine Advances.trans ?_ (advances_setRetryNotBefore _ p)
    -- the request fills the row and keeps its version
    exact { Advances.refl s with timers := Rising.upsert_of_find found rfl (le_refl _) }
  · rename_i missing
    refine Advances.trans ?_ (advances_setRetryNotBefore _ p)
    exact { Advances.refl s with timers := Rising.upsert_of_missing missing }

variable {timerId : String} {change : TimerRow → TimerRow} {created : Option TimerRow}

theorem advances_upsertTimer (changeKey : ∀ row, (change row).timerId = row.timerId)
    (changeVersion : ∀ row, (change row).rowVersion = ev.eventId)
    (createdKey : ∀ row, created = some row → row.timerId = timerId) :
    Advances s (s.upsertTimer ev timerId change created).1 := by
  unfold upsertTimer
  split
  · rename_i existing found
    split
    · exact .refl s
    · rename_i later
      refine { Advances.refl s with timers := Rising.upsert_of_find found (changeKey existing) ?_ }
      rw [changeVersion]
      exact le_of_lt (not_le.mp later)
  · rename_i missing
    split
    · rename_i row
      exact { Advances.refl s with timers := Rising.upsert_of_missing (createdKey row rfl ▸ missing) }
    · exact .refl s

theorem timerId_timerFromId {runId taskKey : Option String} {attempt : Option Nat} {cloudTaskId : Option String}
    {state : TimerState} {row : TimerRow}
    (created : timerFromId ext ev timerId runId taskKey attempt cloudTaskId state = some row) : row.timerId = timerId := by
  unfold timerFromId at created
  cases parsed : parseTimerId timerId with
  | none =>
    rw [parsed] at created
    cases created
  | some parts =>
    rw [parsed] at created
    cases created
    rfl

theorem rising_updatePartition (assetKey partitionKey : String) {change : PartitionStatusRow → PartitionStatusRow}
    (changeKey : ∀ row, (change row).key = row.key) (changeVersion : ∀ row, (change row).rowVersion = ev.eventId)
    (t : Table PartitionStatusRow.key) :
    Rising PartitionStatusRow.rowVersion t (updatePartition ev assetKey partitionKey change t) := by
  dsimp only [updatePartition]
  obtain ⟨rowKey, risen⟩ := Rising.getD PartitionStatusRow.rowVersion t (assetKey, partitionKey)
    (show (newPartitionStatus ev assetKey partitionKey).key = _ from rfl)
  generalize (t.find (assetKey, partitionKey)).getD (newPartitionStatus ev assetKey partitionKey) = row at rowKey risen
  split
  · exact risen _ rowKey (le_refl _)
  · rename_i later
    exact risen _ ((changeKey row).trans rowKey) (changeVersion row ▸ not_lt.mp later)

theorem rising_recordPartition (p : TaskFinished) (t : Table PartitionStatusRow.key) :
    Rising PartitionStatusRow.rowVersion t (recordPartition ext ev p t) := by
  unfold recordPartition
  split
  · have attempt : ∀ t assetKey partitionKey,
        Rising PartitionStatusRow.rowVersion t (updatePartitionAttempt ev p assetKey partitionKey t) :=
      fun t assetKey partitionKey => rising_updatePartition assetKey partitionKey (fun _ => by rfl) (fun _ => by rfl) t
    split
    · exact Rising.trans (rising_updatePartition _ _ (fun _ => by rfl) (fun _ => by rfl) t) (attempt _ _ _)
    · exact attempt _ _ _
  · exact .refl _ _

theorem frame_upsertTimer (data : OrchestrationEventData)
    (advances : Advances s (s.upsertTimer ev timerId change created).1) :
    Frame data s (s.upsertTimer ev timerId change created).1 := by
  refine ⟨?_, ?_, ?_, fun _ => ?_, advances⟩
  all_goals
    unfold upsertTimer
    repeat' split
    all_goals rfl

theorem frame_foldTaskFinished (data : OrchestrationEventData) (p : TaskFinished) :
    Frame data s (s.foldTaskFinished ext ev p).1 := by
  dsimp only [foldTaskFinished]
  split
  · exact ⟨rfl, rfl, rfl, fun _ => rfl,
      { Advances.refl s with partitionStatus := rising_recordPartition p s.partitionStatus }⟩
  · exact .lifecycle data s _

theorem handled_apply (ext : Externals) (s : FoldState) (ev : Envelope) (data : OrchestrationEventData) :
    Handled ext s ev data (s.apply ext ev data).1 := by
  cases data with
  | runTriggered p | planCreated p | runCancelRequested p | taskHeartbeat p | taskOutputVisibilityChanged p =>
    exact .refreshes (.lifecycle _ s _) rfl
  | taskStarted p =>
    refine .refreshes ?_ rfl
    dsimp only [foldTaskStarted]
    split <;> exact ⟨rfl, rfl, rfl, fun written => Bool.noConfusion written, .other s _ _ _ _⟩
  | taskFinished p => exact .refreshes (frame_foldTaskFinished _ p) rfl
  | taskCompletionRecorded p =>
    refine .refreshes ?_ rfl
    have finished : Frame (.taskCompletionRecorded p) s (s.foldTaskFinished ext ev p.toTaskFinished).1 :=
      frame_foldTaskFinished _ p.toTaskFinished
    dsimp only [foldTaskCompletionRecorded]
    repeat' split
    all_goals first
      | exact finished
      | exact { finished with advances := finished.advances.trans (.other _ _ _ _ _) }
  | dispatchRequested p =>
    refine .refreshes ?_ rfl
    unfold foldDispatchRequested
    repeat' split
    all_goals exact ⟨rfl, rfl, rfl, fun written => Bool.noConfusion written, .other s _ _ _ _⟩
  | dispatchEnqueued p =>
    refine .plain ?_ rfl
    dsimp only [apply, foldDispatchEnqueued, acknowledge]
    repeat' split
    all_goals exact ⟨rfl, rfl, rfl, fun written => Bool.noConfusion written, .other s _ _ _ _⟩
  | timerRequested p =>
    refine .plain ⟨?_, ?_, ?_, fun _ => ?_, advances_foldTimerRequested p⟩ rfl
    all_goals
      dsimp only [apply, foldTimerRequested, setRetryNotBefore]
      repeat' split
      all_goals rfl
  | timerEnqueued p | timerFired p =>
    exact .plain (frame_upsertTimer _ (advances_upsertTimer (fun _ => rfl) (fun _ => rfl)
      fun _ created => timerId_timerFromId created)) rfl
  | _ => exact .automation

theorem Handled.rest {data : OrchestrationEventData} {s' : FoldState} (handled : Handled ext s ev data s') :
    s'.toAutomation = s.toAutomation.apply ext s.tenantSecret ev data ∧ s'.tenantSecret = s.tenantSecret ∧
      (data.writesOutbox = false → s'.dispatchOutbox = s.dispatchOutbox) := by
  cases handled with
  | @refreshes runId r frame idle =>
    obtain ⟨_, same⟩ := refreshed_fst ev runId r
    rw [same, idle]
    exact ⟨frame.automation, frame.tenantSecret, frame.outbox⟩
  | plain frame idle => exact ⟨frame.automation.trans idle.symm, frame.tenantSecret, frame.outbox⟩
  | automation => exact ⟨rfl, rfl, fun _ => rfl⟩

theorem toAutomation_apply (ext : Externals) (s : FoldState) (ev : Envelope) (data : OrchestrationEventData) :
    (s.apply ext ev data).1.toAutomation = s.toAutomation.apply ext s.tenantSecret ev data :=
  (handled_apply ext s ev data).rest.1

theorem advances_apply (ext : Externals) (s : FoldState) (ev : Envelope) (data : OrchestrationEventData) :
    Advances s (s.apply ext ev data).1 := by
  have handled := handled_apply ext s ev data
  generalize (s.apply ext ev data).1 = s' at handled
  cases handled with
  | refreshes frame _ => exact advances_refreshed frame.advances
  | plain frame _ => exact frame.advances
  | automation => exact .other s _ _ _ _

theorem advances_recordIdempotencyKey (s : FoldState) (ev : Envelope) : Advances s (s.recordIdempotencyKey ev) := by
  unfold recordIdempotencyKey
  split
  · exact .refl s
  · rename_i absent
    refine { Advances.refl s with idempotencyKeys := Grows.upsert (fun _ => rfl) _ _ fun old found => ?_ }
    rw [contains, found] at absent
    exact absurd rfl absent

theorem toAutomation_foldEvent (ext : Externals) (s : FoldState) (e : OrchestrationEvent) (new : s.IsNew e) :
    (s.foldEvent ext e).toAutomation = s.toAutomation.apply ext s.tenantSecret e.toEnvelope e.data := by
  obtain ⟨_, folded⟩ := foldEvent_of_new ext new
  rw [folded]
  exact toAutomation_apply ext s e.toEnvelope e.data

theorem advances_automation_foldEvent (ext : Externals) (s : FoldState) (e : OrchestrationEvent) :
    Automation.Advances s.toAutomation (s.foldEvent ext e).toAutomation := by
  refine foldEvent_cases ext s e (.refl _) fun new => ?_
  rw [toAutomation_foldEvent ext s e new]
  exact Automation.advances_apply _ _ _ _ _

theorem advances_foldEvent (ext : Externals) (s : FoldState) (e : OrchestrationEvent) :
    Advances s (s.foldEvent ext e) := by
  unfold foldEvent
  split
  · exact .refl s
  · dsimp only
    split
    · exact (advances_apply ext s _ _).trans (advances_recordIdempotencyKey _ _)
    · exact advances_apply ext s _ _

/-- Events that were recorded before may come again anywhere in a batch. -/
theorem foldEvents_redelivered (ext : Externals) (s : FoldState) (events : List OrchestrationEvent) :
    foldEvents ext s events =
      foldEvents ext s (events.filter fun e => !s.idempotencyKeys.contains e.idempotencyKey) := by
  -- the keys of the first state stay known while the batch is folded
  suffices passed : ∀ s', Advances s s' → foldEvents ext s' events =
      foldEvents ext s' (events.filter fun e => !s.idempotencyKeys.contains e.idempotencyKey) from passed s (.refl s)
  induction events with
  | nil => exact fun _ _ => rfl
  | cons e rest ih =>
    intro s' advances
    cases known : s.idempotencyKeys.contains e.idempotencyKey with
    | true =>
      have still := contains_iff.mpr (advances.idempotencyKeys.keys.subset (contains_iff.mp known))
      rw [List.filter_cons_of_neg (by simp [known]), ← ih s' advances]
      exact congrArg (foldEvents ext · rest) (foldEvent_of_known ext still)
    | false =>
      rw [List.filter_cons_of_pos (by simp [known])]
      exact ih _ (advances.trans (advances_foldEvent ext s' e))

end FoldState

end Arco.Flow
