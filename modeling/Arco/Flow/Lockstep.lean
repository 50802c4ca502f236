import Arco.Flow.Graph
import Arco.Flow.Growth

/-! Two folds in lockstep.

A fold that starts from a loaded state and a fold that never left memory differ in what a
load does not restore: the order of the graph lists, outbox rows that were pruned, and
repeated conflicts. `FoldState.Alike` relates two such states, and an event that reads no
outbox row on which they differ keeps the relation.
-/

namespace Arco.Flow

open Keyed

/-! ## Runs, tasks and edges -/

namespace Lifecycle

open List Table

/-- The same rows, and the same dependents up to order and repetition. -/
structure Alike (l l' : Lifecycle) : Prop where
  runs : l'.runs = l.runs
  tasks : l'.tasks = l.tasks
  depSatisfaction : l'.depSatisfaction = l.depSatisfaction
  dependents : ∀ r u d, d ∈ l'.getDependents r u ↔ d ∈ l.getDependents r u

structure InStep (r r' : Lifecycle × Bool) : Prop where
  state : r.1.Alike r'.1
  applied : r'.2 = r.2

namespace Alike

variable {ext : Externals} {ev : Envelope} {l l' : Lifecycle}

theorem refl (l : Lifecycle) : Alike l l := ⟨rfl, rfl, rfl, fun _ _ _ => Iff.rfl⟩

theorem trans {l'' : Lifecycle} (first : l.Alike l') (second : l'.Alike l'') : l.Alike l'' :=
  ⟨second.runs.trans first.runs, second.tasks.trans first.tasks, second.depSatisfaction.trans first.depSatisfaction,
    fun r u d => (second.dependents r u d).trans (first.dependents r u d)⟩

section

variable (alike : l.Alike l')
include alike

theorem updateTask (key : String × String) (f : TaskRow → Option TaskRow) :
    InStep (l.updateTask key f) (l'.updateTask key f) := by
  unfold Lifecycle.updateTask
  rw [alike.tasks]
  split
  · exact ⟨⟨alike.runs, rfl, alike.depSatisfaction, alike.dependents⟩, rfl⟩
  · exact ⟨alike, rfl⟩

theorem foldRunTriggered (p : RunTriggered) :
    InStep (l.foldRunTriggered ev p) (l'.foldRunTriggered ev p) := by
  have recount : l'.recount p.runId = l.recount p.runId := by rw [recount, recount, alike.tasks]
  unfold Lifecycle.foldRunTriggered
  rw [alike.runs, recount]
  split
  · exact ⟨alike, rfl⟩
  · exact ⟨⟨rfl, alike.tasks, alike.depSatisfaction, alike.dependents⟩, rfl⟩

theorem hasTasks (runId : String) : l'.hasTasks runId = l.hasTasks runId := by
  rw [Lifecycle.hasTasks, Lifecycle.hasTasks, alike.tasks]

theorem foldPlanCreated (p : PlanCreated) : InStep (l.foldPlanCreated ev p) (l'.foldPlanCreated ev p) := by
  constructor
  · rw [foldPlanCreated_eq, foldPlanCreated_eq, alike.hasTasks]
    split
    · exact alike
    · refine ⟨?_, ?_, ?_, fun r u d => ?_⟩
      · rw [planned, planned, alike.runs]
      · rw [planned, planned, alike.tasks]
      · rw [planned, planned, alike.depSatisfaction]
      · rw [mem_getDependents_planned, mem_getDependents_planned, alike.dependents]
  · unfold Lifecycle.foldPlanCreated
    rw [alike.hasTasks, alike.runs]
    split <;> rfl

theorem foldRunCancelRequested (p : RunCancelRequested) :
    InStep (l.foldRunCancelRequested ev p) (l'.foldRunCancelRequested ev p) := by
  have ended : l'.runIsTerminal p.runId = l.runIsTerminal p.runId := by
    rw [runIsTerminal, runIsTerminal, alike.runs]
  constructor
  · rw [foldRunCancelRequested_eq, foldRunCancelRequested_eq, ended]
    split
    · exact alike
    · refine ⟨?_, ?_, alike.depSatisfaction, alike.dependents⟩
      · rw [cancelRequested, cancelRequested, alike.runs, alike.tasks]
      · rw [cancelRequested, cancelRequested, alike.tasks]
  · unfold Lifecycle.foldRunCancelRequested
    rw [ended, alike.runs, alike.tasks]
    split <;> rfl

end

/-! ### Completions -/

variable {p : TaskFinished} {t : TaskRow}

theorem completes_iff (alike : l.Alike l') : l'.Completes p t ↔ l.Completes p t := by
  constructor
  · exact fun completes => ⟨alike.tasks ▸ completes.found, completes.current, completes.active⟩
  · exact fun completes => ⟨alike.tasks.symm ▸ completes.found, completes.current, completes.active⟩

theorem doomed_iff (alike : l.Alike l') (runId upstream d : String) :
    l'.Doomed runId upstream d ↔ l.Doomed runId upstream d :=
  ⟨.congr alike.tasks.symm fun v d => (alike.dependents runId v d).mp,
    .congr alike.tasks fun v d => (alike.dependents runId v d).mpr⟩

variable {runId upstream : String} {resolution : DepResolution}

theorem mem_edgesFrom_iff (alike : l.Alike l') {closed closed' : List String} (same : ∀ d, d ∈ closed' ↔ d ∈ closed)
    (edge : DepSatisfactionRow) :
    edge ∈ l'.edgesFrom ev runId (cascadeItems upstream resolution closed') ↔
      edge ∈ l.edgesFrom ev runId (cascadeItems upstream resolution closed) := by
  have items : ∀ item, item ∈ cascadeItems upstream resolution closed' ↔
      item ∈ cascadeItems upstream resolution closed := by
    intro item
    simp only [cascadeItems, mem_cons, mem_map, same]
  simp only [edgesFrom, mem_flatMap, mem_map, items, alike.dependents]

theorem edgesFrom_functional {closed : List String} (apart : upstream ∉ closed) :
    ∀ a ∈ l.edgesFrom ev runId (cascadeItems upstream resolution closed),
      ∀ b ∈ l.edgesFrom ev runId (cascadeItems upstream resolution closed), a.key = b.key → a = b := by
  have unique : ∀ item ∈ cascadeItems upstream resolution closed, ∀ item' ∈ cascadeItems upstream resolution closed,
      item.1 = item'.1 → item = item' := by
    intro item member item' member' same
    simp only [cascadeItems, mem_cons, mem_map] at member member'
    rcases member with rfl | ⟨d, inClosed, rfl⟩ <;> rcases member' with rfl | ⟨d', inClosed', rfl⟩
    · rfl
    · exact absurd ((show upstream = d' from same) ▸ inClosed') apart
    · exact absurd ((show d = upstream from same) ▸ inClosed) apart
    · rw [show d = d' from same]
  intro a inA b inB same
  simp only [edgesFrom, mem_flatMap, mem_map] at inA inB
  obtain ⟨item, visited, d, _, rfl⟩ := inA
  obtain ⟨item', visited', _, _, rfl⟩ := inB
  simp only [DepSatisfactionRow.key, resolvedEdge, Prod.mk.injEq, true_and] at same
  rw [unique item visited item' visited' same.1, same.2]

section

variable (alike : l.Alike l')
include alike

theorem satisfyDownstreamEdges (wired : l.Wired) (ev : Envelope) (runId upstream : String) (attempt : Nat) :
    Alike (l.satisfyDownstreamEdges ev runId upstream attempt) (l'.satisfyDownstreamEdges ev runId upstream attempt) := by
  rw [satisfyDownstreamEdges_eq, satisfyDownstreamEdges_eq]
  refine ⟨alike.runs, ?_, ?_, alike.dependents⟩
  · have sameEdge : ∀ d, l'.edgeSatisfied runId upstream d = l.edgeSatisfied runId upstream d := by
      intro d
      rw [edgeSatisfied, edgeSatisfied, alike.depSatisfaction]
    rw [satisfied, alike.tasks]
    refine mapRows_congr fun row _ => ?_
    simp only [countIn, sameEdge, alike.dependents]
  · rw [satisfied, alike.depSatisfaction]
    refine (upsertAll_congr (fun edge => ?_) (fun a inA b inB same => ?_) fun edge member => ?_).symm
    · simp only [mem_map, alike.dependents]
    · obtain ⟨d, _, rfl⟩ := mem_map.mp inA
      obtain ⟨_, _, rfl⟩ := mem_map.mp inB
      simp only [DepSatisfactionRow.key, satisfiedEdge, Prod.mk.injEq, true_and] at same
      rw [same]
    · obtain ⟨d, dependent, rfl⟩ := mem_map.mp member
      exact (wired.dependents runId upstream d).mp dependent

theorem propagateFailure (wired : l.Wired) (ended : ¬ l.Open runId upstream) (resolution : DepResolution) :
    Alike (l.propagateFailure ev runId upstream resolution) (l'.propagateFailure ev runId upstream resolution) := by
  obtain ⟨closed, nodup, doomed, result⟩ := propagateFailure_eq l ev runId upstream resolution
  obtain ⟨closed', nodup', doomed', result'⟩ := propagateFailure_eq l' ev runId upstream resolution
  have same : ∀ d, d ∈ closed' ↔ d ∈ closed := fun d => by rw [doomed', doomed, alike.doomed_iff]
  have length : closed'.length = closed.length := ((perm_ext_iff_of_nodup nodup' nodup).mpr same).length_eq
  have apart : upstream ∉ closed := fun member => ended ((doomed upstream).mp member).open
  rw [result, result']
  refine ⟨?_, ?_, ?_, alike.dependents⟩
  · unfold cascaded
    rw [alike.runs, length]
  · rw [cascaded, alike.tasks]
    refine mapRows_congr fun row _ => ?_
    simp only [closeIn, same]
  · rw [cascaded, alike.depSatisfaction]
    refine (upsertAll_congr (fun edge => (alike.mem_edgesFrom_iff same edge).symm) (edgesFrom_functional apart)
      fun edge member => ?_).symm
    obtain ⟨item, _, inItem⟩ := mem_flatMap.mp member
    obtain ⟨d, dependent, rfl⟩ := mem_map.mp inItem
    exact (wired.dependents runId item.1 d).mp dependent

theorem completed (ext : Externals) (ev : Envelope) (p : TaskFinished) (t : TaskRow) :
    Alike (l.completed ext ev p t) (l'.completed ext ev p t) := by
  refine ⟨?_, ?_, alike.depSatisfaction, alike.dependents⟩
  · simp only [Lifecycle.completed, modifyRun, alike.runs]
  · simp only [Lifecycle.completed, modifyRun, alike.tasks]

theorem finishTask (wired : l.Wired) (completes : l.Completes p t) :
    Alike (l.finishTask ext ev p t) (l'.finishTask ext ev p t) := by
  have keys : (l.completed ext ev p t).tasks.keys = l.tasks.keys := by
    refine keys_upsert_of_mem ?_
    rw [TaskRow.key_finish, key_of_find completes.found]
    exact mem_keys_of_find completes.found
  have wired' : (l.completed ext ev p t).Wired := wired.frame rfl keys rfl rfl
  cases ended : (t.stateAfter p.outcome).isTerminal with
  | false =>
    rw [finishTask_retried ended, finishTask_retried ended, alike.tasks]
    exact ⟨alike.runs, rfl, alike.depSatisfaction, alike.dependents⟩
  | true =>
    by_cases success : p.outcome = .succeeded
    · have satisfied := (alike.completed ext ev p t).satisfyDownstreamEdges wired' ev p.runId p.taskKey p.attempt
      rw [satisfyDownstreamEdges_eq, satisfyDownstreamEdges_eq] at satisfied
      rwa [finishTask_succeeded success, finishTask_succeeded success]
    · rw [finishTask_propagates ext l ev ⟨success, ended⟩, finishTask_propagates ext l' ev ⟨success, ended⟩]
      refine (alike.completed ext ev p t).propagateFailure wired' ?_ _
      rw [open_completed ext ev completes ended]
      exact fun isOpen => isOpen.2 rfl

theorem foldTaskFinished (wired : l.Wired) (p : TaskFinished) :
    InStep (l.foldTaskFinished ext ev p) (l'.foldTaskFinished ext ev p) := by
  by_cases accepted : ∃ t, l.Completes p t
  · obtain ⟨t, completes⟩ := accepted
    rw [foldTaskFinished_of_completes ext ev completes,
      foldTaskFinished_of_completes ext ev (alike.completes_iff.mpr completes)]
    exact ⟨alike.finishTask wired completes, rfl⟩
  · rw [not_exists] at accepted
    rw [foldTaskFinished_of_not ext ev accepted,
      foldTaskFinished_of_not ext ev fun t completes => accepted t (alike.completes_iff.mp completes)]
    exact ⟨alike, rfl⟩

end

end Alike

end Lifecycle

/-! ## Automation -/

namespace Automation

/-- The same tables. No handler reads the conflicts, which need to agree only if they are tracked. -/
structure Alike (tracked : Prop) (a a' : Automation) : Prop where
  scheduleDefinitions : a'.scheduleDefinitions = a.scheduleDefinitions
  scheduleState : a'.scheduleState = a.scheduleState
  scheduleTicks : a'.scheduleTicks = a.scheduleTicks
  sensorState : a'.sensorState = a.sensorState
  sensorEvals : a'.sensorEvals = a.sensorEvals
  backfills : a'.backfills = a.backfills
  backfillChunks : a'.backfillChunks = a.backfillChunks
  runKeyIndex : a'.runKeyIndex = a.runKeyIndex
  runKeyConflicts : tracked → a'.runKeyConflicts = a.runKeyConflicts

structure InStep (tracked : Prop) (r r' : Automation × Bool) : Prop where
  state : Alike tracked r.1 r'.1
  applied : r'.2 = r.2

namespace Alike

variable {ext : Externals} {secret : List UInt8} {ev : Envelope} {tracked : Prop} {a a' : Automation}

theorem refl (tracked : Prop) (a : Automation) : Alike tracked a a :=
  ⟨rfl, rfl, rfl, rfl, rfl, rfl, rfl, rfl, fun _ => rfl⟩

/-- Two such states are one state with two tables of conflicts. -/
theorem eq_update (alike : Alike tracked a a') : a' = { a with runKeyConflicts := a'.runKeyConflicts } := by
  cases a'
  obtain ⟨rfl, rfl, rfl, rfl, rfl, rfl, rfl, rfl, _⟩ := alike
  rfl

theorem update (a : Automation) {conflicts : Table RunKeyConflictRow.key}
    (same : tracked → conflicts = a.runKeyConflicts) : Alike tracked a { a with runKeyConflicts := conflicts } :=
  { refl tracked a with runKeyConflicts := same }

theorem trans {a'' : Automation} (first : Alike tracked a a') (second : Alike tracked a' a'') : Alike tracked a a'' := by
  rw [second.eq_update, first.eq_update]
  exact .update a fun isTracked => (second.runKeyConflicts isTracked).trans (first.runKeyConflicts isTracked)

section

variable (alike : Alike tracked a a')
include alike

theorem foldScheduleDefinitionUpserted (p : ScheduleDefinitionUpserted) :
    InStep tracked (a.foldScheduleDefinitionUpserted ev p) (a'.foldScheduleDefinitionUpserted ev p) := by
  rw [alike.eq_update]
  dsimp only [Automation.foldScheduleDefinitionUpserted]
  split <;> exact ⟨.update _ alike.runKeyConflicts, rfl⟩

theorem foldScheduleTicked (p : ScheduleTicked) :
    InStep tracked (a.foldScheduleTicked ext secret ev p) (a'.foldScheduleTicked ext secret ev p) := by
  rw [alike.eq_update]
  dsimp only [Automation.foldScheduleTicked]
  split <;> exact ⟨.update _ alike.runKeyConflicts, rfl⟩

theorem foldSensorEvaluated (p : SensorEvaluated) :
    InStep tracked (a.foldSensorEvaluated ev p) (a'.foldSensorEvaluated ev p) := by
  rw [alike.eq_update]
  dsimp only [Automation.foldSensorEvaluated, upsertSensorEval]
  split
  · split <;> exact ⟨.update _ alike.runKeyConflicts, rfl⟩
  · split <;> (split <;> exact ⟨.update _ alike.runKeyConflicts, rfl⟩)

theorem correlateRunToSource (runId : String) (source : SourceRef) :
    Alike tracked (a.correlateRunToSource runId source) (a'.correlateRunToSource runId source) := by
  rw [alike.eq_update]
  dsimp only [Automation.correlateRunToSource]
  split
  · split <;> exact .update _ alike.runKeyConflicts
  · split <;> exact .update _ alike.runKeyConflicts
  · exact .update _ alike.runKeyConflicts
  · exact .update _ alike.runKeyConflicts

theorem foldRunRequested (p : RunRequested) :
    InStep tracked (a.foldRunRequested ext secret ev p) (a'.foldRunRequested ext secret ev p) := by
  have dropped : a'.shouldDropRunRequestedForStaleSensorEval p.triggerSourceRef =
      a.shouldDropRunRequestedForStaleSensorEval p.triggerSourceRef := by
    unfold shouldDropRunRequestedForStaleSensorEval
    rw [alike.sensorEvals]
  unfold Automation.foldRunRequested
  rw [dropped]
  clear dropped
  rw [alike.eq_update]
  dsimp only
  split
  · exact ⟨.update _ alike.runKeyConflicts, rfl⟩
  · split
    · split
      · exact ⟨.update _ fun isTracked => congrArg (Table.upsert · _) (alike.runKeyConflicts isTracked), rfl⟩
      · exact ⟨.update _ alike.runKeyConflicts, rfl⟩
    · refine ⟨correlateRunToSource ?_ _ _, rfl⟩
      exact { refl tracked _ with runKeyConflicts := alike.runKeyConflicts }

theorem foldBackfillCreated (p : BackfillCreated) :
    InStep tracked (a.foldBackfillCreated ev p) (a'.foldBackfillCreated ev p) := by
  rw [alike.eq_update]
  unfold Automation.foldBackfillCreated
  split <;> exact ⟨.update _ alike.runKeyConflicts, rfl⟩

theorem foldBackfillChunkPlanned (p : BackfillChunkPlanned) :
    InStep tracked (a.foldBackfillChunkPlanned ev p) (a'.foldBackfillChunkPlanned ev p) := by
  rw [alike.eq_update]
  dsimp only [Automation.foldBackfillChunkPlanned, advancePlannedChunks, nextChunkIndex]
  repeat' split
  all_goals exact ⟨.update _ alike.runKeyConflicts, rfl⟩

theorem foldBackfillStateChanged (p : BackfillStateChanged) :
    InStep tracked (a.foldBackfillStateChanged ev p) (a'.foldBackfillStateChanged ev p) := by
  rw [alike.eq_update]
  dsimp only [Automation.foldBackfillStateChanged]
  repeat' split
  all_goals exact ⟨.update _ alike.runKeyConflicts, rfl⟩

end

end Alike

end Automation

/-! ## Whole states -/

namespace FoldState

def acknowledgementKey (dispatchId : String) : String := s!"dispatch_ack:{dispatchId}"

/-- What two folds agree on besides the other tables: the outbox rows of these dispatches, and the conflicts. -/
structure Scope where
  dispatches : String → Prop
  conflicts : Prop

/-- Every key, but for the acknowledgements of the dispatches outside of the scope. -/
def Scope.Settles (scope : Scope) (key : String) : Prop := ∀ id, key = acknowledgementKey id → scope.dispatches id

/-- The states agree on all tables within the scope. -/
structure Alike (scope : Scope) (s s' : FoldState) : Prop where
  lifecycle : s.toLifecycle.Alike s'.toLifecycle
  automation : Automation.Alike scope.conflicts s.toAutomation s'.toAutomation
  timers : s'.timers = s.timers
  catalogRunIndex : s'.catalogRunIndex = s.catalogRunIndex
  partitionStatus : s'.partitionStatus = s.partitionStatus
  idempotencyKeys : ∀ key, scope.Settles key → s'.idempotencyKeys.contains key = s.idempotencyKeys.contains key
  tenantSecret : s'.tenantSecret = s.tenantSecret
  outbox : ∀ id, scope.dispatches id → s'.dispatchOutbox.find id = s.dispatchOutbox.find id

structure InStep (scope : Scope) (r r' : FoldState × Bool) : Prop where
  state : Alike scope r.1 r'.1
  applied : r'.2 = r.2

def Blank (s : FoldState) (id : String) : Prop := ∀ row, s.dispatchOutbox.find id = some row → row.attemptId = ""

def Agrees (scope : Scope) (s s' : FoldState) (e : OrchestrationEvent) : Prop :=
  match e.data with
  | .dispatchRequested p => scope.dispatches p.dispatchId ∨ (s.Blank p.dispatchId ∧ s'.Blank p.dispatchId)
  | .dispatchEnqueued p => scope.dispatches p.dispatchId
  | _ => True

variable {ext : Externals} {ev : Envelope} {scope : Scope} {s s' : FoldState}

theorem foldDispatchRequested_of_consumed {p : DispatchRequested}
    (consumed : s.dispatchAttemptConsumed p.runId p.taskKey p.attempt = true) :
    s.foldDispatchRequested ev p = (s.pruneDispatchOutboxRow p.runId p.taskKey p.attempt, false) := by
  rw [foldDispatchRequested, if_pos consumed]

/-- Without an attempt id in the outbox the task gets that of the request, and the event is applied. -/
theorem foldDispatchRequested_of_blank (ev : Envelope) {p : DispatchRequested}
    (notConsumed : ¬ s.dispatchAttemptConsumed p.runId p.taskKey p.attempt = true) (blank : s.Blank p.dispatchId) :
    ∃ row : DispatchOutboxRow, row.dispatchId = p.dispatchId ∧ s.foldDispatchRequested ev p = ({ s with
        toLifecycle := (s.toLifecycle.updateTask (p.runId, p.taskKey) (TaskRow.dispatch ev p.attempt p.attemptId)).1
        dispatchOutbox := s.dispatchOutbox.upsert row }, true) := by
  rw [foldDispatchRequested, if_neg notConsumed]
  cases found : s.dispatchOutbox.find p.dispatchId with
  | none => exact ⟨_, rfl, rfl⟩
  | some existing =>
    -- the row keeps its other fields
    have misses : missesAttemptId existing = true := decide_eq_true (blank existing found)
    have filled : (fillOutboxRow p existing).attemptId = p.attemptId := by rw [fillOutboxRow, misses, if_pos rfl]
    have key : existing.dispatchId = p.dispatchId := Table.key_of_find found
    refine ⟨fillOutboxRow p existing, key, ?_⟩
    dsimp only
    rw [filled, misses, Bool.or_true, Bool.true_or]

theorem InStep.refreshed {r r' : FoldState × Bool} (inStep : InStep scope r r') (runId : String) :
    InStep scope (refreshed ev runId r) (FoldState.refreshed ev runId r') := by
  obtain ⟨state, applied⟩ := inStep
  unfold FoldState.refreshed refreshCatalogRunIndexForRun
  rw [applied, state.lifecycle.runs, state.lifecycle.tasks, state.catalogRunIndex]
  split
  · refine ⟨?_, rfl⟩
    split
    · exact state
    · exact { state with catalogRunIndex := rfl }
  · exact ⟨state, applied⟩

namespace Alike

theorem refl (scope : Scope) (s : FoldState) : Alike scope s s where
  lifecycle := .refl _
  automation := .refl _ _
  timers := rfl
  catalogRunIndex := rfl
  partitionStatus := rfl
  idempotencyKeys _ _ := rfl
  tenantSecret := rfl
  outbox _ _ := rfl

theorem trans {s'' : FoldState} (first : Alike scope s s') (second : Alike scope s' s'') : Alike scope s s'' where
  lifecycle := first.lifecycle.trans second.lifecycle
  automation := first.automation.trans second.automation
  timers := second.timers.trans first.timers
  catalogRunIndex := second.catalogRunIndex.trans first.catalogRunIndex
  partitionStatus := second.partitionStatus.trans first.partitionStatus
  idempotencyKeys key settled := (second.idempotencyKeys key settled).trans (first.idempotencyKeys key settled)
  tenantSecret := second.tenantSecret.trans first.tenantSecret
  outbox id member := (second.outbox id member).trans (first.outbox id member)

section

variable (alike : Alike scope s s')
include alike

theorem withLifecycle {l l' : Lifecycle} (lifecycle : l.Alike l') :
    Alike scope { s with toLifecycle := l } { s' with toLifecycle := l' } :=
  { alike with lifecycle := lifecycle }

theorem withTimers (timers : Table TimerRow.timerId) :
    Alike scope { s with timers := timers } { s' with timers := timers } :=
  { alike with timers := rfl }

theorem onLifecycle {r r' : Lifecycle × Bool} (inStep : Lifecycle.InStep r r') :
    InStep scope (s.onLifecycle r) (s'.onLifecycle r') :=
  ⟨alike.withLifecycle inStep.state, inStep.applied⟩

theorem onAutomation {r r' : Automation × Bool} (inStep : Automation.InStep scope.conflicts r r') :
    InStep scope (s.onAutomation r) (s'.onAutomation r') :=
  ⟨{ alike with automation := inStep.state }, inStep.applied⟩

theorem pruneDispatchOutboxRow (runId taskKey : String) (attempt : Nat) :
    Alike scope (s.pruneDispatchOutboxRow runId taskKey attempt) (s'.pruneDispatchOutboxRow runId taskKey attempt) := by
  refine { alike with outbox := fun id member => ?_ }
  simp only [FoldState.pruneDispatchOutboxRow, Table.find_erase, alike.outbox id member]

theorem upsertOutbox (row : DispatchOutboxRow) (id : String) (member : scope.dispatches id) :
    (s'.dispatchOutbox.upsert row).find id = (s.dispatchOutbox.upsert row).find id := by
  rw [Table.find_upsert, Table.find_upsert, alike.outbox id member]

theorem consumed (runId taskKey : String) (attempt : Nat) :
    s'.dispatchAttemptConsumed runId taskKey attempt = s.dispatchAttemptConsumed runId taskKey attempt := by
  rw [dispatchAttemptConsumed, dispatchAttemptConsumed, alike.lifecycle.tasks]

theorem foldTaskStarted (p : AttemptRef) :
    InStep scope (s.foldTaskStarted ev p) (s'.foldTaskStarted ev p) := by
  have started := alike.lifecycle.updateTask (p.runId, p.taskKey) (TaskRow.start ev p)
  dsimp only [FoldState.foldTaskStarted]
  rw [started.applied]
  split
  · exact ⟨(alike.withLifecycle started.state).pruneDispatchOutboxRow _ _ _, rfl⟩
  · exact ⟨alike.withLifecycle started.state, rfl⟩

/-- A request writes the attempt id of the outbox row, if it has one, to its task. Of a row outside of the scope it
is enough to know that it has none. -/
theorem foldDispatchRequested (p : DispatchRequested)
    (agrees : scope.dispatches p.dispatchId ∨ (s.Blank p.dispatchId ∧ s'.Blank p.dispatchId)) :
    InStep scope (s.foldDispatchRequested ev p) (s'.foldDispatchRequested ev p) := by
  by_cases inside : scope.dispatches p.dispatchId
  · unfold FoldState.foldDispatchRequested
    rw [alike.consumed]
    split
    · exact ⟨alike.pruneDispatchOutboxRow _ _ _, rfl⟩
    · rw [alike.outbox p.dispatchId inside]
      split
      · rename_i existing _
        have task := alike.lifecycle.updateTask (p.runId, p.taskKey)
          (TaskRow.dispatch ev p.attempt (fillOutboxRow p existing).attemptId)
        refine ⟨{ alike with lifecycle := task.state, outbox := alike.upsertOutbox _ }, ?_⟩
        dsimp only
        rw [task.applied]
      · have task := alike.lifecycle.updateTask (p.runId, p.taskKey) (TaskRow.dispatch ev p.attempt p.attemptId)
        exact ⟨{ alike with lifecycle := task.state, outbox := alike.upsertOutbox _ }, rfl⟩
  · obtain ⟨blank, blank'⟩ := agrees.resolve_left inside
    by_cases consumed : s.dispatchAttemptConsumed p.runId p.taskKey p.attempt = true
    · rw [foldDispatchRequested_of_consumed consumed,
        foldDispatchRequested_of_consumed ((alike.consumed _ _ _).trans consumed)]
      exact ⟨alike.pruneDispatchOutboxRow _ _ _, rfl⟩
    · obtain ⟨_, key, folded⟩ := foldDispatchRequested_of_blank ev consumed blank
      obtain ⟨_, key', folded'⟩ :=
        foldDispatchRequested_of_blank ev (fun consumed' => consumed ((alike.consumed _ _ _).symm.trans consumed')) blank'
      have task := alike.lifecycle.updateTask (p.runId, p.taskKey) (TaskRow.dispatch ev p.attempt p.attemptId)
      rw [folded, folded']
      refine ⟨{ alike with lifecycle := task.state, outbox := fun id member => ?_ }, rfl⟩
      have other : p.dispatchId ≠ id := fun same => inside (same ▸ member)
      exact (Table.find_upsert_of_ne (key'.symm ▸ other)).trans
        ((alike.outbox id member).trans (Table.find_upsert_of_ne (key.symm ▸ other)).symm)

section

variable (p : DispatchEnqueued) (inside : scope.dispatches p.dispatchId)
include p inside

theorem acknowledge : InStep scope (s.acknowledge ev p) (s'.acknowledge ev p) := by
  unfold FoldState.acknowledge
  rw [alike.outbox p.dispatchId inside]
  split
  · split
    · exact ⟨alike, rfl⟩
    · exact ⟨{ alike with outbox := alike.upsertOutbox _ }, rfl⟩
  · split
    · exact ⟨{ alike with outbox := alike.upsertOutbox _ }, rfl⟩
    · exact ⟨alike, rfl⟩

theorem foldDispatchEnqueued : InStep scope (s.foldDispatchEnqueued ev p) (s'.foldDispatchEnqueued ev p) := by
  unfold FoldState.foldDispatchEnqueued
  split
  · rw [alike.consumed]
    split
    · exact ⟨alike.pruneDispatchOutboxRow _ _ _, rfl⟩
    · exact alike.acknowledge p inside
  · exact alike.acknowledge p inside

end

theorem setRetryNotBefore (ev : Envelope) (p : TimerRequested) :
    InStep scope (s.setRetryNotBefore ev p) (s'.setRetryNotBefore ev p) := by
  unfold FoldState.setRetryNotBefore
  split
  · split
    · rename_i runId taskKey attempt _ _ _
      exact alike.onLifecycle (alike.lifecycle.updateTask (runId, taskKey)
        (TaskRow.setRetryNotBefore ev attempt p.fireAt))
    · exact ⟨alike, rfl⟩
  · exact ⟨alike, rfl⟩

theorem foldTimerRequested (p : TimerRequested) :
    InStep scope (s.foldTimerRequested ev p) (s'.foldTimerRequested ev p) := by
  unfold FoldState.foldTimerRequested
  rw [alike.timers]
  split
  · rename_i existing _
    have retry := (alike.withTimers (s.timers.upsert (fillTimer p existing))).setRetryNotBefore ev p
    refine ⟨retry.state, ?_⟩
    dsimp only
    rw [retry.applied]
  · exact ⟨((alike.withTimers _).setRetryNotBefore ev p).state, rfl⟩

theorem upsertTimer (timerId : String) (change : TimerRow → TimerRow) (created : Option TimerRow) :
    InStep scope (s.upsertTimer ev timerId change created) (s'.upsertTimer ev timerId change created) := by
  unfold FoldState.upsertTimer
  rw [alike.timers]
  split
  · split
    · exact ⟨alike, rfl⟩
    · exact ⟨alike.withTimers _, rfl⟩
  · split
    · exact ⟨alike.withTimers _, rfl⟩
    · exact ⟨alike, rfl⟩

theorem foldTaskFinished (wired : s.Wired) (p : TaskFinished) :
    InStep scope (s.foldTaskFinished ext ev p) (s'.foldTaskFinished ext ev p) := by
  have finished : Lifecycle.InStep (s.toLifecycle.foldTaskFinished ext ev p) (s'.toLifecycle.foldTaskFinished ext ev p) :=
    alike.lifecycle.foldTaskFinished wired p
  dsimp only [FoldState.foldTaskFinished]
  rw [finished.applied]
  split
  · refine ⟨{ alike.withLifecycle finished.state with partitionStatus := ?_ }, rfl⟩
    exact congrArg (recordPartition ext ev p) alike.partitionStatus
  · exact ⟨alike.withLifecycle finished.state, rfl⟩

theorem foldTaskCompletionRecorded (wired : s.Wired) (p : TaskCompletionRecorded) :
    InStep scope (s.foldTaskCompletionRecorded ext ev p) (s'.foldTaskCompletionRecorded ext ev p) := by
  have finished : InStep scope (s.foldTaskFinished ext ev p.toTaskFinished)
      (s'.foldTaskFinished ext ev p.toTaskFinished) := alike.foldTaskFinished wired p.toTaskFinished
  unfold FoldState.foldTaskCompletionRecorded
  split
  · dsimp only
    rw [finished.applied]
    split
    · exact ⟨(finished.state.onLifecycle (finished.state.lifecycle.updateTask _ _)).state, rfl⟩
    · exact finished
  · exact finished

theorem recordIdempotencyKey (ev : Envelope) :
    Alike scope (s.recordIdempotencyKey ev) (s'.recordIdempotencyKey ev) := by
  obtain ⟨keys, same⟩ := recordIdempotencyKey_eq s ev
  obtain ⟨keys', same'⟩ := recordIdempotencyKey_eq s' ev
  have agree : ∀ key, scope.Settles key → keys'.contains key = keys.contains key := by
    intro key settled
    have contains := contains_recordIdempotencyKey s ev key
    have contains' := contains_recordIdempotencyKey s' ev key
    rw [same] at contains
    rw [same', alike.idempotencyKeys key settled] at contains'
    exact contains'.trans contains.symm
  rw [same, same']
  exact { alike with idempotencyKeys := agree }

theorem apply (wired : s.Wired) {e : OrchestrationEvent} (agrees : Agrees scope s s' e) :
    InStep scope (s.apply ext e.toEnvelope e.data) (s'.apply ext e.toEnvelope e.data) := by
  obtain ⟨_, data⟩ := e
  cases data with
  | runTriggered p => exact (alike.onLifecycle (alike.lifecycle.foldRunTriggered p)).refreshed _
  | planCreated p => exact (alike.onLifecycle (alike.lifecycle.foldPlanCreated p)).refreshed _
  | runCancelRequested p => exact (alike.onLifecycle (alike.lifecycle.foldRunCancelRequested p)).refreshed _
  | taskStarted p => exact (alike.foldTaskStarted p).refreshed _
  | taskHeartbeat p | taskOutputVisibilityChanged p =>
    exact (alike.onLifecycle (alike.lifecycle.updateTask _ _)).refreshed _
  | taskFinished p => exact (alike.foldTaskFinished wired p).refreshed _
  | taskCompletionRecorded p => exact (alike.foldTaskCompletionRecorded wired p).refreshed _
  | dispatchRequested p => exact (alike.foldDispatchRequested p agrees).refreshed _
  | dispatchEnqueued p => exact alike.foldDispatchEnqueued p agrees
  | timerRequested p => exact alike.foldTimerRequested p
  | timerEnqueued p | timerFired p => exact alike.upsertTimer _ _ _
  | scheduleDefinitionUpserted p => exact alike.onAutomation (alike.automation.foldScheduleDefinitionUpserted p)
  | scheduleTicked p =>
    rw [FoldState.apply, FoldState.apply, alike.tenantSecret]
    exact alike.onAutomation (alike.automation.foldScheduleTicked p)
  | sensorEvaluated p => exact alike.onAutomation (alike.automation.foldSensorEvaluated p)
  | runRequested p =>
    rw [FoldState.apply, FoldState.apply, alike.tenantSecret]
    exact alike.onAutomation (alike.automation.foldRunRequested p)
  | backfillCreated p => exact alike.onAutomation (alike.automation.foldBackfillCreated p)
  | backfillChunkPlanned p => exact alike.onAutomation (alike.automation.foldBackfillChunkPlanned p)
  | backfillStateChanged p => exact alike.onAutomation (alike.automation.foldBackfillStateChanged p)
  | unknown => exact ⟨alike, rfl⟩

theorem foldEvent (wired : s.Wired) {e : OrchestrationEvent}
    (settled : scope.Settles e.idempotencyKey) (agrees : Agrees scope s s' e) :
    Alike scope (s.foldEvent ext e) (s'.foldEvent ext e) := by
  unfold FoldState.foldEvent
  rw [alike.idempotencyKeys _ settled]
  split
  · exact alike
  · obtain ⟨state, applied⟩ : InStep scope (s.apply ext e.toEnvelope e.data) (s'.apply ext e.toEnvelope e.data) :=
      alike.apply wired agrees
    dsimp only
    rw [applied]
    split
    · exact state.recordIdempotencyKey _
    · exact state

end

end Alike

end FoldState

end Arco.Flow
