import Arco.Flow.Schedules

/-! What compaction keeps of the fold in memory.

Two results about whole schedules. A pruned outbox row stays absent as long as no delta has
to remove a row that an earlier batch wrote. Outside of the outbox and of the idempotency
keys the loaded state does not depend on the schedule.
-/

namespace Arco.Flow

open Keyed

namespace Store

open FoldState List

variable {ext : Externals}

/-- A batch that is persisted as a delta prunes no outbox row that was held when it began. -/
def KeepsHeldRows (ext : Externals) (s : FoldState) (batch : Batch) : Prop :=
  batch.persist = .delta →
    Throughout ext (fun state e => ∀ id, state.Prunes e id → s.dispatchOutbox.find id = none) s batch.events

variable {s s' : FoldState} {events : List OrchestrationEvent}

theorem alike_foldEvents_all (alike : Alike ⟨fun _ => True, False⟩ s s') (wired : s.Wired)
    (events : List OrchestrationEvent) : Alike ⟨fun _ => True, False⟩ (foldEvents ext s events) (foldEvents ext s' events) := by
  induction events generalizing s s' with
  | nil => exact alike
  | cons e rest ih =>
    refine ih (alike.foldEvent wired (fun _ _ => trivial) ?_) ((foldEvent_steps ext s e).wired wired)
    unfold Agrees
    split
    · exact .inl trivial
    · trivial
    · trivial

theorem discipline_heldRows : Discipline ext ⟨fun _ => True, False⟩ (fun _ => True) (KeepsHeldRows ext) where
  alike _ _ batch _ wired _ _ alike := alike_foldEvents_all alike wired batch.events
  held s s' batch keeps alike after isDelta id _ gone := by
    by_contra held
    rw [alike.outbox id trivial] at held
    have notPruned : Throughout ext (fun state e => ¬ state.Prunes e id) s batch.events :=
      (keeps isDelta).imp fun state e prunes pruned => held (prunes id pruned)
    refine held_foldEvents held notPruned ?_
    rwa [← after.outbox id trivial]
  folded _ _ _ _ _ := trivial
  restored _ _ _ _ _ := trivial
  tables _ _ _ _ := trivial

/-- Every row that the fold in memory does not hold is absent from the loaded state. -/
theorem pruning_durable (ext : Externals) (secret : List UInt8) (batches : List Batch)
    (ordered : (eventsOf batches).Pairwise fun a b => a.eventId < b.eventId)
    (retains : Retains ext secret {} batches)
    (keeps : EachBatch ext (KeepsHeldRows ext) { tenantSecret := secret } batches) (id : String)
    (absent : (foldEvents ext { tenantSecret := secret } (eventsOf batches)).dispatchOutbox.find id = none) :
    (({} : Store).compactAll ext secret batches).loadCurrentState.dispatchOutbox.find id = none := by
  have tracks := Tracks.compactAll discipline_heldRows
    (tracks_empty secret _ ((eventsOf batches).filterMap (·.runRequest)) _ trivial) keeps ordered retains False.elim
    fun e member request isRequest => mem_filterMap.mpr ⟨e, member, isRequest⟩
  exact (tracks.alike.outbox id trivial).trans absent

def dispatched : List OrchestrationEvent :=
  [.sample "01" (.planCreated .sample),
   .sample "02" (.dispatchRequested firstDispatch)]

def started : OrchestrationEvent := .sample "03" (.taskStarted firstAttempt)

/-- The row is written by a delta and pruned by a batch that collapses the deltas. -/
theorem pruning_durable_collapsed :
    (({} : Store).compactAll .constant [] [{ events := dispatched }, { persist := .collapse, events := [started] }]
      ).loadCurrentState.dispatchOutbox.find (dispatchIdOf "run" "extract" 1) = none := by
  refine pruning_durable .constant [] [{ events := dispatched }, { persist := .collapse, events := [started] }]
    (by decide) (by decide) ⟨fun _ => ?_, ⟨fun isDelta => (by cases isDelta), trivial⟩⟩ _ (by decide)
  exact ⟨fun _ _ => rfl, fun _ _ => rfl, trivial⟩

/-- The row is written by one delta, and the next delta cannot say that it is gone. -/
theorem pruned_row_returns : ¬ ∀ batches : List Batch, (∀ batch ∈ batches, batch.persist = .delta) →
      (eventsOf batches).Pairwise (fun a b => a.eventId < b.eventId) →
        ∀ id, (foldEvents .constant {} (eventsOf batches)).dispatchOutbox.find id = none →
          (({} : Store).compactAll .constant [] batches).loadCurrentState.dispatchOutbox.find id = none := by
  intro durable
  have gone := durable [{ events := dispatched }, { events := [started] }] (by decide) (by decide)
    (dispatchIdOf "run" "extract" 1) (by decide)
  revert gone
  decide

theorem requestedRows_restored (restorable : Restorable False s s') (before : s.RequestedRows)
    (after : s'.RequestedRows) : (s.restored s').RequestedRows := by
  intro id absent row found
  have keys : s.idempotencyKeys.merge mergeIdempotencyKeyRows (s.idempotencyKeys.changed s'.idempotencyKeys) =
      s'.idempotencyKeys := merge_idempotencyKeys restorable.advances
  have absentAfter : s'.idempotencyKeys.contains (requestKey id) = false :=
    (congrArg (Table.contains · (requestKey id)) keys).symm.trans absent
  have absentBefore : s.idempotencyKeys.contains (requestKey id) = false := by
    rw [Bool.eq_false_iff, Ne, Table.contains_iff] at absentAfter ⊢
    exact fun member => absentAfter (restorable.advances.idempotencyKeys.keys.subset member)
  have loaded : (s.restored s').dispatchOutbox.find id = _ := find_outbox_reloaded restorable.outbox id
  rw [loaded, Option.or_eq_some_iff] at found
  rcases found with here | ⟨_, old⟩
  · exact after id absentAfter row here
  · exact before id absentBefore row old

theorem alike_foldEvents_tables {tracked : Prop} (alike : Alike (tablesScope tracked) s s') (wired : s.Wired)
    (rows : s.RequestedRows) (rows' : s'.RequestedRows) (keyed : ∀ e ∈ events, e.KeyedByDispatch) :
    Alike (tablesScope tracked) (foldEvents ext s events) (foldEvents ext s' events) := by
  induction events generalizing s s' with
  | nil => exact alike
  | cons e rest ih =>
    have first := keyed e (by simp)
    exact ih (alike.foldEvent_tables wired rows rows' first) ((foldEvent_steps ext s e).wired wired)
      (rows.foldEvent first) (rows'.foldEvent first) fun later member => keyed later (by simp [member])

theorem discipline_tables (ext : Externals) (tracked : Prop) :
    Discipline ext (tablesScope tracked) RequestedRows fun _ batch => ∀ e ∈ batch.events, e.KeyedByDispatch where
  alike _ _ _ keyed wired rows rows' alike := alike_foldEvents_tables alike wired rows rows' keyed
  held _ _ _ _ _ _ _ _ outside := outside.elim
  folded _ s' batch keyed rows :=
    foldEvents_induction RequestedRows (fun _ _ rows keyed => rows.foldEvent keyed) rows
      (Throughout.of_forall (fun e member _ => keyed e member) s')
  restored _ _ restorable before after := requestedRows_restored restorable before after
  tables s m same rows := by
    have here : m.tables.RequestedRows := by
      rwa [same]
    exact here

theorem eachBatch_of_forall {property : OrchestrationEvent → Prop} {batches : List Batch}
    (all : ∀ e ∈ eventsOf batches, property e) (s : FoldState) :
    EachBatch ext (fun _ batch => ∀ e ∈ batch.events, property e) s batches := by
  induction batches generalizing s with
  | nil => trivial
  | cons batch rest ih =>
    exact ⟨fun e member => all e (mem_append_left _ member),
      ih (fun e member => all e (mem_append_right _ member)) _⟩

/-- The two states agree on the projection, but for the outbox, the idempotency keys, the conflicts and the lists of
dependencies. -/
structure SameProjection (memory loaded : FoldState) : Prop where
  runs : loaded.runs = memory.runs
  tasks : loaded.tasks = memory.tasks
  depSatisfaction : loaded.depSatisfaction = memory.depSatisfaction
  catalogRunIndex : loaded.catalogRunIndex = memory.catalogRunIndex
  timers : loaded.timers = memory.timers
  partitionStatus : loaded.partitionStatus = memory.partitionStatus
  scheduleDefinitions : loaded.scheduleDefinitions = memory.scheduleDefinitions
  scheduleState : loaded.scheduleState = memory.scheduleState
  scheduleTicks : loaded.scheduleTicks = memory.scheduleTicks
  sensorState : loaded.sensorState = memory.sensorState
  sensorEvals : loaded.sensorEvals = memory.sensorEvals
  backfills : loaded.backfills = memory.backfills
  backfillChunks : loaded.backfillChunks = memory.backfillChunks
  runKeyIndex : loaded.runKeyIndex = memory.runKeyIndex
  taskDependents : SameLists memory.taskDependents loaded.taskDependents

theorem rebuilt_of_same {m : FoldState} (tasks : m.tasks = s.tasks) (edges : m.depSatisfaction = s.depSatisfaction) :
    m.rebuildDependencyGraph.taskDependencies = s.rebuildDependencyGraph.taskDependencies ∧
      m.rebuildDependencyGraph.taskDependents = s.rebuildDependencyGraph.taskDependents := by
  rw [rebuildDependencyGraph, tasks, edges]
  exact ⟨rfl, rfl⟩

theorem keyedByDispatch_of_computed (ext : Externals)
    (computed : events.all (fun e => e.idempotencyKey = e.data.idempotencyKey ext) = true) :
    ∀ e ∈ events, e.KeyedByDispatch := fun e member =>
  OrchestrationEvent.keyedByDispatch (of_decide_eq_true (all_eq_true.mp computed e member))

/-- Every dispatch id is that of an attempt, the one that its event names if it names one. -/
def FormsDispatchIds (e : OrchestrationEvent) : Prop :=
  match e.data with
  | .dispatchRequested p => p.dispatchId = dispatchIdOf p.runId p.taskKey p.attempt
  | .dispatchEnqueued p => ∃ runId taskKey attempt, p.dispatchId = dispatchIdOf runId taskKey attempt ∧
      ∀ named ∈ enqueuedAttempt p, named = (runId, taskKey, attempt)
  | _ => True

/-- An acknowledgement that names no attempt, and a run with the idempotency key of the acknowledgement. -/
def sharedKey : List OrchestrationEvent :=
  [{ OrchestrationEvent.sample "04" (.dispatchEnqueued
      { dispatchId := dispatchIdOf "run" "extract" 1, cloudTaskId := "cloud" }) with idempotencyKey := "key" },
   { OrchestrationEvent.sample "05" (.runTriggered { runId := "next", planId := "plan" }) with idempotencyKey := "key" }]

def sharedKeySchedule : List Batch := [{ events := dispatched }, { events := [started] }, { events := sharedKey }]

/-- A hash that tells texts apart. -/
def plainHash : Externals := { Externals.constant with sha256Hex := id }

def request (eventId runKey fingerprint : String) : OrchestrationEvent :=
  .newWithTimestamp plainHash eventId "tenant" "workspace" (.runRequested
    { runKey := runKey, requestFingerprint := fingerprint, triggerSourceRef := .manual "user" "request" }) 0

/-- Two conflicts with the id `conflict:k:1:2`. -/
def sharedConflictSchedule : List Batch :=
  [{ events := [request "01" "k" "a", request "02" "k:1" "b"] },
   { events := [request "1:2" "k" "c"] },
   { events := [request "2" "k:1" "d"] }]

/-- A plan that lists one task twice, with different dependencies. -/
def repeatedTaskSchedule : List Batch :=
  [{ events := [.sample "01" (.planCreated
      { runId := "run", tasks := [{ key := "load", dependsOn := ["extract"] }, { key := "load", dependsOn := [] }] })] }]

end Store

end Arco.Flow
