import Arco.Flow.Downstream
import Arco.Flow.Fold

/-! The steps that an event makes on runs, tasks and edges.

`Lifecycle.Step` lists what an applied event can do to the lifecycle tables, with the
guards under which it does it; `foldEvent_steps` says that an event does nothing else.
Invariants of the lifecycle tables are proved by cases on a step.
-/

namespace Arco.Flow

open Keyed List Table TaskRow

/-! ## Plans in closed form -/

def PlanCreated.edges (p : PlanCreated) (ev : Envelope) : List DepSatisfactionRow :=
  p.tasks.flatMap fun d => d.dependsOn.map (d.edge ev p.runId)

def OrchestrationEventData.plan : OrchestrationEventData → Option PlanCreated
  | .planCreated p => some p
  | _ => none

/-- The plan that the event carries, if any, lists each task key once. -/
def OrchestrationEvent.DistinctPlan (e : OrchestrationEvent) : Prop :=
  ∀ p ∈ e.data.plan, (p.tasks.map (·.key)).Nodup

instance (e : OrchestrationEvent) : Decidable e.DistinctPlan :=
  inferInstanceAs (Decidable (∀ p ∈ e.data.plan, (p.tasks.map (·.key)).Nodup))

theorem OrchestrationEvent.DistinctPlan.nodup {e : OrchestrationEvent} (distinct : e.DistinctPlan) {p : PlanCreated}
    (isEvent : e.data = .planCreated p) : (p.tasks.map (·.key)).Nodup :=
  distinct p (by rw [isEvent]; rfl)

namespace Lifecycle

variable {l : Lifecycle} {ev : Envelope} {runId : String}

def planned (l : Lifecycle) (ev : Envelope) (p : PlanCreated) : Lifecycle where
  runs := l.runs.modify p.runId (RunRow.plan ev p.tasks.length)
  tasks := l.tasks.upsertAll (p.tasks.map (TaskDef.row ev p.runId))
  depSatisfaction := l.depSatisfaction.upsertAll (p.edges ev)
  taskDependencies := p.tasks.foldl (fun m d => m.insert (p.runId, d.key) d.dependsOn) l.taskDependencies
  taskDependents := p.tasks.foldl (fun m d => d.dependsOn.foldl (addDependent p.runId d.key) m) l.taskDependents

theorem foldl_addToGraph (defs : List TaskDef) : defs.foldl (addToGraph runId) l = { l with
        taskDependencies := defs.foldl (fun m d => m.insert (runId, d.key) d.dependsOn) l.taskDependencies
        taskDependents := defs.foldl (fun m d => d.dependsOn.foldl (addDependent runId d.key) m) l.taskDependents } := by
  induction defs generalizing l with
  | nil => rfl
  | cons d rest ih => rw [foldl_cons, ih]; rfl

theorem foldl_addTask (defs : List TaskDef) : defs.foldl (addTask ev runId) l = { l with
        tasks := l.tasks.upsertAll (defs.map (TaskDef.row ev runId))
        depSatisfaction := l.depSatisfaction.upsertAll
          (defs.flatMap fun d => d.dependsOn.map (d.edge ev runId)) } := by
  induction defs generalizing l with
  | nil => rfl
  | cons d rest ih =>
    rw [foldl_cons, ih, flatMap_cons, upsertAll_append]
    rfl

theorem foldPlanCreated_eq (p : PlanCreated) :
    (l.foldPlanCreated ev p).1 = if l.hasTasks p.runId then l else l.planned ev p := by
  unfold foldPlanCreated
  split
  · rfl
  · dsimp only
    rw [foldl_addToGraph, foldl_addTask]
    rfl

/-! ## Cancellations in closed form -/

def cancelIn (ev : Envelope) (runId : String) (t : TaskRow) : TaskRow :=
  if cancellable runId t then t.close ev .cancelled else t

@[simp] theorem key_cancelIn (t : TaskRow) : (cancelIn ev runId t).key = t.key := by
  unfold cancelIn
  split <;> rfl

def cancelledRun (ev : Envelope) (n : Nat) (run : RunRow) : RunRow :=
  RunRow.closeCancelled ev { run with
    cancelRequested := true
    tasksCancelled := run.tasksCancelled + n
    tasksCompleted := run.tasksCompleted + n
    rowVersion := ev.eventId }

theorem runId_closeCancelled (run : RunRow) : (run.closeCancelled ev).runId = run.runId := by
  unfold RunRow.closeCancelled
  split <;> rfl

@[simp] theorem runId_cancelledRun (n : Nat) (run : RunRow) : (cancelledRun ev n run).runId = run.runId :=
  runId_closeCancelled _

def cancelRequested (l : Lifecycle) (ev : Envelope) (runId : String) : Lifecycle :=
  { l with
    runs := l.runs.modify runId (cancelledRun ev (l.tasks.rows.countP (cancellable runId)))
    tasks := l.tasks.mapRows (cancelIn ev runId) }

theorem runId_countCancelled_iterate (n : Nat) (run : RunRow) :
    ((RunRow.countCancelled ev)^[n] run).runId = run.runId := by
  induction n generalizing run with
  | zero => rfl
  | succ n ih => rw [Function.iterate_succ_apply, ih]; rfl

theorem countCancelled_iterate (n : Nat) (run : RunRow) :
    (RunRow.countCancelled ev)^[n] (run.requestCancel ev) = { run.requestCancel ev with
        tasksCancelled := run.tasksCancelled + n, tasksCompleted := run.tasksCompleted + n } := by
  induction n with
  | zero => rfl
  | succ n ih => rw [Function.iterate_succ_apply', ih]; rfl

theorem foldl_cancelTask (ks : List (String × String)) : ks.foldl (cancelTask ev runId) l =
      { l with
        runs := l.runs.modify runId (RunRow.countCancelled ev)^[ks.length]
        tasks := ks.foldl (fun t k => t.modify k (close ev .cancelled)) l.tasks } := by
  induction ks generalizing l with
  | nil => exact congrArg (fun runs => { l with runs := runs }) (modify_id l.runs runId).symm
  | cons k rest ih =>
    have keeps : ∀ run : RunRow, (run.countCancelled ev).runId = run.runId := fun _ => rfl
    have runs : l.runs.modify runId (RunRow.countCancelled ev)^[(k :: rest).length] =
        (l.runs.modify runId (RunRow.countCancelled ev)).modify runId (RunRow.countCancelled ev)^[rest.length] := by
      rw [modify_modify keeps (runId_countCancelled_iterate rest.length), ← Function.iterate_succ,
        length_cons]
    rw [foldl_cons, ih, runs]
    rfl

theorem foldRunCancelRequested_eq (p : RunCancelRequested) : (l.foldRunCancelRequested ev p).1 =
      if l.runIsTerminal p.runId then l else l.cancelRequested ev p.runId := by
  unfold foldRunCancelRequested
  split
  · rfl
  · dsimp only
    rw [foldl_cancelTask]
    have tasks : ((l.tasks.rows.filter (cancellable p.runId)).map key).foldl
        (fun t k => t.modify k (close ev .cancelled)) l.tasks = l.tasks.mapRows (cancelIn ev p.runId) := by
      rw [foldl_modify (key_close ev .cancelled) (fun _ => rfl)]
      refine mapRows_congr fun t member => ?_
      have listed : t.key ∈ (l.tasks.rows.filter (cancellable p.runId)).map key ↔
          cancellable p.runId t = true := by
        constructor
        · intro inList
          obtain ⟨_, inRows, same⟩ := mem_map.mp inList
          obtain ⟨inTable, holds⟩ := mem_filter.mp inRows
          rwa [← inj_on_of_nodup_map l.tasks.distinct inTable member same]
        · intro holds
          exact mem_map_of_mem (mem_filter.mpr ⟨member, holds⟩)
      simp only [cancelIn, listed]
    -- the three writes of the run row are one
    have keeps : ∀ run : RunRow, (run.requestCancel ev).runId = run.runId := fun _ => rfl
    have runs : ∀ n, ((l.runs.modify p.runId (RunRow.requestCancel ev)).modify p.runId
          (RunRow.countCancelled ev)^[n]).modify p.runId (RunRow.closeCancelled ev) =
        l.runs.modify p.runId (cancelledRun ev n) := by
      intro n
      have keepsBoth : ∀ run : RunRow,
          (((RunRow.countCancelled ev)^[n] ∘ RunRow.requestCancel ev) run).runId = run.runId :=
        fun run => runId_countCancelled_iterate n (run.requestCancel ev)
      rw [modify_modify keeps (runId_countCancelled_iterate n), modify_modify keepsBoth runId_closeCancelled]
      congr 1
      funext run
      simp only [Function.comp_apply, countCancelled_iterate]
      rfl
    rw [length_map, ← countP_eq_length_filter]
    unfold modifyRun cancelRequested
    rw [tasks, runs]

end Lifecycle

/-! ## Updates of one task row -/

/-- The events that rewrite one task row and touch nothing else in the lifecycle tables. -/
inductive TaskRow.Updates (e : OrchestrationEvent) (t t' : TaskRow) : Prop where
  | started (p : AttemptRef) (isEvent : e.data = .taskStarted p) (key : t.key = (p.runId, p.taskKey))
      (new : t.start e.toEnvelope p = some t')
  | heartbeat (p : TaskHeartbeat) (new : t.heartbeat e.toEnvelope p = some t')
  | visibility (p : AttemptRef) (u : OutputVisibilityUpdate)
      (new : t.changeOutputVisibility e.toEnvelope p u = some t')
  | dispatched (p : DispatchRequested) (attemptId : String) (isEvent : e.data = .dispatchRequested p)
      (key : t.key = (p.runId, p.taskKey)) (open_ : ¬ t.Consumed p.attempt)
      (new : t.dispatch e.toEnvelope p.attempt attemptId = some t')
  | retryTimer (attempt : Nat) (fireAt : Timestamp) (new : t.setRetryNotBefore e.toEnvelope attempt fireAt = some t')

namespace TaskRow

variable {e : OrchestrationEvent} {t t' : TaskRow}

inductive Moves (e : OrchestrationEvent) (t t' : TaskRow) : Prop where
  | stays (state : t'.state = t.state) (attempt : t'.attempt = t.attempt) (attemptId : t'.attemptId = t.attemptId)
  | starts (p : AttemptRef) (isEvent : e.data = .taskStarted p) (new : t.start e.toEnvelope p = some t')
      (active : t.state.isTerminal = false) (state : t'.state = .running)
  | dispatches (p : DispatchRequested) (attemptId : String) (open_ : ¬ t.Consumed p.attempt)
      (new : t.dispatch e.toEnvelope p.attempt attemptId = some t')
      (waiting : t.state = .ready ∨ t.state = .retryWait ∨ t.state = .dispatched) (state : t'.state = .dispatched)

structure Rewritten (e : OrchestrationEvent) (t t' : TaskRow) : Prop where
  key : t'.key = t.key
  total : t'.depsTotal = t.depsTotal
  count : t'.depsSatisfiedCount = t.depsSatisfiedCount
  asset : t'.assetKey = t.assetKey
  moves : Moves e t t'

theorem Updates.rewritten (updates : t.Updates e t') : Rewritten e t t' := by
  cases updates with
  | started p isEvent _ new =>
    have isStart := new
    unfold start at new
    split at new <;> cases new
    rename_i accepts
    exact ⟨rfl, rfl, rfl, rfl, .starts p isEvent isStart accepts.1 rfl⟩
  | heartbeat p new =>
    unfold TaskRow.heartbeat at new
    split at new <;> cases new
    exact ⟨rfl, rfl, rfl, rfl, .stays rfl rfl rfl⟩
  | visibility p u new =>
    unfold changeOutputVisibility at new
    split at new
    · cases new
    · split at new <;> cases new
      split <;> exact ⟨rfl, rfl, rfl, rfl, .stays rfl rfl rfl⟩
  | dispatched p attemptId _ _ open_ new =>
    have isDispatch := new
    unfold dispatch at new
    split at new <;> cases new
    rename_i accepts
    exact ⟨rfl, rfl, rfl, rfl, .dispatches p attemptId open_ isDispatch accepts.1 rfl⟩
  | retryTimer attempt fireAt new =>
    unfold setRetryNotBefore at new
    split at new <;> cases new
    exact ⟨rfl, rfl, rfl, rfl, .stays rfl rfl rfl⟩

theorem active_of_waiting (waiting : t.state = .ready ∨ t.state = .retryWait ∨ t.state = .dispatched) :
    t.state.isTerminal = false := by
  rcases waiting with state | state | state <;> rw [state] <;> rfl

end TaskRow

def OrchestrationEventData.completion : OrchestrationEventData → Option TaskFinished
  | .taskFinished p => some p
  | .taskCompletionRecorded q => some q.toTaskFinished
  | _ => none

/-- The events that rewrite at most the one task row that they name. -/
structure OrchestrationEventData.Local (data : OrchestrationEventData) : Prop where
  noCompletion : data.completion = none
  noTrigger : ∀ p, data ≠ .runTriggered p
  noPlan : ∀ p, data ≠ .planCreated p
  noCancel : ∀ p, data ≠ .runCancelRequested p

theorem OrchestrationEventData.kinds (data : OrchestrationEventData) :
    (∃ p, data.completion = some p) ∨ (∃ p, data = .runTriggered p) ∨ (∃ p, data = .planCreated p) ∨
      (∃ p, data = .runCancelRequested p) ∨ data.Local := by
  cases data with
  | taskFinished p => exact .inl ⟨p, rfl⟩
  | taskCompletionRecorded p => exact .inl ⟨_, rfl⟩
  | runTriggered p => exact .inr (.inl ⟨p, rfl⟩)
  | planCreated p => exact .inr (.inr (.inl ⟨p, rfl⟩))
  | runCancelRequested p => exact .inr (.inr (.inr (.inl ⟨p, rfl⟩)))
  | _ => exact .inr (.inr (.inr (.inr ⟨rfl, nofun, nofun, nofun⟩)))

def OrchestrationEvent.Finishes (e : OrchestrationEvent) (p : TaskFinished) : Prop :=
  e.data = .taskFinished p ∨ ∃ q, e.data = .taskCompletionRecorded q ∧ q.toTaskFinished = p

/-- A start or a dispatch may take a task out of its wait for a retry. -/
def OrchestrationEventData.leavesRetryWait : OrchestrationEventData → Bool
  | .taskStarted _ | .dispatchRequested _ => true
  | _ => false

namespace TaskRow

variable {e : OrchestrationEvent} {t t' : TaskRow}

/-- The new row of a task that the event writes. Its rank is smaller only if the task leaves its wait
for a retry. -/
structure Stamped (e : OrchestrationEvent) (t t' : TaskRow) : Prop where
  version : t'.rowVersion = e.eventId
  rank : if t.state = .retryWait ∧ e.data.leavesRetryWait = true then t'.state.rank < t.state.rank
    else t.state.rank ≤ t'.state.rank

structure Carried (t t' : TaskRow) : Prop where
  version : t'.rowVersion = t.rowVersion
  rank : t.state.rank ≤ t'.state.rank

theorem Carried.refl (t : TaskRow) : t.Carried t := ⟨rfl, Nat.le_refl _⟩

theorem Stamped.of_le (version : t'.rowVersion = e.eventId) (stays : e.data.leavesRetryWait = false)
    (rank : t.state.rank ≤ t'.state.rank) : Stamped e t t' :=
  ⟨version, by simpa [stays] using rank⟩

variable {p : AttemptRef} {u : OutputVisibilityUpdate}

theorem stamped_start (isEvent : e.data = .taskStarted p) (new : t.start e.toEnvelope p = some t') :
    Stamped e t t' := by
  have leaves : e.data.leavesRetryWait = true := by rw [isEvent]; rfl
  unfold start at new
  split at new
  · rename_i accepts
    cases new
    have active := accepts.1
    refine ⟨rfl, ?_⟩
    generalize t.state = state at active
    cases state <;> simp_all [TaskState.rank, TaskState.isTerminal]
  · cases new

theorem stamped_dispatch {p : DispatchRequested} {attemptId : String} (isEvent : e.data = .dispatchRequested p)
    (new : t.dispatch e.toEnvelope p.attempt attemptId = some t') : Stamped e t t' := by
  have leaves : e.data.leavesRetryWait = true := by rw [isEvent]; rfl
  unfold dispatch at new
  split at new
  · rename_i accepts
    cases new
    refine ⟨rfl, ?_⟩
    simp only [leaves]
    rcases accepts.1 with state | state | state <;> rw [state] <;> decide
  · cases new

theorem stamped_heartbeat {p : TaskHeartbeat} (stays : e.data.leavesRetryWait = false)
    (new : t.heartbeat e.toEnvelope p = some t') : Stamped e t t' := by
  unfold heartbeat at new
  split at new <;> cases new
  exact .of_le rfl stays (Nat.le_refl _)

theorem changeOutputVisibility_fields {ev : Envelope} (new : t.changeOutputVisibility ev p u = some t') :
    t'.rowVersion = ev.eventId ∧ t'.state = t.state := by
  unfold changeOutputVisibility at new
  split at new
  · cases new
  · split at new
    · cases new
    · cases new
      split <;> exact ⟨rfl, rfl⟩

theorem stamped_changeOutputVisibility (stays : e.data.leavesRetryWait = false)
    (new : t.changeOutputVisibility e.toEnvelope p u = some t') :
    Stamped e t t' := by
  obtain ⟨version, state⟩ := changeOutputVisibility_fields new
  exact .of_le version stays (by rw [state])

theorem stamped_setRetryNotBefore {attempt : Nat} {fireAt : Timestamp} (stays : e.data.leavesRetryWait = false)
    (new : t.setRetryNotBefore e.toEnvelope attempt fireAt = some t') : Stamped e t t' := by
  unfold setRetryNotBefore at new
  split at new <;> cases new
  exact .of_le rfl stays (Nat.le_refl _)

end TaskRow

namespace Lifecycle

inductive Step (ext : Externals) (e : OrchestrationEvent) (l : Lifecycle) : Lifecycle → Prop where
  | triggered (p : RunTriggered) (isEvent : e.data = .runTriggered p) (new : l.runs.find p.runId = none) :
      Step ext e l { l with runs := l.runs.upsert (triggeredRow e.toEnvelope p (l.recount p.runId)) }
  | planned (p : PlanCreated) (isEvent : e.data = .planCreated p) (fresh : l.hasTasks p.runId = false) :
      Step ext e l (l.planned e.toEnvelope p)
  | cancelled (p : RunCancelRequested) (isEvent : e.data = .runCancelRequested p)
      (active : l.runIsTerminal p.runId = false) : Step ext e l (l.cancelRequested e.toEnvelope p.runId)
  | updated (t t' : TaskRow) (found : l.tasks.find t.key = some t) (update : t.Updates e t') :
      Step ext e l { l with tasks := l.tasks.upsert t' }
  | finished (p : TaskFinished) (t : TaskRow) (isEvent : e.Finishes p)
      (found : l.tasks.find (p.runId, p.taskKey) = some t) (current : t.IsCurrentAttempt p.toAttemptRef)
      (active : t.state.isTerminal = false) : Step ext e l (l.finishTask ext e.toEnvelope p t)

/-- What one event does to the lifecycle tables: nothing, or one step, or the completion of an
attempt followed by the visibility of its output. -/
inductive Effect (ext : Externals) (e : OrchestrationEvent) (l : Lifecycle) : Lifecycle → Prop where
  | none : Effect ext e l l
  | step {l' : Lifecycle} (step : Step ext e l l') : Effect ext e l l'
  | recorded {mid : Lifecycle} (p : AttemptRef) (u : OutputVisibilityUpdate) (t t' : TaskRow)
      (finished : Step ext e l mid) (found : mid.tasks.find t.key = some t)
      (visible : t.changeOutputVisibility e.toEnvelope p u = some t') :
      Effect ext e l { mid with tasks := mid.tasks.upsert t' }

abbrev Steps (ext : Externals) (e : OrchestrationEvent) : Lifecycle → Lifecycle → Prop :=
  Relation.ReflTransGen (Step ext e)

theorem Effect.steps {ext : Externals} {e : OrchestrationEvent} {l l' : Lifecycle} (effect : Effect ext e l l') :
    Steps ext e l l' := by
  cases effect with
  | none => exact .refl
  | step step => exact .single step
  | recorded p u t t' finished found visible =>
    exact .tail (.single finished) (.updated t t' found (.visibility p u visible))

variable {ext : Externals} {e : OrchestrationEvent} {l : Lifecycle}

theorem Effect.updateTask (key : String × String) (f : TaskRow → Option TaskRow)
    (updates : ∀ t t', l.tasks.find key = some t → f t = some t' → t.Updates e t') :
    Effect ext e l (l.updateTask key f).1 := by
  unfold Lifecycle.updateTask
  cases found : l.tasks.find key with
  | none => exact .none
  | some t =>
    simp only [Option.bind_some]
    cases new : f t with
    | none => exact .none
    | some t' =>
      have here : l.tasks.find t.key = some t := by rw [key_of_find found, found]
      exact .step (.updated t t' here (updates t t' found new))

theorem Effect.recorded_updateTask {mid : Lifecycle} {key : String × String} {p : AttemptRef} {u : OutputVisibilityUpdate}
    (finished : Step ext e l mid) :
    Effect ext e l (mid.updateTask key (changeOutputVisibility e.toEnvelope p u)).1 := by
  unfold Lifecycle.updateTask
  cases found : mid.tasks.find key with
  | none => exact .step finished
  | some t =>
    simp only [Option.bind_some]
    cases new : t.changeOutputVisibility e.toEnvelope p u with
    | none => exact .step finished
    | some t' =>
      have here : mid.tasks.find t.key = some t := by rw [key_of_find found, found]
      exact .recorded p u t t' finished here new

theorem foldTaskFinished_of_completes (ext : Externals) (ev : Envelope) {p : TaskFinished} {t : TaskRow}
    (completes : l.Completes p t) : l.foldTaskFinished ext ev p = (l.finishTask ext ev p t, true) := by
  unfold foldTaskFinished
  simp [completes.found, completes.current, completes.active]

theorem foldTaskFinished_of_not (ext : Externals) (ev : Envelope) {p : TaskFinished}
    (rejected : ∀ t, ¬ l.Completes p t) : l.foldTaskFinished ext ev p = (l, false) := by
  unfold foldTaskFinished
  split
  · rfl
  · rename_i t found
    split
    · rfl
    · rename_i notRepeated
      split
      · rfl
      · rename_i current
        rw [not_not] at current
        exact absurd ⟨found, current, by simpa [current] using notRepeated⟩ (rejected t)

end Lifecycle

namespace FoldState

/-- The attempt id that a dispatch gives its task: the outbox row decides if it has one. -/
def dispatchAttemptId (s : FoldState) (p : DispatchRequested) : String :=
  match s.dispatchOutbox.find p.dispatchId with
  | some existing => (fillOutboxRow p existing).attemptId
  | none => p.attemptId

/-- The task that the event names and the update of its row, which may reject the event. -/
def taskUpdate (s : FoldState) (e : OrchestrationEvent) : Option ((String × String) × (TaskRow → Option TaskRow)) :=
  match e.data with
  | .taskStarted p => some ((p.runId, p.taskKey), start e.toEnvelope p)
  | .taskHeartbeat p => some ((p.runId, p.taskKey), heartbeat e.toEnvelope p)
  | .taskOutputVisibilityChanged p => some ((p.runId, p.taskKey),
      changeOutputVisibility e.toEnvelope p.toAttemptRef p.toOutputVisibilityUpdate)
  | .dispatchRequested p =>
    if s.dispatchAttemptConsumed p.runId p.taskKey p.attempt then none
    else some ((p.runId, p.taskKey), dispatch e.toEnvelope p.attempt (s.dispatchAttemptId p))
  | .timerRequested p =>
    if p.timerType = .retry then
      match p.runId, p.taskKey, p.attempt with
      | some runId, some taskKey, some attempt =>
        some ((runId, taskKey), TaskRow.setRetryNotBefore e.toEnvelope attempt p.fireAt)
      | _, _, _ => none
    else none
  | _ => none

variable {ext : Externals} {e : OrchestrationEvent} {s : FoldState}

open Lifecycle

section

variable (ev : Envelope)
include ev

@[simp] theorem toLifecycle_refreshed (runId : String) (r : FoldState × Bool) :
    (refreshed ev runId r).1.toLifecycle = r.1.toLifecycle := by
  obtain ⟨_, same⟩ := refreshed_fst ev runId r
  rw [same]

theorem toLifecycle_foldTaskStarted (p : AttemptRef) : (s.foldTaskStarted ev p).1.toLifecycle =
      (s.toLifecycle.updateTask (p.runId, p.taskKey) (start ev p)).1 := by
  dsimp only [foldTaskStarted]
  split <;> rfl

theorem toLifecycle_foldTaskFinished (p : TaskFinished) :
    (s.foldTaskFinished ext ev p).1.toLifecycle = (s.toLifecycle.foldTaskFinished ext ev p).1 := by
  dsimp only [foldTaskFinished]
  split <;> rfl

theorem changed_foldTaskFinished (p : TaskFinished) :
    (s.foldTaskFinished ext ev p).2 = (s.toLifecycle.foldTaskFinished ext ev p).2 := by
  dsimp only [foldTaskFinished]
  split
  · rename_i applied
    exact applied.symm
  · rename_i dropped
    exact (Bool.eq_false_iff.mpr dropped).symm

theorem toLifecycle_foldDispatchEnqueued (p : DispatchEnqueued) :
    (s.foldDispatchEnqueued ev p).1.toLifecycle = s.toLifecycle := by
  have acknowledged : (s.acknowledge ev p).1.toLifecycle = s.toLifecycle := by
    unfold acknowledge
    split <;> (split <;> rfl)
  unfold foldDispatchEnqueued
  split
  · split
    · rfl
    · exact acknowledged
  · exact acknowledged

theorem toLifecycle_upsertTimer (timerId : String) (change : TimerRow → TimerRow)
    (created : Option TimerRow) : (s.upsertTimer ev timerId change created).1.toLifecycle = s.toLifecycle := by
  unfold upsertTimer
  split <;> (split <;> rfl)

end

section Update

variable {key : String × String} {f : TaskRow → Option TaskRow} {t t' : TaskRow}

theorem taskUpdate_updates (update : s.taskUpdate e = some (key, f)) (found : s.tasks.find key = some t)
    (new : f t = some t') : t.Updates e t' ∧ Stamped e t t' := by
  have mine : t.key = key := key_of_find found
  unfold taskUpdate at update
  split at update
  · rename_i p isEvent
    cases update
    exact ⟨.started p isEvent mine new, stamped_start isEvent new⟩
  · rename_i p isEvent
    cases update
    exact ⟨.heartbeat p new, stamped_heartbeat (by rw [isEvent]; rfl) new⟩
  · rename_i p isEvent
    cases update
    exact ⟨.visibility _ _ new, stamped_changeOutputVisibility (by rw [isEvent]; rfl) new⟩
  · rename_i p isEvent
    split at update
    · cases update
    · rename_i notConsumed
      cases update
      refine ⟨.dispatched p _ isEvent mine ?_ new, stamped_dispatch isEvent new⟩
      simpa [dispatchAttemptConsumed, found] using notConsumed
  · rename_i p isEvent
    split at update
    · split at update
      · cases update
        exact ⟨.retryTimer _ _ new, stamped_setRetryNotBefore (by rw [isEvent]; rfl) new⟩
      · cases update
    · cases update
  · cases update

theorem toLifecycle_apply_taskUpdate (update : s.taskUpdate e = some (key, f)) :
    (s.apply ext e.toEnvelope e.data).1.toLifecycle = (s.toLifecycle.updateTask key f).1 := by
  unfold taskUpdate at update
  split at update
  · rename_i p isEvent
    cases update
    rw [isEvent, apply, toLifecycle_refreshed, toLifecycle_foldTaskStarted]
  · rename_i p isEvent
    cases update
    rw [isEvent, apply, toLifecycle_refreshed]
    rfl
  · rename_i p isEvent
    cases update
    rw [isEvent, apply, toLifecycle_refreshed]
    rfl
  · rename_i p isEvent
    split at update
    · cases update
    · rename_i notConsumed
      cases update
      rw [isEvent, apply, toLifecycle_refreshed]
      unfold foldDispatchRequested dispatchAttemptId
      rw [if_neg notConsumed]
      cases s.dispatchOutbox.find p.dispatchId <;> rfl
  · rename_i p isEvent
    split at update
    · rename_i isRetry
      split at update
      · rename_i runId taskKey attempt hasRun hasTask hasAttempt
        cases update
        rw [isEvent, apply]
        unfold foldTimerRequested
        split <;> simp [setRetryNotBefore, isRetry, hasRun, hasTask, hasAttempt]
      · cases update
    · cases update
  · cases update

theorem toLifecycle_apply_idle (update : s.taskUpdate e = none) (isLocal : e.data.Local) :
    (s.apply ext e.toEnvelope e.data).1.toLifecycle = s.toLifecycle := by
  cases isEvent : e.data with
  | runTriggered p => exact absurd isEvent (isLocal.noTrigger p)
  | planCreated p => exact absurd isEvent (isLocal.noPlan p)
  | runCancelRequested p => exact absurd isEvent (isLocal.noCancel p)
  | taskStarted p | taskHeartbeat p | taskOutputVisibilityChanged p => simp [taskUpdate, isEvent] at update
  | taskFinished p | taskCompletionRecorded p =>
    simpa [OrchestrationEventData.completion, isEvent] using isLocal.noCompletion
  | dispatchRequested p =>
    simp only [taskUpdate, isEvent] at update
    split at update
    · rename_i consumed
      rw [apply, toLifecycle_refreshed]
      rw [foldDispatchRequested, if_pos consumed]
      rfl
    · cases update
  | dispatchEnqueued p => rw [apply, toLifecycle_foldDispatchEnqueued]
  | timerRequested p =>
    have unchanged : ∀ timers, (setRetryNotBefore { s with timers := timers } e.toEnvelope p).1.toLifecycle =
        s.toLifecycle := by
      intro timers
      simp only [taskUpdate] at update
      unfold setRetryNotBefore
      split
      · rename_i isRetry
        cases hasRun : p.runId <;> cases hasTask : p.taskKey <;> cases hasAttempt : p.attempt <;> simp_all
      · rfl
    rw [apply]
    unfold foldTimerRequested
    split <;> exact unchanged _
  | timerEnqueued p => rw [apply, foldTimerEnqueued, toLifecycle_upsertTimer]
  | timerFired p => rw [apply, foldTimerFired, toLifecycle_upsertTimer]
  | _ => rfl

theorem toLifecycle_apply_local (ext : Externals) (s : FoldState) (isLocal : e.data.Local) :
    (s.taskUpdate e = none ∧ (s.apply ext e.toEnvelope e.data).1.toLifecycle = s.toLifecycle) ∨
      ∃ key f, s.taskUpdate e = some (key, f) ∧
        (s.apply ext e.toEnvelope e.data).1.toLifecycle = (s.toLifecycle.updateTask key f).1 := by
  cases update : s.taskUpdate e with
  | none => exact .inl ⟨rfl, toLifecycle_apply_idle update isLocal⟩
  | some found => exact .inr ⟨found.1, found.2, rfl, toLifecycle_apply_taskUpdate update⟩

end Update

variable {p : TaskFinished}

theorem finishes_of_completion (isCompletion : e.data.completion = some p) : e.Finishes p := by
  cases isEvent : e.data with
  | taskFinished q =>
    rw [isEvent] at isCompletion
    cases isCompletion
    exact .inl isEvent
  | taskCompletionRecorded q =>
    rw [isEvent] at isCompletion
    cases isCompletion
    exact .inr ⟨q, isEvent, rfl⟩
  | _ => simp [isEvent, OrchestrationEventData.completion] at isCompletion

theorem toLifecycle_apply_rejected (isCompletion : e.data.completion = some p)
    (rejected : ∀ t, ¬ s.Completes p t) : (s.apply ext e.toEnvelope e.data).1.toLifecycle = s.toLifecycle := by
  have dropped := foldTaskFinished_of_not ext e.toEnvelope rejected
  rcases finishes_of_completion isCompletion with isEvent | ⟨q, isEvent, rfl⟩
  · rw [isEvent, apply, toLifecycle_refreshed, toLifecycle_foldTaskFinished, dropped]
  · have unapplied : (s.foldTaskFinished ext e.toEnvelope q.toTaskFinished).2 = false := by
      rw [changed_foldTaskFinished, dropped]
    rw [isEvent, apply, toLifecycle_refreshed, foldTaskCompletionRecorded]
    cases q.outputVisibility <;> simp [unapplied, toLifecycle_foldTaskFinished, dropped]

/-- An accepted completion, with the visibility of its output when the event carries it. -/
theorem toLifecycle_apply_completion (ext : Externals) {t : TaskRow} (isCompletion : e.data.completion = some p)
    (completes : s.Completes p t) :
    (s.apply ext e.toEnvelope e.data).1.toLifecycle = s.finishTask ext e.toEnvelope p t ∨
      ∃ u, (s.apply ext e.toEnvelope e.data).1.toLifecycle =
        ((s.finishTask ext e.toEnvelope p t).updateTask (p.runId, p.taskKey)
          (changeOutputVisibility e.toEnvelope p.toAttemptRef u)).1 := by
  have applied := foldTaskFinished_of_completes ext e.toEnvelope completes
  rcases finishes_of_completion isCompletion with isEvent | ⟨q, isEvent, rfl⟩
  · rw [isEvent, apply, toLifecycle_refreshed, toLifecycle_foldTaskFinished, applied]
    exact .inl rfl
  · have finished : (s.foldTaskFinished ext e.toEnvelope q.toTaskFinished).1.toLifecycle =
        s.finishTask ext e.toEnvelope q.toTaskFinished t := by
      rw [toLifecycle_foldTaskFinished, applied]
    rw [isEvent, apply, toLifecycle_refreshed, foldTaskCompletionRecorded]
    split
    · rename_i update _
      split
      · refine .inr ⟨update, ?_⟩
        simp only [foldTaskOutputVisibilityChanged, onLifecycle, finished]
      · exact .inl finished
    · exact .inl finished

theorem apply_effect (s : FoldState) (e : OrchestrationEvent) :
    Effect ext e s.toLifecycle (s.apply ext e.toEnvelope e.data).1.toLifecycle := by
  rcases e.data.kinds with ⟨p, isCompletion⟩ | ⟨p, isEvent⟩ | ⟨p, isEvent⟩ | ⟨p, isEvent⟩ | isLocal
  · by_cases accepted : ∃ t, s.Completes p t
    · obtain ⟨t, completes⟩ := accepted
      have finished : Step ext e s.toLifecycle _ :=
        .finished p t (finishes_of_completion isCompletion) completes.found completes.current completes.active
      rcases toLifecycle_apply_completion ext isCompletion completes with same | ⟨u, visible⟩
      · exact same ▸ .step finished
      · exact visible ▸ .recorded_updateTask finished
    · rw [toLifecycle_apply_rejected isCompletion (not_exists.mp accepted)]
      exact .none
  · rw [isEvent, apply, toLifecycle_refreshed]
    simp only [foldRunTriggered]
    split
    · exact .none
    · rename_i absent
      exact .step (.triggered p isEvent (by simpa [Table.contains] using absent))
  · rw [isEvent, apply, toLifecycle_refreshed]
    simp only [onLifecycle, foldPlanCreated_eq]
    split
    · exact .none
    · rename_i fresh
      exact .step (.planned p isEvent (by simpa using fresh))
  · rw [isEvent, apply, toLifecycle_refreshed]
    simp only [onLifecycle, foldRunCancelRequested_eq]
    split
    · exact .none
    · rename_i active
      exact .step (.cancelled p isEvent (by simpa using active))
  · rcases toLifecycle_apply_local ext s isLocal with ⟨_, same⟩ | ⟨key, f, update, changed⟩
    · rw [same]
      exact .none
    · rw [changed]
      exact Effect.updateTask key f fun t t' found new => (taskUpdate_updates update found new).1

theorem toLifecycle_foldEvent (ext : Externals) (s : FoldState) (e : OrchestrationEvent) (new : s.IsNew e) :
    (s.foldEvent ext e).toLifecycle = (s.apply ext e.toEnvelope e.data).1.toLifecycle := by
  obtain ⟨_, folded⟩ := foldEvent_of_new ext new
  rw [folded]

/-- An event changes the lifecycle tables only by the steps above. -/
theorem foldEvent_effect (ext : Externals) (s : FoldState) (e : OrchestrationEvent) :
    Effect ext e s.toLifecycle (s.foldEvent ext e).toLifecycle := by
  refine foldEvent_cases ext s e .none fun new => ?_
  rw [toLifecycle_foldEvent ext s e new]
  exact apply_effect s e

theorem foldEvent_steps (ext : Externals) (s : FoldState) (e : OrchestrationEvent) :
    Steps ext e s.toLifecycle (s.foldEvent ext e).toLifecycle :=
  (foldEvent_effect ext s e).steps

end FoldState

end Arco.Flow
