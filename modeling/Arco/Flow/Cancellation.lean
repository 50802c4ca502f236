import Arco.Flow.Consistency
import Arco.Flow.Controllers

/-! Runs whose cancellation was requested.

A cancellation ends every task of the run that is not running. The controllers start
work only for tasks that are ready, dispatched or waiting for a retry, so they leave the
run alone until an event brings one of its tasks back into such a state: a failure that
is retried, or a plan that arrives after the cancellation.
-/

namespace Arco.Flow

open Keyed List Table Option

/-- The task is running or has ended, so that it is not dispatched again in this state. -/
def TaskState.pastDispatch (state : TaskState) : Bool := state = .running || state.isTerminal

theorem TaskState.pastDispatch_of_terminal {state : TaskState} (ended : state.isTerminal = true) :
    state.pastDispatch = true := by
  simp [pastDispatch, ended]

def OrchestrationEventData.Dispatches (data : OrchestrationEventData) (runId : String) : Prop :=
  ∃ p, data = .dispatchRequested p ∧ p.runId = runId

/-- No controller starts work for the run, whatever the time and its settings. -/
structure FoldState.NoNewWork (ext : Externals) (s : FoldState) (runId : String) : Prop where
  readyDispatch : ∀ (c : ReadyDispatchController) lastProcessedAt now,
    ∀ action ∈ c.reconcile ext lastProcessedAt now s, ∀ data ∈ action.intoEventData, ¬ data.Dispatches runId
  firedTimers : ∀ lastProcessedAt now, ∀ data ∈ processFiredTimers ext s lastProcessedAt now, ¬ data.Dispatches runId
  sweep : ∀ service sweeper lastProcessedAt now,
    (∀ data ∈ (s.sweep ext service sweeper lastProcessedAt now).appended, ¬ data.Dispatches runId) ∧
      ∀ r ∈ (s.sweep ext service sweeper lastProcessedAt now).redispatched, r.runId ≠ runId

def Repair.dispatchedRun : Repair → Option String
  | createDispatchOutbox runId _ _ _ => some runId
  | redispatchStuckTask runId _ _ _ _ => some runId
  | failStaleRunningTask _ _ => none
  | skippedDueToLag _ _ _ => none

namespace AntiEntropySweeper

variable {outbox : List DispatchOutboxRow}

theorem dispatchedRun_checkTask {a : AntiEntropySweeper} {now : Timestamp} {t : TaskRow} {repair : Repair}
    {runId : String} (checked : a.checkTask outbox now t = some repair)
    (dispatched : repair.dispatchedRun = some runId) : t.runId = runId ∧ t.state.pastDispatch = false := by
  unfold checkTask at checked
  split at checked
  · rename_i ready
    refine ⟨?_, by rw [ready]; rfl⟩
    obtain ⟨_, _, waited⟩ := bind_eq_some_iff.mp checked
    dsimp only at waited
    split at waited
    · cases waited
    · split at waited <;> cases waited
      exact some.inj dispatched
  · rename_i waiting
    refine ⟨?_, by rw [waiting]; rfl⟩
    unfold checkDispatchedTask at checked
    split at checked
    · cases checked
      exact some.inj dispatched
    · dsimp only at checked
      split at checked <;> cases checked
      exact some.inj dispatched
  · rename_i waiting
    refine ⟨?_, by rw [waiting]; rfl⟩
    unfold checkRetryWaitTask at checked
    split at checked
    · cases checked
    · split at checked
      · cases checked
      · split at checked <;> cases checked
        exact some.inj dispatched
  · unfold checkRunningTask at checked
    split at checked
    · obtain ⟨_, _, rfl⟩ := map_eq_some_iff.mp checked
      cases dispatched
    · cases checked
  · cases checked

theorem dispatchedRun_scan {a : AntiEntropySweeper} {lastProcessedAt now : Timestamp} {tasks : List TaskRow}
    {repair : Repair} {runId : String} (member : repair ∈ a.scan lastProcessedAt tasks outbox now)
    (dispatched : repair.dispatchedRun = some runId) :
    ∃ t ∈ tasks, t.runId = runId ∧ t.state.pastDispatch = false := by
  unfold scan at member
  dsimp only at member
  split at member
  · obtain ⟨t, _, rfl⟩ := mem_map.mp member
    cases dispatched
  · obtain ⟨t, inTasks, checked⟩ := mem_filterMap.mp member
    exact ⟨t, inTasks, dispatchedRun_checkTask checked dispatched⟩

end AntiEntropySweeper

namespace Sweep

def Spares (runId : String) (sweep : Sweep) : Prop :=
  (∀ data ∈ sweep.events, ¬ data.Dispatches runId) ∧ ∀ r ∈ sweep.redispatched, r.runId ≠ runId

variable {ext : Externals} {service : SweepService} {outbox : Table DispatchOutboxRow.dispatchId} {runId : String}
  {sweep : Sweep}

section

variable (spares : sweep.Spares runId)
include spares

theorem Spares.enqueue {r : Redispatch} (other : r.runId ≠ runId) (body : String) :
    (sweep.enqueue service r body).Spares runId := by
  have redispatched : ∀ x ∈ sweep.redispatched ++ [r], x.runId ≠ runId := by
    intro x member
    rcases mem_append.mp member with old | new
    · exact spares.2 x old
    · rwa [mem_singleton.mp new]
  have events : ∀ cloudId, ∀ data ∈ sweep.events ++ [enqueuedEvent r cloudId], ¬ data.Dispatches runId := by
    intro cloudId data member
    rcases mem_append.mp member with old | new
    · exact spares.1 data old
    · rw [mem_singleton.mp new]
      rintro ⟨p, absurd, _⟩
      cases absurd
  dsimp only [Sweep.enqueue]
  split
  · exact ⟨events _, redispatched⟩
  · exact ⟨events _, redispatched⟩
  · exact ⟨spares.1, redispatched⟩
  · exact ⟨spares.1, redispatched⟩

theorem Spares.redispatch {r : Redispatch} (other : r.runId ≠ runId) :
    (sweep.redispatch service r).Spares runId := by
  have attempted : { sweep with redispatchAttempted := sweep.redispatchAttempted + 1 }.Spares runId := spares
  unfold Sweep.redispatch
  split
  · exact spares
  · split
    · exact spares
    · exact attempted.enqueue other _

theorem Spares.repair {repair : Repair} (other : repair.dispatchedRun ≠ some runId) :
    (sweep.repair ext service outbox repair).Spares runId := by
  cases repair with
  | createDispatchOutbox run taskKey attempt reason =>
    refine ⟨fun data member => ?_, spares.2⟩
    rcases mem_append.mp member with old | new
    · exact spares.1 data old
    · rw [mem_singleton.mp new]
      rintro ⟨p, same, mine⟩
      cases same
      exact other (congrArg some mine)
  | redispatchStuckTask run taskKey attempt originalDispatchId reason =>
    have otherRun : run ≠ runId := fun same => other (congrArg some same)
    exact spares.redispatch otherRun
  | failStaleRunningTask attempt reason =>
    refine ⟨fun data member => ?_, spares.2⟩
    rcases mem_append.mp member with old | new
    · exact spares.1 data old
    · rw [mem_singleton.mp new]
      rintro ⟨p, absurd, _⟩
      cases absurd
  | skippedDueToLag run taskKey lag => exact spares

theorem Spares.act {repairs : List Repair} (others : ∀ repair ∈ repairs, repair.dispatchedRun ≠ some runId) :
    (sweep.act ext service outbox repairs).Spares runId := by
  induction repairs generalizing sweep with
  | nil => exact spares
  | cons repair rest ih =>
    unfold act
    split
    · exact spares
    · exact ih (spares.repair (others repair (by simp))) fun later member => others later (by simp [member])

theorem Spares.appended : ∀ data ∈ sweep.appended, ¬ data.Dispatches runId := by
  intro data member
  unfold Sweep.appended at member
  split at member
  · cases member
  · exact spares.1 data member

end

end Sweep

namespace FoldState

variable {ext : Externals} {s : FoldState} {runId : String} {run : RunRow}

theorem readyDispatch_of_cancelRequested (found : s.runs.find runId = some run) (cancelled : run.cancelRequested = true)
    (c : ReadyDispatchController) (lastProcessedAt now : Timestamp) :
    ∀ action ∈ c.reconcile ext lastProcessedAt now s, ∀ data ∈ action.intoEventData, ¬ data.Dispatches runId := by
  intro action member data emitted
  rintro ⟨p, rfl, rfl⟩
  unfold ReadyDispatchController.reconcile at member
  split at member
  · obtain ⟨t, _, reconciled⟩ := mem_filterMap.mp member
    unfold ReadyDispatchController.reconcileTask at reconciled
    split at reconciled
    · cases reconciled
    · split at reconciled
      · cases reconciled
        cases emitted
      · rename_i notCancelled
        dsimp only at reconciled
        split at reconciled
        · cases reconciled
          cases emitted
        · cases reconciled
          cases emitted
          rw [show s.runs.find t.runId = some run from found] at notCancelled
          exact notCancelled cancelled
  · obtain ⟨t, _, rfl⟩ := mem_map.mp member
    cases emitted

theorem retries_of_fire {h : RetryHandler} {lastProcessedAt now : Timestamp} {t : TaskRow} {next : AttemptRef}
    (fired : h.fire ext lastProcessedAt t now = .incrementAttempt next) :
    next.runId = t.runId ∧ t.state.pastDispatch = false := by
  unfold RetryHandler.fire at fired
  dsimp only at fired
  split at fired
  · cases fired
  · split at fired
    · cases fired
    · rename_i waits
      split at fired
      · cases fired
      · split at fired
        · cases fired
        · cases fired
          rw [not_not] at waits
          exact ⟨rfl, by rw [waits]; rfl⟩

section

variable (quiet : ∀ k t, s.tasks.find (runId, k) = some t → t.state.pastDispatch = true)
include quiet

theorem firedTimers_of_quiet (lastProcessedAt now : Timestamp) :
    ∀ data ∈ processFiredTimers ext s lastProcessedAt now, ¬ data.Dispatches runId := by
  intro data member
  rintro ⟨p, rfl, mine⟩
  obtain ⟨timer, _, processed⟩ := mem_filterMap.mp member
  unfold processFiredTimer at processed
  split at processed
  · obtain ⟨t, _, checked⟩ := bind_eq_some_iff.mp processed
    split at checked <;> cases checked
  · obtain ⟨t, named, checked⟩ := bind_eq_some_iff.mp processed
    split at checked
    · cases checked
    · rename_i next fired
      cases checked
      obtain ⟨run, waits⟩ := retries_of_fire fired
      obtain ⟨timerRun, _, timerKey, _, found⟩ : ∃ r, timer.runId = some r ∧ ∃ k, timer.taskKey = some k ∧
          s.tasks.find (r, k) = some t := by
        simpa [timerTask, bind_eq_some_iff] using named
      have tRun : t.runId = timerRun := congrArg Prod.fst (key_of_find found)
      have here : timerRun = runId := tRun.symm.trans (run.symm.trans mine)
      rw [here] at found
      rw [quiet timerKey t found] at waits
      cases waits
    · cases checked
  · cases processed
  · cases processed

theorem sweep_of_quiet
    (service : SweepService) (sweeper : AntiEntropySweeper) (lastProcessedAt now : Timestamp) :
    (s.sweep ext service sweeper lastProcessedAt now).Spares runId := by
  have none : ({} : Sweep).Spares runId := ⟨by simp, by simp⟩
  refine none.act fun repair member dispatched => ?_
  obtain ⟨t, inTasks, rfl, waits⟩ := AntiEntropySweeper.dispatchedRun_scan member dispatched
  rw [quiet t.taskKey t (find_of_mem inTasks)] at waits
  cases waits

end

theorem noNewWork_of_quiet (found : s.runs.find runId = some run) (cancelled : run.cancelRequested = true)
    (quiet : ∀ k t, s.tasks.find (runId, k) = some t → t.state.pastDispatch = true) : s.NoNewWork ext runId where
  readyDispatch := readyDispatch_of_cancelRequested found cancelled
  firedTimers := firedTimers_of_quiet quiet
  sweep service sweeper lastProcessedAt now :=
    have spares := sweep_of_quiet quiet service sweeper lastProcessedAt now
    ⟨spares.appended, spares.2⟩

end FoldState

theorem TaskRow.pastDispatch_countSatisfied {ev : Envelope} {t : TaskRow} (past : t.state.pastDispatch = true) :
    (t.countSatisfied ev).state.pastDispatch = true := by
  dsimp only [countSatisfied]
  split
  · rename_i full
    rw [full.2] at past
    cases past
  · exact past

theorem TaskRow.Updates.pastDispatch {e : OrchestrationEvent} {t t' : TaskRow} (update : t.Updates e t')
    (past : t.state.pastDispatch = true) : t'.state.pastDispatch = true := by
  cases update.rewritten.moves with
  | stays state _ _ => rwa [state]
  | starts p _ _ _ state =>
    rw [state]
    rfl
  | dispatches p _ _ _ waiting _ =>
    rcases waiting with state | state | state <;> rw [state] at past <;> cases past

namespace Lifecycle

variable {ext : Externals} {e : OrchestrationEvent} {ev : Envelope} {l l' : Lifecycle} {runId : String}

/-- Every task of a run whose cancellation was requested is running or has ended. -/
def Quiet (l : Lifecycle) : Prop :=
  ∀ runId run, l.runs.find runId = some run → run.cancelRequested = true →
    ∀ k t, l.tasks.find (runId, k) = some t → t.state.pastDispatch = true

def SameFlags (l l' : Lifecycle) : Prop :=
  ∀ runId run', l'.runs.find runId = some run' →
    ∃ run, l.runs.find runId = some run ∧ run.cancelRequested = run'.cancelRequested

def StaysPast (l l' : Lifecycle) : Prop :=
  ∀ k t', l'.tasks.find k = some t' →
    ∃ t, l.tasks.find k = some t ∧ (t.state.pastDispatch = true → t'.state.pastDispatch = true)

theorem Quiet.of_staysPast (quiet : l.Quiet) (flags : SameFlags l l') (past : StaysPast l l') : l'.Quiet := by
  intro runId run' found' cancelled k t' foundTask'
  obtain ⟨run, found, flag⟩ := flags runId run' found'
  obtain ⟨t, foundTask, stays⟩ := past (runId, k) t' foundTask'
  exact stays (quiet runId run found (flag.trans cancelled) k t foundTask)

theorem sameFlags_modify {f : RunRow → RunRow} (keeps : ∀ run, (f run).runId = run.runId)
    (flag : ∀ run, (f run).cancelRequested = run.cancelRequested) (runs : l'.runs = l.runs.modify runId f) :
    SameFlags l l' := by
  intro r run' found
  rw [runs, find_modify keeps] at found
  split at found
  · rename_i here
    obtain ⟨run, foundRun, rfl⟩ := map_eq_some_iff.mp found
    exact ⟨run, here ▸ foundRun, (flag run).symm⟩
  · exact ⟨run', found, rfl⟩

theorem SameFlags.refl (l : Lifecycle) : SameFlags l l := fun _ run found => ⟨run, found, rfl⟩

theorem staysPast_mapRows {f : TaskRow → TaskRow} (keeps : ∀ row, (f row).key = row.key)
    (past : ∀ row, row.state.pastDispatch = true → (f row).state.pastDispatch = true)
    (mapped : l'.tasks = l.tasks.mapRows f) : StaysPast l l' := by
  intro k t' found
  rw [mapped, find_mapRows keeps] at found
  obtain ⟨t, foundOld, rfl⟩ := map_eq_some_iff.mp found
  exact ⟨t, foundOld, past t⟩

variable {t t' : TaskRow}

theorem staysPast_upsert (found : l.tasks.find t.key = some t) (key : t'.key = t.key)
    (past : t.state.pastDispatch = true → t'.state.pastDispatch = true) (runs : Table RunRow.runId) :
    StaysPast l { l with runs := runs, tasks := l.tasks.upsert t' } := by
  intro k row foundRow
  rw [find_upsert] at foundRow
  split at foundRow
  · rename_i here
    cases foundRow
    exact ⟨t, by rw [← here, key, found], past⟩
  · exact ⟨row, foundRow, id⟩

theorem settle_cancelRequested (state : TaskState) (run : RunRow) :
    (run.settle ev state).cancelRequested = run.cancelRequested := by
  dsimp only [RunRow.settle]
  split <;> rfl

theorem settle_iterate_cancelRequested (state : TaskState) (n : Nat) (run : RunRow) :
    ((RunRow.settle ev state)^[n] run).cancelRequested = run.cancelRequested := by
  induction n generalizing run with
  | zero => rfl
  | succ n ih => rw [Function.iterate_succ_apply, ih, settle_cancelRequested]

/-- The completion puts a task of a cancelled run back in line for another attempt. -/
def RetriesCancelled (l : Lifecycle) (p : TaskFinished) (t : TaskRow) : Prop :=
  (∃ run, l.runs.find p.runId = some run ∧ run.cancelRequested = true) ∧ p.outcome = .failed ∧
    t.attempt < t.maxAttempts

theorem pastDispatch_stateAfter {p : TaskFinished} (last : ¬ (p.outcome = .failed ∧ t.attempt < t.maxAttempts)) :
    (t.stateAfter p.outcome).pastDispatch = true := by
  cases outcome : p.outcome with
  | failed =>
    have noneLeft : ¬ t.attempt < t.maxAttempts := fun left => last ⟨outcome, left⟩
    rw [TaskRow.stateAfter, if_neg noneLeft]
    rfl
  | _ => rfl

theorem Quiet.finishTask (quiet : l.Quiet) {p : TaskFinished} (completes : l.Completes p t)
    (last : ¬ l.RetriesCancelled p t) : (l.finishTask ext ev p t).Quiet := by
  have key : (t.finish ext ev p).key = (p.runId, p.taskKey) :=
    (TaskRow.key_finish ext ev p t).trans (key_of_find completes.found)
  -- the completion itself, before the downstream tasks are resolved
  have completed : ∀ mid : Lifecycle, mid.tasks = l.tasks.upsert (t.finish ext ev p) → SameFlags l mid → mid.Quiet := by
    intro mid tasks flags runId run' found' cancelled k row foundRow
    obtain ⟨run, foundRun, flag⟩ := flags runId run' found'
    rw [tasks, find_upsert] at foundRow
    split at foundRow
    · rename_i here
      cases foundRow
      have mine : p.runId = runId := congrArg Prod.fst (key.symm.trans here)
      rw [TaskRow.state_finish]
      refine pastDispatch_stateAfter fun retried => last ⟨⟨run, ?_, flag.trans cancelled⟩, retried⟩
      rw [mine, foundRun]
    · exact quiet runId run foundRun (flag.trans cancelled) k row foundRow
  have settled : (l.completed ext ev p t).Quiet :=
    completed _ rfl (sameFlags_modify (RunRow.runId_settle ev _) (settle_cancelRequested _) rfl)
  generalize finish : l.finishTask ext ev p t = after
  cases finished_finishTask completes finish with
  | retried isOpen => exact completed _ rfl (SameFlags.refl l)
  | succeeded success =>
    refine settled.of_staysPast (SameFlags.refl _) (staysPast_mapRows (key_countIn _) (fun row past => ?_) rfl)
    unfold countIn
    split
    · exact TaskRow.pastDispatch_countSatisfied past
    · exact past
  | failed fails closed nodup doomed =>
    refine settled.of_staysPast (sameFlags_modify (RunRow.runId_settle_iterate ev _ _)
      (settle_iterate_cancelRequested _ _) rfl) (staysPast_mapRows (key_closeIn _ closed) (fun row past => ?_) rfl)
    unfold closeIn
    split
    · exact TaskState.pastDispatch_of_terminal (isTerminal_cascadeState _)
    · exact past

theorem Quiet.cancelRequested (quiet : l.Quiet) (runId : String) : (l.cancelRequested ev runId).Quiet := by
  intro r run' found' cancelled k t' foundTask
  obtain ⟨t, foundOld, rfl⟩ := map_eq_some_iff.mp ((find_mapRows key_cancelIn l.tasks (r, k)).symm.trans foundTask)
  have tRun : t.runId = r := congrArg Prod.fst (key_of_find foundOld)
  unfold cancelIn
  split
  · rfl
  · rename_i spared
    by_cases mine : r = runId
    · -- what the request leaves alone in this run is running or has ended
      have running : t.state.isTerminal = false → t.state = .running := by
        simpa [cancellable, tRun, mine] using spared
      cases ended : t.state.isTerminal with
      | true => exact TaskState.pastDispatch_of_terminal ended
      | false => rw [running ended]; rfl
    · have foundRun : l.runs.find r = some run' :=
        (find_modify_of_ne (runId_cancelledRun _) l.runs mine).symm.trans found'
      exact quiet r run' foundRun cancelled k t foundOld

/-- The event applies a plan to a cancelled run. -/
def PlansCancelled (l : Lifecycle) (p : PlanCreated) : Prop :=
  (∃ run, l.runs.find p.runId = some run ∧ run.cancelRequested = true) ∧ p.tasks ≠ []

theorem Quiet.planned (quiet : l.Quiet) {p : PlanCreated} (notCancelled : ¬ l.PlansCancelled p) : (l.planned ev p).Quiet := by
  have flags : SameFlags l (l.planned ev p) :=
    sameFlags_modify (f := RunRow.plan ev p.tasks.length) (fun _ => rfl) (fun _ => rfl) rfl
  intro runId run' found' cancelled k t foundTask
  obtain ⟨run, found, flag⟩ := flags runId run' found'
  rcases find_upsertAll_cases l.tasks (p.tasks.map (TaskDef.row ev p.runId)) (runId, k) with
    ⟨_, member, key, _⟩ | ⟨_, kept⟩
  · exfalso
    obtain ⟨d, inPlan, rfl⟩ := mem_map.mp member
    have mine : p.runId = runId := congrArg Prod.fst key
    exact notCancelled ⟨⟨run, by rw [mine, found], flag.trans cancelled⟩, ne_nil_of_mem inPlan⟩
  · exact quiet runId run found (flag.trans cancelled) k t (kept.symm.trans foundTask)

theorem Quiet.updated (quiet : l.Quiet) (found : l.tasks.find t.key = some t) (update : t.Updates e t') :
    Quiet { l with tasks := l.tasks.upsert t' } :=
  quiet.of_staysPast (SameFlags.refl l) (staysPast_upsert found update.rewritten.key update.pastDispatch l.runs)

variable (calm : l.Quiet)
  (noPlan : ∀ p, e.data = .planCreated p → l.hasTasks p.runId = false → ¬ l.PlansCancelled p)
  (noRetry : ∀ p t, e.Finishes p → l.tasks.find (p.runId, p.taskKey) = some t → t.IsCurrentAttempt p.toAttemptRef →
    t.state.isTerminal = false → ¬ l.RetriesCancelled p t)

include calm noPlan noRetry

/-- One step keeps cancelled runs quiet, unless it retries a task of such a run or plans one. -/
theorem Step.quiet (step : Step ext e l l') : l'.Quiet := by
  cases step with
  | triggered p isEvent new =>
    intro runId run found cancelled k t foundTask
    rw [find_upsert] at found
    split at found
    · cases found
      cases cancelled
    · exact calm runId run found cancelled k t foundTask
  | planned p isEvent fresh => exact calm.planned (noPlan p isEvent fresh)
  | cancelled p isEvent active => exact calm.cancelRequested p.runId
  | updated t t' found update => exact calm.updated found update
  | finished p t isEvent found current active =>
    exact calm.finishTask ⟨found, current, active⟩ (noRetry p t isEvent found current active)

theorem Effect.quiet (effect : Effect ext e l l') : l'.Quiet := by
  cases effect with
  | none => exact calm
  | step step => exact step.quiet calm noPlan noRetry
  | recorded p u t t' finished found visible =>
    exact (finished.quiet calm noPlan noRetry).updated found (.visibility p u visible)

end Lifecycle

namespace FoldState

variable {ext : Externals} {e : OrchestrationEvent} {s : FoldState} {runId : String} {run : RunRow}

/-- The event brings a task of a cancelled run back before its dispatch: it is a new plan for the run,
or the failure of a task that has attempts left. -/
inductive RevivesRun (s : FoldState) (e : OrchestrationEvent) : Prop where
  | planned (p : PlanCreated) (new : s.IsNew e)
      (isEvent : e.data = .planCreated p) (fresh : s.hasTasks p.runId = false) (cancelled : s.toLifecycle.PlansCancelled p)
  | retried (p : TaskFinished) (t : TaskRow) (new : s.IsNew e)
      (isEvent : e.Finishes p) (found : s.tasks.find (p.runId, p.taskKey) = some t)
      (current : t.IsCurrentAttempt p.toAttemptRef) (active : t.state.isTerminal = false)
      (cancelled : s.toLifecycle.RetriesCancelled p t)

theorem foldEvent_quiet (quiet : s.toLifecycle.Quiet) (keeps : ¬ s.RevivesRun e) :
    (s.foldEvent ext e).toLifecycle.Quiet := by
  refine foldEvent_cases ext s e quiet fun new => (foldEvent_effect ext s e).quiet quiet ?_ ?_
  · exact fun p isEvent fresh cancelled => keeps (.planned p new isEvent fresh cancelled)
  · exact fun p t isEvent found current active cancelled =>
      keeps (.retried p t new isEvent found current active cancelled)

/-- Along a run in which no event revives a cancelled run, no controller ever starts work for a run
whose cancellation was requested. -/
theorem cancellation_stops_new_work (ext : Externals) {secret : List UInt8} {events : List OrchestrationEvent}
    (keeps : Throughout ext (fun s e => ¬ s.RevivesRun e) { tenantSecret := secret } events)
    (found : (foldEvents ext { tenantSecret := secret } events).runs.find runId = some run)
    (cancelled : run.cancelRequested = true) :
    (foldEvents ext { tenantSecret := secret } events).NoNewWork ext runId := by
  have start : ({ tenantSecret := secret } : FoldState).toLifecycle.Quiet := by
    intro r run' absent
    cases absent
  have quiet := foldEvents_induction (fun s => s.toLifecycle.Quiet) (fun _ _ => foldEvent_quiet) start keeps
  exact noNewWork_of_quiet found cancelled (quiet runId run found cancelled)

theorem not_revivesRun_of_noFlag (noFlag : ∀ run ∈ s.runs.rows, run.cancelRequested = false) : ¬ s.RevivesRun e := by
  have unflagged : ∀ r, ¬ ∃ run, s.runs.find r = some run ∧ run.cancelRequested = true := by
    rintro r ⟨run, found, flag⟩
    rw [noFlag run (mem_of_find found)] at flag
    cases flag
  rintro (⟨p, _, _, _, flagged, _⟩ | ⟨p, t, _, _, _, _, _, flagged, _⟩)
  · exact unflagged p.runId flagged
  · exact unflagged p.runId flagged

def cancelledWhileRunning : List OrchestrationEvent :=
  [.sample "01" (.runTriggered { runId := "run", planId := "plan" }),
   .sample "02" (.planCreated .sample),
   .sample "03" (.dispatchRequested firstDispatch),
   .sample "04" (.taskStarted firstAttempt),
   .sample "05" (.runCancelRequested { runId := "run" })]

theorem cancellation_stops_new_work_lastSuccess : (foldEvents .constant {} (cancelledWhileRunning ++
      [.sample "06" (.taskFinished (firstFinish .succeeded))])).NoNewWork .constant "run" := by
  have flagged : ((foldEvents .constant {} (cancelledWhileRunning ++
      [.sample "06" (.taskFinished (firstFinish .succeeded))])).runs.find "run").any
        (fun run => run.cancelRequested) = true := by decide
  obtain ⟨_, found, cancelled⟩ := (any_eq_true _ _).mp flagged
  refine cancellation_stops_new_work .constant ⟨?_, ?_, ?_, ?_, ?_, ?_, trivial⟩ found cancelled
  · exact not_revivesRun_of_noFlag (by decide)
  · exact not_revivesRun_of_noFlag (by decide)
  · exact not_revivesRun_of_noFlag (by decide)
  · exact not_revivesRun_of_noFlag (by decide)
  · exact not_revivesRun_of_noFlag (by decide)
  · rintro (⟨p, _, isEvent, _⟩ | ⟨p, t, _, isEvent, _, _, _, _, failed, _⟩)
    · cases isEvent
    · rcases isEvent with isEvent | ⟨q, isEvent, _⟩
      · cases isEvent
        cases failed
      · cases isEvent

def failureAfterCancellation : List OrchestrationEvent :=
  [.sample "06" (.taskFinished (firstFinish .failed)),
   .sample "07" (.timerRequested {
     timerId := "timer:retry:run:extract:1:0"
     timerType := .retry
     runId := some "run"
     taskKey := some "extract"
     attempt := some 1
     fireAt := 0 }),
   .sample "08" (.timerFired { timerId := "timer:retry:run:extract:1:0", timerType := .retry })]

theorem retry_after_cancellation : ¬ ∀ s, Reachable .constant s → ∀ runId run, s.runs.find runId = some run →
    run.cancelRequested = true → ∀ later, (∀ e ∈ later, ¬ e.data.Dispatches runId) →
      (foldEvents .constant s later).NoNewWork .constant runId := by
  intro stops
  have flagged : ((foldEvents .constant {} cancelledWhileRunning).runs.find "run").any
      (fun run => run.cancelRequested) = true := by decide
  obtain ⟨run, found, cancelled⟩ := (any_eq_true _ _).mp flagged
  have noDispatch : ∀ e ∈ failureAfterCancellation, ¬ e.data.Dispatches "run" := by
    intro e member
    simp only [failureAfterCancellation, mem_cons, not_mem_nil, or_false] at member
    rintro ⟨p, isDispatch, _⟩
    rcases member with rfl | rfl | rfl <;> cases isDispatch
  have work := stops _ ⟨[], cancelledWhileRunning, rfl⟩ "run" run found cancelled failureAfterCancellation noDispatch
  have emitted : processFiredTimers .constant
      (foldEvents .constant (foldEvents .constant {} cancelledWhileRunning) failureAfterCancellation) 0 0 =
        [.dispatchRequested (dispatchRequest .constant "run" "extract" 2 "default-queue")] := rfl
  exact work.firedTimers 0 0 _ (by rw [emitted]; exact mem_singleton_self _) ⟨_, rfl, rfl⟩

end FoldState

end Arco.Flow
