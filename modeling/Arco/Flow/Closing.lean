import Arco.Flow.Accounting

/-! Closed runs.

A run that has tasks is closed only when all of them have ended, so no task event can
write its row again. A run that was cancelled before its plan arrived has no tasks: its
plan is still applied and opens the run again.
-/

namespace Arco.Flow

open Keyed

namespace Lifecycle

open Table

variable {ext : Externals} {e : OrchestrationEvent} {ev : Envelope} {l l' : Lifecycle} {runId : String} {run : RunRow}

theorem runs_finishTask {p : TaskFinished} {t : TaskRow} (completes : l.Completes p t) (other : runId ≠ p.runId) :
    (l.finishTask ext ev p t).runs.find runId = l.runs.find runId := by
  have settled : (l.completed ext ev p t).runs.find runId = l.runs.find runId :=
    find_modify_of_ne (RunRow.runId_settle ev _) l.runs other
  generalize finish : l.finishTask ext ev p t = after
  cases finished_finishTask completes finish with
  | retried isOpen => rfl
  | succeeded success => exact settled
  | failed fails closed nodup doomed =>
    exact (find_modify_of_ne (RunRow.runId_settle_iterate ev _ _) _ other).trans settled

theorem Accounted.not_closed {distinctPlans : Prop} (accounted : Accounted distinctPlans l) {k : String × String}
    {t : TaskRow} (found : l.tasks.find k = some t) (active : t.state.isTerminal = false)
    (foundRun : l.runs.find k.1 = some run) : run.state.isTerminal = false := by
  by_contra closed
  have missing := completions_lt_of_find found active
  have all := (accounted _ run foundRun).completions_of_terminal (by simpa using closed) (Nat.zero_lt_of_lt missing)
  omega

/-- A closed run is not the run of a plan that would be applied. -/
def NotReplanned (e : OrchestrationEvent) (l : Lifecycle) (runId : String) : Prop :=
  ∀ p, e.data = .planCreated p → p.runId = runId → l.hasTasks runId = true

theorem Step.find_closedRun (step : Step ext e l l') (accounted : Accounted False l)
    (found : l.runs.find runId = some run) (closed : run.state.isTerminal = true)
    (planned : NotReplanned e l runId) : l'.runs.find runId = some run := by
  cases step with
  | triggered p isEvent new =>
    have other : (triggeredRow e.toEnvelope p (l.recount p.runId)).runId ≠ runId := fun same => by
      rw [show p.runId = runId from same, found] at new
      cases new
    rw [find_upsert_of_ne other, found]
  | planned p isEvent fresh =>
    have other : runId ≠ p.runId := fun same => by
      rw [← same, planned p isEvent same.symm] at fresh
      cases fresh
    have keeps : ∀ run : RunRow, (run.plan e.toEnvelope p.tasks.length).runId = run.runId := fun _ => rfl
    exact (find_modify_of_ne keeps l.runs other).trans found
  | cancelled p isEvent active =>
    have other : runId ≠ p.runId := fun same => by
      rw [← same, runIsTerminal, found, Option.map_some, closed] at active
      cases active
    exact (find_modify_of_ne (runId_cancelledRun _) l.runs other).trans found
  | updated t t' foundTask update => exact found
  | finished p t isEvent foundTask current active =>
    have other : runId ≠ p.runId := fun same => by
      rw [same] at found
      rw [accounted.not_closed foundTask active found] at closed
      cases closed
    rw [runs_finishTask ⟨foundTask, current, active⟩ other, found]

theorem Step.hasTasks (step : Step ext e l l') (has : l.hasTasks runId = true) : l'.hasTasks runId = true := by
  obtain ⟨t, member, _⟩ := List.any_eq_true.mp has
  obtain ⟨t', found, _⟩ := step.task (find_of_mem member)
  refine List.any_eq_true.mpr ⟨t', mem_of_find found, ?_⟩
  have run : t'.runId = t.runId := congrArg Prod.fst (key_of_find found)
  rwa [run]

theorem Steps.find_closedRun (steps : Steps ext e l l') (accounted : Accounted False l)
    (found : l.runs.find runId = some run) (closed : run.state.isTerminal = true)
    (planned : NotReplanned e l runId) : l'.runs.find runId = some run := by
  -- the tasks that a plan finds are still there after each step
  have kept : l'.runs.find runId = some run ∧ Accounted False l' ∧ NotReplanned e l' runId := by
    induction steps with
    | refl => exact ⟨found, accounted, planned⟩
    | tail _ step ih =>
      obtain ⟨foundMid, accountedMid, plannedMid⟩ := ih
      exact ⟨step.find_closedRun accountedMid foundMid closed plannedMid,
        step.accounted accountedMid (fun absurd => absurd.elim),
        fun p isEvent same => step.hasTasks (plannedMid p isEvent same)⟩
  exact kept.1

end Lifecycle

namespace FoldState

variable {ext : Externals} {e : OrchestrationEvent} {s : FoldState}

/-- The event is a plan that is applied to a closed run without tasks. -/
def ReopensRun (s : FoldState) (e : OrchestrationEvent) : Prop :=
  s.IsNew e ∧
    ∃ p run, e.data = .planCreated p ∧ s.runs.find p.runId = some run ∧ run.state.isTerminal = true ∧
      s.hasTasks p.runId = false

/-- The closed runs of `s` have kept their state. -/
def RunsFinal (s s' : FoldState) : Prop :=
  ∀ runId run, s.runs.find runId = some run → run.state.isTerminal = true →
    ∃ run', s'.runs.find runId = some run' ∧ run'.state = run.state

theorem find_closedRun_foldEvent (accounted : s.toLifecycle.Accounted False) (keeps : ¬ s.ReopensRun e)
    {runId : String} {run : RunRow} (found : s.runs.find runId = some run) (closed : run.state.isTerminal = true) :
    (s.foldEvent ext e).runs.find runId = some run := by
  refine foldEvent_cases ext s e found fun new => ?_
  refine (foldEvent_steps ext s e).find_closedRun accounted found closed fun p isEvent same => ?_
  by_contra fresh
  subst same
  exact keeps ⟨new, p, run, isEvent, found, closed, by simpa using fresh⟩

theorem not_runsFinal_of_reopens (reopens : s.ReopensRun e) : ¬ s.RunsFinal (s.foldEvent ext e) := by
  obtain ⟨new, p, run, isEvent, found, closed, fresh⟩ := reopens
  intro final
  obtain ⟨_, found', same⟩ := final p.runId run found closed
  rw [toLifecycle_foldEvent ext s e new, isEvent, apply, toLifecycle_refreshed] at found'
  simp only [onLifecycle, Lifecycle.foldPlanCreated_eq, fresh] at found'
  have planned := Table.find_modify (f := RunRow.plan e.toEnvelope p.tasks.length) (fun _ => rfl) s.runs p.runId p.runId
  rw [if_pos rfl, found, Option.map_some] at planned
  cases planned.symm.trans found'
  rw [← same] at closed
  cases closed

theorem foldEvents_closedRun {events : List OrchestrationEvent} (accounted : s.toLifecycle.Accounted False)
    (keeps : Throughout ext (fun s e => ¬ s.ReopensRun e) s events) {runId : String} {run : RunRow}
    (found : s.runs.find runId = some run) (closed : run.state.isTerminal = true) :
    (foldEvents ext s events).runs.find runId = some run := by
  have kept := foldEvents_induction (fun s' => s'.toLifecycle.Accounted False ∧ s'.runs.find runId = some run)
    (fun s' e inv meets => ⟨(foldEvent_steps ext s' e).accounted inv.1 fun absurd => absurd.elim,
      find_closedRun_foldEvent inv.1 meets inv.2 closed⟩) ⟨accounted, found⟩ keeps
  exact kept.2

/-- From a reachable state, closed runs keep their state for as long as no plan is applied to a closed
run without tasks; and the first such plan ends that. -/
theorem closed_runs_final (ext : Externals) {s : FoldState} (reachable : Reachable ext s) :
    (∀ events, Throughout ext (fun s e => ¬ s.ReopensRun e) s events → s.RunsFinal (foldEvents ext s events)) ∧
      ∀ e, s.RunsFinal (s.foldEvent ext e) ↔ ¬ s.ReopensRun e := by
  refine ⟨fun events keeps runId run found closed => ?_, fun e => ⟨fun final reopens => ?_, ?_⟩⟩
  · exact ⟨run, foldEvents_closedRun reachable.accounted keeps found closed, rfl⟩
  · exact not_runsFinal_of_reopens reopens final
  · exact fun keeps runId run found closed =>
      ⟨run, find_closedRun_foldEvent reachable.accounted keeps found closed, rfl⟩

def cancelledAfterPlan : List OrchestrationEvent :=
  [.sample "01" (.runTriggered { runId := "run", planId := "plan" }),
   .sample "02" (.planCreated .sample),
   .sample "03" (.runCancelRequested { runId := "run" })]

theorem closed_runs_final_cancelledAfterPlan :
    ((foldEvents .constant {} cancelledAfterPlan).runs.find "run").any (fun run => run.state.isTerminal) = true ∧
      ∀ e, (foldEvents .constant {} cancelledAfterPlan).RunsFinal
          ((foldEvents .constant {} cancelledAfterPlan).foldEvent .constant e) ↔
        ¬ (foldEvents .constant {} cancelledAfterPlan).ReopensRun e :=
  ⟨by decide, (closed_runs_final .constant ⟨[], cancelledAfterPlan, rfl⟩).2⟩

def cancelledBeforePlan : List OrchestrationEvent :=
  [.sample "01" (.runTriggered { runId := "run", planId := "plan" }),
   .sample "02" (.runCancelRequested { runId := "run" })]

def latePlan : OrchestrationEvent :=
  .sample "03" (.planCreated .sample)

theorem late_plan_reopens_run :
    ¬ ∀ s, Reachable .constant s → ∀ events, s.RunsFinal (foldEvents .constant s events) := by
  intro final
  have cancelled : ((foldEvents .constant {} cancelledBeforePlan).runs.find "run").any
      (fun run => run.state.isTerminal) = true := by decide
  obtain ⟨run, found, closed⟩ := (Option.any_eq_true _ _).mp cancelled
  have reopens : (foldEvents .constant {} cancelledBeforePlan).ReopensRun latePlan :=
    ⟨by decide, _, run, rfl, found, closed, by decide⟩
  exact not_runsFinal_of_reopens reopens (final _ ⟨[], cancelledBeforePlan, rfl⟩ [latePlan])

end FoldState

end Arco.Flow
