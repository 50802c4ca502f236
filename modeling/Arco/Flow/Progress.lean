import Arco.Flow.Steps

/-! How one task row moves.

`TaskRow.Change` lists the writes that an event can make to an existing task row, whichever
task the event names. The progress of a task is then a fact about single changes: it fails
only when a start of the current attempt is folded into a task that waits for its retry.
-/

namespace Arco.Flow

open Keyed Relation Table TaskState

/-- A single write of an event to an existing task row. -/
inductive TaskRow.Change (ext : Externals) (e : OrchestrationEvent) (t : TaskRow) : TaskRow → Prop where
  | updated {t' : TaskRow} (update : t.Updates e t') : Change ext e t t'
  | finished (p : TaskFinished) (isEvent : e.Finishes p) (key : t.key = (p.runId, p.taskKey))
      (current : t.IsCurrentAttempt p.toAttemptRef) (active : t.state.isTerminal = false) :
      Change ext e t (t.finish ext e.toEnvelope p)
  | counted : Change ext e t (t.countSatisfied e.toEnvelope)
  | closed (state : TaskState) (active : t.state.isTerminal = false)
      (forced : state = .skipped ∨ state = .cancelled) : Change ext e t (t.close e.toEnvelope state)

namespace Lifecycle

variable {ext : Externals} {e : OrchestrationEvent} {l l' : Lifecycle} {k : String × String} {t : TaskRow}

def Moved (ext : Externals) (e : OrchestrationEvent) (t : TaskRow) (k : String × String) (l' : Lifecycle) : Prop :=
  ∃ t', l'.tasks.find k = some t' ∧ ReflTransGen (TaskRow.Change ext e) t t'

theorem moved_of_mapRows {f : TaskRow → TaskRow} (keeps : ∀ row, (f row).key = row.key)
    (found : l.tasks.find k = some t) (mapped : l'.tasks = l.tasks.mapRows f)
    (change : f t = t ∨ TaskRow.Change ext e t (f t)) : Moved ext e t k l' := by
  refine ⟨f t, ?_, ?_⟩
  · rw [mapped, find_mapRows keeps, found, Option.map_some]
  · rcases change with same | change
    · rw [same]
    · exact .single change

theorem moved_satisfied (ext : Externals) (runId upstream : String) (attempt : Nat) (done : List String)
    (found : l.tasks.find k = some t) :
    Moved ext e t k (l.satisfied e.toEnvelope runId upstream attempt done) := by
  refine moved_of_mapRows (key_countIn done) found rfl ?_
  unfold countIn
  split
  · exact .inr .counted
  · exact .inl rfl

theorem moved_cascaded (ext : Externals) {runId : String} {closed : List String} (resolution : DepResolution)
    (wereOpen : ∀ d ∈ closed, l.Open runId d) (written : List DepSatisfactionRow) (found : l.tasks.find k = some t) :
    Moved ext e t k (l.cascaded e.toEnvelope runId resolution.cascadeState closed written) := by
  refine moved_of_mapRows (key_closeIn _ closed) found rfl ?_
  unfold closeIn
  split
  · rename_i here
    obtain ⟨_, foundRow, active⟩ := wereOpen t.taskKey here.2
    have key : k = (runId, t.taskKey) := by rw [← key_of_find found, ← here.1]; rfl
    rw [← key, found] at foundRow
    cases foundRow
    refine .inr (.closed _ active ?_)
    cases resolution <;> simp [DepResolution.cascadeState]
  · exact .inl rfl

theorem moved_finishTask (p : TaskFinished) (row : TaskRow) (isEvent : e.Finishes p) (completes : l.Completes p row)
    (found : l.tasks.find k = some t) : Moved ext e t k (l.finishTask ext e.toEnvelope p row) := by
  have rowKey := key_of_find completes.found
  -- the named task is finished first; then the same row may be reached again from downstream
  have written : Moved ext e t k (l.completed ext e.toEnvelope p row) := by
    have start := find_completed ext l e.toEnvelope p row k
    by_cases here : k = row.key
    · rw [if_pos here] at start
      rw [here, rowKey, completes.found] at found
      cases found
      exact ⟨_, start, .single (.finished p isEvent rowKey completes.current completes.active)⟩
    · rw [if_neg here, found] at start
      exact ⟨t, start, .refl⟩
  obtain ⟨t', foundAfter, first⟩ := written
  generalize finish : l.finishTask ext e.toEnvelope p row = after
  cases finished_finishTask completes finish with
  | retried isOpen => exact ⟨t', foundAfter, first⟩
  | succeeded success =>
    obtain ⟨last, foundLast, second⟩ := moved_satisfied ext p.runId p.taskKey p.attempt
      (l.getDependents p.runId p.taskKey) foundAfter
    exact ⟨last, foundLast, first.trans second⟩
  | failed fails closed nodup doomed =>
    obtain ⟨last, foundLast, second⟩ := moved_cascaded ext (failureResolution p.outcome)
      (completes.open_of_doomed fails doomed)
      (l.edgesFrom e.toEnvelope p.runId (cascadeItems p.taskKey (failureResolution p.outcome) closed)) foundAfter
    exact ⟨last, foundLast, first.trans second⟩

theorem ne_of_hasTasks_false {runId : String} (fresh : l.hasTasks runId = false)
    (found : l.tasks.find k = some t) : k.1 ≠ runId := by
  intro same
  have none := List.any_eq_false.mp fresh t (mem_of_find found)
  rw [← key_of_find found] at same
  exact none (decide_eq_true same)

theorem Step.task (step : Step ext e l l') (found : l.tasks.find k = some t) : Moved ext e t k l' := by
  cases step with
  | triggered p isEvent new => exact ⟨t, found, .refl⟩
  | planned p isEvent fresh =>
    refine ⟨t, ?_, .refl⟩
    rw [Lifecycle.planned, find_upsertAll_of_not_mem, found]
    intro other member same
    obtain ⟨d, _, rfl⟩ := List.mem_map.mp member
    exact ne_of_hasTasks_false fresh found (by rw [← same]; rfl)
  | cancelled p isEvent active =>
    refine moved_of_mapRows key_cancelIn found rfl ?_
    unfold cancelIn
    split
    · rename_i mine
      refine .inr (.closed _ ?_ (.inr rfl))
      exact (of_decide_eq_true mine).2.1
    · exact .inl rfl
  | updated row row' foundRow update =>
    by_cases here : k = row.key
    · rw [here, foundRow] at found
      cases found
      exact ⟨row', find_upsert_of_key (update.rewritten.key.trans here.symm), .single (.updated update)⟩
    · refine ⟨t, ?_, .refl⟩
      rw [find_upsert_of_ne (by rw [update.rewritten.key]; exact Ne.symm here), found]
  | finished p row isEvent foundRow current active =>
    exact moved_finishTask p row isEvent ⟨foundRow, current, active⟩ found

theorem Steps.task (steps : Steps ext e l l') (found : l.tasks.find k = some t) : Moved ext e t k l' := by
  induction steps with
  | refl => exact ⟨t, found, .refl⟩
  | tail _ step ih =>
    obtain ⟨_, foundMid, first⟩ := ih
    obtain ⟨last, foundLast, second⟩ := step.task foundMid
    exact ⟨last, foundLast, first.trans second⟩

end Lifecycle

theorem TaskState.rank_le_retryWait {state : TaskState} (active : state.isTerminal = false) :
    state.rank ≤ rank .retryWait := by
  cases state <;> first | decide | cases active

/-- Both states are open, or they are the same. -/
def TaskState.SameEnd (before after : TaskState) : Prop :=
  after = before ∨ (before.isTerminal = false ∧ after.isTerminal = false)

theorem TaskState.SameEnd.eq_iff {before after s : TaskState} (same : SameEnd before after) (terminal : s.isTerminal = true) :
    after = s ↔ before = s := by
  rcases same with rfl | ⟨wasOpen, isOpen⟩
  · rfl
  · constructor
    · rintro rfl
      cases isOpen.symm.trans terminal
    · rintro rfl
      cases wasOpen.symm.trans terminal

/-- The attempt and the rank of the state do not fall, and a terminal task keeps its attempt. -/
structure TaskRow.Progresses (t t' : TaskRow) : Prop where
  advances : t.attempt < t'.attempt ∨ (t.attempt = t'.attempt ∧ t.state.rank ≤ t'.state.rank)
  final : t.state.isTerminal = true → t'.state = t.state ∧ t'.attempt = t.attempt ∧ t'.attemptId = t.attemptId

namespace TaskRow

variable {ext : Externals} {e : OrchestrationEvent} {t t' t'' : TaskRow}

theorem Progresses.refl (t : TaskRow) : t.Progresses t :=
  ⟨.inr ⟨rfl, Nat.le_refl _⟩, fun _ => ⟨rfl, rfl, rfl⟩⟩

theorem Progresses.trans (first : t.Progresses t') (second : t'.Progresses t'') : t.Progresses t'' := by
  refine ⟨?_, fun ended => ?_⟩
  · have one := first.advances
    have two := second.advances
    omega
  · obtain ⟨state, attempt, attemptId⟩ := first.final ended
    obtain ⟨state', attempt', attemptId'⟩ := second.final (state ▸ ended)
    exact ⟨state'.trans state, attempt'.trans attempt, attemptId'.trans attemptId⟩

theorem Progresses.of_same (state : t'.state = t.state) (attempt : t'.attempt = t.attempt)
    (attemptId : t'.attemptId = t.attemptId) : t.Progresses t' :=
  ⟨.inr ⟨attempt.symm, by rw [state]⟩, fun _ => ⟨state, attempt, attemptId⟩⟩

theorem Progresses.of_active (active : t.state.isTerminal = false)
    (advances : t.attempt < t'.attempt ∨ (t.attempt = t'.attempt ∧ t.state.rank ≤ t'.state.rank)) :
    t.Progresses t' :=
  ⟨advances, fun ended => by rw [active] at ended; cases ended⟩

/-- A start of the current attempt that the task accepts although it waits for its retry. -/
def Restarts (t : TaskRow) (p : AttemptRef) : Prop :=
  t.state = .retryWait ∧ t.attempt = p.attempt ∧ (t.attemptId = none ∨ t.attemptId = some p.attemptId)

instance (p : AttemptRef) : Decidable (t.Restarts p) := inferInstanceAs (Decidable (_ ∧ _))

theorem start_eq {ev : Envelope} {p : AttemptRef} (new : t.start ev p = some t') :
    t'.state = .running ∧ t'.attempt = p.attempt := by
  unfold start at new
  split at new <;> cases new
  exact ⟨rfl, rfl⟩

theorem start_progresses {ev : Envelope} {p : AttemptRef} (new : t.start ev p = some t')
    (noRestart : ¬ t.Restarts p) : t.Progresses t' := by
  unfold start at new
  split at new
  · rename_i accepts
    cases new
    obtain ⟨active, later, sameId⟩ := accepts
    refine .of_active active ?_
    rcases Nat.lt_or_eq_of_le later with before | same
    · exact .inl before
    · refine .inr ⟨same, ?_⟩
      have waits : t.state ≠ .retryWait := fun waits => noRestart ⟨waits, same, sameId same.symm⟩
      generalize t.state = state at active waits
      cases state <;> simp_all [rank, isTerminal]
  · cases new

theorem dispatch_progresses {ev : Envelope} {attempt : Nat} {attemptId : String}
    (unconsumed : ¬ t.Consumed attempt) (new : t.dispatch ev attempt attemptId = some t') : t.Progresses t' := by
  unfold dispatch at new
  split at new
  · rename_i accepts
    cases new
    obtain ⟨waiting, later, _⟩ := accepts
    rcases Nat.lt_or_eq_of_le later with before | same
    · exact .of_active (by rcases waiting with h | h | h <;> rw [h] <;> rfl) (.inl before)
    · -- an attempt that waits for its retry is consumed
      rcases waiting with ready | waits | dispatched
      · refine .of_active (by rw [ready]; rfl) (.inr ⟨same, ?_⟩)
        exact ready ▸ (by decide : rank .ready ≤ rank .dispatched)
      · exact absurd (.inr ⟨same, .inr (.inl waits)⟩) unconsumed
      · exact .of_active (by rw [dispatched]; rfl) (.inr ⟨same, by rw [dispatched]⟩)
  · cases new

theorem Updates.sameEnd (update : t.Updates e t') : SameEnd t.state t'.state := by
  cases update.rewritten.moves with
  | stays state _ _ => exact .inl state
  | starts p _ _ active state => exact .inr ⟨active, by rw [state]; rfl⟩
  | dispatches p _ _ _ waiting state => exact .inr ⟨active_of_waiting waiting, by rw [state]; rfl⟩

/-- Only a start may let a task fall back. -/
theorem Updates.progresses_or_starts (update : t.Updates e t') :
    t.Progresses t' ∨ ∃ p, e.data = .taskStarted p ∧ t.start e.toEnvelope p = some t' := by
  cases update.rewritten.moves with
  | stays state attempt attemptId => exact .inl (.of_same state attempt attemptId)
  | starts p isEvent new _ _ => exact .inr ⟨p, isEvent, new⟩
  | dispatches p attemptId unconsumed new _ _ => exact .inl (dispatch_progresses unconsumed new)

theorem attempt_finish (ev : Envelope) (p : TaskFinished) :
    (t.finish ext ev p).attempt = t.attempt ∧ (t.finish ext ev p).attemptId = t.attemptId := by
  unfold finish
  split <;> exact ⟨rfl, rfl⟩

/-- No state that is not terminal has a higher rank than the one a completion leads to. -/
theorem rank_le_stateAfter (active : t.state.isTerminal = false) (outcome : TaskOutcome) :
    t.state.rank ≤ (t.stateAfter outcome).rank := by
  refine (rank_le_retryWait active).trans ?_
  cases outcome with
  | failed =>
    simp only [stateAfter]
    split
    · exact Nat.le_refl _
    · exact (by decide : rank .retryWait ≤ rank .failed)
  | succeeded => exact (by decide : rank .retryWait ≤ rank .succeeded)
  | skipped => exact (by decide : rank .retryWait ≤ rank .skipped)
  | cancelled => exact (by decide : rank .retryWait ≤ rank .cancelled)

theorem countSatisfied_progresses (ev : Envelope) : t.Progresses (t.countSatisfied ev) := by
  dsimp only [countSatisfied]
  split
  · rename_i last
    refine .of_active (by rw [last.2]; rfl) (.inr ⟨rfl, ?_⟩)
    exact last.2 ▸ (by decide : rank .blocked ≤ rank .ready)
  · exact .of_same rfl rfl rfl

theorem Change.progresses_or_starts (change : t.Change ext e t') :
    t.Progresses t' ∨ ∃ p, e.data = .taskStarted p ∧ t.start e.toEnvelope p = some t' := by
  cases change with
  | updated update => exact update.progresses_or_starts
  | finished p isEvent key current active =>
    refine .inl (.of_active active (.inr ⟨(attempt_finish _ p).1.symm, ?_⟩))
    rw [state_finish]
    exact rank_le_stateAfter active p.outcome
  | counted => exact .inl (countSatisfied_progresses _)
  | closed state active forced =>
    refine .inl (.of_active active (.inr ⟨rfl, (rank_le_retryWait active).trans ?_⟩))
    rcases forced with rfl | rfl
    · exact (by decide : rank .retryWait ≤ rank .skipped)
    · exact (by decide : rank .retryWait ≤ rank .cancelled)

theorem progresses_of_changes (notStart : ∀ p, e.data ≠ .taskStarted p)
    (changes : ReflTransGen (Change ext e) t t') : t.Progresses t' := by
  induction changes with
  | refl => exact .refl t
  | tail _ change ih =>
    refine ih.trans (change.progresses_or_starts.resolve_right ?_)
    exact fun ⟨p, isEvent, _⟩ => notStart p isEvent

end TaskRow

namespace FoldState

variable {ext : Externals} {e : OrchestrationEvent} {s : FoldState}

/-- The event starts an attempt whose task waits for the retry of that attempt. -/
def RestartsRetry (s : FoldState) (e : OrchestrationEvent) : Prop :=
  s.IsNew e ∧
    ∃ p t, e.data = .taskStarted p ∧ s.tasks.find (p.runId, p.taskKey) = some t ∧ t.Restarts p

theorem toLifecycle_foldEvent_taskStarted {p : AttemptRef} (isEvent : e.data = .taskStarted p)
    (new : s.IsNew e) :
    (s.foldEvent ext e).toLifecycle =
      (s.toLifecycle.updateTask (p.runId, p.taskKey) (TaskRow.start e.toEnvelope p)).1 := by
  rw [toLifecycle_foldEvent ext s e new, isEvent, apply, toLifecycle_refreshed, toLifecycle_foldTaskStarted]

def TasksProgress (s s' : FoldState) : Prop :=
  ∀ k t, s.tasks.find k = some t → ∃ t', s'.tasks.find k = some t' ∧ t.Progresses t'

theorem TasksProgress.refl (s : FoldState) : s.TasksProgress s := fun _ t found => ⟨t, found, .refl t⟩

theorem tasksProgress_taskStarted {p : AttemptRef} (isEvent : e.data = .taskStarted p)
    (new : s.IsNew e) (noRestart : ¬ s.RestartsRetry e) :
    s.TasksProgress (s.foldEvent ext e) := by
  intro k t found
  rw [toLifecycle_foldEvent_taskStarted isEvent new]
  unfold Lifecycle.updateTask
  split
  · rename_i row started
    obtain ⟨old, foundOld, accepted⟩ := Option.bind_eq_some_iff.mp started
    have rowKey : row.key = old.key :=
      (TaskRow.Updates.started p isEvent (key_of_find foundOld) accepted).rewritten.key
    by_cases here : k = old.key
    · rw [here, key_of_find foundOld, foundOld] at found
      cases found
      refine ⟨row, find_upsert_of_key (rowKey.trans here.symm), ?_⟩
      exact TaskRow.start_progresses accepted fun restarts => noRestart ⟨new, p, t, isEvent, foundOld, restarts⟩
    · refine ⟨t, ?_, .refl t⟩
      rw [find_upsert_of_ne (by rw [rowKey]; exact Ne.symm here), found]
  · exact ⟨t, found, .refl t⟩

theorem not_tasksProgress_of_restart (restarts : s.RestartsRetry e) : ¬ s.TasksProgress (s.foldEvent ext e) := by
  intro progress
  obtain ⟨new, p, t, isEvent, found, waits, same, sameId⟩ := restarts
  have accepts : t.AcceptsStart p := ⟨by rw [waits]; rfl, Nat.le_of_eq same, fun _ => sameId⟩
  obtain ⟨row, started⟩ : ∃ row, t.start e.toEnvelope p = some row := ⟨_, if_pos accepts⟩
  have rowKey := (TaskRow.Updates.started p isEvent (key_of_find found) started).rewritten.key
  obtain ⟨_, found', advances, _⟩ := progress _ t found
  rw [toLifecycle_foldEvent_taskStarted isEvent new, Lifecycle.updateTask, found, Option.bind_some, started,
    find_upsert_of_key (rowKey.trans (key_of_find found))] at found'
  cases found'
  obtain ⟨running, attempt⟩ := TaskRow.start_eq started
  rw [waits, running, attempt, same] at advances
  exact absurd advances (by simp [rank])

theorem foldEvent_tasksProgress (ext : Externals) (s : FoldState) (e : OrchestrationEvent)
    (noRestart : ¬ s.RestartsRetry e) : s.TasksProgress (s.foldEvent ext e) := by
  by_cases new : s.IsNew e
  · by_cases start : ∃ p, e.data = .taskStarted p
    · obtain ⟨p, isEvent⟩ := start
      exact tasksProgress_taskStarted isEvent new noRestart
    · intro k t found
      obtain ⟨t', found', changes⟩ := (foldEvent_steps ext s e).task found
      exact ⟨t', found', TaskRow.progresses_of_changes (fun p isEvent => start ⟨p, isEvent⟩) changes⟩
  · rw [foldEvent, if_pos (by simpa using new)]
    exact .refl s

/-- Folding an event lets every task progress, unless it restarts an attempt that failed. -/
theorem foldEvent_tasksProgress_iff (ext : Externals) (s : FoldState) (e : OrchestrationEvent) :
    s.TasksProgress (s.foldEvent ext e) ↔ ¬ s.RestartsRetry e :=
  ⟨fun progress restarts => not_tasksProgress_of_restart restarts progress, foldEvent_tasksProgress ext s e⟩

def firstAttempt : AttemptRef := { runId := "run", taskKey := "extract", attempt := 1, attemptId := "a1" }

def firstDispatch : DispatchRequested := { toAttemptRef := firstAttempt, dispatchId := dispatchIdOf "run" "extract" 1 }

def firstFinish (outcome : TaskOutcome) : TaskFinished := { toAttemptRef := firstAttempt, outcome }

def earlyFailure : List OrchestrationEvent :=
  [.sample "01" (.planCreated .sample),
   .sample "02" (.dispatchRequested firstDispatch),
   .sample "03" (.taskFinished (firstFinish .failed))]

theorem late_start_lowers_rank :
    ¬ ∀ s, Reachable .constant s → ∀ e, s.TasksProgress (s.foldEvent .constant e) := by
  intro progress
  have waits : ((foldEvents .constant {} earlyFailure).tasks.find ("run", "extract")).any
      (fun t => t.Restarts firstAttempt) = true := by decide
  obtain ⟨t, found, restarts⟩ := (Option.any_eq_true _ _).mp waits
  have start : (foldEvents .constant {} earlyFailure).RestartsRetry (.sample "04" (.taskStarted firstAttempt)) :=
    ⟨by decide, firstAttempt, t, rfl, found, of_decide_eq_true restarts⟩
  exact not_tasksProgress_of_restart start (progress _ ⟨[], earlyFailure, rfl⟩ _)

end FoldState

end Arco.Flow
