import Arco.Flow.Catalog

/-! The catalog run index is a projection of the runs and the tasks.

A handler that writes a run or its tasks leaves the rows of all other runs as they are, and
the rows of its run are refreshed afterwards. The time of a retry is not part of a catalog row.
-/

namespace Arco.Flow

open Keyed Table

/-- A catalog row without its version and the time of its last update. -/
def CatalogRunIndexRow.projection (row : CatalogRunIndexRow) : CatalogRunIndexRow :=
  { row with updatedAt := 0, rowVersion := "" }

/-- What the catalog is to show of a run and one of its tasks: the columns of the two rows, three labels of the run,
and the asset, which is named by a table behind the first slash or else the first dot. -/
def CatalogRunIndexRow.ofRows (tenantId workspaceId : String) (run : RunRow) (task : TaskRow) (assetKey : String) :
    CatalogRunIndexRow :=
  let parts := Text.splitOnce '/' assetKey <|> Text.splitOnce '.' assetKey
  { schemaVersion := 1
    orgId := tenantId
    workspaceId := workspaceId
    runId := run.runId
    planId := run.planId
    runKey := run.runKey
    runStatus := run.state
    cancelRequested := run.cancelRequested
    triggeredAt := run.triggeredAt
    completedAt := run.completedAt
    codeVersion := run.codeVersion
    kind := run.labels.get "kind" <|> run.labels.get "run_kind"
    referenceId := run.labels.get "reference_id" <|> run.labels.get "referenceId"
    sourceType := run.labels.get "source_type" <|> run.labels.get "sourceType"
    assetKey := some assetKey
    targetNamespace := (parts.map Prod.fst).filter (· ≠ "")
    targetTable := if parts.isSome then (parts.map Prod.snd).filter (· ≠ "") else some assetKey
    taskKey := task.taskKey
    taskStatus := task.state
    partitionKey := task.partitionKey
    attempt := task.attempt
    attemptId := task.attemptId
    requiresVisibleOutput := task.requiresVisibleOutput
    materializationId := task.materializationId
    outputVisibilityState := task.outputVisibilityState
    publishedAt := task.publishedAt
    publishError := task.publishError
    deltaTable := task.deltaTable
    deltaVersion := task.deltaVersion
    deltaPartition := task.deltaPartition
    executionLineageRef := task.executionLineageRef
    startedAt := task.startedAt
    lastHeartbeatAt := task.lastHeartbeatAt
    errorMessage := task.errorMessage
    updatedAt := 0
    rowVersion := "" }

theorem TaskRow.Change.assetKey {ext : Externals} {e : OrchestrationEvent} {t t' : TaskRow} (change : t.Change ext e t')
    (shown : t.assetKey.isSome = true) : t'.assetKey.isSome = true := by
  cases change with
  | updated update => rwa [update.rewritten.asset]
  | finished p =>
    unfold TaskRow.finish
    split <;> simp [shown]
  | counted =>
    dsimp only [TaskRow.countSatisfied]
    split <;> exact shown
  | closed => exact shown

namespace Lifecycle

variable {ext : Externals} {ev : Envelope} {l l' : Lifecycle} {r : Lifecycle × Bool} {runId : String}

/-- The handler writes rows of one run only, and none that are shown if the event is not applied. -/
structure Within (runId : String) (l : Lifecycle) (r : Lifecycle × Bool) : Prop where
  runs : ∀ id, id ≠ runId → r.1.runs.find id = l.runs.find id
  tasks : ∀ id, id ≠ runId → ∀ k, r.1.tasks.find (id, k) = l.tasks.find (id, k)
  silent : r.2 = false → r.1 = l ∨ l.runs.find runId = none ∧ r.1.runs.find runId = none

def rowsOf (l : Lifecycle) (runId : String) : Option RunRow × (String → Option TaskRow) :=
  (l.runs.find runId, fun taskKey => l.tasks.find (runId, taskKey))

/-- Neither a run nor the asset of a task is lost. -/
structure Keeps (l l' : Lifecycle) : Prop where
  run : ∀ id, l'.runs.find id = none → l.runs.find id = none
  asset : ∀ k t, l.tasks.find k = some t → t.assetKey.isSome = true →
    ∃ t', l'.tasks.find k = some t' ∧ t'.assetKey.isSome = true

namespace Within

theorem idle (applied : Bool) : Within runId l (l, applied) :=
  ⟨fun _ _ => rfl, fun _ _ _ => rfl, fun _ => .inl rfl⟩

theorem applied (within : Within runId l r) : Within runId l (r.1, true) :=
  ⟨within.runs, within.tasks, fun silent => Bool.noConfusion silent⟩

theorem trans (first : Within runId l (l', true)) (second : Within runId l' r) : Within runId l (r.1, true) where
  runs id other := (second.runs id other).trans (first.runs id other)
  tasks id other k := (second.tasks id other k).trans (first.tasks id other k)
  silent dropped := Bool.noConfusion dropped

theorem updateTask {key : String × String} {f : TaskRow → Option TaskRow}
    (keeps : ∀ t t', l.tasks.find key = some t → f t = some t' → t'.key = t.key) :
    Within key.1 l (l.updateTask key f) := by
  unfold Lifecycle.updateTask
  split
  · rename_i t' written
    obtain ⟨t, found, new⟩ := Option.bind_eq_some_iff.mp written
    have sameKey := (keeps t t' found new).trans (key_of_find found)
    refine ⟨fun _ _ => rfl, fun id other k => find_upsert_of_ne ?_, fun dropped => Bool.noConfusion dropped⟩
    rw [sameKey]
    rintro rfl
    exact other rfl
  · exact .idle false

theorem foldRunTriggered (p : RunTriggered) : Within p.runId l (l.foldRunTriggered ev p) := by
  unfold Lifecycle.foldRunTriggered
  split
  · exact .idle false
  · exact ⟨fun id other => find_upsert_of_ne (Ne.symm other), fun _ _ _ => rfl, fun silent => Bool.noConfusion silent⟩

theorem foldPlanCreated (p : PlanCreated) : Within p.runId l (l.foldPlanCreated ev p) := by
  refine ⟨fun id other => ?_, fun id other k => ?_, fun dropped => ?_⟩ <;> rw [foldPlanCreated_eq]
  · split
    · rfl
    · have keeps : ∀ run : RunRow, (run.plan ev p.tasks.length).runId = run.runId := fun _ => rfl
      exact find_modify_of_ne keeps l.runs other
  · split
    · rfl
    · exact congrFun (congrArg RunView.task (view_planned_other other)) k
  · unfold Lifecycle.foldPlanCreated at dropped
    split at dropped
    · rename_i known
      exact .inl (if_pos known)
    · rename_i fresh
      have missing : l.runs.find p.runId = none := by simpa [contains] using (Bool.or_eq_false_iff.mp dropped).1
      simp [fresh, planned, Table.modify, missing]

theorem foldRunCancelRequested (p : RunCancelRequested) : Within p.runId l (l.foldRunCancelRequested ev p) := by
  refine ⟨fun id other => ?_, fun id other k => ?_, fun dropped => ?_⟩ <;> rw [foldRunCancelRequested_eq]
  · split
    · rfl
    · exact find_modify_of_ne (runId_cancelledRun _) l.runs other
  · split
    · rfl
    · refine find_mapRows_other key_cancelIn (fun t run => ?_) k
      rw [cancelIn, if_neg]
      intro mine
      exact other (run.symm.trans (of_decide_eq_true mine).1)
  · unfold Lifecycle.foldRunCancelRequested at dropped
    split at dropped
    · rename_i ended
      exact .inl (if_pos ended)
    · rename_i active
      have missing : l.runs.find p.runId = none := by simpa [contains] using (Bool.or_eq_false_iff.mp dropped).1
      simp [active, cancelRequested, Table.modify, missing]

theorem foldTaskFinished (p : TaskFinished) : Within p.runId l (l.foldTaskFinished ext ev p) := by
  by_cases accepted : ∃ t, l.Completes p t
  · obtain ⟨t, completes⟩ := accepted
    rw [foldTaskFinished_of_completes ext ev completes]
    exact ⟨fun id other => runs_finishTask completes other,
      fun id other k => congrFun (congrArg RunView.task (view_finishTask_other completes other)) k,
      fun silent => Bool.noConfusion silent⟩
  · rw [foldTaskFinished_of_not ext ev (not_exists.mp accepted)]
    exact .idle false

theorem rowsOf {id : String} (within : Within runId l r) (other : id ≠ runId) : r.1.rowsOf id = l.rowsOf id :=
  Prod.ext (within.runs id other) (funext (within.tasks id other))

end Within

end Lifecycle

namespace FoldState

open Lifecycle

variable {ext : Externals} {ev : Envelope} {e : OrchestrationEvent} {s s' : FoldState} {runId : String}

structure Handles (runId : String) (s : FoldState) (r : FoldState × Bool) : Prop
    extends Within runId s.toLifecycle (r.1.toLifecycle, r.2) where
  catalog : r.1.catalogRunIndex = s.catalogRunIndex

theorem within_taskUpdate {key : String × String} {f : TaskRow → Option TaskRow}
    (update : s.taskUpdate e = some (key, f)) : Within key.1 s.toLifecycle (s.toLifecycle.updateTask key f) :=
  .updateTask fun _ _ found new => (taskUpdate_updates update found new).1.rewritten.key

namespace Handles

theorem onLifecycle {r : Lifecycle × Bool} (within : Within runId s.toLifecycle r) : Handles runId s (s.onLifecycle r) :=
  { within with catalog := rfl }

theorem foldTaskStarted {p : AttemptRef} (isEvent : e.data = .taskStarted p) :
    Handles p.runId s (s.foldTaskStarted e.toEnvelope p) := by
  have within := @within_taskUpdate e s (p.runId, p.taskKey) _ (by rw [taskUpdate, isEvent])
  dsimp only [FoldState.foldTaskStarted]
  split
  · exact { within.applied with catalog := rfl }
  · rename_i dropped
    rw [Bool.not_eq_true] at dropped
    exact { within with silent := fun _ => within.silent dropped, catalog := rfl }

theorem foldTaskFinished (p : TaskFinished) : Handles p.runId s (s.foldTaskFinished ext ev p) := by
  have within := @Within.foldTaskFinished ext ev s.toLifecycle p
  refine { (?_ : Within p.runId _ _) with catalog := (frame_foldTaskFinished (.taskFinished p) p).catalogRunIndex }
  rwa [toLifecycle_foldTaskFinished, changed_foldTaskFinished]

theorem foldTaskCompletionRecorded (p : TaskCompletionRecorded) :
    Handles p.runId s (s.foldTaskCompletionRecorded ext e.toEnvelope p) := by
  have finished : Handles p.runId s (s.foldTaskFinished ext e.toEnvelope p.toTaskFinished) := .foldTaskFinished _
  dsimp only [FoldState.foldTaskCompletionRecorded]
  split
  · split
    · refine { finished.applied.trans (@Within.updateTask _ (p.runId, p.taskKey) _ fun t t' _ new => ?_) with
        catalog := finished.catalog }
      exact (TaskRow.Updates.visibility (e := e) _ _ new).rewritten.key
    · exact finished
  · exact finished

theorem foldDispatchRequested {p : DispatchRequested} (isEvent : e.data = .dispatchRequested p) :
    Handles p.runId s (s.foldDispatchRequested e.toEnvelope p) := by
  unfold FoldState.foldDispatchRequested
  split
  · exact { Within.idle false with catalog := rfl }
  · rename_i open_
    have within := @within_taskUpdate e s (p.runId, p.taskKey) _ (by rw [taskUpdate, isEvent]; exact if_neg open_)
    unfold dispatchAttemptId at within
    split
    · rename_i existing found
      rw [found] at within
      refine { within with silent := fun dropped => within.silent ?_, catalog := rfl }
      exact (Bool.or_eq_false_iff.mp (Bool.or_eq_false_iff.mp dropped).1).1
    · rename_i found
      rw [found] at within
      exact { within.applied with catalog := rfl }

end Handles

/-- An event either has the catalog rows of its run refreshed, or changes nothing that they show. -/
inductive Touches (e : OrchestrationEvent) (s : FoldState) : FoldState → Prop where
  | run {runId : String} {r : FoldState × Bool} (handles : Handles runId s r) : Touches e s (refreshed e.toEnvelope runId r).1
  | hidden {s' : FoldState} (catalog : s'.catalogRunIndex = s.catalogRunIndex) (same : s'.toLifecycle = s.toLifecycle) :
      Touches e s s'
  | retryTime {s' : FoldState} (catalog : s'.catalogRunIndex = s.catalogRunIndex) (key : String × String) (attempt : Nat)
      (fireAt : Timestamp) (updated : s'.toLifecycle =
        (s.toLifecycle.updateTask key (TaskRow.setRetryNotBefore e.toEnvelope attempt fireAt)).1) : Touches e s s'

theorem touches_upsertTimer (timerId : String) (change : TimerRow → TimerRow) (created : Option TimerRow) :
    Touches e s (s.upsertTimer ev timerId change created).1 := by
  unfold upsertTimer
  repeat' split
  all_goals exact .hidden rfl rfl

theorem touches_foldTimerRequested (p : TimerRequested) : Touches e s (s.foldTimerRequested e.toEnvelope p).1 := by
  unfold foldTimerRequested setRetryNotBefore
  repeat' split
  all_goals first
    | exact .hidden rfl rfl
    | exact .retryTime rfl _ _ _ rfl

theorem touches_foldDispatchEnqueued (p : DispatchEnqueued) : Touches e s (s.foldDispatchEnqueued ev p).1 := by
  unfold foldDispatchEnqueued acknowledge
  repeat' split
  all_goals exact .hidden rfl rfl

theorem touches_apply (ext : Externals) (s : FoldState) (e : OrchestrationEvent) :
    Touches e s (s.apply ext e.toEnvelope e.data).1 := by
  cases isEvent : e.data with
  | runTriggered p => exact .run (.onLifecycle (.foldRunTriggered p))
  | planCreated p => exact .run (.onLifecycle (.foldPlanCreated p))
  | runCancelRequested p => exact .run (.onLifecycle (.foldRunCancelRequested p))
  | taskHeartbeat p | taskOutputVisibilityChanged p =>
    exact .run (.onLifecycle (@within_taskUpdate e s (p.runId, p.taskKey) _ (by rw [taskUpdate, isEvent])))
  | taskStarted p => exact .run (.foldTaskStarted isEvent)
  | taskFinished p => exact .run (.foldTaskFinished p)
  | taskCompletionRecorded p => exact .run (.foldTaskCompletionRecorded p)
  | dispatchRequested p => exact .run (.foldDispatchRequested isEvent)
  | dispatchEnqueued p => exact touches_foldDispatchEnqueued p
  | timerRequested p => exact touches_foldTimerRequested p
  | timerEnqueued p | timerFired p => exact touches_upsertTimer _ _ _
  | _ => exact .hidden rfl rfl

/-- The row that the run and the task under a key call for, in the workspace of the envelope. -/
def projected (s : FoldState) (ev : Envelope) (k : String × String × String × String) : Option CatalogRunIndexRow := do
  guard ((k.1, k.2.1) = (ev.tenantId, ev.workspaceId))
  let run ← s.runs.find k.2.2.1
  let task ← s.tasks.find k.2.2
  let assetKey ← task.assetKey
  return .ofRows ev.tenantId ev.workspaceId run task assetKey

def Projects (ev : Envelope) (s : FoldState) : Prop :=
  ∀ k, (s.catalogRunIndex.find k).map CatalogRunIndexRow.projection = s.projected ev k

variable {k : String × String × String × String}

theorem projected_congr (runs : s'.runs.find k.2.2.1 = s.runs.find k.2.2.1)
    (tasks : s'.tasks.find k.2.2 = s.tasks.find k.2.2) : s'.projected ev k = s.projected ev k := by
  unfold projected
  rw [runs, tasks]

theorem projected_of_missing (missing : s.runs.find k.2.2.1 = none) : s.projected ev k = none := by
  simp [projected, missing]

theorem projected_of_blank
    (blank : (k.1, k.2.1) = (ev.tenantId, ev.workspaceId) → ∀ task, s.tasks.find k.2.2 = some task →
      task.assetKey.isSome = false) : s.projected ev k = none := by
  unfold projected
  by_cases here : (k.1, k.2.1) = (ev.tenantId, ev.workspaceId)
  · cases found : s.tasks.find k.2.2 with
    | none => simp
    | some task => simp [Option.not_isSome_iff_eq_none.mp (by simpa using blank here task found)]
  · simp [here]

theorem projected_retryTime {key : String × String} {attempt : Nat} {fireAt : Timestamp} (updated : s'.toLifecycle =
      (s.toLifecycle.updateTask key (TaskRow.setRetryNotBefore e.toEnvelope attempt fireAt)).1)
    (k : String × String × String × String) : s'.projected ev k = s.projected ev k := by
  unfold projected
  rw [updated]
  unfold updateTask
  split
  · rename_i t' written
    obtain ⟨t, found, new⟩ := Option.bind_eq_some_iff.mp written
    unfold TaskRow.setRetryNotBefore at new
    split at new <;> cases new
    rw [find_upsert]
    split
    · rename_i here
      have mine : t.key = key := key_of_find found
      have same : k.2.2 = key := here.symm.trans mine
      rw [same, found]
      rfl
    · rfl
  · rfl

theorem labelValue_pair (labels : Map String String) (first second : String) :
    labelValue labels [first, second] = (labels.get first <|> labels.get second) := by
  cases isFirst : labels.get first <;> cases isSecond : labels.get second <;> simp [labelValue, isFirst, isSecond]

theorem parseCatalogAssetKey_eq (assetKey : String) : parseCatalogAssetKey assetKey =
    let parts := Text.splitOnce '/' assetKey <|> Text.splitOnce '.' assetKey
    ((parts.map Prod.fst).filter (· ≠ ""),
      if parts.isSome then (parts.map Prod.snd).filter (· ≠ "") else some assetKey) := by
  unfold parseCatalogAssetKey nonempty
  cases Text.splitOnce '/' assetKey with
  | some parts => simp [Option.filter, ite_not]
  | none => cases Text.splitOnce '.' assetKey <;> simp [Option.filter, ite_not]

theorem projection_catalogRow (own : e.tenantId = ev.tenantId ∧ e.workspaceId = ev.workspaceId) (run : RunRow)
    (task : TaskRow) (assetKey : String) (existing : Option CatalogRunIndexRow) :
    (catalogRow e.toEnvelope run task assetKey existing).projection =
      .ofRows ev.tenantId ev.workspaceId run task assetKey := by
  simp only [CatalogRunIndexRow.projection, CatalogRunIndexRow.ofRows, catalogRow, own, labelValue_pair,
    parseCatalogAssetKey_eq]

theorem Projects.refreshed {r : FoldState × Bool} (projects : Projects ev s)
    (own : e.tenantId = ev.tenantId ∧ e.workspaceId = ev.workspaceId) (handles : Handles runId s r)
    (keeps : Keeps s.toLifecycle r.1.toLifecycle) : Projects ev (refreshed e.toEnvelope runId r).1 := by
  have outside : ∀ k, k.2.2.1 ≠ runId → r.1.projected ev k = s.projected ev k := fun k other =>
    projected_congr (handles.runs _ other) (handles.tasks _ other _)
  have unshown : r.1.runs.find runId = none → Projects ev r.1 := by
    intro missing k
    rw [handles.catalog, projects k]
    by_cases mine : k.2.2.1 = runId
    · rw [projected_of_missing (mine ▸ keeps.run _ missing), projected_of_missing (mine ▸ missing)]
    · exact (outside k mine).symm
  unfold FoldState.refreshed refreshCatalogRunIndexForRun
  split
  · dsimp only
    split
    · rename_i missing
      exact unshown missing
    · rename_i run found
      cases key_of_find found
      intro k
      rcases find_refreshTasks e.toEnvelope run (r.1.tasks.rows.filter fun t => t.runId = run.runId)
        r.1.catalogRunIndex k with ⟨same, others⟩ | ⟨task, member, assetKey, existing, asset, rfl, shown⟩
      · show Option.map _ _ = r.1.projected ev k
        rw [same, handles.catalog, projects k]
        by_cases mine : k.2.2.1 = run.runId
        · -- the run has no task with an asset under this key, and had none before
          have blank : (k.1, k.2.1) = (ev.tenantId, ev.workspaceId) → ∀ task, r.1.tasks.find k.2.2 = some task →
              task.assetKey.isSome = false := by
            intro here task foundTask
            have key : task.key = k.2.2 := key_of_find foundTask
            have ofRun : task.runId = k.2.2.1 := congrArg Prod.fst key
            refine Bool.eq_false_iff.mpr fun shown => others task (List.mem_filter.mpr
              ⟨mem_of_find foundTask, decide_eq_true (ofRun.trans mine)⟩) shown ?_
            rw [own.1, own.2, ← mine, ← ofRun]
            exact Prod.ext (congrArg Prod.fst here).symm (Prod.ext (congrArg Prod.snd here).symm key)
          rw [projected_of_blank blank, projected_of_blank fun here task foundTask => ?_]
          refine Bool.eq_false_iff.mpr fun shown => ?_
          obtain ⟨task', foundTask', shown'⟩ := keeps.asset _ task foundTask shown
          rw [blank here task' foundTask'] at shown'
          cases shown'
        · exact (outside k mine).symm
      · show Option.map _ _ = r.1.projected ev _
        obtain ⟨inTasks, ofRun⟩ := List.mem_filter.mp member
        have key : task.key = (run.runId, task.taskKey) := by rw [← of_decide_eq_true ofRun]; rfl
        have foundTask := key ▸ find_of_mem inTasks
        rw [shown]
        simp [projected, own, found, foundTask, asset, projection_catalogRow own]
  · rename_i dropped
    rcases handles.silent (Bool.eq_false_iff.mpr dropped) with (same : r.1.toLifecycle = _) | ⟨-, missing⟩
    · intro k
      rw [handles.catalog, projects k]
      exact (projected_congr (by rw [same]) (by rw [same])).symm
    · exact unshown missing

theorem keeps_foldEvent (ext : Externals) (s : FoldState) (e : OrchestrationEvent) (new : s.IsNew e) :
    Keeps s.toLifecycle (s.apply ext e.toEnvelope e.data).1.toLifecycle where
  run id missing := by
    have kept := (stamps_runs_apply ext s e).keys
    rw [find_eq_none_iff] at missing ⊢
    exact fun present => missing (kept.subset present)
  asset k t found shown := by
    obtain ⟨t', found', moves⟩ := (foldEvent_steps ext s e).task found
    rw [toLifecycle_foldEvent ext s e new] at found'
    refine ⟨t', found', ?_⟩
    clear found found'
    induction moves with
    | refl => exact shown
    | tail _ change ih => exact change.assetKey ih

theorem Projects.foldEvent (projects : Projects ev s) (ext : Externals)
    (own : e.tenantId = ev.tenantId ∧ e.workspaceId = ev.workspaceId) : Projects ev (s.foldEvent ext e) := by
  refine foldEvent_cases ext s e projects fun new => ?_
  have keeps := keeps_foldEvent ext s e new
  have touches := touches_apply ext s e
  obtain ⟨_, folded⟩ := foldEvent_of_new ext new
  suffices Projects ev (s.apply ext e.toEnvelope e.data).1 by rwa [folded]
  generalize (s.apply ext e.toEnvelope e.data).1 = s' at keeps touches
  cases touches with
  | run handles =>
    rw [toLifecycle_refreshed] at keeps
    exact projects.refreshed own handles keeps
  | hidden catalog same =>
    intro k
    rw [catalog, projects k]
    exact (projected_congr (by rw [same]) (by rw [same])).symm
  | retryTime catalog key attempt fireAt updated =>
    intro k
    rw [catalog, projects k]
    exact (projected_retryTime updated k).symm

/-- Whatever events of a workspace were folded, the catalog holds the rows that its runs and their tasks call for,
and no others. -/
theorem catalogRunIndex_projects (ext : Externals) (secret : List UInt8) (ev : Envelope) {events : List OrchestrationEvent}
    (own : ∀ e ∈ events, e.tenantId = ev.tenantId ∧ e.workspaceId = ev.workspaceId) :
    Projects ev (foldEvents ext { tenantSecret := secret } events) :=
  foldEvents_induction (Projects ev) (fun _ _ projects own => projects.foldEvent ext own)
    (fun _ => (projected_of_missing rfl).symm) (.of_forall (fun e member _ => own e member) _)

/-- The run is triggered after its only task was planned and started. -/
def startedFirst : List OrchestrationEvent :=
  [.sample "01" (.planCreated { runId := "run", tasks := [{ key := "extract", dependsOn := [], assetKey := some "a.b" }] }),
   .sample "02" (.taskStarted firstAttempt),
   .sample "03" (.runTriggered { runId := "run", planId := "plan" })]

theorem catalogRunIndex_projects_startedFirst :
    (foldEvents .constant {} startedFirst).catalogRunIndex.rows.map (fun row => (row.planId, row.runStatus, row.taskKey,
      row.taskStatus, row.targetNamespace, row.targetTable)) =
        [("plan", .running, "extract", .running, some "a", some "b")] ∧
      Projects (OrchestrationEvent.sample "00" .unknown).toEnvelope (foldEvents .constant {} startedFirst) :=
  ⟨rfl, catalogRunIndex_projects .constant [] _ (by decide)⟩

theorem rowsOf_apply (ext : Externals) {id : String} (other : e.data.runId ≠ some id) :
    (s.apply ext e.toEnvelope e.data).1.rowsOf id = s.rowsOf id := by
  have outside {runId : String} {r : FoldState × Bool} (handles : Handles runId s r) (other : some runId ≠ some id) :
      (refreshed e.toEnvelope runId r).1.rowsOf id = s.rowsOf id := by
    rw [toLifecycle_refreshed]
    exact handles.toWithin.rowsOf fun same => other (congrArg some same.symm)
  rcases e.data.kinds with ⟨p, isCompletion⟩ | ⟨p, isEvent⟩ | ⟨p, isEvent⟩ | ⟨p, isEvent⟩ | isLocal
  · rcases finishes_of_completion isCompletion with isEvent | ⟨q, isEvent, rfl⟩ <;> rw [isEvent] at other ⊢
    · exact outside (.foldTaskFinished p) other
    · exact outside (.foldTaskCompletionRecorded q) other
  · rw [isEvent] at other ⊢
    exact outside (.onLifecycle (.foldRunTriggered p)) other
  · rw [isEvent] at other ⊢
    exact outside (.onLifecycle (.foldPlanCreated p)) other
  · rw [isEvent] at other ⊢
    exact outside (.onLifecycle (.foldRunCancelRequested p)) other
  · rcases toLifecycle_apply_local ext s isLocal with ⟨_, same⟩ | ⟨key, f, update, changed⟩
    · rw [same]
    · rw [changed]
      -- the row that is updated is one of the run that the event names
      refine (within_taskUpdate update).rowsOf fun mine => other (mine ▸ ?_)
      unfold taskUpdate at update
      repeat' split at update
      all_goals cases update
      all_goals simp [OrchestrationEventData.runId, *]

/-- Events of other runs leave the rows of a run as they are. -/
theorem other_runs_untouched (ext : Externals) (s : FoldState) {id : String} {events : List OrchestrationEvent}
    (others : ∀ e ∈ events, e.data.runId ≠ some id) : (foldEvents ext s events).rowsOf id = s.rowsOf id := by
  refine foldEvents_induction (fun s' => s'.rowsOf id = s.rowsOf id) (fun s' e same other => ?_) rfl
    (.of_forall (fun e member _ => others e member) s)
  refine foldEvent_cases ext s' e same fun new => ?_
  rw [toLifecycle_foldEvent ext s' e new, rowsOf_apply ext other, same]

/-- The run has rows, and another one is triggered. -/
theorem other_runs_untouched_started :
    (foldEvents .constant {} startedFirst).rowsOf "run" ≠ ({} : FoldState).rowsOf "run" ∧
      (foldEvents .constant (foldEvents .constant {} startedFirst) [.sample "04" (.runTriggered
        { runId := "other", planId := "plan" })]).rowsOf "run" = (foldEvents .constant {} startedFirst).rowsOf "run" := by
  refine ⟨fun same => ?_, other_runs_untouched .constant _ (by decide)⟩
  have missing := congrArg (fun rows => rows.1.isSome) same
  exact absurd missing (by decide)

end FoldState

end Arco.Flow
