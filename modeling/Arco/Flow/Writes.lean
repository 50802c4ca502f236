import Arco.Flow.Completion

/-! Which rows of the lifecycle tables an event writes.

`WritesTask`, `WritesRun` and `WritesEdge` read the state before the event only. The rows
that they hold of get the event id as their version, the others keep theirs.
-/

namespace Arco.Flow

open Keyed

namespace FoldState

open Table Lifecycle Table.Stamps OrchestrationEventData

def WritesTask (s : FoldState) (e : OrchestrationEvent) (row : TaskRow) : Prop :=
  match e.data with
  | .taskFinished p => s.CompletionWritesTask p row
  | .taskCompletionRecorded p => s.CompletionWritesTask p.toTaskFinished row
  | .runCancelRequested p => s.runIsTerminal p.runId = false ∧ cancellable p.runId row = true
  | _ => ∃ f, s.taskUpdate e = some (row.key, f) ∧ (f row).isSome = true

def WritesRun (s : FoldState) (e : OrchestrationEvent) (run : RunRow) : Prop :=
  match e.data with
  | .taskFinished p => s.CompletionWritesRun p run
  | .taskCompletionRecorded p => s.CompletionWritesRun p.toTaskFinished run
  | .runCancelRequested p => s.runIsTerminal p.runId = false ∧ run.runId = p.runId
  | .planCreated p => s.hasTasks p.runId = false ∧ run.runId = p.runId
  | _ => False

def WritesEdge (s : FoldState) (e : OrchestrationEvent) (edge : DepSatisfactionRow) : Prop :=
  match e.data with
  | .taskFinished p => s.CompletionWritesEdge p edge
  | .taskCompletionRecorded p => s.CompletionWritesEdge p.toTaskFinished edge
  | .planCreated p => s.hasTasks p.runId = false ∧ edge.runId = p.runId ∧
      ∃ d ∈ p.tasks, d.key = edge.downstreamTaskKey ∧ edge.upstreamTaskKey ∈ d.dependsOn
  | _ => False

variable {ext : Externals} {e : OrchestrationEvent} {s : FoldState} {p : TaskFinished} {t : TaskRow}

section Completion

variable (isCompletion : e.data.completion = some p)

include isCompletion

theorem writesTask_completion (row : TaskRow) : s.WritesTask e row ↔ s.CompletionWritesTask p row := by
  rcases finishes_of_completion isCompletion with isEvent | ⟨q, isEvent, rfl⟩ <;> simp [WritesTask, isEvent]

theorem writesRun_completion (run : RunRow) : s.WritesRun e run ↔ s.CompletionWritesRun p run := by
  rcases finishes_of_completion isCompletion with isEvent | ⟨q, isEvent, rfl⟩ <;> simp [WritesRun, isEvent]

theorem writesEdge_completion (edge : DepSatisfactionRow) : s.WritesEdge e edge ↔ s.CompletionWritesEdge p edge := by
  rcases finishes_of_completion isCompletion with isEvent | ⟨q, isEvent, rfl⟩ <;> simp [WritesEdge, isEvent]

end Completion

theorem writesTask_local (isLocal : e.data.Local) (row : TaskRow) :
    s.WritesTask e row ↔ ∃ f, s.taskUpdate e = some (row.key, f) ∧ (f row).isSome = true := by
  obtain ⟨_, _, _, _⟩ := isLocal
  cases isEvent : e.data <;> simp_all [WritesTask, completion]

theorem not_writesRun_local (isLocal : e.data.Local) (run : RunRow) : ¬ s.WritesRun e run := by
  obtain ⟨_, _, _, _⟩ := isLocal
  cases isEvent : e.data <;> simp_all [WritesRun, completion]

theorem not_writesEdge_local (isLocal : e.data.Local) (edge : DepSatisfactionRow) : ¬ s.WritesEdge e edge := by
  obtain ⟨_, _, _, _⟩ := isLocal
  cases isEvent : e.data <;> simp_all [WritesEdge, completion]

section Untouched

variable {K V : Type} [DecidableEq K] {key : V → K} {version : V → String} {writes : V → Prop} {rows : Lifecycle → Table key}
  (untouched : ∀ {l : Lifecycle} k f, rows (l.updateTask k f).1 = rows l)

include untouched

theorem stamps_completion (isCompletion : e.data.completion = some p)
    (finished : ∀ t, s.Completes p t →
      Stamps version e.eventId writes (rows s.toLifecycle) (rows (s.finishTask ext e.toEnvelope p t)))
    (completed : ∀ row, writes row → ∃ t, s.Completes p t) : Stamps version e.eventId writes (rows s.toLifecycle)
      (rows (s.apply ext e.toEnvelope e.data).1.toLifecycle) := by
  by_cases accepted : ∃ t, s.Completes p t
  · obtain ⟨t, completes⟩ := accepted
    rcases toLifecycle_apply_completion ext isCompletion completes with same | ⟨u, visible⟩
    · rw [same]
      exact finished t completes
    · rw [visible, untouched]
      exact finished t completes
  · rw [toLifecycle_apply_rejected isCompletion (not_exists.mp accepted)]
    exact (refl _ _ _).congr fun row _ => ⟨False.elim, fun written => accepted (completed row written)⟩

theorem stamps_local (isLocal : e.data.Local) (nowhere : ∀ row, ¬ writes row) :
    Stamps version e.eventId writes (rows s.toLifecycle)
      (rows (s.apply ext e.toEnvelope e.data).1.toLifecycle) := by
  have same : rows (s.apply ext e.toEnvelope e.data).1.toLifecycle = rows s.toLifecycle := by
    rcases toLifecycle_apply_local ext s isLocal with ⟨_, same⟩ | ⟨_, f, _, updated⟩
    · rw [same]
    · rw [updated, untouched]
  rw [same]
  exact (refl _ _ _).congr fun row _ => ⟨False.elim, nowhere row⟩

end Untouched

theorem stamps_runs_apply (ext : Externals) (s : FoldState) (e : OrchestrationEvent) :
    Stamps RunRow.rowVersion e.eventId (s.WritesRun e) s.runs (s.apply ext e.toEnvelope e.data).1.runs := by
  rcases e.data.kinds with ⟨p, isCompletion⟩ | ⟨p, isEvent⟩ | ⟨p, isEvent⟩ | ⟨p, isEvent⟩ | isLocal
  · have writes : ∀ run, s.WritesRun e run ↔ _ := writesRun_completion isCompletion
    refine stamps_completion runs_updateTask isCompletion (fun t completes => ?_) fun run written => ?_
    · exact (stamps_runs_finishTask ext e.toEnvelope completes).congr fun run _ => (writes run).symm
    · exact ((writes run).mp written).imp fun _ => And.left
  · rw [isEvent, apply, toLifecycle_refreshed]
    simp only [foldRunTriggered]
    split
    · exact (refl _ _ _).congr fun run _ => by simp [WritesRun, isEvent]
    · rename_i absent
      have missing : s.runs.find p.runId = none := by simpa [contains] using absent
      have added : Stamps RunRow.rowVersion e.eventId (fun _ => False) s.runs
          (s.runs.upsert (triggeredRow e.toEnvelope p (s.recount p.runId))) :=
        upsert_new missing rfl
      exact added.congr fun run _ => by simp [WritesRun, isEvent]
  · rw [isEvent, apply, toLifecycle_refreshed]
    simp only [onLifecycle, foldPlanCreated_eq]
    split
    · rename_i known
      exact (refl _ _ _).congr fun run _ => by simp [WritesRun, isEvent, known]
    · rename_i fresh
      have planned : Stamps RunRow.rowVersion e.eventId (fun run => run.runId = p.runId) s.runs
          (s.runs.modify p.runId (RunRow.plan e.toEnvelope p.tasks.length)) :=
        modify (fun _ => by rfl) (fun _ => by rfl) s.runs p.runId
      exact planned.congr fun run _ => by simp [WritesRun, isEvent, fresh]
  · rw [isEvent, apply, toLifecycle_refreshed]
    simp only [onLifecycle, foldRunCancelRequested_eq]
    split
    · rename_i ended
      exact (refl _ _ _).congr fun run _ => by simp [WritesRun, isEvent, ended]
    · rename_i active
      refine (modify (runId_cancelledRun _) (fun run => ?_) s.runs p.runId).congr fun run _ => ?_
      · unfold cancelledRun RunRow.closeCancelled
        split <;> rfl
      · simp [WritesRun, isEvent, active]
  · exact stamps_local runs_updateTask isLocal (not_writesRun_local isLocal)

theorem stamps_edges_apply (ext : Externals) (s : FoldState) (e : OrchestrationEvent) :
    Stamps DepSatisfactionRow.rowVersion e.eventId (s.WritesEdge e) s.depSatisfaction
      (s.apply ext e.toEnvelope e.data).1.depSatisfaction := by
  rcases e.data.kinds with ⟨p, isCompletion⟩ | ⟨p, isEvent⟩ | ⟨p, isEvent⟩ | ⟨p, isEvent⟩ | isLocal
  · have writes : ∀ edge, s.WritesEdge e edge ↔ _ := writesEdge_completion isCompletion
    refine stamps_completion depSatisfaction_updateTask isCompletion (fun t completes => ?_) fun edge written => ?_
    · exact (stamps_edges_finishTask ext e.toEnvelope completes).congr fun edge _ => (writes edge).symm
    · exact ((writes edge).mp written).imp fun _ => And.left
  · rw [isEvent, apply, toLifecycle_refreshed]
    simp only [foldRunTriggered]
    split <;> exact (refl _ _ _).congr fun edge _ => by simp [WritesEdge, isEvent]
  · rw [isEvent, apply, toLifecycle_refreshed]
    simp only [onLifecycle, foldPlanCreated_eq]
    split
    · rename_i known
      exact (refl _ _ _).congr fun edge _ => by simp [WritesEdge, isEvent, known]
    · rename_i fresh
      refine (upsertAll (fun edge member => ?_) s.depSatisfaction).congr fun edge _ => ?_
      · obtain ⟨d, _, inTask⟩ := List.mem_flatMap.mp member
        obtain ⟨_, _, rfl⟩ := List.mem_map.mp inTask
        rfl
      · refine mem_keys_planEdges.trans ?_
        simp [WritesEdge, isEvent, fresh]
  · rw [isEvent, apply, toLifecycle_refreshed]
    simp only [onLifecycle, foldRunCancelRequested_eq]
    split <;> exact (refl _ _ _).congr fun edge _ => by simp [WritesEdge, isEvent]
  · exact stamps_local depSatisfaction_updateTask isLocal (not_writesEdge_local isLocal)

structure StampsTasks (e : OrchestrationEvent) (writes : TaskRow → Prop) (base current : Table TaskRow.key) : Prop where
  keys : base.keys <+: current.keys
  written : ∀ k t t', base.find k = some t → current.find k = some t' → writes t → TaskRow.Stamped e t t'
  carried : ∀ k t t', base.find k = some t → current.find k = some t' → ¬ writes t → TaskRow.Carried t t'
  added : ∀ k t, base.find k = none → current.find k = some t → t.rowVersion = e.eventId

theorem StampsTasks.of_keys {writes : TaskRow → Prop} {base current : Table TaskRow.key} (keys : current.keys = base.keys)
    (written : ∀ k t t', base.find k = some t → current.find k = some t' → writes t → TaskRow.Stamped e t t')
    (carried : ∀ k t t', base.find k = some t → current.find k = some t' → ¬ writes t → TaskRow.Carried t t') :
    StampsTasks e writes base current where
  keys := keys ▸ List.prefix_rfl
  written := written
  carried := carried
  added k t missing found := by
    have present := mem_keys_of_find found
    rw [keys] at present
    exact absurd present (find_eq_none_iff.mp missing)

theorem StampsTasks.same (silent : ∀ t ∈ s.tasks.rows, ¬ s.WritesTask e t) :
    StampsTasks e (s.WritesTask e) s.tasks s.tasks :=
  .of_keys rfl (fun _ t _ found _ written => absurd written (silent t (mem_of_find found)))
    fun _ t _ found found' _ => Option.some.inj (found.symm.trans found') ▸ .refl t

theorem StampsTasks.update {key : String × String} {f : TaskRow → Option TaskRow} (isLocal : e.data.Local)
    (update : s.taskUpdate e = some (key, f)) :
    StampsTasks e (s.WritesTask e) s.tasks (s.toLifecycle.updateTask key f).1.tasks := by
  have writes : ∀ t, s.WritesTask e t ↔ t.key = key ∧ (f t).isSome = true := by
    intro t
    rw [writesTask_local isLocal, update]
    constructor
    · rintro ⟨g, same, accepts⟩
      obtain ⟨rfl, rfl⟩ := Prod.mk.inj (Option.some.inj same)
      exact ⟨rfl, accepts⟩
    · rintro ⟨rfl, accepts⟩
      exact ⟨f, rfl, accepts⟩
  unfold updateTask
  cases found : s.tasks.find key with
  | none =>
    refine StampsTasks.same fun t member written => ?_
    rw [← ((writes t).mp written).1, find_of_mem member] at found
    cases found
  | some old =>
    simp only [Option.bind_some]
    cases new : f old with
    | none =>
      refine StampsTasks.same fun t member written => ?_
      obtain ⟨same, accepts⟩ := (writes t).mp written
      rw [← same, find_of_mem member] at found
      cases found
      rw [new] at accepts
      cases accepts
    | some new' =>
      obtain ⟨updates, stamped⟩ := taskUpdate_updates update found new
      have oldKey : old.key = key := key_of_find found
      have newKey : new'.key = key := updates.rewritten.key.trans oldKey
      have held : new'.key ∈ s.tasks.keys := newKey ▸ mem_keys_of_find found
      refine .of_keys (keys_upsert_of_mem held) (fun k t t' here here' written => ?_)
        fun k t t' here here' notWritten => ?_
      · have same : key = k := ((writes t).mp written).1.symm.trans (key_of_find here)
        rw [find_upsert_of_key (newKey.trans same)] at here'
        rw [← same, found] at here
        cases here
        cases here'
        exact stamped
      · have other : key ≠ k := by
          intro same
          rw [← same, found] at here
          cases here
          exact notWritten ((writes old).mpr ⟨oldKey, by rw [new]; rfl⟩)
        rw [find_upsert_of_ne (newKey ▸ other), here] at here'
        cases here'
        exact .refl t

theorem leavesRetryWait_completion (isCompletion : e.data.completion = some p) :
    e.data.leavesRetryWait = false := by
  rcases finishes_of_completion isCompletion with isEvent | ⟨q, isEvent, rfl⟩ <;> rw [isEvent] <;> rfl

theorem completedRow_updateTask {row : TaskRow} {l' : Lifecycle} {k : String × String} (completes : s.Completes p t)
    (u : OutputVisibilityUpdate) (found : s.tasks.find k = some row)
    (finished : ∃ row', l'.tasks.find k = some row' ∧ s.CompletedRow e.toEnvelope p row row') :
    ∃ row', (l'.updateTask (p.runId, p.taskKey)
        (TaskRow.changeOutputVisibility e.toEnvelope p.toAttemptRef u)).1.tasks.find k = some row' ∧
      s.CompletedRow e.toEnvelope p row row' := by
  obtain ⟨row', found', completed⟩ := finished
  unfold updateTask
  cases here : l'.tasks.find (p.runId, p.taskKey) with
  | none => exact ⟨row', found', completed⟩
  | some mid =>
    simp only [Option.bind_some]
    cases new : mid.changeOutputVisibility e.toEnvelope p.toAttemptRef u with
    | none => exact ⟨row', found', completed⟩
    | some visible =>
      have updates : mid.Updates e visible := .visibility _ _ new
      have visibleKey : visible.key = (p.runId, p.taskKey) := updates.rewritten.key.trans (key_of_find here)
      by_cases named : (p.runId, p.taskKey) = k
      · rw [named, found'] at here
        cases here
        have writes : s.CompletionWritesTask p row := by
          refine (completionWritesTask_iff completes).mpr (.inl ?_)
          rw [key_of_find found, key_of_find completes.found, named]
        obtain ⟨version, state⟩ := TaskRow.changeOutputVisibility_fields new
        refine ⟨visible, find_upsert_of_key (visibleKey.trans named), fun _ => version,
          fun notWritten => absurd writes notWritten, ?_⟩
        rw [state]
        exact completed.rank
      · exact ⟨row', (find_upsert_of_ne (visibleKey ▸ named)).trans found', completed⟩

theorem StampsTasks.completion (isCompletion : e.data.completion = some p) (completes : s.Completes p t) :
    StampsTasks e (s.WritesTask e) s.tasks (s.apply ext e.toEnvelope e.data).1.tasks := by
  have stays := leavesRetryWait_completion isCompletion
  have rows : ∀ k row, s.tasks.find k = some row →
      ∃ row', (s.apply ext e.toEnvelope e.data).1.tasks.find k = some row' ∧
        s.CompletedRow e.toEnvelope p row row' := by
    intro k row found
    have finished := task_finishTask ext e.toEnvelope completes found
    rcases toLifecycle_apply_completion ext isCompletion completes with same | ⟨u, visible⟩
    · rwa [same]
    · rw [visible]
      exact completedRow_updateTask completes u found finished
  refine .of_keys ?_ (fun k row row' found found' written => ?_) fun k row row' found found' notWritten => ?_
  · have keys := keys_finishTask ext e.toEnvelope completes
    rcases toLifecycle_apply_completion ext isCompletion completes with same | ⟨u, visible⟩
    · rw [same, keys]
    · rw [visible, ← keys]
      exact keys_updateTask _ fun t t' new => (TaskRow.Updates.visibility (e := e) _ _ new).rewritten.key
  · obtain ⟨new, here, completed⟩ := rows k row found
    cases here.symm.trans found'
    exact .of_le (completed.written ((writesTask_completion isCompletion row).mp written)) stays completed.rank
  · obtain ⟨_, here, completed⟩ := rows k row found
    cases here.symm.trans found'
    refine ⟨completed.carried fun written => notWritten ?_, completed.rank⟩
    exact (writesTask_completion isCompletion row).mpr written

theorem stampsTasks_apply (ext : Externals) (s : FoldState) (e : OrchestrationEvent) :
    StampsTasks e (s.WritesTask e) s.tasks (s.apply ext e.toEnvelope e.data).1.tasks := by
  rcases e.data.kinds with ⟨p, isCompletion⟩ | ⟨p, isEvent⟩ | ⟨p, isEvent⟩ | ⟨p, isEvent⟩ | isLocal
  · by_cases accepted : ∃ t, s.Completes p t
    · obtain ⟨t, completes⟩ := accepted
      exact .completion isCompletion completes
    · rw [not_exists] at accepted
      rw [toLifecycle_apply_rejected isCompletion accepted]
      refine .same fun row _ written => ?_
      obtain ⟨t, completes, _⟩ := (writesTask_completion isCompletion row).mp written
      exact accepted t completes
  · have silent : ∀ t ∈ s.tasks.rows, ¬ s.WritesTask e t := by simp [WritesTask, taskUpdate, isEvent]
    rw [isEvent, apply, toLifecycle_refreshed]
    simp only [foldRunTriggered]
    split <;> exact .same silent
  · have silent : ∀ t, ¬ s.WritesTask e t := by simp [WritesTask, taskUpdate, isEvent]
    rw [isEvent, apply, toLifecycle_refreshed]
    simp only [onLifecycle, foldPlanCreated_eq]
    split
    · exact .same fun t _ => silent t
    · rename_i fresh
      -- the planned run had no tasks
      refine ⟨ keys_upsertAll_prefix _ _, fun k t t' _ _ written => absurd written (silent t),
        fun k t t' found found' _ => ?_, fun k t missing found => ?_⟩
      rotate_left
      · rcases find_upsertAll_cases s.tasks (p.tasks.map (TaskDef.row e.toEnvelope p.runId)) k with
          ⟨row, member, _, hit⟩ | ⟨_, same⟩
        · cases hit.symm.trans found
          obtain ⟨d, _, rfl⟩ := List.mem_map.mp member
          rfl
        · cases (same.trans missing).symm.trans found
      have foreign : ∀ row ∈ p.tasks.map (TaskDef.row e.toEnvelope p.runId), row.key ≠ k := by
        intro row member same
        obtain ⟨d, _, rfl⟩ := List.mem_map.mp member
        have mine : t.runId = p.runId := congrArg Prod.fst ((key_of_find found).trans same.symm)
        exact fresh (List.any_eq_true.mpr ⟨t, mem_of_find found, by simpa using mine⟩)
      have kept := (find_upsertAll_of_not_mem foreign).trans found
      cases kept.symm.trans found'
      exact .refl t
  · rw [isEvent, apply, toLifecycle_refreshed]
    simp only [onLifecycle, foldRunCancelRequested_eq]
    split
    · rename_i ended
      exact .same fun t _ => by simp [WritesTask, isEvent, ended]
    · rename_i active
      have stays : e.data.leavesRetryWait = false := by rw [isEvent]; rfl
      have new : ∀ k t t', s.tasks.find k = some t → (s.cancelRequested e.toEnvelope p.runId).tasks.find k = some t' →
          cancelIn e.toEnvelope p.runId t = t' := by
        intro k t t' found found'
        unfold cancelRequested at found'
        rw [find_mapRows key_cancelIn, found] at found'
        exact Option.some.inj found'
      refine .of_keys (keys_mapRows _ _) (fun k t t' found found' written => ?_)
        fun k t t' found found' notWritten => ?_
      · simp only [WritesTask, isEvent] at written
        rw [← new k t t' found found', cancelIn, if_pos written.2]
        have open_ : t.state.isTerminal = false := (of_decide_eq_true written.2).2.1
        exact .of_le rfl stays (TaskRow.rank_le_of_terminal open_ rfl)
      · simp only [WritesTask, isEvent] at notWritten
        have skipped : ¬ cancellable p.runId t = true := fun mine => notWritten ⟨by simpa using active, mine⟩
        rw [← new k t t' found found', cancelIn, if_neg skipped]
        exact .refl t
  · rcases toLifecycle_apply_local ext s isLocal with ⟨idle, same⟩ | ⟨_, f, update, updated⟩
    · rw [same]
      refine .same fun t _ written => ?_
      obtain ⟨f, update, _⟩ := (writesTask_local isLocal t).mp written
      cases idle.symm.trans update
    · rw [updated]
      exact .update isLocal update

end FoldState

end Arco.Flow
