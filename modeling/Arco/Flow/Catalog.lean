import Arco.Flow.LateWrites
import Arco.Flow.Lockstep

/-! The catalog run index.

A catalog row repeats a run and one of its tasks, with the larger of their versions. While
runs and tasks only get newer, so do the catalog rows.
-/

namespace Arco.Flow

open Keyed List

theorem TaskRow.UpTo.version_le {a b : TaskRow} (upTo : a.UpTo b) : a.rowVersion ≤ b.rowVersion := by
  rcases upTo with before | ⟨same, _⟩
  · exact le_of_lt before
  · exact le_of_eq same

namespace FoldState

variable {ev : Envelope} {s s' : FoldState}
  {run : RunRow} {t : Table CatalogRunIndexRow.primaryKey} {k : String × String × String × String}
  {row : CatalogRunIndexRow}

/-- The row at a key is that of the task with the key, if one of the tasks has it. -/
theorem find_refreshTasks (ev : Envelope) (run : RunRow) (tasks : List TaskRow)
    (t : Table CatalogRunIndexRow.primaryKey) (k : String × String × String × String) :
    ((tasks.foldl (refreshTask ev run) t).find k = t.find k ∧ ∀ task ∈ tasks, task.assetKey.isSome = true →
        (ev.tenantId, ev.workspaceId, run.runId, task.taskKey) ≠ k) ∨
      ∃ task ∈ tasks, ∃ assetKey existing, task.assetKey = some assetKey ∧
        (ev.tenantId, ev.workspaceId, run.runId, task.taskKey) = k ∧
        (tasks.foldl (refreshTask ev run) t).find k = some (catalogRow ev run task assetKey existing) := by
  induction tasks generalizing t with
  | nil => exact .inl ⟨rfl, fun task member => (by cases member)⟩
  | cons task rest ih =>
    rw [foldl_cons]
    rcases ih (refreshTask ev run t task) with ⟨same, others⟩ | ⟨later, member, shown⟩
    · rw [same, refreshTask]
      cases asset : task.assetKey with
      | none => exact .inl ⟨rfl, forall_mem_cons.mpr ⟨by simp [asset], others⟩⟩
      | some assetKey =>
        rw [Table.find_upsert]
        by_cases here : (ev.tenantId, ev.workspaceId, run.runId, task.taskKey) = k
        · exact .inr ⟨task, mem_cons_self, assetKey, _, asset, here, if_pos here⟩
        · exact .inl ⟨if_neg here, forall_mem_cons.mpr ⟨fun _ => here, others⟩⟩
    · exact .inr ⟨later, mem_cons_of_mem _ member, shown⟩

theorem keys_refreshTasks (tasks : List TaskRow) (t : Table CatalogRunIndexRow.primaryKey) :
    t.keys <+: (tasks.foldl (refreshTask ev run) t).keys := by
  induction tasks generalizing t with
  | nil => exact prefix_rfl
  | cons task rest ih =>
    refine IsPrefix.trans ?_ (ih _)
    unfold refreshTask
    split
    · rw [Table.keys_upsert]
      split
      · exact prefix_rfl
      · exact prefix_append _ _
    · exact prefix_rfl

/-- The catalog after an event: the one before it, with the rows of one run of the new state refreshed at most. -/
inductive Refreshed (ev : Envelope) (s s' : FoldState) : Prop where
  | kept (same : s'.catalogRunIndex = s.catalogRunIndex)
  | run (run : RunRow) (found : s'.runs.find run.runId = some run)
      (rows : s'.catalogRunIndex =
        (s'.tasks.rows.filter fun t => t.runId = run.runId).foldl (refreshTask ev run) s.catalogRunIndex)

theorem refreshed_refreshes {runId : String} {r : FoldState × Bool} (kept : r.1.catalogRunIndex = s.catalogRunIndex) :
    Refreshed ev s (refreshed ev runId r).1 := by
  unfold refreshed refreshCatalogRunIndexForRun
  split
  · dsimp only
    split
    · exact .kept kept
    · rename_i run found
      cases Table.key_of_find found
      refine .run run found ?_
      rw [← kept]
  · exact .kept kept

theorem refreshes_apply (ext : Externals) (s : FoldState) (ev : Envelope) (data : OrchestrationEventData) :
    Refreshed ev s (s.apply ext ev data).1 := by
  have handled := handled_apply ext s ev data
  generalize (s.apply ext ev data).1 = s' at handled
  cases handled with
  | refreshes frame _ => exact refreshed_refreshes frame.catalogRunIndex
  | plain frame _ => exact .kept frame.catalogRunIndex
  | automation => exact .kept rfl

theorem refreshes_foldEvent (ext : Externals) (s : FoldState) (e : OrchestrationEvent) :
    Refreshed e.toEnvelope s (s.foldEvent ext e) := by
  refine foldEvent_cases ext s e (.kept rfl) fun new => ?_
  obtain ⟨_, folded⟩ := foldEvent_of_new ext new
  rw [folded]
  cases refreshes_apply ext s e.toEnvelope e.data with
  | kept same => exact .kept same
  | run run found rows => exact .run run found rows

/-- No catalog row is newer than the run and the task that it repeats. -/
def Indexed (s : FoldState) : Prop :=
  ∀ k row, s.catalogRunIndex.find k = some row →
    ∃ run task, s.runs.find k.2.2.1 = some run ∧ s.tasks.find k.2.2 = some task ∧
      row.rowVersion ≤ catalogVersion run task

theorem Indexed.later (indexed : s.Indexed) (rises : Rises s s') (found : s.catalogRunIndex.find k = some row) :
    ∃ run task, s'.runs.find k.2.2.1 = some run ∧ s'.tasks.find k.2.2 = some task ∧
      row.rowVersion ≤ catalogVersion run task := by
  obtain ⟨_, _, foundRun, foundTask, le⟩ := indexed k row found
  obtain ⟨run', foundRun', runLe⟩ := rises.runs.find_some foundRun
  obtain ⟨task', foundTask', upTo⟩ := rises.tasks.find_some foundTask
  refine ⟨run', task', foundRun', foundTask', le.trans ?_⟩
  exact max_le_max runLe upTo.version_le

theorem refreshed_version (found : s.runs.find run.runId = some run)
    (hit : ((s.tasks.rows.filter fun t => t.runId = run.runId).foldl (refreshTask ev run) t).find k = some row) :
    t.find k = some row ∨ ∃ task, s.runs.find k.2.2.1 = some run ∧ s.tasks.find k.2.2 = some task ∧
      row.rowVersion = catalogVersion run task := by
  rcases find_refreshTasks ev run (s.tasks.rows.filter fun t => t.runId = run.runId) t k with
    ⟨same, -⟩ | ⟨task, member, _, _, -, rfl, shown⟩
  · exact .inl (same.symm.trans hit)
  · cases shown.symm.trans hit
    obtain ⟨inTasks, ofRun⟩ := mem_filter.mp member
    have key : task.key = (run.runId, task.taskKey) := by rw [← of_decide_eq_true ofRun]; rfl
    exact .inr ⟨task, found, key ▸ Table.find_of_mem inTasks, rfl⟩

theorem Indexed.refreshes (indexed : s.Indexed) (rises : Rises s s') (refreshes : Refreshed ev s s') : s'.Indexed := by
  intro k row found
  cases refreshes with
  | kept same =>
    rw [same] at found
    exact indexed.later rises found
  | run run foundRun rows =>
    rw [rows] at found
    rcases refreshed_version foundRun found with before | ⟨task, hitRun, hitTask, version⟩
    · exact indexed.later rises before
    · exact ⟨run, task, hitRun, hitTask, le_of_eq version⟩

theorem Indexed.rising (indexed : s.Indexed) (rises : Rises s s') (refreshes : Refreshed ev s s') :
    Rising CatalogRunIndexRow.rowVersion s.catalogRunIndex s'.catalogRunIndex := by
  cases refreshes with
  | kept same =>
    rw [same]
    exact .refl _ _
  | run run foundRun rows =>
    rw [rows]
    refine ⟨keys_refreshTasks _ _, fun k old row foundOld found => ?_⟩
    rcases refreshed_version foundRun found with before | ⟨_, hitRun, hitTask, version⟩
    · cases foundOld.symm.trans before
      exact le_refl _
    · obtain ⟨_, _, foundRun', foundTask', le⟩ := indexed.later rises foundOld
      rw [hitRun] at foundRun'
      rw [hitTask] at foundTask'
      cases foundRun'
      cases foundTask'
      exact version ▸ le

end FoldState

end Arco.Flow
