import Arco.Flow.Downstream

/-! The failure cascade as reachability.

The worklist of the cascade visits tasks in the order in which the dependents lists name
them. Its result does not: the closed tasks are the doomed ones, each is counted once, and
an edge keeps the resolution of the last visit of its upstream task, which is decided by
whether that task was closed.
-/

namespace Arco.Flow

open Keyed

namespace Lifecycle

open Table

variable {l l' : Lifecycle} {ev : Envelope} {runId upstream : String} {resolution : DepResolution}

/-- Two states that differ at most in the order of their dependents lists. -/
structure Reordered (l l' : Lifecycle) : Prop where
  others : l' = { l with taskDependents := l'.taskDependents }
  dependents : ∀ runId taskKey, (l'.getDependents runId taskKey).Perm (l.getDependents runId taskKey)

theorem find_edgesFrom (edges : Table DepSatisfactionRow.key) (visited : List String) (r v d : String) :
    (edges.upsertAll (l.edgesFrom ev runId (visited.map fun v => (v, resolution)))).find (r, v, d) =
      if r = runId ∧ v ∈ visited ∧ d ∈ l.getDependents runId v then some (resolvedEdge ev runId v resolution d)
      else edges.find (r, v, d) := by
  have isEdge : ∀ row ∈ l.edgesFrom ev runId (visited.map fun v => (v, resolution)), ∃ v ∈ visited,
      ∃ d ∈ l.getDependents runId v, row = resolvedEdge ev runId v resolution d := by
    intro row member
    simp only [edgesFrom, List.mem_flatMap, List.mem_map] at member
    obtain ⟨_, ⟨v, visitedV, rfl⟩, d, dependent, rfl⟩ := member
    exact ⟨v, visitedV, d, dependent, rfl⟩
  split
  · rename_i edge
    obtain ⟨rfl, visitedV, dependent⟩ := edge
    have member : resolvedEdge ev r v resolution d ∈
        l.edgesFrom ev r (visited.map fun v => (v, resolution)) :=
      List.mem_flatMap.mpr ⟨(v, resolution), List.mem_map_of_mem visitedV, List.mem_map_of_mem dependent⟩
    refine find_upsertAll_of_mem member ?_
    intro other inEdges same
    obtain ⟨v', _, d', _, rfl⟩ := isEdge other inEdges
    simp only [DepSatisfactionRow.key, resolvedEdge, Prod.mk.injEq, true_and] at same
    rw [same.1, same.2]
  · rename_i noEdge
    apply find_upsertAll_of_not_mem
    intro other inEdges same
    obtain ⟨_, visitedV, _, dependent, rfl⟩ := isEdge other inEdges
    obtain ⟨rfl, rfl, rfl⟩ := same
    exact noEdge ⟨rfl, visitedV, dependent⟩

/-- The first visit of the failed task is overwritten when a cycle closes that task. -/
theorem find_edges_cascaded (state : TaskState) (closed : List String) (r v d : String) :
    (l.cascaded ev runId state closed
        (l.edgesFrom ev runId (cascadeItems upstream resolution closed))).depSatisfaction.find (r, v, d) =
      if r = runId ∧ v ∈ closed ∧ d ∈ l.getDependents runId v then
        some (resolvedEdge ev runId v resolution.cascade d)
      else if r = runId ∧ v ∈ [upstream] ∧ d ∈ l.getDependents runId v then
        some (resolvedEdge ev runId v resolution d)
      else l.depSatisfaction.find (r, v, d) := by
  have parts : l.edgesFrom ev runId (cascadeItems upstream resolution closed) =
      l.edgesFrom ev runId ([upstream].map fun v => (v, resolution)) ++
        l.edgesFrom ev runId (closed.map fun v => (v, resolution.cascade)) := by
    simp [edgesFrom, cascadeItems]
  rw [cascaded, parts, upsertAll_append, find_edgesFrom, find_edgesFrom]

namespace Reordered

section

variable (reordered : Reordered l l')
include reordered

theorem mem_dependents (r v d : String) :
    d ∈ l'.getDependents r v ↔ d ∈ l.getDependents r v := (reordered.dependents r v).mem_iff

theorem tasks_eq : l'.tasks = l.tasks := by
  rw [reordered.others]

theorem runs_eq : l'.runs = l.runs := by
  rw [reordered.others]

theorem edges_eq : l'.depSatisfaction = l.depSatisfaction := by
  rw [reordered.others]

theorem doomed_iff (d : String) : l'.Doomed runId upstream d ↔ l.Doomed runId upstream d :=
  ⟨.congr reordered.tasks_eq.symm fun v d => (reordered.mem_dependents runId v d).mp,
    .congr reordered.tasks_eq fun v d => (reordered.mem_dependents runId v d).mpr⟩

theorem propagateFailure_congr : (l'.propagateFailure ev runId upstream resolution).tasks =
        (l.propagateFailure ev runId upstream resolution).tasks ∧
      (l'.propagateFailure ev runId upstream resolution).runs =
        (l.propagateFailure ev runId upstream resolution).runs ∧
      ∀ edge, (l'.propagateFailure ev runId upstream resolution).depSatisfaction.find edge =
        (l.propagateFailure ev runId upstream resolution).depSatisfaction.find edge := by
  obtain ⟨closed, nodup, exact, result⟩ := l.propagateFailure_eq ev runId upstream resolution
  obtain ⟨closed', nodup', exact', result'⟩ := l'.propagateFailure_eq ev runId upstream resolution
  have same : ∀ d, d ∈ closed' ↔ d ∈ closed := fun d => by
    rw [exact', exact, reordered.doomed_iff]
  have sameLength : closed'.length = closed.length := ((List.perm_ext_iff_of_nodup nodup' nodup).mpr same).length_eq
  rw [result, result']
  refine ⟨?_, ?_, ?_⟩
  · rw [cascaded, reordered.tasks_eq]
    refine mapRows_congr fun t _ => ?_
    simp only [closeIn, same]
  · unfold cascaded
    rw [reordered.runs_eq, sameLength]
  · rintro ⟨r, v, d⟩
    simp only [find_edges_cascaded, reordered.edges_eq, reordered.mem_dependents, same]

end

end Reordered

theorem find_tasks_propagateFailure (ev : Envelope) (runId upstream : String) (resolution : DepResolution)
    {r d : String} {t : TaskRow} (found : l.tasks.find (r, d) = some t) :
    (r = runId ∧ l.Doomed runId upstream d ∧
        (l.propagateFailure ev runId upstream resolution).tasks.find (r, d) =
          some (t.close ev resolution.cascadeState)) ∨
      (¬ (r = runId ∧ l.Doomed runId upstream d) ∧
        (l.propagateFailure ev runId upstream resolution).tasks.find (r, d) = some t) := by
  obtain ⟨closed, _, exact, result⟩ := l.propagateFailure_eq ev runId upstream resolution
  obtain ⟨rfl, rfl⟩ : t.runId = r ∧ t.taskKey = d := by
    simpa [TaskRow.key] using key_of_find found
  have after : (l.propagateFailure ev runId upstream resolution).tasks.find (t.runId, t.taskKey) =
      some (closeIn ev resolution.cascadeState runId closed t) := by
    rw [result, cascaded, find_mapRows (key_closeIn _ closed), found, Option.map_some]
  rw [after, ← exact]
  unfold closeIn
  by_cases hit : t.runId = runId ∧ t.taskKey ∈ closed
  · exact .inl ⟨hit.1, hit.2, by rw [if_pos hit]⟩
  · exact .inr ⟨hit, by rw [if_neg hit]⟩

/-- The failure cascade computes reachability. Its loop ends; the tasks it makes terminal are the open
tasks that a path of open tasks connects to the failed one; they are cancelled exactly by a cancellation,
and skipped otherwise; every other task row stays; and the order of the dependents lists does not
matter to the tasks, the runs and the edges. -/
theorem propagateFailure_reachability (l : Lifecycle) (ev : Envelope) (runId upstream : String)
    (resolution : DepResolution) :
    Worklist.Drains (failEdges ev runId) [(upstream, resolution)] l
        (l.propagateFailure ev runId upstream resolution) ∧
      (∀ r d, (l.Open r d ∧ ¬ (l.propagateFailure ev runId upstream resolution).Open r d) ↔
        r = runId ∧ l.Doomed runId upstream d) ∧
      (∀ r d t, l.tasks.find (r, d) = some t →
        (l.propagateFailure ev runId upstream resolution).tasks.find (r, d) = some t ∨
          r = runId ∧ l.Doomed runId upstream d ∧
            (l.propagateFailure ev runId upstream resolution).tasks.find (r, d) = some
              { t with state := if resolution = .cancelled then .cancelled else .skipped, rowVersion := ev.eventId }) ∧
      ∀ l', Reordered l l' → (l'.propagateFailure ev runId upstream resolution).tasks =
            (l.propagateFailure ev runId upstream resolution).tasks ∧
          (l'.propagateFailure ev runId upstream resolution).runs =
            (l.propagateFailure ev runId upstream resolution).runs ∧
          ∀ edge, (l'.propagateFailure ev runId upstream resolution).depSatisfaction.find edge =
            (l.propagateFailure ev runId upstream resolution).depSatisfaction.find edge := by
  refine ⟨l.drains_propagateFailure ev runId upstream resolution, ?_, ?_, fun l' reordered =>
    reordered.propagateFailure_congr⟩
  · intro r d
    constructor
    · rintro ⟨⟨t, found, active⟩, closedNow⟩
      rcases find_tasks_propagateFailure ev runId upstream resolution found with
        ⟨run, doomed, _⟩ | ⟨_, kept⟩
      · exact ⟨run, doomed⟩
      · exact absurd ⟨t, kept, active⟩ closedNow
    · rintro ⟨run, doomed⟩
      obtain ⟨t, found, active⟩ := doomed.open
      subst run
      refine ⟨⟨t, found, active⟩, ?_⟩
      rintro ⟨_, foundNow, activeNow⟩
      rcases find_tasks_propagateFailure ev r upstream resolution found with
        ⟨_, _, closedNow⟩ | ⟨missed, _⟩
      · cases closedNow.symm.trans foundNow
        exact absurd (isTerminal_cascadeState resolution) (by simpa [TaskRow.close] using activeNow)
      · exact missed ⟨rfl, doomed⟩
  · intro r d t found
    rcases find_tasks_propagateFailure ev runId upstream resolution found with
      ⟨run, doomed, closedNow⟩ | ⟨_, kept⟩
    · exact .inr ⟨run, doomed, by rw [closedNow]; cases resolution <;> rfl⟩
    · exact .inl kept

end Lifecycle

end Arco.Flow
