import Arco.Flow.Cascade
import Arco.Flow.Progress
import Arco.Flow.RunView

/-! Every event keeps the tasks and edges of a run consistent.

A step of another run does not change the view of a run. A step of the run itself either
lets one task succeed, or closes tasks together with everything open downstream of them,
or rewrites rows without touching their counters.
-/

namespace Arco.Flow

open Keyed List Table TaskRow Prod

namespace Lifecycle

variable {ext : Externals} {ev : Envelope} {l l' : Lifecycle} {r : String}

/-! ## Events of other runs -/

theorem view_congr (tasks : ∀ k, l'.tasks.find (r, k) = l.tasks.find (r, k))
    (edges : ∀ u d, l'.depSatisfaction.find (r, u, d) = l.depSatisfaction.find (r, u, d))
    (dependencies : ∀ k, l'.taskDependencies.get (r, k) = l.taskDependencies.get (r, k))
    (dependents : ∀ u, l'.getDependents r u = l.getDependents r u) : l'.view r = l.view r := by
  unfold view
  simp only [tasks, edges, dependencies, dependents]

theorem find_mapRows_other {f : TaskRow → TaskRow} (keeps : ∀ row, (f row).key = row.key)
    (off : ∀ t : TaskRow, t.runId = r → f t = t) (k : String) :
    (l.tasks.mapRows f).find (r, k) = l.tasks.find (r, k) := by
  rw [find_mapRows keeps]
  cases found : l.tasks.find (r, k) with
  | none => rfl
  | some t =>
    have run : t.runId = r := congrArg fst (key_of_find found)
    rw [Option.map_some, off t run]

theorem find_edges_other {rows : List DepSatisfactionRow} (foreign : ∀ x ∈ rows, x.runId ≠ r) (u d : String) :
    (l.depSatisfaction.upsertAll rows).find (r, u, d) = l.depSatisfaction.find (r, u, d) :=
  find_upsertAll_of_not_mem fun x member same => foreign x member (congrArg fst same)

section Other

variable {runId upstream : String} (other : r ≠ runId)

include other

theorem view_satisfied_other (attempt : Nat) (done : List String) :
    (l.satisfied ev runId upstream attempt done).view r = l.view r := by
  refine view_congr (find_mapRows_other (key_countIn done) fun t run => ?_) (find_edges_other fun x member => ?_)
    (fun _ => rfl) (fun _ => rfl)
  · rw [countIn, if_neg fun h => other (run.symm.trans h.1)]
  · obtain ⟨d, _, rfl⟩ := mem_map.mp member
    exact Ne.symm other

theorem runId_edgesFrom {visited : List (String × DepResolution)} {x : DepSatisfactionRow}
    (member : x ∈ l.edgesFrom ev runId visited) : x.runId ≠ r := by
  obtain ⟨_, _, inItem⟩ := mem_flatMap.mp member
  obtain ⟨d, _, rfl⟩ := mem_map.mp inItem
  exact Ne.symm other

theorem view_cascaded_other (state : TaskState) (closed : List String) (visited : List (String × DepResolution)) :
    (l.cascaded ev runId state closed (l'.edgesFrom ev runId visited)).view r = l.view r := by
  refine view_congr (find_mapRows_other (key_closeIn _ closed) fun t run => ?_)
    (find_edges_other fun x member => runId_edgesFrom other member) (fun _ => rfl) (fun _ => rfl)
  rw [closeIn, if_neg fun h => other (run.symm.trans h.1)]

end Other

theorem view_upsert_other {t : TaskRow} (other : r ≠ t.runId) (runs : Table RunRow.runId) :
    ({ l with runs := runs, tasks := l.tasks.upsert t } : Lifecycle).view r = l.view r :=
  view_congr (fun _ => find_upsert_of_ne fun same => other (congrArg fst same).symm) (fun _ _ => rfl)
    (fun _ => rfl) (fun _ => rfl)

theorem view_finishTask_other {p : TaskFinished} {t : TaskRow} (completes : l.Completes p t) (other : r ≠ p.runId) :
    (l.finishTask ext ev p t).view r = l.view r := by
  have otherRow : r ≠ (t.finish ext ev p).runId := by
    have key := (key_finish ext ev p t).trans (key_of_find completes.found)
    exact fun same => other (same.trans (congrArg fst key))
  generalize finish : l.finishTask ext ev p t = after
  cases finished_finishTask completes finish with
  | retried isOpen => exact view_upsert_other otherRow l.runs
  | succeeded success => exact (view_satisfied_other other _ _).trans (view_upsert_other otherRow _)
  | failed fails closed nodup doomed => exact (view_cascaded_other other _ _ _).trans (view_upsert_other otherRow _)

theorem foldl_insert_eq (runId : String) (defs : List TaskDef) (m : TaskLists) :
    defs.foldl (fun m d => m.insert (runId, d.key) d.dependsOn) m =
      upsertAll m (defs.map fun d => ((runId, d.key), d.dependsOn)) := by
  rw [upsertAll, foldl_map]
  rfl

theorem get_foldl_insert_other {runId : String} (defs : List TaskDef) (m : TaskLists)
    (other : r ≠ runId) (k : String) :
    (defs.foldl (fun m d => m.insert (runId, d.key) d.dependsOn) m).get (r, k) = m.get (r, k) := by
  rw [foldl_insert_eq]
  refine congrArg _ (find_upsertAll_of_not_mem fun entry member same => ?_)
  obtain ⟨d, _, rfl⟩ := mem_map.mp member
  exact other (congrArg fst same).symm

theorem get_addDependent_other {runId : String} (other : r ≠ runId) (ups : List String) (downstream : String)
    (m : TaskLists) (k : String) :
    (ups.foldl (addDependent runId downstream) m).get (r, k) = m.get (r, k) := by
  induction ups generalizing m with
  | nil => rfl
  | cons u rest ih =>
    rw [foldl_cons, ih, addDependent, Map.get_insert, if_neg]
    exact fun same => other (congrArg fst same).symm

theorem view_planned_other {p : PlanCreated} (other : r ≠ p.runId) : (l.planned ev p).view r = l.view r := by
  refine view_congr (fun k => ?_) (find_edges_other fun x member => ?_)
    (get_foldl_insert_other p.tasks l.taskDependencies other) (fun u => ?_)
  · refine find_upsertAll_of_not_mem fun t member same => ?_
    obtain ⟨d, _, rfl⟩ := mem_map.mp member
    exact other (congrArg fst same).symm
  · obtain ⟨d, _, inTask⟩ := mem_flatMap.mp member
    obtain ⟨u, _, rfl⟩ := mem_map.mp inTask
    exact Ne.symm other
  · unfold getDependents
    congr 1
    show (p.tasks.foldl (fun m d => d.dependsOn.foldl (addDependent p.runId d.key) m) l.taskDependents).get (r, u) = _
    generalize l.taskDependents = m
    induction p.tasks generalizing m with
    | nil => rfl
    | cons d rest ih => rw [foldl_cons, ih, get_addDependent_other other]

end Lifecycle

/-! ## Calm rows -/

namespace RunView.Calm

variable {ext : Externals} {e : OrchestrationEvent} {t t' : TaskRow}

theorem of_same_state (total : t'.depsTotal = t.depsTotal) (count : t'.depsSatisfiedCount = t.depsSatisfiedCount)
    (state : t'.state = t.state) : Calm t t' := by
  refine ⟨total, count, ?_, ?_, ?_, ?_⟩ <;> rw [state]
  all_goals exact id

/-- An open row that moves on to a state in which it neither waits nor has succeeded. -/
theorem of_active (active : t.state.isTerminal = false) (total : t'.depsTotal = t.depsTotal)
    (count : t'.depsSatisfiedCount = t.depsSatisfiedCount)
    (state : t'.state ≠ .succeeded ∧ t'.state ≠ .planned ∧ t'.state ≠ .ready ∧ t'.state ≠ .blocked) : Calm t t' := by
  obtain ⟨succeeded, planned, ready, blocked⟩ := state
  refine ⟨total, count, ⟨fun h => absurd h succeeded, fun h => ?_⟩, fun h => absurd h planned, fun h => absurd h ready,
    fun h => absurd h blocked⟩
  rw [h] at active
  cases active

theorem of_updates (update : t.Updates e t') : Calm t t' := by
  obtain ⟨_, total, count, _, moves⟩ := update.rewritten
  cases moves with
  | stays state _ _ => exact of_same_state total count state
  | starts p _ _ active state => exact of_active active total count (by simp [state])
  | dispatches p _ _ _ waiting state =>
    exact of_active (active_of_waiting waiting) total count (by simp [state])

theorem of_close {ev : Envelope} {state : TaskState} (active : t.state.isTerminal = false)
    (forced : state = .skipped ∨ state = .cancelled) : Calm t (t.close ev state) := by
  refine of_active active rfl rfl ?_
  rcases forced with rfl | rfl <;> exact ⟨nofun, nofun, nofun, nofun⟩

theorem counters_finish (ext : Externals) (ev : Envelope) (p : TaskFinished) (t : TaskRow) :
    (t.finish ext ev p).depsTotal = t.depsTotal ∧ (t.finish ext ev p).depsSatisfiedCount = t.depsSatisfiedCount := by
  unfold finish
  split <;> exact ⟨rfl, rfl⟩

theorem of_finish {ev : Envelope} {p : TaskFinished} (active : t.state.isTerminal = false)
    (failed : p.outcome ≠ .succeeded) : Calm t (t.finish ext ev p) := by
  obtain ⟨total, count⟩ := counters_finish ext ev p t
  refine of_active active total count ?_
  rw [state_finish]
  unfold stateAfter
  split
  · rename_i outcome
    exact absurd outcome failed
  · split <;> exact ⟨nofun, nofun, nofun, nofun⟩
  · exact ⟨nofun, nofun, nofun, nofun⟩
  · exact ⟨nofun, nofun, nofun, nofun⟩

end RunView.Calm

namespace Lifecycle

variable {ext : Externals} {e : OrchestrationEvent} {ev : Envelope} {l l' : Lifecycle} {r : String}

open RunView

/-! ## Cancellation and single updates -/

theorem find_view_mapRows {f : TaskRow → TaskRow} (keeps : ∀ row, (f row).key = row.key)
    (mapped : l'.tasks = l.tasks.mapRows f) (k : String) : (l'.view r).task k = ((l.view r).task k).map f := by
  show l'.tasks.find (r, k) = _
  rw [mapped, find_mapRows keeps]
  rfl

theorem calm_cancelIn (runId : String) (t : TaskRow) : Calm t (cancelIn ev runId t) := by
  unfold cancelIn
  split
  · rename_i mine
    exact .of_close (of_decide_eq_true mine).2.1 (.inr rfl)
  · exact .refl t

variable {t t' : TaskRow}

theorem cancelIn_not_blocked {runId : String} (run : t.runId = runId) :
    (cancelIn ev runId t).state ≠ .blocked := by
  unfold cancelIn
  split
  · exact nofun
  · rename_i kept
    intro blocked
    exact kept (by simp [cancellable, run, blocked, TaskState.isTerminal])

theorem consistent_cancelRequested (runId : String) (consistent : (l.view r).Consistent) :
    ((l.cancelRequested ev runId).view r).Consistent ∧ (l.view r).SameGraph ((l.cancelRequested ev runId).view r) := by
  have tasks : ∀ k, ((l.cancelRequested ev runId).view r).task k = ((l.view r).task k).map (cancelIn ev runId) :=
    find_view_mapRows key_cancelIn rfl
  have same : (l.view r).SameGraph ((l.cancelRequested ev runId).view r) :=
    ⟨fun _ => rfl, fun _ => rfl, fun _ _ => rfl, fun k => by rw [tasks, Option.isSome_map]⟩
  refine ⟨consistent.calm same (fun _ _ _ => rfl) ?_ ?_, same⟩
  · intro k t' found'
    rw [tasks] at found'
    obtain ⟨t, found, rfl⟩ := Option.map_eq_some_iff.mp found'
    exact ⟨t, found, calm_cancelIn runId t⟩
  · intro u tu foundU ended failure d member td foundD blocked
    rw [tasks] at foundU foundD
    obtain ⟨u', foundU', rfl⟩ := Option.map_eq_some_iff.mp foundU
    obtain ⟨d', foundD', rfl⟩ := Option.map_eq_some_iff.mp foundD
    by_cases mine : cancellable runId u' = true
    · -- a task of the cancelled run: none of its tasks is blocked any more
      have run : u'.runId = d'.runId :=
        (congrArg fst (key_of_find foundU')).trans (congrArg fst (key_of_find foundD')).symm
      exact cancelIn_not_blocked (run.symm.trans (of_decide_eq_true mine).1) blocked
    · rw [cancelIn, if_neg mine] at ended failure
      exact consistent.failed u u' foundU' ended failure d member d' foundD' ((calm_cancelIn runId d').blocked blocked)

theorem view_upsert_task (sameKey : t'.key = t.key) (upserted : l'.tasks = l.tasks.upsert t') (run : t.runId = r)
    (k : String) :
    (l'.view r).task k = if k = t.taskKey then some t' else (l.view r).task k := by
  show l'.tasks.find (r, k) = _
  have key : t'.key = (r, t.taskKey) := by rw [sameKey, ← run]; rfl
  rw [upserted, find_upsert, key]
  by_cases here : k = t.taskKey
  · subst here
    simp
  · rw [if_neg fun same => here (congrArg snd same).symm, if_neg here]
    rfl

theorem consistent_upsert (consistent : (l.view r).Consistent) (found : l.tasks.find t.key = some t)
    (sameKey : t'.key = t.key) (calm : Calm t t') (kept : t'.state.isTerminal = true → t.state = t'.state)
    (upserted : l'.tasks = l.tasks.upsert t') (run : t.runId = r) (edges : l'.depSatisfaction = l.depSatisfaction)
    (graph : l'.taskDependencies = l.taskDependencies ∧ l'.taskDependents = l.taskDependents) :
    (l'.view r).Consistent ∧ (l.view r).SameGraph (l'.view r) := by
  have here : (l.view r).task t.taskKey = some t := by rw [← found, ← run]; rfl
  have tasks := view_upsert_task sameKey upserted run
  have same : (l.view r).SameGraph (l'.view r) := by
    refine ⟨fun k => ?_, fun u => ?_, fun u d => ?_, fun k => ?_⟩
    · simp only [view, graph.1]
    · simp only [view, getDependents, graph.2]
    · simp only [view, edges]
    · rw [tasks]
      split
      · rename_i isTask
        rw [isTask, here]
        rfl
      · rfl
  have before : ∀ k row, (l'.view r).task k = some row → ∃ old, (l.view r).task k = some old ∧ Calm old row ∧
      (row.state.isTerminal = true → old.state = row.state) := by
    intro k row foundRow
    rw [tasks] at foundRow
    split at foundRow
    · rename_i isTask
      cases foundRow
      exact ⟨t, isTask ▸ here, calm, kept⟩
    · exact ⟨row, foundRow, .refl row, fun _ => rfl⟩
  refine ⟨consistent.calm same ?_ ?_ ?_, same⟩
  · intro u d _
    simp only [sat, view, edges]
  · intro k row foundRow
    obtain ⟨old, foundOld, oldCalm, _⟩ := before k row foundRow
    exact ⟨old, foundOld, oldCalm⟩
  · intro u tu foundU ended failure d member td foundD blocked
    obtain ⟨u', foundU', _, sameEnd⟩ := before u tu foundU
    obtain ⟨d', foundD', calmD, _⟩ := before d td foundD
    have state := sameEnd ended
    rw [← state] at ended failure
    exact consistent.failed u u' foundU' ended failure d member d' foundD' (calmD.blocked blocked)

/-! ## Success of a task -/

theorem counted_countSatisfied {u k : String} (other : k ≠ u) (t : TaskRow) : Counted u k true t (t.countSatisfied ev) := by
  dsimp only [countSatisfied]
  split
  · rename_i last
    exact ⟨rfl, rfl, .inr (.inl ⟨other, last.2, rfl, last.1⟩)⟩
  · rename_i notLast
    exact ⟨rfl, rfl, .inr (.inr ⟨other, rfl, fun blocked _ full => notLast ⟨full, blocked⟩⟩)⟩

theorem counted_finished (ev : Envelope) (u : String) (gained : Bool) (total : t'.depsTotal = t.depsTotal)
    (count : t'.depsSatisfiedCount = t.depsSatisfiedCount) (done : t'.state = .succeeded) :
    Counted u u gained t (if gained then t'.countSatisfied ev else t') := by
  cases gained with
  | false => exact ⟨total, count, .inl ⟨rfl, done⟩⟩
  | true =>
    have notBlocked : ¬ (t'.depsSatisfiedCount + 1 = t'.depsTotal ∧ t'.state = .blocked) := by
      rw [done]
      exact fun absurd => nomatch absurd.2
    rw [if_pos rfl, countSatisfied, if_neg notBlocked]
    exact ⟨total, by rw [← count]; rfl, .inl ⟨rfl, done⟩⟩

section Finish

variable {p : TaskFinished} (completes : l.Completes p t)

include completes

theorem view_completed_task (k : String) : ((l.completed ext ev p t).view p.runId).task k =
    if k = p.taskKey then some (t.finish ext ev p) else (l.view p.runId).task k := by
  have key : t.key = (p.runId, p.taskKey) := key_of_find completes.found
  have start := find_completed ext l ev p t (p.runId, k)
  rw [key] at start
  simpa [view] using start

theorem sameGraph_completed {f : String → TaskRow → TaskRow} (dependencies : l'.taskDependencies = l.taskDependencies)
    (dependents : l'.taskDependents = l.taskDependents)
    (edge : ∀ u d, ((l'.view p.runId).edge u d).isSome = ((l.view p.runId).edge u d).isSome)
    (row : ∀ k, (l'.view p.runId).task k = (((l.completed ext ev p t).view p.runId).task k).map (f k)) :
    (l.view p.runId).SameGraph (l'.view p.runId) := by
  refine ⟨fun k => ?_, fun u => ?_, edge, fun k => ?_⟩
  · simp only [view, dependencies]
  · simp only [view, getDependents, dependents]
  · rw [row, Option.isSome_map, view_completed_task completes]
    split
    · rename_i here
      have found : (l.view p.runId).task k = some t := by rw [here]; exact completes.found
      rw [found]
      rfl
    · rfl

theorem consistent_satisfied (success : p.outcome = .succeeded) (consistent : (l.view p.runId).Consistent)
    (after : l' = (l.completed ext ev p t).satisfied ev p.runId p.taskKey p.attempt
      (l.getDependents p.runId p.taskKey)) :
    (l'.view p.runId).Consistent ∧ (l.view p.runId).SameGraph (l'.view p.runId) := by
  have unsatisfied : ∀ d, (l.completed ext ev p t).edgeSatisfied p.runId p.taskKey d = false :=
    consistent.sat_of_not_succeeded (not_succeeded_of_active completes.found completes.active)
  have row : ∀ k, (l'.view p.runId).task k = (((l.completed ext ev p t).view p.runId).task k).map
      (countIn ev (l.completed ext ev p t) p.runId p.taskKey (l.getDependents p.runId p.taskKey)) :=
    find_view_mapRows (key_countIn _) (by rw [after]; rfl)
  have counts : ∀ k (old : TaskRow), old.key = (p.runId, k) →
      countIn ev (l.completed ext ev p t) p.runId p.taskKey (l.getDependents p.runId p.taskKey) old =
        if k ∈ l.getDependents p.runId p.taskKey then old.countSatisfied ev else old := by
    intro k old key
    obtain ⟨run, rfl⟩ : old.runId = p.runId ∧ old.taskKey = k := by simpa [TaskRow.key] using key
    simp [countIn, run, unsatisfied]
  have edge : ∀ u d, (l'.view p.runId).edge u d = if u = p.taskKey ∧ d ∈ l.getDependents p.runId p.taskKey then
      some (satisfiedEdge ev p.runId p.taskKey p.attempt d) else (l.view p.runId).edge u d := by
    intro u d
    rw [after]
    by_cases here : u = p.taskKey
    · subst here
      simpa [view, satisfied, completed, modifyRun]
        using find_satisfiedEdges (l := l) p.attempt (l.getDependents p.runId p.taskKey) d
    · rw [if_neg fun h => here h.1]
      refine find_upsertAll_of_not_mem fun x member same => here ?_
      obtain ⟨_, _, rfl⟩ := mem_map.mp member
      exact (congrArg (fun k => k.2.1) same).symm
  have same : (l.view p.runId).SameGraph (l'.view p.runId) := by
    refine sameGraph_completed completes (by rw [after]; rfl) (by rw [after]; rfl) (fun u d => ?_) row
    rw [edge]
    split
    · rename_i hit
      rw [hit.1]
      exact ((consistent.dependents p.taskKey d).mp hit.2).symm
    · rfl
  refine ⟨consistent.succeed same completes.found completes.active ?_ ?_, same⟩
  · intro w d isEdge
    unfold sat
    rw [edge]
    by_cases here : w = p.taskKey
    · subst here
      rw [if_pos ⟨rfl, (consistent.dependents _ d).mpr isEdge⟩]
      simp [satisfiedEdge]
    · rw [if_neg fun h => here h.1]
      simp [here]
  · intro k row' found'
    rw [row, view_completed_task completes] at found'
    by_cases here : k = p.taskKey
    · subst here
      rw [if_pos rfl, Option.map_some,
        counts p.taskKey _ ((key_finish ext ev p t).trans (key_of_find completes.found))] at found'
      cases found'
      obtain ⟨total, count⟩ := Calm.counters_finish ext ev p t
      have done : (t.finish ext ev p).state = .succeeded := by rw [state_finish, success]; rfl
      have counted := fun gained => counted_finished ev p.taskKey gained total count done
      refine ⟨t, completes.found, ?_⟩
      by_cases gains : p.taskKey ∈ l.getDependents p.runId p.taskKey
      · simpa [view, gains] using counted true
      · simpa [view, gains] using counted false
    · rw [if_neg here] at found'
      obtain ⟨old, foundOld, rfl⟩ := Option.map_eq_some_iff.mp found'
      refine ⟨old, foundOld, ?_⟩
      rw [counts k old (key_of_find foundOld)]
      by_cases gains : k ∈ l.getDependents p.runId p.taskKey
      · simpa [view, gains] using counted_countSatisfied here old
      · refine ⟨by simp [gains], by simp [view, gains], .inr (.inr ⟨here, by simp [gains], fun _ gained => ?_⟩)⟩
        simp [view, gains] at gained

theorem consistent_cascaded (fails : Fails p t) (consistent : (l.view p.runId).Consistent) {closed : List String}
    (doomed : ∀ d, d ∈ closed ↔ l.Doomed p.runId p.taskKey d ∧ d ≠ p.taskKey) {resolution : DepResolution}
    (after : l' = (l.completed ext ev p t).cascaded ev p.runId resolution.cascadeState closed
      (l.edgesFrom ev p.runId (cascadeItems p.taskKey resolution closed))) :
    (l'.view p.runId).Consistent ∧ (l.view p.runId).SameGraph (l'.view p.runId) := by
  have row : ∀ k, (l'.view p.runId).task k = (((l.completed ext ev p t).view p.runId).task k).map
      fun old => if k ∈ closed then old.close ev resolution.cascadeState else old := by
    intro k
    rw [after]
    exact find_tasks_cascaded k
  have unsatisfied : ∀ w d, w = p.taskKey ∨ w ∈ closed → (l.view p.runId).sat w d = false := by
    intro w d visited
    refine consistent.sat_of_not_succeeded ?_ d
    rcases visited with rfl | member
    · exact not_succeeded_of_active completes.found completes.active
    · obtain ⟨old, foundOld, isOpen⟩ := ((doomed w).mp member).1.open
      exact not_succeeded_of_active foundOld isOpen
  -- an edge that is written leaves a task that has not succeeded, and stays unsatisfied
  have written : ∀ w d, (l'.view p.runId).edge w d = (l.view p.runId).edge w d ∨
      ((w = p.taskKey ∨ w ∈ closed) ∧ d ∈ l.getDependents p.runId w ∧
        ∃ x, (l'.view p.runId).edge w d = some x ∧ x.satisfied = false) := by
    intro w d
    have now := @find_edges_cascaded (l.completed ext ev p t) ev p.runId p.taskKey resolution resolution.cascadeState
      closed p.runId w d
    have here : (l'.view p.runId).edge w d = _ := (congrArg (fun x => (view x p.runId).edge w d) after).trans now
    split at here
    · rename_i hit
      exact .inr ⟨.inr hit.2.1, hit.2.2, _, here, rfl⟩
    · split at here
      · rename_i hit
        exact .inr ⟨.inl (mem_singleton.mp hit.2.1), hit.2.2, _, here, rfl⟩
      · exact .inl here
  have edge : ∀ w d, ((l'.view p.runId).edge w d).isSome = ((l.view p.runId).edge w d).isSome ∧
      (l'.view p.runId).sat w d = (l.view p.runId).sat w d := by
    intro w d
    rcases written w d with same | ⟨visited, dependent, x, now, off⟩
    · exact ⟨by rw [same], by rw [sat, same, sat]⟩
    · rw [unsatisfied w d visited, sat, now, (consistent.dependents w d).mp dependent]
      exact ⟨rfl, off⟩
  have same : (l.view p.runId).SameGraph (l'.view p.runId) :=
    sameGraph_completed completes (by rw [after]; rfl) (by rw [after]; rfl) (fun u d => (edge u d).1) row
  have before : ∀ k now, (l'.view p.runId).task k = some now → ∃ old, (l.view p.runId).task k = some old ∧ Calm old now ∧
      ((k = p.taskKey ∧ now.state.isTerminal = true) ∨ (k ∈ closed ∧ now.state.isTerminal = true) ∨
        (k ∉ closed ∧ k ≠ p.taskKey ∧ now = old)) := by
    intro k now foundNow
    rw [row, view_completed_task completes] at foundNow
    by_cases here : k = p.taskKey
    · have notClosed : k ∉ closed := fun member => ((doomed k).mp member).2 here
      rw [if_pos here, Option.map_some, if_neg notClosed] at foundNow
      cases foundNow
      refine ⟨t, by rw [here]; exact completes.found, .of_finish completes.active fails.failure, .inl ⟨here, ?_⟩⟩
      rw [state_finish, fails.ended]
    · rw [if_neg here] at foundNow
      obtain ⟨old, foundOld, rfl⟩ := Option.map_eq_some_iff.mp foundNow
      refine ⟨old, foundOld, ?_⟩
      by_cases member : k ∈ closed
      · rw [if_pos member]
        obtain ⟨_, foundOpen, isOpen⟩ := ((doomed k).mp member).1.open
        cases foundOld.symm.trans foundOpen
        refine ⟨.of_close isOpen ?_, .inr (.inl ⟨member, isTerminal_cascadeState resolution⟩)⟩
        cases resolution <;> simp [DepResolution.cascadeState]
      · rw [if_neg member]
        exact ⟨.refl old, .inr (.inr ⟨member, here, rfl⟩)⟩
  refine ⟨consistent.calm same (fun w d _ => (edge w d).2) ?_ ?_, same⟩
  · intro k now foundNow
    obtain ⟨old, foundOld, calmOld, _⟩ := before k now foundNow
    exact ⟨old, foundOld, calmOld⟩
  · intro u tu foundU endedU failure d member td foundD blocked
    obtain ⟨_, foundUOld, _, uCases⟩ := before u tu foundU
    obtain ⟨dOld, foundDOld, calmD, dCases⟩ := before d td foundD
    -- an open dependent of a task that failed now is doomed, hence closed
    have hit : (u = p.taskKey ∨ u ∈ closed) → False := by
      intro visited
      rcases dCases with ⟨_, ended⟩ | ⟨_, ended⟩ | ⟨notClosed, other, rfl⟩
      · rw [blocked] at ended
        cases ended
      · rw [blocked] at ended
        cases ended
      · have isOpen : l.Open p.runId d := ⟨td, foundDOld, by rw [blocked]; rfl⟩
        refine notClosed ((doomed d).mpr ⟨?_, other⟩)
        rcases visited with rfl | uClosed
        · exact .direct member isOpen
        · exact .next ((doomed u).mp uClosed).1 member isOpen
    rcases uCases with ⟨here, _⟩ | ⟨uClosed, _⟩ | ⟨_, _, rfl⟩
    · exact hit (.inl here)
    · exact hit (.inr uClosed)
    · exact consistent.failed u tu foundUOld endedU failure d member dOld foundDOld (calmD.blocked blocked)

theorem consistent_finishTask (consistent : (l.view p.runId).Consistent) :
    ((l.finishTask ext ev p t).view p.runId).Consistent ∧
      (l.view p.runId).SameGraph ((l.finishTask ext ev p t).view p.runId) := by
  have key : t.key = (p.runId, p.taskKey) := key_of_find completes.found
  generalize finish : l.finishTask ext ev p t = after
  cases finished_finishTask completes finish with
  | retried isOpen =>
    -- the attempt is retried: the row waits and nothing else happens
    have failed : p.outcome ≠ .succeeded := fun success => by rw [success] at isOpen; cases isOpen
    refine consistent_upsert consistent (key ▸ completes.found) (key_finish ext ev p t)
      (.of_finish completes.active failed) (fun ended => ?_) rfl (congrArg fst key) rfl ⟨rfl, rfl⟩
    rw [state_finish, isOpen] at ended
    cases ended
  | succeeded success => exact consistent_satisfied completes success consistent rfl
  | failed fails closed nodup doomed => exact consistent_cascaded completes fails consistent doomed rfl

end Finish

/-! ## A plan for a run without tasks -/

section Plan

variable {p : PlanCreated}

theorem view_planned_task (ev : Envelope) (distinct : (p.tasks.map (·.key)).Nodup) (blank : (l.view p.runId).Blank) (k : String)
    (t : TaskRow) : ((l.planned ev p).view p.runId).task k = some t ↔
      ∃ d ∈ p.tasks, d.key = k ∧ d.row ev p.runId = t := by
  have none : l.tasks.find (p.runId, k) = none := blank.task k
  have rows := find_upsertAll_cases l.tasks (p.tasks.map (TaskDef.row ev p.runId)) (p.runId, k)
  show (l.tasks.upsertAll (p.tasks.map (TaskDef.row ev p.runId))).find (p.runId, k) = some t ↔ _
  rcases rows with ⟨_, member, key, now⟩ | ⟨absent, now⟩
  · obtain ⟨d, inPlan, rfl⟩ := mem_map.mp member
    have dKey : d.key = k := congrArg snd key
    rw [now, Option.some.injEq]
    constructor
    · exact fun same => ⟨d, inPlan, dKey, same⟩
    · rintro ⟨_, inPlan', key', same⟩
      rw [inj_on_of_nodup_map distinct inPlan inPlan' (dKey.trans key'.symm), same]
  · rw [now, none]
    constructor
    · rintro ⟨⟩
    · rintro ⟨d, inPlan, rfl, _⟩
      exact absurd rfl (absent _ (mem_map_of_mem inPlan))

theorem mem_planEdges {x : DepSatisfactionRow} :
    x ∈ p.edges ev ↔ ∃ d ∈ p.tasks, ∃ u ∈ d.dependsOn, d.edge ev p.runId u = x := by
  simp only [PlanCreated.edges, mem_flatMap, mem_map]

theorem view_planned_edge (blank : (l.view p.runId).Blank) (u k : String) (x : DepSatisfactionRow) :
    ((l.planned ev p).view p.runId).edge u k = some x ↔
      ∃ d ∈ p.tasks, d.key = k ∧ u ∈ d.dependsOn ∧ d.edge ev p.runId u = x := by
  have none : l.depSatisfaction.find (p.runId, u, k) = none := blank.edge u k
  have rows := find_upsertAll_cases l.depSatisfaction (p.edges ev) (p.runId, u, k)
  show (l.depSatisfaction.upsertAll (p.edges ev)).find (p.runId, u, k) = some x ↔ _
  rcases rows with ⟨_, member, key, now⟩ | ⟨absent, now⟩
  · obtain ⟨d, inPlan, w, dep, rfl⟩ := mem_planEdges.mp member
    obtain ⟨rfl, rfl⟩ : w = u ∧ d.key = k := by simpa [DepSatisfactionRow.key, TaskDef.edge] using key
    rw [now, Option.some.injEq]
    constructor
    · exact fun same => ⟨d, inPlan, rfl, dep, same⟩
    · rintro ⟨_, _, key', _, rfl⟩
      simp only [TaskDef.edge, key']
  · rw [now, none]
    constructor
    · rintro ⟨⟩
    · rintro ⟨d, inPlan, rfl, dep, _⟩
      exact absurd rfl (absent _ (mem_planEdges.mpr ⟨d, inPlan, u, dep, rfl⟩))

variable {runId : String}

theorem get_foldl_insert {defs : List TaskDef} (m : TaskLists)
    (distinct : (defs.map (·.key)).Nodup) {d : TaskDef} (member : d ∈ defs) :
    (defs.foldl (fun m d => m.insert (runId, d.key) d.dependsOn) m).get (runId, d.key) = some d.dependsOn := by
  rw [foldl_insert_eq]
  refine congrArg (Option.map snd) (find_upsertAll_of_mem (mem_map_of_mem member) fun entry listed same => ?_)
  obtain ⟨_, inPlan, rfl⟩ := mem_map.mp listed
  rw [inj_on_of_nodup_map distinct inPlan member (congrArg snd same)]

theorem mem_addDependent {downstream : String} (ups : List String) (m : TaskLists)
    (u k : String) : k ∈ ((ups.foldl (addDependent runId downstream) m).get (runId, u)).getD [] ↔
      k ∈ (m.get (runId, u)).getD [] ∨ (k = downstream ∧ u ∈ ups) := by
  induction ups generalizing m with
  | nil => simp
  | cons first rest ih =>
    rw [foldl_cons, ih, addDependent, Map.get_insert]
    by_cases here : first = u
    · subst here
      simp
      tauto
    · simp [here, Ne.symm here]

theorem mem_planDependents (defs : List TaskDef) (m : TaskLists) (u k : String) :
    k ∈ ((defs.foldl (fun m d => d.dependsOn.foldl (addDependent runId d.key) m) m).get (runId, u)).getD [] ↔
      k ∈ (m.get (runId, u)).getD [] ∨ ∃ d ∈ defs, d.key = k ∧ u ∈ d.dependsOn := by
  induction defs generalizing m with
  | nil => simp
  | cons d rest ih =>
    rw [foldl_cons, ih, mem_addDependent]
    simp only [mem_cons, exists_eq_or_imp, or_assoc, eq_comm (a := k)]

theorem view_planned_dependents (blank : (l.view p.runId).Blank) (u k : String) :
    k ∈ ((l.planned ev p).view p.runId).dependents u ↔ ∃ d ∈ p.tasks, d.key = k ∧ u ∈ d.dependsOn := by
  have none : (l.taskDependents.get (p.runId, u)).getD [] = [] := blank.dependents u
  have whole : k ∈ ((l.planned ev p).view p.runId).dependents u ↔ _ := mem_planDependents p.tasks l.taskDependents u k
  rw [whole, none]
  simp only [not_mem_nil, false_or]

theorem consistent_planned (ev : Envelope) (distinct : (p.tasks.map (·.key)).Nodup) (blank : (l.view p.runId).Blank) :
    ((l.planned ev p).view p.runId).Consistent ∧ ((l.planned ev p).view p.runId).Follows p := by
  have task := view_planned_task ev distinct blank
  have dependencies : ∀ d ∈ p.tasks, ((l.planned ev p).view p.runId).dependencies d.key = some d.dependsOn :=
    fun d member => get_foldl_insert l.taskDependencies distinct member
  refine ⟨consistent_of_plan distinct task (view_planned_edge blank) dependencies (view_planned_dependents blank),
    fun k => ?_, dependencies⟩
  rw [Option.isSome_iff_exists]
  constructor
  · rintro ⟨t, found⟩
    obtain ⟨d, inPlan, rfl, _⟩ := (task k t).mp found
    exact mem_map_of_mem inPlan
  · intro member
    obtain ⟨d, inPlan, rfl⟩ := mem_map.mp member
    exact ⟨_, (task d.key _).mpr ⟨d, inPlan, rfl, rfl⟩⟩

end Plan

/-! ## All steps -/

theorem sameGraph_refl (v : RunView) : v.SameGraph v := ⟨fun _ => rfl, fun _ => rfl, fun _ _ => rfl, fun _ => rfl⟩

theorem Step.consistent (step : Step ext e l l') (consistent : (l.view r).Consistent) {k : String}
    (some : (l.view r).task k = some t) : (l'.view r).Consistent ∧ (l.view r).SameGraph (l'.view r) := by
  cases step with
  | triggered p isEvent new => exact ⟨consistent, sameGraph_refl _⟩
  | planned p isEvent fresh =>
    rw [view_planned_other (ne_of_hasTasks_false fresh some)]
    exact ⟨consistent, sameGraph_refl _⟩
  | cancelled p isEvent active => exact consistent_cancelRequested p.runId consistent
  | updated row row' found update =>
    by_cases mine : row.runId = r
    · refine consistent_upsert consistent found update.rewritten.key (.of_updates update) (fun ended => ?_) rfl mine rfl
        ⟨rfl, rfl⟩
      rcases update.sameEnd with same | ⟨_, isOpen⟩
      · exact same.symm
      · cases isOpen.symm.trans ended
    · have other : r ≠ row'.runId := fun same => mine (same.trans (congrArg fst update.rewritten.key)).symm
      rw [view_upsert_other other l.runs]
      exact ⟨consistent, sameGraph_refl _⟩
  | finished p row isEvent found current active =>
    by_cases mine : r = p.runId
    · subst mine
      exact consistent_finishTask ⟨found, current, active⟩ consistent
    · rw [view_finishTask_other ⟨found, current, active⟩ mine]
      exact ⟨consistent, sameGraph_refl _⟩

theorem Step.blank (step : Step ext e l l') (blank : (l.view r).Blank) :
    (l'.view r).Blank ∨ ∃ p, e.data = .planCreated p ∧ p.runId = r ∧ l' = l.planned e.toEnvelope p := by
  cases step with
  | triggered p isEvent new => exact .inl blank
  | planned p isEvent fresh =>
    by_cases mine : r = p.runId
    · exact .inr ⟨p, isEvent, mine.symm, rfl⟩
    · rw [view_planned_other mine]
      exact .inl blank
  | cancelled p isEvent active =>
    refine .inl ⟨fun k => ?_, blank.edge, blank.dependencies, blank.dependents⟩
    rw [find_view_mapRows (l := l) key_cancelIn rfl, blank.task, Option.map_none]
  | updated row row' found update =>
    have other : r ≠ row.runId := fun same => by
      have none := blank.task row.taskKey
      rw [show (l.view r).task row.taskKey = l.tasks.find (r, row.taskKey) from rfl, same,
        show (row.runId, row.taskKey) = row.key from rfl, found] at none
      cases none
    have otherRow : r ≠ row'.runId := fun same => other (same.trans (congrArg fst update.rewritten.key))
    rw [view_upsert_other otherRow l.runs]
    exact .inl blank
  | finished p row isEvent found current active =>
    have other : r ≠ p.runId := fun same => by
      have none := blank.task p.taskKey
      rw [show (l.view r).task p.taskKey = l.tasks.find (r, p.taskKey) from rfl, same, found] at none
      cases none
    rw [view_finishTask_other ⟨found, current, active⟩ other]
    exact .inl blank

end Lifecycle

/-- The run has no tasks, or they are consistent and those of a plan in `plans`. -/
def RunView.Sound (plans : PlanCreated → Prop) (v : RunView) : Prop :=
  v.Blank ∨ ∃ p, plans p ∧ p.tasks ≠ [] ∧ v.Follows p ∧ v.Consistent

namespace Lifecycle

variable {ext : Externals} {e : OrchestrationEvent} {l l' : Lifecycle} {r : String} {plans : PlanCreated → Prop}
  {p : PlanCreated}

theorem blank_planned_nil {ev : Envelope} (none : p.tasks = []) (blank : (l.view r).Blank) :
    ((l.planned ev p).view r).Blank := by
  have same : (l.planned ev p).view r = l.view r := by
    unfold planned PlanCreated.edges
    rw [none]
    rfl
  rwa [same]

theorem Step.follows (step : Step ext e l l') (nonempty : p.tasks ≠ []) (follows : (l.view r).Follows p)
    (consistent : (l.view r).Consistent) :
    (l'.view r).Follows p ∧ (l'.view r).Consistent := by
  obtain ⟨d, member⟩ := exists_mem_of_ne_nil _ nonempty
  obtain ⟨t, found⟩ := Option.isSome_iff_exists.mp ((follows.task d.key).mpr (mem_map_of_mem member))
  obtain ⟨consistent', same⟩ := step.consistent consistent found
  exact ⟨follows.sameGraph same, consistent'⟩

theorem Steps.follows (steps : Steps ext e l l') (nonempty : p.tasks ≠ []) (follows : (l.view r).Follows p)
    (consistent : (l.view r).Consistent) :
    (l'.view r).Follows p ∧ (l'.view r).Consistent := by
  induction steps with
  | refl => exact ⟨follows, consistent⟩
  | tail _ step ih => exact step.follows nonempty ih.1 ih.2

theorem Step.sound (step : Step ext e l l') (sound : (l.view r).Sound plans)
    (distinct : ∀ p, e.data = .planCreated p → p.runId = r → plans p ∧ (p.tasks.map (·.key)).Nodup) :
    (l'.view r).Sound plans := by
  rcases sound with blank | ⟨p, planned, nonempty, follows, consistent⟩
  · rcases step.blank blank with blank' | ⟨p, isEvent, rfl, rfl⟩
    · exact .inl blank'
    · by_cases none : p.tasks = []
      · exact .inl (blank_planned_nil none blank)
      · obtain ⟨planned, nodup⟩ := distinct p isEvent rfl
        obtain ⟨consistent, follows⟩ := consistent_planned e.toEnvelope nodup blank
        exact .inr ⟨p, planned, none, follows, consistent⟩
  · obtain ⟨follows', consistent'⟩ := step.follows nonempty follows consistent
    exact .inr ⟨p, planned, nonempty, follows', consistent'⟩

theorem Steps.sound (steps : Steps ext e l l') (sound : (l.view r).Sound plans)
    (distinct : ∀ p, e.data = .planCreated p → p.runId = r → plans p ∧ (p.tasks.map (·.key)).Nodup) :
    (l'.view r).Sound plans := by
  induction steps with
  | refl => exact sound
  | tail _ step ih => exact step.sound ih distinct

end Lifecycle

end Arco.Flow
