import Arco.Data.Delta
import Arco.Flow.Closing

/-! The completion of an attempt, with the rows that it writes.

The predicates read the state before the completion only. A row that the completion writes
gets the event id as its version; every other row keeps its version, and no task falls in
rank.
-/

namespace Arco.Flow

open Keyed Table

namespace Lifecycle

structure Readies (l : Lifecycle) (p : TaskFinished) (row : TaskRow) : Prop where
  success : p.outcome = .succeeded
  dependent : row.taskKey ∈ l.getDependents p.runId p.taskKey
  unsatisfied : l.edgeSatisfied p.runId p.taskKey row.taskKey = false
  last : row.depsSatisfiedCount + 1 = row.depsTotal
  blocked : row.state = .blocked

/-- The completion of `t` writes the row: it is `t` itself, or it becomes ready or is closed with it. -/
def CompletionWritesTask (l : Lifecycle) (p : TaskFinished) (row : TaskRow) : Prop :=
  ∃ t, l.Completes p t ∧ (row.key = t.key ∨
    (row.key ≠ t.key ∧ row.runId = p.runId ∧
      (l.Readies p row ∨ (Fails p t ∧ l.Doomed p.runId p.taskKey row.taskKey))))

def CompletionWritesRun (l : Lifecycle) (p : TaskFinished) (run : RunRow) : Prop :=
  ∃ t, l.Completes p t ∧ (t.stateAfter p.outcome).isTerminal = true ∧ run.runId = p.runId

/-- The completion of `t` resolves the edges that leave it, and those that leave the tasks closed with it. -/
def CompletionWritesEdge (l : Lifecycle) (p : TaskFinished) (edge : DepSatisfactionRow) : Prop :=
  ∃ t, l.Completes p t ∧ edge.runId = p.runId ∧
    edge.downstreamTaskKey ∈ l.getDependents p.runId edge.upstreamTaskKey ∧
    ((p.outcome = .succeeded ∧ edge.upstreamTaskKey = p.taskKey) ∨
      (Fails p t ∧ (edge.upstreamTaskKey = p.taskKey ∨ l.Doomed p.runId p.taskKey edge.upstreamTaskKey)))

end Lifecycle

namespace TaskRow

theorem rowVersion_finish (ext : Externals) (ev : Envelope) (p : TaskFinished) (t : TaskRow) :
    (t.finish ext ev p).rowVersion = ev.eventId := by
  unfold finish
  split <;> rfl

theorem rank_le_of_terminal {state state' : TaskState} (active : state.isTerminal = false)
    (ended : state'.isTerminal = true) : state.rank ≤ state'.rank := by
  have high : TaskState.rank .retryWait ≤ state'.rank := by
    cases state' <;> first | decide | cases ended
  exact (TaskState.rank_le_retryWait active).trans high

end TaskRow

theorem RunRow.rowVersion_settle (ev : Envelope) (state : TaskState) (run : RunRow) :
    (run.settle ev state).rowVersion = ev.eventId := by
  dsimp only [RunRow.settle]
  split <;> rfl

theorem RunRow.rowVersion_settle_iterate (ev : Envelope) (first state : TaskState) (n : Nat) (run : RunRow) :
    ((RunRow.settle ev state)^[n] (run.settle ev first)).rowVersion = ev.eventId := by
  cases n with
  | zero => exact rowVersion_settle ev first run
  | succ n => rw [Function.iterate_succ_apply', rowVersion_settle]

namespace Lifecycle

variable {ext : Externals} {ev : Envelope} {l : Lifecycle} {p : TaskFinished} {t row : TaskRow} {k : String × String}

theorem Completes.exists_iff (completes : l.Completes p t) {Q : TaskRow → Prop} :
    (∃ other, l.Completes p other ∧ Q other) ↔ Q t := by
  constructor
  · rintro ⟨_, again, holds⟩
    rwa [Option.some.inj (again.found.symm.trans completes.found)] at holds
  · exact fun holds => ⟨t, completes, holds⟩

theorem completionWritesTask_iff (completes : l.Completes p t) :
    l.CompletionWritesTask p row ↔ row.key = t.key ∨ (row.key ≠ t.key ∧ row.runId = p.runId ∧
      (l.Readies p row ∨ (Fails p t ∧ l.Doomed p.runId p.taskKey row.taskKey))) :=
  completes.exists_iff

structure CompletedRow (l : Lifecycle) (ev : Envelope) (p : TaskFinished) (row row' : TaskRow) : Prop where
  written : l.CompletionWritesTask p row → row'.rowVersion = ev.eventId
  carried : ¬ l.CompletionWritesTask p row → row'.rowVersion = row.rowVersion
  rank : row.state.rank ≤ row'.state.rank

theorem completedRow_named (completes : l.Completes p t) {row' : TaskRow} (version : row'.rowVersion = ev.eventId)
    (rank : (t.stateAfter p.outcome).rank ≤ row'.state.rank) : CompletedRow l ev p t row' where
  written _ := version
  carried notWritten := absurd ((completionWritesTask_iff completes).mpr (.inl rfl)) notWritten
  rank := (TaskRow.rank_le_stateAfter completes.active p.outcome).trans rank

theorem rowVersion_countSatisfied : (t.countSatisfied ev).rowVersion =
    if t.depsSatisfiedCount + 1 = t.depsTotal ∧ t.state = .blocked then ev.eventId else t.rowVersion := by
  dsimp only [TaskRow.countSatisfied]
  split <;> rfl

theorem rank_countSatisfied (t : TaskRow) : t.state.rank ≤ (t.countSatisfied ev).state.rank := by
  dsimp only [TaskRow.countSatisfied]
  split
  · rename_i full
    rw [full.2]
    exact (by decide : TaskState.rank .blocked ≤ TaskState.rank .ready)
  · exact Nat.le_refl _

theorem completedRow_counted (completes : l.Completes p t) (success : p.outcome = .succeeded)
    (other : row.key ≠ t.key) :
    CompletedRow l ev p row
      (countIn ev (l.completed ext ev p t) p.runId p.taskKey (l.getDependents p.runId p.taskKey) row) := by
  have writes : l.CompletionWritesTask p row ↔ row.runId = p.runId ∧ l.Readies p row := by
    rw [completionWritesTask_iff completes]
    have noFail : ¬ Fails p t := fun fails => fails.failure success
    simp [other, noFail]
  unfold countIn
  split
  · rename_i counts
    obtain ⟨run, dependent, unsatisfied⟩ := counts
    refine ⟨fun written => ?_, fun notWritten => ?_, rank_countSatisfied row⟩
    · have readies := (writes.mp written).2
      rw [rowVersion_countSatisfied, if_pos ⟨readies.last, readies.blocked⟩]
    · rw [rowVersion_countSatisfied, if_neg]
      rintro ⟨last, blocked⟩
      exact notWritten (writes.mpr ⟨run, success, dependent, unsatisfied, last, blocked⟩)
  · rename_i skipped
    refine ⟨fun written => ?_, fun _ => rfl, Nat.le_refl _⟩
    obtain ⟨run, readies⟩ := writes.mp written
    exact absurd ⟨run, readies.dependent, readies.unsatisfied⟩ skipped

theorem completedRow_closed (completes : l.Completes p t) (fails : Fails p t) {closed : List String}
    (doomed : ∀ d, d ∈ closed ↔ l.Doomed p.runId p.taskKey d ∧ d ≠ p.taskKey) (resolution : DepResolution)
    (found : l.tasks.find k = some row) (other : row.key ≠ t.key) :
    CompletedRow l ev p row (closeIn ev resolution.cascadeState p.runId closed row) := by
  have tKey : t.key = (p.runId, p.taskKey) := key_of_find completes.found
  have writes : l.CompletionWritesTask p row ↔ row.runId = p.runId ∧ row.taskKey ∈ closed := by
    rw [completionWritesTask_iff completes]
    constructor
    · rintro (same | ⟨_, run, readies | ⟨_, reached⟩⟩)
      · exact absurd same other
      · exact absurd readies.success fails.failure
      · refine ⟨run, (doomed _).mpr ⟨reached, fun named => other ?_⟩⟩
        rw [tKey, ← run, ← named]
        rfl
    · rintro ⟨run, member⟩
      exact .inr ⟨other, run, .inr ⟨fails, ((doomed _).mp member).1⟩⟩
  unfold closeIn
  split
  · rename_i mine
    refine ⟨fun _ => rfl, fun notWritten => absurd (writes.mpr mine) notWritten, ?_⟩
    obtain ⟨_, foundOpen, active⟩ := ((doomed _).mp mine.2).1.open
    have here : k = (p.runId, row.taskKey) := by rw [← key_of_find found, ← mine.1]; rfl
    rw [← here, found] at foundOpen
    cases foundOpen
    exact TaskRow.rank_le_of_terminal active (isTerminal_cascadeState resolution)
  · rename_i notMine
    exact ⟨fun written => absurd (writes.mp written) notMine, fun _ => rfl, Nat.le_refl _⟩

theorem task_finishTask (ext : Externals) (ev : Envelope) (completes : l.Completes p t)
    (found : l.tasks.find k = some row) :
    ∃ row', (l.finishTask ext ev p t).tasks.find k = some row' ∧ CompletedRow l ev p row row' := by
  have rowKey : row.key = k := key_of_find found
  have tKey : t.key = (p.runId, p.taskKey) := key_of_find completes.found
  have finishVersion : (t.finish ext ev p).rowVersion = ev.eventId := TaskRow.rowVersion_finish ext ev p t
  have finishState : (t.finish ext ev p).state = t.stateAfter p.outcome := TaskRow.state_finish ev p
  have start := find_completed ext l ev p t k
  generalize finish : l.finishTask ext ev p t = after
  by_cases named : k = t.key
  · -- the completed task itself
    rw [if_pos named] at start
    rw [named, tKey, completes.found] at found
    cases found
    cases finished_finishTask completes finish with
    | retried isOpen => exact ⟨_, start, completedRow_named completes finishVersion (by rw [finishState])⟩
    | succeeded success =>
      refine ⟨_, (find_mapRows (key_countIn _) _ k).trans (congrArg (Option.map _) start), ?_⟩
      have notBlocked : (t.finish ext ev p).state ≠ .blocked := by
        rw [finishState, success]
        exact nofun
      rcases countIn_cases p.runId p.taskKey (l.getDependents p.runId p.taskKey) (t.finish ext ev p) with
        same | counted
      · rw [same]
        exact completedRow_named completes finishVersion (by rw [finishState])
      · rw [counted]
        refine completedRow_named completes ?_ (finishState ▸ rank_countSatisfied _)
        rw [rowVersion_countSatisfied, if_neg fun full => notBlocked full.2, finishVersion]
    | failed fails closed _ doomed =>
      refine ⟨_, (find_mapRows (key_closeIn _ closed) _ k).trans (congrArg (Option.map _) start), ?_⟩
      have notClosed : closeIn ev (failureResolution p.outcome).cascadeState p.runId closed (t.finish ext ev p) =
          t.finish ext ev p := by
        refine if_neg fun mine => ((doomed _).mp mine.2).2 ?_
        exact congrArg Prod.snd ((TaskRow.key_finish ext ev p t).trans tKey)
      rw [notClosed]
      exact completedRow_named completes finishVersion (by rw [finishState])
  · rw [if_neg named, found] at start
    have other : row.key ≠ t.key := fun same => named (rowKey.symm.trans same)
    cases finished_finishTask completes finish with
    | retried isOpen =>
      refine ⟨row, start, ?_, fun _ => rfl, Nat.le_refl _⟩
      intro written
      rcases (completionWritesTask_iff completes).mp written with same | ⟨_, _, readies | ⟨fails, _⟩⟩
      · exact absurd same other
      · rw [readies.success] at isOpen
        cases isOpen
      · cases fails.ended.symm.trans isOpen
    | succeeded success =>
      exact ⟨_, (find_mapRows (key_countIn _) _ k).trans (congrArg (Option.map _) start),
        completedRow_counted completes success other⟩
    | failed fails closed _ doomed =>
      exact ⟨_, (find_mapRows (key_closeIn _ closed) _ k).trans (congrArg (Option.map _) start),
        completedRow_closed completes fails doomed (failureResolution p.outcome) found other⟩

theorem keys_finishTask (ext : Externals) (ev : Envelope) (completes : l.Completes p t) :
    (l.finishTask ext ev p t).tasks.keys = l.tasks.keys := by
  have finished : (l.tasks.upsert (t.finish ext ev p)).keys = l.tasks.keys := by
    apply keys_upsert_of_mem
    rw [TaskRow.key_finish, key_of_find completes.found]
    exact mem_keys_of_find completes.found
  generalize finish : l.finishTask ext ev p t = after
  cases finished_finishTask completes finish with
  | retried _ => exact finished
  | succeeded _ | failed _ _ _ _ => exact (keys_mapRows _ _).trans finished

theorem completionWritesRun_iff (completes : l.Completes p t) (run : RunRow) :
    l.CompletionWritesRun p run ↔ (t.stateAfter p.outcome).isTerminal = true ∧ run.runId = p.runId :=
  completes.exists_iff

theorem stamps_runs_finishTask (ext : Externals) (ev : Envelope) (completes : l.Completes p t) :
    Stamps RunRow.rowVersion ev.eventId (l.CompletionWritesRun p) l.runs (l.finishTask ext ev p t).runs := by
  have writes (ended : (t.stateAfter p.outcome).isTerminal = true) :
      ∀ run ∈ l.runs.rows, run.runId = p.runId ↔ l.CompletionWritesRun p run := by
    intro run _
    simp [completionWritesRun_iff completes, ended]
  generalize finish : l.finishTask ext ev p t = after
  cases finished_finishTask completes finish with
  | retried isOpen =>
    refine (Stamps.refl _ _ _).congr fun run _ => ?_
    simp [completionWritesRun_iff completes, isOpen]
  | succeeded success =>
    have settled := Stamps.modify (RunRow.runId_settle ev (t.stateAfter p.outcome))
      (RunRow.rowVersion_settle ev (t.stateAfter p.outcome)) l.runs p.runId
    exact settled.congr (writes (by rw [success]; rfl))
  | failed fails closed _ _ =>
    dsimp only [cascaded, completed, modifyRun]
    rw [modify_modify (RunRow.runId_settle ev _) (RunRow.runId_settle_iterate ev _ _)]
    refine (Stamps.modify (fun run => ?_) (fun run => ?_) l.runs p.runId).congr (writes fails.ended)
    · exact (RunRow.runId_settle_iterate ev _ _ _).trans (RunRow.runId_settle ev _ run)
    · exact RunRow.rowVersion_settle_iterate ev _ _ _ run

theorem completionWritesEdge_iff (completes : l.Completes p t) (edge : DepSatisfactionRow) :
    l.CompletionWritesEdge p edge ↔
      edge.runId = p.runId ∧ edge.downstreamTaskKey ∈ l.getDependents p.runId edge.upstreamTaskKey ∧
      ((p.outcome = .succeeded ∧ edge.upstreamTaskKey = p.taskKey) ∨
        (Fails p t ∧ (edge.upstreamTaskKey = p.taskKey ∨ l.Doomed p.runId p.taskKey edge.upstreamTaskKey))) :=
  completes.exists_iff

theorem mem_keys_satisfiedEdges {runId upstream : String} {attempt : Nat} {done : List String} {edge : DepSatisfactionRow} :
    edge.key ∈ (done.map (satisfiedEdge ev runId upstream attempt)).map DepSatisfactionRow.key ↔
      edge.runId = runId ∧ edge.upstreamTaskKey = upstream ∧ edge.downstreamTaskKey ∈ done := by
  simp only [List.map_map, List.mem_map, Function.comp_apply, DepSatisfactionRow.key, Prod.mk.injEq]
  constructor
  · rintro ⟨d, member, sameRun, sameUpstream, rfl⟩
    exact ⟨sameRun.symm, sameUpstream.symm, member⟩
  · rintro ⟨rfl, rfl, member⟩
    exact ⟨_, member, rfl, rfl, rfl⟩

theorem mem_keys_edgesFrom {runId : String} {visited : List (String × DepResolution)} {edge : DepSatisfactionRow} :
    edge.key ∈ (l.edgesFrom ev runId visited).map DepSatisfactionRow.key ↔
      edge.runId = runId ∧ edge.upstreamTaskKey ∈ visited.map Prod.fst ∧
        edge.downstreamTaskKey ∈ l.getDependents runId edge.upstreamTaskKey := by
  simp only [edgesFrom, List.mem_map, List.mem_flatMap, DepSatisfactionRow.key]
  constructor
  · rintro ⟨_, ⟨item, visit, d, member, rfl⟩, same⟩
    simp only [Prod.mk.injEq] at same
    obtain ⟨sameRun, sameUpstream, sameDownstream⟩ := same
    exact ⟨sameRun.symm, ⟨item, visit, sameUpstream⟩, sameDownstream ▸ sameUpstream ▸ member⟩
  · rintro ⟨rfl, ⟨item, visit, sameUpstream⟩, member⟩
    rw [← sameUpstream] at member
    refine ⟨_, ⟨item, visit, _, member, rfl⟩, ?_⟩
    simp [resolvedEdge, sameUpstream]

theorem mem_keys_planEdges {p : PlanCreated} {r u d : String} :
    (r, u, d) ∈ (p.edges ev).map DepSatisfactionRow.key ↔
      r = p.runId ∧ ∃ task ∈ p.tasks, task.key = d ∧ u ∈ task.dependsOn := by
  simp only [PlanCreated.edges, List.mem_map, List.mem_flatMap, DepSatisfactionRow.key]
  constructor
  · rintro ⟨_, ⟨task, inPlan, _, member, rfl⟩, same⟩
    simp only [Prod.mk.injEq] at same
    obtain ⟨sameRun, rfl, sameDownstream⟩ := same
    exact ⟨sameRun.symm, task, inPlan, sameDownstream, member⟩
  · rintro ⟨rfl, task, inPlan, rfl, member⟩
    exact ⟨_, ⟨task, inPlan, _, member, rfl⟩, rfl⟩

theorem stamps_edges_finishTask (ext : Externals) (ev : Envelope) (completes : l.Completes p t) :
    Stamps DepSatisfactionRow.rowVersion ev.eventId (l.CompletionWritesEdge p) l.depSatisfaction
      (l.finishTask ext ev p t).depSatisfaction := by
  generalize finish : l.finishTask ext ev p t = after
  cases finished_finishTask completes finish with
  | retried isOpen =>
    refine (Stamps.refl _ _ _).congr fun edge _ => ?_
    rw [completionWritesEdge_iff completes]
    refine ⟨False.elim, ?_⟩
    rintro ⟨_, _, ⟨success, _⟩ | ⟨fails, _⟩⟩
    · rw [success] at isOpen
      cases isOpen
    · cases fails.ended.symm.trans isOpen
  | succeeded success =>
    refine (Stamps.upsertAll (fun edge member => ?_) l.depSatisfaction).congr fun edge _ => ?_
    · obtain ⟨d, _, rfl⟩ := List.mem_map.mp member
      rfl
    · have noFail : ¬ Fails p t := fun fails => fails.failure success
      rw [mem_keys_satisfiedEdges, completionWritesEdge_iff completes]
      simp only [success, noFail, true_and, false_and, or_false]
      constructor
      · rintro ⟨sameRun, sameUpstream, member⟩
        exact ⟨sameRun, sameUpstream ▸ member, sameUpstream⟩
      · rintro ⟨sameRun, member, sameUpstream⟩
        exact ⟨sameRun, sameUpstream, sameUpstream ▸ member⟩
  | failed fails closed _ doomed =>
    refine (Stamps.upsertAll (fun edge member => ?_) l.depSatisfaction).congr fun edge _ => ?_
    · obtain ⟨_, _, inItem⟩ := List.mem_flatMap.mp member
      obtain ⟨d, _, rfl⟩ := List.mem_map.mp inItem
      rfl
    · -- the tasks visited are the failed one and those closed with it
      have visited : edge.upstreamTaskKey ∈ (cascadeItems p.taskKey (failureResolution p.outcome) closed).map
            Prod.fst ↔
          edge.upstreamTaskKey = p.taskKey ∨ l.Doomed p.runId p.taskKey edge.upstreamTaskKey := by
        have others : edge.upstreamTaskKey ∈ closed ↔ _ := doomed edge.upstreamTaskKey
        simp only [cascadeItems, List.map_cons, List.map_map, Function.comp_def, List.map_id', List.mem_cons, others]
        by_cases named : edge.upstreamTaskKey = p.taskKey <;> simp [named]
      rw [mem_keys_edgesFrom, completionWritesEdge_iff completes, visited]
      tauto

theorem keys_updateTask (key : String × String) {f : TaskRow → Option TaskRow}
    (keeps : ∀ t t', f t = some t' → t'.key = t.key) : (l.updateTask key f).1.tasks.keys = l.tasks.keys := by
  unfold updateTask
  cases found : l.tasks.find key with
  | none => rfl
  | some t =>
    simp only [Option.bind_some]
    cases new : f t with
    | none => rfl
    | some t' =>
      refine keys_upsert_of_mem ?_
      rw [keeps t t' new, key_of_find found]
      exact mem_keys_of_find found

@[simp] theorem runs_updateTask (key : String × String) (f : TaskRow → Option TaskRow) :
    (l.updateTask key f).1.runs = l.runs := by
  unfold updateTask
  split <;> rfl

@[simp] theorem depSatisfaction_updateTask (key : String × String) (f : TaskRow → Option TaskRow) :
    (l.updateTask key f).1.depSatisfaction = l.depSatisfaction := by
  unfold updateTask
  split <;> rfl

end Lifecycle

end Arco.Flow
