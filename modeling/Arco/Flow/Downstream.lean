import Arco.Flow.Lifecycle

/-! What the completion of a task does to the tasks downstream of it.

Both loops of the source are given in closed form. A success counts once for every
distinct dependent whose edge was not satisfied. A failure closes exactly the open
tasks that a path of open tasks connects to the failed one; the order in which the
worklist meets them, and repeated dependents, do not matter.
-/

namespace Arco.Flow

open Keyed List Table TaskRow TaskState

@[simp] theorem TaskRow.key_close (ev : Envelope) (state : TaskState) (t : TaskRow) :
    (t.close ev state).key = t.key := rfl

@[simp] theorem TaskRow.key_countSatisfied (ev : Envelope) (t : TaskRow) : (t.countSatisfied ev).key = t.key := by
  dsimp only [countSatisfied]
  split <;> rfl

@[simp] theorem RunRow.runId_settle (ev : Envelope) (state : TaskState) (run : RunRow) :
    (run.settle ev state).runId = run.runId := by
  dsimp only [settle]
  split <;> rfl

theorem RunRow.runId_settle_iterate (ev : Envelope) (state : TaskState) (n : Nat) (run : RunRow) :
    ((RunRow.settle ev state)^[n] run).runId = run.runId := by
  induction n generalizing run with
  | zero => rfl
  | succ n ih => rw [Function.iterate_succ_apply, ih, runId_settle]

namespace Lifecycle

variable {l l' : Lifecycle} {ev : Envelope} {runId upstream : String}

/-! ## Satisfied edges -/

def countIn (ev : Envelope) (l : Lifecycle) (runId upstream : String) (done : List String) (t : TaskRow) : TaskRow :=
  if t.runId = runId ∧ t.taskKey ∈ done ∧ l.edgeSatisfied runId upstream t.taskKey = false then t.countSatisfied ev
  else t

@[simp] theorem key_countIn (done : List String) (t : TaskRow) :
    (countIn ev l runId upstream done t).key = t.key := by
  unfold countIn
  split
  · exact t.key_countSatisfied ev
  · rfl

theorem countIn_cases (runId upstream : String) (done : List String) (t : TaskRow) :
    countIn ev l runId upstream done t = t ∨ countIn ev l runId upstream done t = t.countSatisfied ev := by
  unfold countIn
  split
  · exact .inr rfl
  · exact .inl rfl

def satisfied (l : Lifecycle) (ev : Envelope) (runId upstream : String) (attempt : Nat) (done : List String) :
    Lifecycle :=
  { l with
    tasks := l.tasks.mapRows (countIn ev l runId upstream done)
    depSatisfaction := l.depSatisfaction.upsertAll (done.map (satisfiedEdge ev runId upstream attempt)) }

section

variable (attempt : Nat)
include attempt

theorem satisfied_nil : l.satisfied ev runId upstream attempt [] = l := by
  have unchanged : l.tasks.mapRows (countIn ev l runId upstream []) = l.tasks :=
    mapRows_eq_self fun row _ => by simp [countIn]
  rw [satisfied, unchanged]
  rfl

section

variable (done : List String) (downstream : String)
include done downstream

theorem find_satisfiedEdges :
    (l.depSatisfaction.upsertAll (done.map (satisfiedEdge ev runId upstream attempt))).find
        (runId, upstream, downstream) =
      if downstream ∈ done then some (satisfiedEdge ev runId upstream attempt downstream)
      else l.depSatisfaction.find (runId, upstream, downstream) := by
  split
  · rename_i member
    refine find_upsertAll_of_mem
      (mem_map_of_mem member : satisfiedEdge ev runId upstream attempt downstream ∈ _) ?_
    intro other inDone same
    obtain ⟨d, _, rfl⟩ := mem_map.mp inDone
    have : d = downstream := by simpa [DepSatisfactionRow.key, satisfiedEdge] using same
    rw [this]
  · rename_i absent
    apply find_upsertAll_of_not_mem
    intro other inDone same
    obtain ⟨d, member, rfl⟩ := mem_map.mp inDone
    have : d = downstream := by simpa [DepSatisfactionRow.key, satisfiedEdge] using same
    exact absent (this ▸ member)

theorem edgeSatisfied_satisfied :
    (l.satisfied ev runId upstream attempt done).edgeSatisfied runId upstream downstream =
      if downstream ∈ done then true else l.edgeSatisfied runId upstream downstream := by
  unfold edgeSatisfied satisfied
  rw [find_satisfiedEdges]
  split <;> rfl

theorem satisfyEdge_satisfied :
    satisfyEdge ev runId upstream attempt (l.satisfied ev runId upstream attempt done) downstream =
      l.satisfied ev runId upstream attempt (done ++ [downstream]) := by
  have edges : (l.satisfied ev runId upstream attempt done).depSatisfaction.upsert
        (satisfiedEdge ev runId upstream attempt downstream) =
      (l.satisfied ev runId upstream attempt (done ++ [downstream])).depSatisfaction := by
    simp only [satisfied, map_append, upsertAll_append]
    rfl
  -- the row changes only for a dependent that is met for the first time and was not satisfied before
  have tasks : (if (l.satisfied ev runId upstream attempt done).edgeSatisfied runId upstream downstream = true
        then (l.satisfied ev runId upstream attempt done).tasks
        else (l.satisfied ev runId upstream attempt done).tasks.modify (runId, downstream)
          (countSatisfied ev)) =
      (l.satisfied ev runId upstream attempt (done ++ [downstream])).tasks := by
    rw [edgeSatisfied_satisfied]
    rw [satisfied, modify_mapRows (key_countIn done) (key_countSatisfied ev)]
    by_cases counted : downstream ∈ done
    · rw [if_pos counted, if_pos rfl]
      refine mapRows_congr fun t _ => ?_
      by_cases here : t.taskKey = downstream <;> simp [countIn, here, counted]
    · rw [if_neg counted]
      by_cases was : l.edgeSatisfied runId upstream downstream = true
      · rw [if_pos was]
        refine mapRows_congr fun t _ => ?_
        by_cases here : t.taskKey = downstream <;> simp [countIn, here, was]
      · rw [if_neg was]
        refine mapRows_congr fun t _ => ?_
        by_cases here : t.taskKey = downstream <;> simp [countIn, key, here, was, counted]
  dsimp only [satisfyEdge]
  rw [edges]
  split
  · rename_i was
    rw [if_pos was] at tasks
    rw [tasks]
    rfl
  · rename_i was
    rw [if_neg was] at tasks
    rw [tasks]
    rfl

end

theorem satisfyDownstreamEdges_eq : l.satisfyDownstreamEdges ev runId upstream attempt =
      l.satisfied ev runId upstream attempt (l.getDependents runId upstream) := by
  have loop : ∀ rest done, rest.foldl (satisfyEdge ev runId upstream attempt)
      (l.satisfied ev runId upstream attempt done) = l.satisfied ev runId upstream attempt (done ++ rest) := by
    intro rest
    induction rest with
    | nil => simp
    | cons d rest ih =>
      intro done
      rw [foldl_cons, satisfyEdge_satisfied, ih, append_assoc, singleton_append]
  have whole := loop (l.getDependents runId upstream) []
  rwa [satisfied_nil, nil_append] at whole

end

/-! ## Failed edges -/

def Open (l : Lifecycle) (runId taskKey : String) : Prop :=
  ∃ t, l.tasks.find (runId, taskKey) = some t ∧ t.state.isTerminal = false

/-- The open tasks that a failure of `upstream` reaches. -/
inductive Doomed (l : Lifecycle) (runId upstream : String) : String → Prop where
  | direct {d : String} : d ∈ l.getDependents runId upstream → l.Open runId d → Doomed l runId upstream d
  | next {v d : String} : Doomed l runId upstream v → d ∈ l.getDependents runId v → l.Open runId d →
      Doomed l runId upstream d

theorem Doomed.open {d : String} (doomed : l.Doomed runId upstream d) : l.Open runId d := by
  cases doomed <;> assumption

theorem Doomed.congr (tasks : l'.tasks = l.tasks)
    (dependents : ∀ v d, d ∈ l.getDependents runId v → d ∈ l'.getDependents runId v) {d : String}
    (doomed : l.Doomed runId upstream d) : l'.Doomed runId upstream d := by
  have isOpen : ∀ d, l.Open runId d → l'.Open runId d := by
    rintro d ⟨t, found, active⟩
    exact ⟨t, tasks ▸ found, active⟩
  induction doomed with
  | direct member reached => exact .direct (dependents _ _ member) (isOpen _ reached)
  | next _ member reached ih => exact .next ih (dependents _ _ member) (isOpen _ reached)

def closeIn (ev : Envelope) (state : TaskState) (runId : String) (closed : List String) (t : TaskRow) : TaskRow :=
  if t.runId = runId ∧ t.taskKey ∈ closed then t.close ev state else t

@[simp] theorem key_closeIn (state : TaskState) (closed : List String) (t : TaskRow) :
    (closeIn ev state runId closed t).key = t.key := by
  unfold closeIn
  split <;> rfl

/-- The state of the cascade from `l` after it closed the tasks in `closed`, each of them counted in
the run row, and wrote the edges in `written`. -/
def cascaded (l : Lifecycle) (ev : Envelope) (runId : String) (state : TaskState) (closed : List String)
    (written : List DepSatisfactionRow) : Lifecycle :=
  { l with
    runs := l.runs.modify runId (RunRow.settle ev state)^[closed.length]
    tasks := l.tasks.mapRows (closeIn ev state runId closed)
    depSatisfaction := l.depSatisfaction.upsertAll written }

section Cascade

variable {state : TaskState} {closed : List String} {written : List DepSatisfactionRow}

theorem cascaded_nil : l.cascaded ev runId state [] [] = l := by
  have tasks : l.tasks.mapRows (closeIn ev state runId []) = l.tasks :=
    mapRows_eq_self fun row _ => by simp [closeIn]
  have runs : l.runs.modify runId (RunRow.settle ev state)^[0] = l.runs := modify_id l.runs runId
  rw [cascaded, tasks, length_nil, runs]
  rfl

theorem find_tasks_cascaded (taskKey : String) :
    (l.cascaded ev runId state closed written).tasks.find (runId, taskKey) =
      (l.tasks.find (runId, taskKey)).map fun t => if taskKey ∈ closed then t.close ev state else t := by
  rw [cascaded, find_mapRows (key_closeIn state closed)]
  cases found : l.tasks.find (runId, taskKey) with
  | none => rfl
  | some t =>
    obtain ⟨rfl, rfl⟩ : t.runId = runId ∧ t.taskKey = taskKey := by
      simpa [key] using key_of_find found
    simp [closeIn]

theorem cascaded_close (row : DepSatisfactionRow) (downstream : String) :
    { l.cascaded ev runId state closed (written ++ [row]) with
        runs := (l.cascaded ev runId state closed written).runs.modify runId (RunRow.settle ev state)
        tasks := (l.cascaded ev runId state closed written).tasks.modify (runId, downstream)
          (close ev state) } =
      l.cascaded ev runId state (closed ++ [downstream]) (written ++ [row]) := by
  have tasks : (l.cascaded ev runId state closed written).tasks.modify (runId, downstream)
      (close ev state) = l.tasks.mapRows (closeIn ev state runId (closed ++ [downstream])) := by
    rw [cascaded, modify_mapRows (key_closeIn state closed) (key_close ev state)]
    refine mapRows_congr fun t _ => ?_
    by_cases here : t.runId = runId ∧ t.taskKey = downstream
    · obtain ⟨rfl, rfl⟩ := here
      by_cases old : t.taskKey ∈ closed <;> simp [closeIn, key, close, old]
    · have other : ¬ t.key = (runId, downstream) := by simpa [key] using here
      have same : (t.runId = runId ∧ t.taskKey ∈ closed ++ [downstream]) ↔
          (t.runId = runId ∧ t.taskKey ∈ closed) := by
        constructor
        · rintro ⟨run, member⟩
          refine ⟨run, ?_⟩
          rcases mem_append.mp member with h | h
          · exact h
          · exact absurd ⟨run, mem_singleton.mp h⟩ here
        · rintro ⟨run, member⟩
          exact ⟨run, mem_append_left _ member⟩
      simp only [if_neg other, closeIn, same]
  have runs : (l.cascaded ev runId state closed written).runs.modify runId (RunRow.settle ev state) =
      l.runs.modify runId (RunRow.settle ev state)^[(closed ++ [downstream]).length] := by
    unfold cascaded
    rw [modify_modify (RunRow.runId_settle_iterate ev state _) (RunRow.runId_settle ev state),
      length_append, length_singleton, Function.iterate_succ']
  rw [tasks, runs]
  rfl

theorem isTerminal_cascadeState (resolution : DepResolution) : resolution.cascadeState.isTerminal = true := by
  cases resolution <;> rfl

variable {resolution : DepResolution}

theorem failEdge_open (queue : List (String × DepResolution)) {downstream : String}
    (isOpen : l.Open runId downstream) (new : downstream ∉ closed) :
    failEdge ev runId upstream resolution (l.cascaded ev runId resolution.cascadeState closed written, queue)
        downstream =
      (l.cascaded ev runId resolution.cascadeState (closed ++ [downstream])
          (written ++ [resolvedEdge ev runId upstream resolution downstream]),
        queue ++ [(downstream, resolution.cascade)]) := by
  obtain ⟨t, found, active⟩ := isOpen
  have foundNow : (l.cascaded ev runId resolution.cascadeState closed written).tasks.find (runId, downstream) =
      some t := by
    rw [find_tasks_cascaded, found, Option.map_some, if_neg new]
  dsimp only [failEdge]
  rw [foundNow]
  dsimp only
  rw [if_neg (by simp [active]), ← cascaded_close]
  simp only [cascaded, upsertAll_append]
  rfl

theorem failEdge_closed (queue : List (String × DepResolution)) {downstream : String}
    (old : l.Open runId downstream → downstream ∈ closed) :
    failEdge ev runId upstream resolution (l.cascaded ev runId resolution.cascadeState closed written, queue)
        downstream =
      (l.cascaded ev runId resolution.cascadeState closed
          (written ++ [resolvedEdge ev runId upstream resolution downstream]), queue) := by
  have edges : { l.cascaded ev runId resolution.cascadeState closed written with
        depSatisfaction := (l.cascaded ev runId resolution.cascadeState closed written).depSatisfaction.upsert
          (resolvedEdge ev runId upstream resolution downstream) } =
      l.cascaded ev runId resolution.cascadeState closed
        (written ++ [resolvedEdge ev runId upstream resolution downstream]) := by
    simp only [cascaded, upsertAll_append]
    rfl
  dsimp only [failEdge]
  rw [edges, find_tasks_cascaded]
  cases found : l.tasks.find (runId, downstream) with
  | none => rfl
  | some t =>
    have ended : (if downstream ∈ closed then t.close ev resolution.cascadeState else t).state.isTerminal = true := by
      split
      · exact isTerminal_cascadeState resolution
      · rename_i absent
        by_contra active
        exact absent (old ⟨t, found, by simpa using active⟩)
    simp only [Option.map_some, ended, if_true]

theorem failEdges_cascaded (l : Lifecycle) (ev : Envelope) (runId upstream : String)
    (resolution : DepResolution) (nodup : closed.Nodup) (dependents : List String)
    (written : List DepSatisfactionRow) (queue : List (String × DepResolution)) :
    ∃ added : List String, dependents.foldl (failEdge ev runId upstream resolution)
          (l.cascaded ev runId resolution.cascadeState closed written, queue) =
        (l.cascaded ev runId resolution.cascadeState (closed ++ added)
            (written ++ dependents.map (resolvedEdge ev runId upstream resolution)),
          queue ++ added.map fun d => (d, resolution.cascade)) ∧
      (closed ++ added).Nodup ∧ (∀ d ∈ added, d ∈ dependents ∧ l.Open runId d) ∧
      ∀ d ∈ dependents, l.Open runId d → d ∈ closed ++ added := by
  induction dependents generalizing closed written queue with
  | nil => exact ⟨[], by simp, by simpa using nodup, by simp, by simp⟩
  | cons d rest ih =>
    by_cases hit : l.Open runId d ∧ d ∉ closed
    · obtain ⟨isOpen, new⟩ := hit
      have nodup' : (closed ++ [d]).Nodup := by
        exact Nodup.append nodup (by simp) (by simpa using new)
      obtain ⟨added, step, distinct, inside, complete⟩ :=
        ih nodup' (written ++ [resolvedEdge ev runId upstream resolution d]) (queue ++ [(d, resolution.cascade)])
      refine ⟨d :: added, ?_, by simpa using distinct, ?_, ?_⟩
      · rw [foldl_cons, failEdge_open queue isOpen new, step]
        simp
      · intro x member
        rcases mem_cons.mp member with rfl | member
        · exact ⟨by simp, isOpen⟩
        · exact ⟨mem_cons_of_mem _ (inside x member).1, (inside x member).2⟩
      · intro x member xOpen
        rcases mem_cons.mp member with rfl | member
        · simp
        · simpa using complete x member xOpen
    · have old : l.Open runId d → d ∈ closed := fun isOpen => not_not.mp fun absent => hit ⟨isOpen, absent⟩
      obtain ⟨added, step, distinct, inside, complete⟩ :=
        ih nodup (written ++ [resolvedEdge ev runId upstream resolution d]) queue
      refine ⟨added, ?_, distinct, ?_, ?_⟩
      · rw [foldl_cons, failEdge_closed queue old, step]
        simp
      · intro x member
        exact ⟨mem_cons_of_mem _ (inside x member).1, (inside x member).2⟩
      · intro x member xOpen
        rcases mem_cons.mp member with rfl | member
        · exact mem_append_left _ (old xOpen)
        · exact complete x member xOpen

def openCount (l : Lifecycle) : Nat := l.tasks.rows.countP fun t => t.state.isTerminal = false

theorem countP_closed (nodup : closed.Nodup) (wereOpen : ∀ d ∈ closed, l.Open runId d) :
    l.tasks.rows.countP (fun t => t.runId = runId ∧ t.taskKey ∈ closed) = closed.length := by
  have distinct : (closed.map fun d => (runId, d)).Nodup := nodup.map fun a b same => (Prod.mk.inj same).2
  have held : ∀ k ∈ closed.map fun d => (runId, d), k ∈ l.tasks.keys := by
    intro k member
    obtain ⟨d, inClosed, rfl⟩ := mem_map.mp member
    obtain ⟨t, found, _⟩ := wereOpen d inClosed
    exact mem_keys_of_find found
  have mine : ∀ t : TaskRow, t.key ∈ closed.map (fun d => (runId, d)) ↔ t.runId = runId ∧ t.taskKey ∈ closed := by
    intro t
    simp only [key, mem_map, Prod.mk.injEq]
    constructor
    · rintro ⟨d, member, run, rfl⟩
      exact ⟨run.symm, member⟩
    · rintro ⟨run, member⟩
      exact ⟨t.taskKey, member, run.symm, rfl⟩
  have counted := countP_key_mem l.tasks distinct held
  rw [length_map] at counted
  simpa only [mine] using counted

theorem isTerminal_of_open {t : TaskRow} (member : t ∈ l.tasks.rows) (isOpen : l.Open t.runId t.taskKey) :
    t.state.isTerminal = false := by
  obtain ⟨_, found, active⟩ := isOpen
  have here : l.tasks.find (t.runId, t.taskKey) = some t := find_of_mem member
  cases here.symm.trans found
  exact active

theorem openCount_cascaded (resolution : DepResolution) (nodup : closed.Nodup)
    (wereOpen : ∀ d ∈ closed, l.Open runId d) :
    (l.cascaded ev runId resolution.cascadeState closed written).openCount + closed.length = l.openCount := by
  have moved := countP_map_selected l.tasks.rows (fun t => decide (t.state.isTerminal = false))
    (fun t => t.runId = runId ∧ t.taskKey ∈ closed) (closeIn ev resolution.cascadeState runId closed) true false
    (fun t _ other => by rw [closeIn, if_neg (by simpa using other)])
    (fun t member mine => by
      obtain ⟨rfl, inClosed⟩ := of_decide_eq_true mine
      have active := isTerminal_of_open member (wereOpen t.taskKey inClosed)
      simp [active, closeIn, inClosed, close, isTerminal_cascadeState])
  rw [countP_closed nodup wereOpen] at moved
  unfold openCount cascaded
  rw [rows_mapRows (key_closeIn _ _)]
  simpa using moved

end Cascade

/-! ### The whole cascade -/

theorem cascadeState_cascade (resolution : DepResolution) :
    resolution.cascade.cascadeState = resolution.cascadeState := by
  cases resolution <;> rfl

theorem cascade_cascade (resolution : DepResolution) : resolution.cascade.cascade = resolution.cascade := by
  cases resolution <;> rfl

def edgesFrom (l : Lifecycle) (ev : Envelope) (runId : String) (visited : List (String × DepResolution)) :
    List DepSatisfactionRow :=
  visited.flatMap fun item => (l.getDependents runId item.1).map (resolvedEdge ev runId item.1 item.2)

def cascadeItems (upstream : String) (resolution : DepResolution) (closed : List String) :
    List (String × DepResolution) :=
  (upstream, resolution) :: closed.map fun d => (d, resolution.cascade)

structure Cascading (l : Lifecycle) (ev : Envelope) (runId upstream : String) (resolution : DepResolution)
    (closed : List String) (visited queue : List (String × DepResolution)) (now : Lifecycle) : Prop where
  items : cascadeItems upstream resolution closed = visited ++ queue
  state : now = l.cascaded ev runId resolution.cascadeState closed (l.edgesFrom ev runId visited)
  nodup : closed.Nodup
  doomed : ∀ d ∈ closed, l.Doomed runId upstream d
  expanded : ∀ item ∈ visited, ∀ d ∈ l.getDependents runId item.1, l.Open runId d → d ∈ closed

variable {resolution : DepResolution} {visited queue : List (String × DepResolution)}

theorem Cascading.visit {closed : List String} {item : String × DepResolution} {now : Lifecycle}
    (cascading : Cascading l ev runId upstream resolution closed visited (item :: queue) now) :
    ∃ added : List String, (failEdges ev runId now item).2 = added.map (fun d => (d, resolution.cascade)) ∧
      Cascading l ev runId upstream resolution (closed ++ added) (visited ++ [item])
        (queue ++ (failEdges ev runId now item).2) (failEdges ev runId now item).1 := by
  obtain ⟨items, rfl, nodup, doomed, expanded⟩ := cascading
  have member : item ∈ cascadeItems upstream resolution closed := by
    rw [items]
    simp
  -- the visited task is the failed one or was closed before, so its open dependents are doomed
  have reaches : item.2.cascadeState = resolution.cascadeState ∧ item.2.cascade = resolution.cascade ∧
      ∀ d ∈ l.getDependents runId item.1, l.Open runId d → l.Doomed runId upstream d := by
    rcases mem_cons.mp member with rfl | inClosed
    · exact ⟨rfl, rfl, fun d => Doomed.direct⟩
    · obtain ⟨v, vClosed, rfl⟩ := mem_map.mp inClosed
      exact ⟨cascadeState_cascade resolution, cascade_cascade resolution, fun d => Doomed.next (doomed v vClosed)⟩
  obtain ⟨sameState, sameCascade, reaches⟩ := reaches
  obtain ⟨added, step, distinct, inside, complete⟩ := failEdges_cascaded l ev runId item.1 item.2 nodup
    (l.getDependents runId item.1) (l.edgesFrom ev runId visited) []
  rw [sameState, sameCascade, nil_append] at step
  have visit : failEdges ev runId
      (l.cascaded ev runId resolution.cascadeState closed (l.edgesFrom ev runId visited)) item = _ := step
  refine ⟨added, by rw [visit], ?_, ?_, distinct, ?_, ?_⟩
  · rw [visit, cascadeItems, map_append]
    rw [cascadeItems] at items
    rw [← cons_append, items]
    simp
  · rw [visit]
    simp [edgesFrom]
  · intro d inBoth
    rcases mem_append.mp inBoth with old | new
    · exact doomed d old
    · exact reaches d (inside d new).1 (inside d new).2
  · intro other inVisited d dependent isOpen
    rcases mem_append.mp inVisited with old | new
    · exact mem_append_left _ (expanded other old d dependent isOpen)
    · rw [mem_singleton.mp new] at dependent
      exact complete d dependent isOpen

theorem Cascading.openCount_eq {closed : List String} {now : Lifecycle}
    (cascading : Cascading l ev runId upstream resolution closed visited queue now) :
    now.openCount + closed.length = l.openCount := by
  rw [cascading.state]
  exact openCount_cascaded resolution cascading.nodup fun d member => (cascading.doomed d member).open

def InCascade (l : Lifecycle) (ev : Envelope) (runId upstream : String) (resolution : DepResolution)
    (now : Lifecycle) (queue : List (String × DepResolution)) : Prop :=
  ∃ closed visited, Cascading l ev runId upstream resolution closed visited queue now

section Loop

theorem inCascade_start : l.InCascade ev runId upstream resolution l [(upstream, resolution)] :=
  ⟨[], [], rfl, cascaded_nil.symm, by simp, by simp, by simp⟩

theorem InCascade.visit (now : Lifecycle) (item : String × DepResolution) (queue : List (String × DepResolution))
    (inCascade : l.InCascade ev runId upstream resolution now (item :: queue)) :
    l.InCascade ev runId upstream resolution (failEdges ev runId now item).1
      (queue ++ (failEdges ev runId now item).2) := by
  obtain ⟨closed, visited, cascading⟩ := inCascade
  obtain ⟨added, _, after⟩ := cascading.visit
  exact ⟨closed ++ added, visited ++ [item], after⟩

/-- The worklist of the cascade runs empty: every task it queues was open and has been closed. -/
theorem drains_propagateFailure (l : Lifecycle) (ev : Envelope) (runId upstream : String)
    (resolution : DepResolution) :
    Worklist.Drains (failEdges ev runId) [(upstream, resolution)] l
      (l.propagateFailure ev runId upstream resolution) := by
  refine Worklist.drains_drain (l.InCascade ev runId upstream resolution) openCount InCascade.visit ?_
    inCascade_start ?_
  · intro now item queue ⟨_, _, cascading⟩
    obtain ⟨_, pushed, after⟩ := cascading.visit
    have before := cascading.openCount_eq
    have later := after.openCount_eq
    rw [pushed, length_map]
    rw [length_append] at later
    omega
  · have := countP_le_length (p := fun t : TaskRow => decide (t.state.isTerminal = false)) (l := l.tasks.rows)
    simpa [openCount] using this

end Loop

/-- A failure closes exactly the open tasks downstream of it, counts each of them in the run row, and
resolves the edges that leave the failed task and the closed ones. -/
theorem propagateFailure_eq (l : Lifecycle) (ev : Envelope) (runId upstream : String) (resolution : DepResolution) :
    ∃ closed : List String, closed.Nodup ∧ (∀ d, d ∈ closed ↔ l.Doomed runId upstream d) ∧
      l.propagateFailure ev runId upstream resolution = l.cascaded ev runId resolution.cascadeState closed
          (l.edgesFrom ev runId (cascadeItems upstream resolution closed)) := by
  obtain ⟨closed, _, items, state, nodup, doomed, expanded⟩ :=
    (l.drains_propagateFailure ev runId upstream resolution).invariant InCascade.visit inCascade_start
  rw [append_nil] at items
  refine ⟨closed, nodup, fun d => ⟨doomed d, ?_⟩, ?_⟩
  · -- with an empty queue every closed task has been expanded
    intro isDoomed
    induction isDoomed with
    | direct dependent isOpen =>
      exact expanded (upstream, resolution) (by rw [← items]; exact mem_cons_self) _ dependent isOpen
    | next _ dependent isOpen ih =>
      exact expanded (_, resolution.cascade)
        (by rw [← items]; exact mem_cons_of_mem _ (mem_map_of_mem ih)) _ dependent isOpen
  · rwa [← items] at state

end Lifecycle

theorem TaskRow.key_finish (ext : Externals) (ev : Envelope) (p : TaskFinished) (t : TaskRow) :
    (t.finish ext ev p).key = t.key := by
  unfold finish
  split <;> rfl

theorem TaskRow.state_finish {ext : Externals} {t : TaskRow} (ev : Envelope) (p : TaskFinished) :
    (t.finish ext ev p).state = t.stateAfter p.outcome := by
  unfold finish
  split <;> rfl

namespace Lifecycle

variable {ext : Externals} {ev : Envelope} {l : Lifecycle} {p : TaskFinished} {t : TaskRow}

/-! ## Accepted completions -/

/-- The completion is accepted: it names the current attempt of the open task `t`. -/
structure Completes (l : Lifecycle) (p : TaskFinished) (t : TaskRow) : Prop where
  found : l.tasks.find (p.runId, p.taskKey) = some t
  current : t.IsCurrentAttempt p.toAttemptRef
  active : t.state.isTerminal = false

/-- The accepted completion of `t` ends it without success. -/
structure Fails (p : TaskFinished) (t : TaskRow) : Prop where
  failure : p.outcome ≠ .succeeded
  ended : (t.stateAfter p.outcome).isTerminal = true

def completed (ext : Externals) (l : Lifecycle) (ev : Envelope) (p : TaskFinished) (t : TaskRow) : Lifecycle :=
  modifyRun { l with tasks := l.tasks.upsert (t.finish ext ev p) } p.runId (RunRow.settle ev (t.stateAfter p.outcome))

theorem open_completed (ext : Externals) (ev : Envelope) (completes : l.Completes p t)
    (ended : (t.stateAfter p.outcome).isTerminal = true) (d : String) :
    (l.completed ext ev p t).Open p.runId d ↔ l.Open p.runId d ∧ d ≠ p.taskKey := by
  have key : (t.finish ext ev p).key = (p.runId, p.taskKey) :=
    (key_finish ext ev p t).trans (key_of_find completes.found)
  unfold Open completed modifyRun
  rw [find_upsert, key]
  by_cases here : d = p.taskKey
  · subst here
    simp [state_finish, ended]
  · have other : ¬ (p.runId, p.taskKey) = (p.runId, d) := fun same => here (Prod.mk.inj same).2.symm
    simp [other, here]

theorem doomed_completed (completes : l.Completes p t) (ended : (t.stateAfter p.outcome).isTerminal = true)
    (d : String) :
    (l.completed ext ev p t).Doomed p.runId p.taskKey d ↔ l.Doomed p.runId p.taskKey d ∧ d ≠ p.taskKey := by
  have isOpen := open_completed ext ev completes ended
  constructor
  · intro doomed
    refine ⟨?_, ((isOpen d).mp doomed.open).2⟩
    induction doomed with
    | direct member reached => exact .direct member ((isOpen _).mp reached).1
    | next _ member reached ih => exact .next ih member ((isOpen _).mp reached).1
  · rintro ⟨doomed, other⟩
    induction doomed with
    | direct member reached => exact .direct member ((isOpen _).mpr ⟨reached, other⟩)
    | @next v d _ member reached ih =>
      -- what the task itself leads to is reached directly
      by_cases here : v = p.taskKey
      · exact .direct (here ▸ member) ((isOpen _).mpr ⟨reached, other⟩)
      · exact .next (ih here) member ((isOpen _).mpr ⟨reached, other⟩)

theorem finishTask_succeeded (success : p.outcome = .succeeded) : l.finishTask ext ev p t =
      (l.completed ext ev p t).satisfied ev p.runId p.taskKey p.attempt (l.getDependents p.runId p.taskKey) := by
  unfold finishTask resolveDownstream completed
  simp only [success]
  rw [satisfyDownstreamEdges_eq]
  rfl

theorem finishTask_retried (retried : (t.stateAfter p.outcome).isTerminal = false) :
    l.finishTask ext ev p t = { l with tasks := l.tasks.upsert (t.finish ext ev p) } := by
  unfold finishTask resolveDownstream
  cases outcome : p.outcome with
  | failed =>
    have left : t.attempt < t.maxAttempts := by
      by_contra none
      simp [outcome, stateAfter, none, isTerminal] at retried
    simp [stateAfter, left, isTerminal]
  | _ => simp [outcome, stateAfter, isTerminal] at retried

def failureResolution : TaskOutcome → DepResolution
  | .succeeded => .success
  | .failed => .failed
  | .skipped => .skipped
  | .cancelled => .cancelled

theorem finishTask_propagates (ext : Externals) (l : Lifecycle) (ev : Envelope) (fails : Fails p t) :
    l.finishTask ext ev p t =
      (l.completed ext ev p t).propagateFailure ev p.runId p.taskKey (failureResolution p.outcome) := by
  have ended := fails.ended
  unfold finishTask resolveDownstream completed
  cases outcome : p.outcome with
  | succeeded => exact absurd outcome fails.failure
  | failed =>
    have none : ¬ t.attempt < t.maxAttempts := by
      intro left
      simp [outcome, stateAfter, left, isTerminal] at ended
    simp [stateAfter, none, isTerminal, failureResolution]
  | skipped | cancelled => simp [stateAfter, isTerminal, failureResolution]

theorem finishTask_failed (ext : Externals) (ev : Envelope) (completes : l.Completes p t) (fails : Fails p t) :
    ∃ closed : List String, closed.Nodup ∧ (∀ d, d ∈ closed ↔ l.Doomed p.runId p.taskKey d ∧ d ≠ p.taskKey) ∧
      l.finishTask ext ev p t =
        (l.completed ext ev p t).cascaded ev p.runId (failureResolution p.outcome).cascadeState closed
          (l.edgesFrom ev p.runId (cascadeItems p.taskKey (failureResolution p.outcome) closed)) := by
  obtain ⟨closed, nodup, doomed, result⟩ :=
    propagateFailure_eq (l.completed ext ev p t) ev p.runId p.taskKey (failureResolution p.outcome)
  refine ⟨closed, nodup, fun d => (doomed d).trans (doomed_completed completes fails.ended d), ?_⟩
  exact (finishTask_propagates ext l ev fails).trans result

theorem find_completed (ext : Externals) (l : Lifecycle) (ev : Envelope) (p : TaskFinished) (t : TaskRow)
    (k : String × String) :
    (l.completed ext ev p t).tasks.find k = if k = t.key then some (t.finish ext ev p) else l.tasks.find k := by
  have key : (t.finish ext ev p).key = t.key := key_finish ext ev p t
  unfold completed modifyRun
  rw [find_upsert, key]
  simp only [eq_comm]

/-- The state after an accepted completion. A retried attempt only writes its own row; the tasks that a
failure closes are read off the state before it. -/
inductive Finished (ext : Externals) (l : Lifecycle) (ev : Envelope) (p : TaskFinished) (t : TaskRow) :
    Lifecycle → Prop where
  | retried (isOpen : (t.stateAfter p.outcome).isTerminal = false) :
      Finished ext l ev p t { l with tasks := l.tasks.upsert (t.finish ext ev p) }
  | succeeded (success : p.outcome = .succeeded) : Finished ext l ev p t
      ((l.completed ext ev p t).satisfied ev p.runId p.taskKey p.attempt (l.getDependents p.runId p.taskKey))
  | failed (fails : Fails p t) (closed : List String) (nodup : closed.Nodup)
      (doomed : ∀ d, d ∈ closed ↔ l.Doomed p.runId p.taskKey d ∧ d ≠ p.taskKey) : Finished ext l ev p t
      ((l.completed ext ev p t).cascaded ev p.runId (failureResolution p.outcome).cascadeState closed
        (l.edgesFrom ev p.runId (cascadeItems p.taskKey (failureResolution p.outcome) closed)))

theorem finished_finishTask (completes : l.Completes p t) {after : Lifecycle}
    (finish : l.finishTask ext ev p t = after) : Finished ext l ev p t after := by
  rw [← finish]
  cases ended : (t.stateAfter p.outcome).isTerminal with
  | false =>
    rw [finishTask_retried ended]
    exact .retried ended
  | true =>
    by_cases success : p.outcome = .succeeded
    · rw [finishTask_succeeded success]
      exact .succeeded success
    · obtain ⟨closed, nodup, doomed, result⟩ := finishTask_failed ext ev completes ⟨success, ended⟩
      rw [result]
      exact .failed ⟨success, ended⟩ closed nodup doomed

/-- The tasks that a failure closes are still open when it closes them. -/
theorem Completes.open_of_doomed (completes : l.Completes p t) (fails : Fails p t) {closed : List String}
    (doomed : ∀ d, d ∈ closed ↔ l.Doomed p.runId p.taskKey d ∧ d ≠ p.taskKey) :
    ∀ d ∈ closed, (l.completed ext ev p t).Open p.runId d := by
  intro d member
  obtain ⟨reached, other⟩ := (doomed d).mp member
  exact (open_completed ext ev completes fails.ended d).mpr ⟨reached.open, other⟩

end Lifecycle

end Arco.Flow
