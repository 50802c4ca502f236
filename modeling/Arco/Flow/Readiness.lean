import Mathlib.Order.WellFoundedSet
import Arco.Flow.Consistency

/-! When a task may run, and that some task always may.

The results about whole runs: a task is made ready only after everything it depends on
has succeeded, and a run whose plan is acyclic never waits for nothing.
-/

namespace Arco.Flow

open Keyed List

namespace FoldState

variable {ext : Externals} {r : String} {plans : PlanCreated → Prop}

/-- The plans of the run `r` in the list are in `plans` and list each task key once. -/
def PlansOf (r : String) (plans : PlanCreated → Prop) (e : OrchestrationEvent) : Prop :=
  ∀ p, e.data = .planCreated p → p.runId = r → plans p ∧ (p.tasks.map (·.key)).Nodup

theorem sound_foldEvents {events : List OrchestrationEvent} {s : FoldState} (sound : (s.view r).Sound plans)
    (planned : ∀ e ∈ events, PlansOf r plans e) : ((foldEvents ext s events).view r).Sound plans :=
  foldEvents_induction (fun s => (s.view r).Sound plans)
    (fun s e inv plan => (foldEvent_steps ext s e).sound inv plan) sound
    (Throughout.of_forall (fun e member _ => planned e member) s)

theorem blank_empty (secret : List UInt8) : (({ tenantSecret := secret } : FoldState).view r).Blank :=
  ⟨fun _ => rfl, fun _ _ => rfl, fun _ => rfl, fun _ => rfl⟩

end FoldState

namespace Lifecycle

variable {l : Lifecycle} {t : TaskRow}

def satisfiedEdges (l : Lifecycle) (t : TaskRow) : Nat :=
  l.depSatisfaction.rows.countP fun x => x.runId = t.runId ∧ x.downstreamTaskKey = t.taskKey ∧ x.satisfied = true

theorem depsSatisfiedCount_eq (consistent : (l.view t.runId).Consistent) (member : t ∈ l.tasks.rows) :
    t.depsSatisfiedCount = l.satisfiedEdges t := by
  obtain ⟨deps, _, _, edges, count⟩ := consistent.incoming t.taskKey t (Table.find_of_mem member)
  let satisfied := deps.dedup.filter ((l.view t.runId).sat · t.taskKey)
  have nodup : (satisfied.map fun u => (t.runId, u, t.taskKey)).Nodup :=
    (deps.nodup_dedup.filter _).map fun a b same => congrArg (fun k => k.2.1) same
  have held : ∀ k ∈ satisfied.map fun u => (t.runId, u, t.taskKey), k ∈ l.depSatisfaction.keys := by
    intro k inList
    obtain ⟨u, inDeps, rfl⟩ := mem_map.mp inList
    exact Table.isSome_find_iff.mp ((edges u).mpr (mem_dedup.mp (mem_filter.mp inDeps).1))
  have rows := Table.countP_key_mem l.depSatisfaction nodup held
  rw [length_map, ← countP_eq_length_filter, ← count] at rows
  rw [← rows]
  -- the rows with one of these keys are the satisfied edges to the task
  refine countP_congr fun x inRows => ?_
  have found : l.depSatisfaction.find x.key = some x := Table.find_of_mem inRows
  simp only [decide_eq_true_eq, mem_map]
  constructor
  · rintro ⟨u, inDeps, key⟩
    have sat : (l.view t.runId).sat u t.taskKey = true := (mem_filter.mp inDeps).2
    rw [← key] at found
    have here : (l.view t.runId).edge u t.taskKey = some x := found
    rw [RunView.sat, here] at sat
    have fields : x.runId = t.runId ∧ x.upstreamTaskKey = u ∧ x.downstreamTaskKey = t.taskKey := by
      simpa [DepSatisfactionRow.key] using key.symm
    exact ⟨fields.1, fields.2.2, sat⟩
  · rintro ⟨run, downstream, isSatisfied⟩
    have key : x.key = (t.runId, x.upstreamTaskKey, t.taskKey) := by rw [← run, ← downstream]; rfl
    have here : (l.view t.runId).edge x.upstreamTaskKey t.taskKey = some x := by rw [← found, key]; rfl
    have inDeps := (edges x.upstreamTaskKey).mp (by rw [here]; rfl)
    refine ⟨x.upstreamTaskKey, mem_filter.mpr ⟨mem_dedup.mpr inDeps, ?_⟩, key.symm⟩
    rwa [RunView.sat, here]

end Lifecycle

namespace FoldState

/-- The run of the task follows a plan that was folded, and everything that this plan lets the task
depend on has succeeded. -/
def ReadyByPlan (events : List OrchestrationEvent) (s : FoldState) (t : TaskRow) : Prop :=
  ∃ e ∈ events, ∃ p, e.data = .planCreated p ∧ p.runId = t.runId ∧ (s.view t.runId).Follows p ∧
    ∃ d ∈ p.tasks, d.key = t.taskKey ∧
      ∀ u ∈ d.dependsOn, ∃ up, s.tasks.find (t.runId, u) = some up ∧ up.state = .succeeded

/-- In every state that plans with distinct keys lead to, an edge is satisfied exactly when its
upstream task has succeeded, the counter of a task is the number of satisfied edges to it, and a task
is ready only when all that its plan lets it depend on has succeeded. -/
theorem no_premature_readiness (ext : Externals) (secret : List UInt8) (events : List OrchestrationEvent)
    (distinct : ∀ e ∈ events, e.DistinctPlan) :
    let s := foldEvents ext { tenantSecret := secret } events
    (∀ x ∈ s.depSatisfaction.rows, x.satisfied = true ↔
        ∃ t, s.tasks.find (x.runId, x.upstreamTaskKey) = some t ∧ t.state = .succeeded) ∧
      (∀ t ∈ s.tasks.rows, t.depsSatisfiedCount = s.satisfiedEdges t) ∧
      ∀ t ∈ s.tasks.rows, t.state = .ready → ReadyByPlan events s t := by
  intro s
  have sound : ∀ r, (s.view r).Sound fun p => p.runId = r ∧ ∃ e ∈ events, e.data = .planCreated p := by
    intro r
    refine sound_foldEvents (.inl (blank_empty secret)) fun e member p isEvent run => ?_
    exact ⟨⟨run, e, member, isEvent⟩, (distinct e member).nodup isEvent⟩
  have planned : ∀ t ∈ s.tasks.rows, ∃ p, (p.runId = t.runId ∧ ∃ e ∈ events, e.data = .planCreated p) ∧
      (s.view t.runId).Follows p ∧ (s.view t.runId).Consistent := by
    intro t member
    rcases sound t.runId with blank | ⟨p, inEvents, _, follows, consistent⟩
    · have found : (s.view t.runId).task t.taskKey = some t := Table.find_of_mem member
      rw [blank.task] at found
      cases found
    · exact ⟨p, inEvents, follows, consistent⟩
  refine ⟨?_, ?_, ?_⟩
  · intro x member
    have found : (s.view x.runId).edge x.upstreamTaskKey x.downstreamTaskKey = some x := Table.find_of_mem member
    rcases sound x.runId with blank | ⟨p, _, _, _, consistent⟩
    · rw [blank.edge] at found
      cases found
    · have satisfied := consistent.satisfied x.upstreamTaskKey x.downstreamTaskKey (by rw [found]; rfl)
      rwa [RunView.sat, found] at satisfied
  · intro t member
    obtain ⟨_, _, _, consistent⟩ := planned t member
    exact Lifecycle.depsSatisfiedCount_eq consistent member
  · intro t member ready
    obtain ⟨p, ⟨run, e, inEvents, isEvent⟩, follows, consistent⟩ := planned t member
    have found : (s.view t.runId).task t.taskKey = some t := Table.find_of_mem member
    obtain ⟨d, inPlan, key⟩ := mem_map.mp ((follows.task t.taskKey).mp (by rw [found]; rfl))
    refine ⟨e, inEvents, p, isEvent, run, follows, d, inPlan, key, ?_⟩
    have known := follows.dependencies d inPlan
    rw [key] at known
    exact consistent.succeeded_of_counted found known (consistent.ready _ t found ready)

/-- One task is planned twice upstream and once outside of the plan. -/
def repeatedUpstream : List OrchestrationEvent :=
  [.sample "01" (.planCreated { runId := "run", tasks := [
     { key := "extract", dependsOn := [] }, { key := "load", dependsOn := ["extract"] },
     { key := "audit", dependsOn := ["extract", "extract", "elsewhere"] }] }),
   .sample "02" (.taskStarted firstAttempt),
   .sample "03" (.taskFinished (firstFinish .succeeded))]

theorem no_premature_readiness_repeatedUpstream :
    ∃ t, (foldEvents .constant {} repeatedUpstream).tasks.find ("run", "load") = some t ∧ t.state = .ready ∧
      ReadyByPlan repeatedUpstream (foldEvents .constant {} repeatedUpstream) t := by
  have ready : ((foldEvents .constant {} repeatedUpstream).tasks.find ("run", "load")).any (fun t => t.state = .ready) =
      true := by decide
  obtain ⟨t, found, state⟩ := (Option.any_eq_true _ _).mp ready
  have results := no_premature_readiness .constant [] repeatedUpstream (by decide)
  exact ⟨t, found, of_decide_eq_true state, results.2.2 t (Table.mem_of_find found) (of_decide_eq_true state)⟩

end FoldState

theorem exists_cycle {α : Type} {precedes : α → α → Prop} {s : Set α} (finite : s.Finite) (nonempty : s.Nonempty)
    (preceded : ∀ a ∈ s, ∃ b ∈ s, precedes b a) : ∃ a, Relation.TransGen precedes a a := by
  by_contra acyclic
  have irreflexive : ∀ a, ¬ Relation.TransGen precedes a a := fun a cycle => acyclic ⟨a, cycle⟩
  have strict : IsStrictOrder α (Relation.TransGen precedes) :=
    { irrefl := irreflexive, trans := fun _ _ _ => Relation.TransGen.trans }
  have wellFounded : s.WellFoundedOn (Relation.TransGen precedes) := finite.wellFoundedOn
  obtain ⟨a, member⟩ := nonempty
  refine wellFounded.induction (P := fun _ => False) member fun least inSet minimal => ?_
  obtain ⟨b, bInSet, before⟩ := preceded least inSet
  exact minimal b bInSet (.single before)

namespace PlanCreated

def DependsOn (p : PlanCreated) (u k : String) : Prop := ∃ d ∈ p.tasks, d.key = k ∧ u ∈ d.dependsOn

structure WellFormed (p : PlanCreated) : Prop where
  distinct : (p.tasks.map (·.key)).Nodup
  single : ∀ d ∈ p.tasks, d.dependsOn.Nodup
  inside : ∀ d ∈ p.tasks, ∀ u ∈ d.dependsOn, u ∈ p.tasks.map (·.key)
  acyclic : ∀ k, ¬ Relation.TransGen p.DependsOn k k

end PlanCreated

def TaskState.isWorking (state : TaskState) : Bool :=
  state = .ready ∨ state = .dispatched ∨ state = .running ∨ state = .retryWait

namespace RunView

variable {v : RunView} {p : PlanCreated}

theorem Consistent.blocked_upstream (consistent : v.Consistent) (follows : v.Follows p) (wellFormed : p.WellFormed)
    (idle : ∀ k t, v.task k = some t → t.state.isWorking = false) {k : String} {t : TaskRow}
    (found : v.task k = some t) (blocked : t.state = .blocked) :
    ∃ u tu, v.task u = some tu ∧ tu.state = .blocked ∧ p.DependsOn u k := by
  obtain ⟨d, inPlan, rfl⟩ := mem_map.mp ((follows.task k).mp (by rw [found]; rfl))
  have known := follows.dependencies d inPlan
  obtain ⟨u, dependency, pending⟩ := consistent.waiting found known (wellFormed.single d inPlan) blocked
  obtain ⟨tu, foundU⟩ := Option.isSome_iff_exists.mp ((follows.task u).mpr (wellFormed.inside d inPlan u dependency))
  refine ⟨u, tu, foundU, ?_, d, inPlan, rfl, dependency⟩
  have notWorking := idle u tu foundU
  have created := consistent.created u tu foundU
  have notEnded : tu.state.isTerminal = false := by
    by_contra ended
    obtain ⟨_, knownAgain, _, edges, _⟩ := consistent.incoming d.key t found
    cases known.symm.trans knownAgain
    have dependent := (consistent.dependents u d.key).mpr ((edges u).mpr dependency)
    exact consistent.failed u tu foundU (by simpa using ended) (fun done => pending ⟨tu, foundU, done⟩) d.key dependent
      t found blocked
  generalize tu.state = state at notWorking created notEnded
  cases state <;> simp_all [TaskState.isWorking, TaskState.isTerminal]

theorem Consistent.exists_working (consistent : v.Consistent) (follows : v.Follows p) (wellFormed : p.WellFormed)
    {k : String} {t : TaskRow} (found : v.task k = some t) (active : t.state.isTerminal = false) :
    ∃ k' t', v.task k' = some t' ∧ t'.state.isWorking = true := by
  by_contra none
  have idle : ∀ k t, v.task k = some t → t.state.isWorking = false := by
    intro k' t' found'
    by_contra working
    exact none ⟨k', t', found', by simpa using working⟩
  have blocked : t.state = .blocked := by
    have notWorking := idle k t found
    have created := consistent.created k t found
    generalize t.state = state at active notWorking created
    cases state <;> simp_all [TaskState.isWorking, TaskState.isTerminal]
  -- the blocked tasks are finitely many, and each waits for another one
  have finite : {k | ∃ t, v.task k = some t ∧ t.state = .blocked}.Finite := by
    refine (p.tasks.map (·.key)).finite_toSet.subset ?_
    rintro k' ⟨t', found', _⟩
    exact (follows.task k').mp (by rw [found']; rfl)
  have circular : ∃ a, Relation.TransGen p.DependsOn a a := by
    refine exists_cycle finite ⟨k, t, found, blocked⟩ ?_
    rintro _ ⟨_, found', blocked'⟩
    obtain ⟨u, tu, foundU, blockedU, depends⟩ := consistent.blocked_upstream follows wellFormed idle found' blocked'
    exact ⟨u, ⟨tu, foundU, blockedU⟩, depends⟩
  obtain ⟨a, cycle⟩ := circular
  exact wellFormed.acyclic a cycle

end RunView

namespace FoldState

/-- While a run with well-formed plans has an open task, one of its tasks is ready, dispatched,
running or waiting for a retry. -/
theorem deadlock_free (ext : Externals) (secret : List UInt8) (events : List OrchestrationEvent) (runId : String)
    (plans : ∀ e ∈ events, ∀ p, e.data = .planCreated p → p.runId = runId → p.WellFormed) :
    let s := foldEvents ext { tenantSecret := secret } events
    (∃ t ∈ s.tasks.rows, t.runId = runId ∧ t.state.isTerminal = false) → ∃ t ∈ s.tasks.rows, t.runId = runId ∧
        (t.state = .ready ∨ t.state = .dispatched ∨ t.state = .running ∨ t.state = .retryWait) := by
  rintro s ⟨t, member, rfl, active⟩
  have found : (s.view t.runId).task t.taskKey = some t := Table.find_of_mem member
  have sound : (s.view t.runId).Sound PlanCreated.WellFormed :=
    sound_foldEvents (.inl (blank_empty secret)) fun e inEvents p isEvent run =>
      have wellFormed := plans e inEvents p isEvent run
      ⟨wellFormed, wellFormed.distinct⟩
  rcases sound with blank | ⟨p, wellFormed, _, follows, consistent⟩
  · rw [blank.task] at found
    cases found
  · obtain ⟨k, t', found', working⟩ := consistent.exists_working follows wellFormed found active
    exact ⟨t', Table.mem_of_find found', congrArg Prod.fst (Table.key_of_find found'), of_decide_eq_true working⟩

def chain : PlanCreated :=
  { runId := "run", tasks := [{ key := "extract", dependsOn := [] }, { key := "load", dependsOn := ["extract"] }] }

theorem chain_wellFormed : chain.WellFormed := by
  refine ⟨by decide, by decide, by decide, fun k cycle => ?_⟩
  have grows : ∀ u k, Relation.TransGen chain.DependsOn u k → u = "extract" ∧ k = "load" := by
    have direct : ∀ u k, chain.DependsOn u k → u = "extract" ∧ k = "load" := by
      rintro u k ⟨d, member, rfl, dependency⟩
      simp only [chain, mem_cons, not_mem_nil, or_false] at member
      rcases member with rfl | rfl
      · cases dependency
      · exact ⟨by simpa using dependency, rfl⟩
    intro u k path
    induction path with
    | single step => exact direct _ _ step
    | tail _ step ih => exact ⟨ih.1, (direct _ _ step).2⟩
  obtain ⟨first, last⟩ := grows k k cycle
  exact absurd (first.symm.trans last) (by decide)

theorem deadlock_free_chain :
    ∃ t ∈ (foldEvents .constant {} [.sample "01" (.planCreated chain), .sample "02" (.taskStarted firstAttempt)]).tasks.rows,
      t.runId = "run" ∧ (t.state = .ready ∨ t.state = .dispatched ∨ t.state = .running ∨ t.state = .retryWait) := by
  refine deadlock_free .constant [] _ "run" (fun e member p isEvent _ => ?_) (by decide)
  rcases mem_cons.mp member with rfl | inRest
  · cases isEvent
    exact chain_wellFormed
  · rw [mem_singleton.mp inRest] at isEvent
    cases isEvent

end FoldState

end Arco.Flow
