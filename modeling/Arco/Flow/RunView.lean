import Mathlib.Data.List.Dedup
import Arco.Flow.Steps

/-! The tasks and edges of one run, as functions of the task keys.

`RunView.Consistent` relates the three places where the fold keeps dependencies: the
edge table, the counter of each task row and the in-memory graph. It is stated on the
view of one run, so that events of other runs leave it alone.
-/

namespace Arco.Flow

open List

structure RunView where
  task : String → Option TaskRow
  edge : (upstream downstream : String) → Option DepSatisfactionRow
  dependencies : String → Option (List String)
  dependents : String → List String

def Lifecycle.view (l : Lifecycle) (runId : String) : RunView where
  task k := l.tasks.find (runId, k)
  edge u d := l.depSatisfaction.find (runId, u, d)
  dependencies k := l.taskDependencies.get (runId, k)
  dependents u := l.getDependents runId u

namespace RunView

def sat (v : RunView) (u d : String) : Bool := ((v.edge u d).map (·.satisfied)).getD false

def Succeeded (v : RunView) (u : String) : Prop := ∃ t, v.task u = some t ∧ t.state = .succeeded

structure Blank (v : RunView) : Prop where
  task : ∀ k, v.task k = none
  edge : ∀ u d, v.edge u d = none
  dependencies : ∀ k, v.dependencies k = none
  dependents : ∀ u, v.dependents u = []

/-- The tasks of the run are those of the plan, with their dependencies. -/
structure Follows (v : RunView) (p : PlanCreated) : Prop where
  task : ∀ k, (v.task k).isSome = true ↔ k ∈ p.tasks.map (·.key)
  dependencies : ∀ d ∈ p.tasks, v.dependencies d.key = some d.dependsOn

structure Consistent (v : RunView) : Prop where
  dependents : ∀ u d, d ∈ v.dependents u ↔ (v.edge u d).isSome = true
  downstream : ∀ u d, (v.edge u d).isSome = true → (v.task d).isSome = true
  incoming : ∀ k t, v.task k = some t → ∃ deps, v.dependencies k = some deps ∧ t.depsTotal = deps.length ∧
    (∀ u, (v.edge u k).isSome = true ↔ u ∈ deps) ∧ t.depsSatisfiedCount = deps.dedup.countP (v.sat · k)
  satisfied : ∀ u d, (v.edge u d).isSome = true → (v.sat u d = true ↔ v.Succeeded u)
  created : ∀ k t, v.task k = some t → t.state ≠ .planned
  ready : ∀ k t, v.task k = some t → t.state = .ready → t.depsTotal ≤ t.depsSatisfiedCount
  blocked : ∀ k t, v.task k = some t → t.state = .blocked → t.depsSatisfiedCount < t.depsTotal
  failed : ∀ u tu, v.task u = some tu → tu.state.isTerminal = true → tu.state ≠ .succeeded →
    ∀ d ∈ v.dependents u, ∀ t, v.task d = some t → t.state ≠ .blocked

variable {v v' : RunView} {u k : String} {t : TaskRow} {deps : List String}

theorem Consistent.sat_of_not_succeeded (consistent : v.Consistent) (not : ¬ v.Succeeded u) (d : String) :
    v.sat u d = false := by
  cases edge : v.edge u d with
  | none => simp [sat, edge]
  | some x =>
    by_contra satisfied
    exact not ((consistent.satisfied u d (by simp [edge])).mp (by simpa using satisfied))

theorem not_succeeded_of_active (found : v.task u = some t) (active : t.state.isTerminal = false) : ¬ v.Succeeded u := by
  rintro ⟨_, found', succeeded⟩
  cases found.symm.trans found'
  rw [succeeded] at active
  cases active

section

variable (consistent : v.Consistent) (found : v.task k = some t) (known : v.dependencies k = some deps)
include consistent found known

/-- A task whose counter has reached its total has no dependency that did not succeed. -/
theorem Consistent.succeeded_of_counted
    (full : t.depsTotal ≤ t.depsSatisfiedCount) : ∀ u ∈ deps, v.Succeeded u := by
  intro u member
  obtain ⟨_, known', _, edges, _⟩ := consistent.incoming k t found
  cases known.symm.trans known'
  -- the counter is the number of distinct dependencies that are satisfied, and at most that of all
  have bound : deps.dedup.length ≤ deps.length := (dedup_sublist deps).length_le
  have all : deps.dedup.countP (v.sat · k) = deps.dedup.length := by
    have := countP_le_length (p := (v.sat · k)) (l := deps.dedup)
    omega
  have here := countP_eq_length.mp all u (mem_dedup.mpr member)
  exact (consistent.satisfied u k ((edges u).mpr member)).mp here

/-- A blocked task without repeated dependencies waits for one that did not succeed. -/
theorem Consistent.waiting
    (distinct : deps.Nodup) (blocked : t.state = .blocked) : ∃ u ∈ deps, ¬ v.Succeeded u := by
  obtain ⟨_, known', _, edges, count⟩ := consistent.incoming k t found
  cases known.symm.trans known'
  by_contra none
  simp only [not_exists, not_and, not_not] at none
  have all : deps.dedup.countP (v.sat · k) = deps.dedup.length := by
    rw [countP_eq_length]
    intro u member
    have inDeps := mem_dedup.mp member
    exact (consistent.satisfied u k ((edges u).mpr inDeps)).mpr (none u inDeps)
  have short := consistent.blocked k t found blocked
  rw [distinct.dedup] at all count
  omega

end

/-- The graph and the set of tasks are the same in both views. -/
structure SameGraph (v v' : RunView) : Prop where
  dependencies : ∀ k, v'.dependencies k = v.dependencies k
  dependents : ∀ u, v'.dependents u = v.dependents u
  edge : ∀ u d, (v'.edge u d).isSome = (v.edge u d).isSome
  task : ∀ k, (v'.task k).isSome = (v.task k).isSome

section SameGraph

variable (same : v.SameGraph v') {R : TaskRow → TaskRow → Prop}
  (tasks : ∀ t', v'.task k = some t' → ∃ t, v.task k = some t ∧ R t t')

include same tasks

theorem SameGraph.after {t : TaskRow} (found : v.task k = some t) : ∃ t', v'.task k = some t' ∧ R t t' := by
  obtain ⟨t', found'⟩ := Option.isSome_iff_exists.mp ((same.task k).trans (by rw [found]; rfl))
  obtain ⟨_, old, related⟩ := tasks t' found'
  obtain rfl := Option.some.inj (found.symm.trans old)
  exact ⟨t', found', related⟩

theorem SameGraph.succeeded (alike : ∀ {t t'}, R t t' → (t'.state = .succeeded ↔ t.state = .succeeded)) :
    v'.Succeeded k ↔ v.Succeeded k := by
  constructor
  · rintro ⟨t', found', state⟩
    obtain ⟨t, found, related⟩ := tasks t' found'
    exact ⟨t, found, (alike related).mp state⟩
  · rintro ⟨t, found, state⟩
    obtain ⟨t', found', related⟩ := same.after tasks found
    exact ⟨t', found', (alike related).mpr state⟩

end SameGraph

theorem Follows.sameGraph {p : PlanCreated} (follows : v.Follows p) (same : v.SameGraph v') : v'.Follows p where
  task k := by rw [same.task]; exact follows.task k
  dependencies d member := by rw [same.dependencies]; exact follows.dependencies d member

/-- A row changes without touching its counters; no task succeeds, and none becomes blocked or ready. -/
structure Calm (t t' : TaskRow) : Prop where
  total : t'.depsTotal = t.depsTotal
  count : t'.depsSatisfiedCount = t.depsSatisfiedCount
  succeeded : t'.state = .succeeded ↔ t.state = .succeeded
  planned : t'.state = .planned → t.state = .planned
  ready : t'.state = .ready → t.state = .ready
  blocked : t'.state = .blocked → t.state = .blocked

theorem Calm.refl (t : TaskRow) : Calm t t := ⟨rfl, rfl, Iff.rfl, id, id, id⟩

theorem Consistent.calm (consistent : v.Consistent) (same : v.SameGraph v')
    (sat : ∀ u d, (v.edge u d).isSome = true → v'.sat u d = v.sat u d)
    (tasks : ∀ k t', v'.task k = some t' → ∃ t, v.task k = some t ∧ Calm t t')
    (failed : ∀ u tu, v'.task u = some tu → tu.state.isTerminal = true → tu.state ≠ .succeeded →
      ∀ d ∈ v.dependents u, ∀ t, v'.task d = some t → t.state ≠ .blocked) : v'.Consistent := by
  have succeeded : ∀ u, v'.Succeeded u ↔ v.Succeeded u := fun u => same.succeeded (tasks u) Calm.succeeded
  constructor
  case dependents =>
    intro u d
    rw [same.dependents, same.edge]
    exact consistent.dependents u d
  case downstream =>
    intro u d
    rw [same.edge, same.task]
    exact consistent.downstream u d
  case incoming =>
    intro k t' found'
    obtain ⟨t, found, calm⟩ := tasks k t' found'
    obtain ⟨deps, known, total, edges, count⟩ := consistent.incoming k t found
    refine ⟨deps, by rw [same.dependencies, known], by rw [calm.total, total], ?_, ?_⟩
    · intro u
      rw [same.edge]
      exact edges u
    · rw [calm.count, count]
      refine countP_congr fun u member => ?_
      rw [sat u k ((edges u).mpr (mem_dedup.mp member))]
  case satisfied =>
    intro u d edge
    rw [same.edge] at edge
    rw [sat u d edge, succeeded]
    exact consistent.satisfied u d edge
  case created =>
    intro k t' found' state
    obtain ⟨t, found, calm⟩ := tasks k t' found'
    exact consistent.created k t found (calm.planned state)
  case ready =>
    intro k t' found' state
    obtain ⟨t, found, calm⟩ := tasks k t' found'
    rw [calm.total, calm.count]
    exact consistent.ready k t found (calm.ready state)
  case blocked =>
    intro k t' found' state
    obtain ⟨t, found, calm⟩ := tasks k t' found'
    rw [calm.total, calm.count]
    exact consistent.blocked k t found (calm.blocked state)
  case failed =>
    intro u tu found ended failure d member
    rw [same.dependents] at member
    exact failed u tu found ended failure d member

theorem countP_or_eq (distinct : deps.Nodup) {f : String → Bool} (off : f u = false) :
    deps.countP (fun w => f w || decide (w = u)) = deps.countP f + if u ∈ deps then 1 else 0 := by
  induction deps with
  | nil => rfl
  | cons w rest ih =>
    rw [nodup_cons] at distinct
    rw [countP_cons, countP_cons, ih distinct.2]
    by_cases here : w = u
    · subst here
      simp [off, distinct.1]
    · simp [here, Ne.symm here]
      omega

/-- The row of task `k` after task `u` succeeded; `gained` says whether one more dependency of `k`
is satisfied. -/
structure Counted (u k : String) (gained : Bool) (t t' : TaskRow) : Prop where
  total : t'.depsTotal = t.depsTotal
  count : t'.depsSatisfiedCount = t.depsSatisfiedCount + gained.toNat
  state : (k = u ∧ t'.state = .succeeded) ∨
    (k ≠ u ∧ t.state = .blocked ∧ t'.state = .ready ∧ t'.depsSatisfiedCount = t.depsTotal) ∨
    (k ≠ u ∧ t'.state = t.state ∧ (t.state = .blocked → gained = true → t'.depsSatisfiedCount ≠ t.depsTotal))

namespace Counted

variable {gained : Bool} {t' : TaskRow}

theorem succeeded (counted : Counted u k gained t t') (other : k ≠ u) :
    t'.state = .succeeded ↔ t.state = .succeeded := by
  rcases counted.state with ⟨same, _⟩ | ⟨_, blocked, ready, _⟩ | ⟨_, same, _⟩
  · exact absurd same other
  · rw [blocked, ready]
    simp
  · rw [same]

theorem blocked (counted : Counted u k gained t t') (blocked : t'.state = .blocked) :
    t.state = .blocked ∧ (gained = true → t'.depsSatisfiedCount ≠ t.depsTotal) := by
  rcases counted.state with ⟨_, succeeded⟩ | ⟨_, _, ready, _⟩ | ⟨_, same, short⟩
  · cases succeeded.symm.trans blocked
  · cases ready.symm.trans blocked
  · rw [same] at blocked
    exact ⟨blocked, short blocked⟩

end Counted

theorem Consistent.succeed (consistent : v.Consistent) (same : v.SameGraph v') {tu : TaskRow}
    (found : v.task u = some tu) (active : tu.state.isTerminal = false)
    (sat : ∀ w d, (v.edge w d).isSome = true → v'.sat w d = (v.sat w d || decide (w = u)))
    (tasks : ∀ k t', v'.task k = some t' → ∃ t, v.task k = some t ∧
      Counted u k (decide (k ∈ v.dependents u)) t t') : v'.Consistent := by
  have unsatisfied : ∀ d, v.sat u d = false := consistent.sat_of_not_succeeded (not_succeeded_of_active found active)
  have succeeded : ∀ w, v'.Succeeded w ↔ v.Succeeded w ∨ w = u := by
    intro w
    by_cases here : w = u
    · subst here
      obtain ⟨t', found', counted⟩ := same.after (tasks w) found
      rcases counted.state with ⟨_, done⟩ | ⟨other, _⟩ | ⟨other, _⟩
      · exact ⟨fun _ => .inr rfl, fun _ => ⟨t', found', done⟩⟩
      · exact absurd rfl other
      · exact absurd rfl other
    · simp only [here, or_false]
      exact same.succeeded (tasks w) fun counted => counted.succeeded here
  constructor
  case dependents =>
    intro w d
    rw [same.dependents, same.edge]
    exact consistent.dependents w d
  case downstream =>
    intro w d
    rw [same.edge, same.task]
    exact consistent.downstream w d
  case incoming =>
    intro k t' found'
    obtain ⟨t, foundOld, counted⟩ := tasks k t' found'
    obtain ⟨deps, known, total, edges, count⟩ := consistent.incoming k t foundOld
    refine ⟨deps, by rw [same.dependencies, known], by rw [counted.total, total], ?_, ?_⟩
    · intro w
      rw [same.edge]
      exact edges w
    · -- the counter and the satisfied edges gain one exactly when `k` depends on `u`
      have flipped : deps.dedup.countP (v'.sat · k) = deps.dedup.countP (fun w => v.sat w k || decide (w = u)) :=
        countP_congr fun w member => by rw [sat w k ((edges w).mpr (mem_dedup.mp member))]
      have gains : u ∈ deps.dedup ↔ k ∈ v.dependents u := by
        rw [mem_dedup, ← edges u, consistent.dependents u k]
      rw [counted.count, count, flipped, countP_or_eq (f := (v.sat · k)) deps.nodup_dedup (unsatisfied k)]
      simp only [gains]
      by_cases mine : k ∈ v.dependents u <;> simp [mine]
  case satisfied =>
    intro w d edge
    rw [same.edge] at edge
    rw [sat w d edge, succeeded, Bool.or_eq_true, consistent.satisfied w d edge, decide_eq_true_iff]
  case created =>
    intro k t' found' state
    obtain ⟨t, foundOld, counted⟩ := tasks k t' found'
    rcases counted.state with ⟨_, done⟩ | ⟨_, _, ready, _⟩ | ⟨_, kept, _⟩
    · cases done.symm.trans state
    · cases ready.symm.trans state
    · exact consistent.created k t foundOld (kept ▸ state)
  case ready =>
    intro k t' found' state
    obtain ⟨t, foundOld, counted⟩ := tasks k t' found'
    have total := counted.total
    have count := counted.count
    rcases counted.state with ⟨_, done⟩ | ⟨_, _, _, _⟩ | ⟨_, kept, _⟩
    · cases done.symm.trans state
    · omega
    · have before := consistent.ready k t foundOld (kept ▸ state)
      omega
  case blocked =>
    intro k t' found' state
    obtain ⟨t, foundOld, counted⟩ := tasks k t' found'
    obtain ⟨was, short⟩ := counted.blocked state
    have before := consistent.blocked k t foundOld was
    have total := counted.total
    have count := counted.count
    cases gained : decide (k ∈ v.dependents u) with
    | false => simp [gained] at count; omega
    | true =>
      have notFull := short gained
      simp [gained] at count
      omega
  case failed =>
    intro w tw found' ended failure d member t' foundD state
    rw [same.dependents] at member
    obtain ⟨told, foundOld, counted⟩ := tasks w tw found'
    obtain ⟨t, foundDOld, countedD⟩ := tasks d t' foundD
    rcases counted.state with ⟨_, done⟩ | ⟨_, _, ready, _⟩ | ⟨_, kept, _⟩
    · exact failure done
    · rw [ready] at ended
      cases ended
    · rw [kept] at ended failure
      exact consistent.failed w told foundOld ended failure d member t foundDOld (countedD.blocked state).1

theorem consistent_of_plan {ev : Envelope} {p : PlanCreated} (distinct : (p.tasks.map (·.key)).Nodup)
    (task : ∀ k t, v.task k = some t ↔ ∃ d ∈ p.tasks, d.key = k ∧ d.row ev p.runId = t)
    (edge : ∀ u k x, v.edge u k = some x ↔ ∃ d ∈ p.tasks, d.key = k ∧ u ∈ d.dependsOn ∧ d.edge ev p.runId u = x)
    (dependencies : ∀ d ∈ p.tasks, v.dependencies d.key = some d.dependsOn)
    (dependents : ∀ u k, k ∈ v.dependents u ↔ ∃ d ∈ p.tasks, d.key = k ∧ u ∈ d.dependsOn) : v.Consistent := by
  have edgeSome : ∀ u k, (v.edge u k).isSome = true ↔ ∃ d ∈ p.tasks, d.key = k ∧ u ∈ d.dependsOn := by
    intro u k
    rw [Option.isSome_iff_exists]
    constructor
    · rintro ⟨x, found⟩
      obtain ⟨d, member, key, dep, _⟩ := (edge u k x).mp found
      exact ⟨d, member, key, dep⟩
    · rintro ⟨d, member, key, dep⟩
      exact ⟨_, (edge u k _).mpr ⟨d, member, key, dep, rfl⟩⟩
  have unsatisfied : ∀ u k, v.sat u k = false := by
    intro u k
    cases found : v.edge u k with
    | none => simp [sat, found]
    | some x =>
      obtain ⟨d, _, _, _, rfl⟩ := (edge u k x).mp found
      simp [sat, found, TaskDef.edge]
  have newState : ∀ k t, v.task k = some t → t.state = .ready ∨ t.state = .blocked := by
    intro k t found
    obtain ⟨d, _, _, rfl⟩ := (task k t).mp found
    simp only [TaskDef.row]
    split
    · exact .inl rfl
    · exact .inr rfl
  constructor
  case dependents =>
    intro u k
    rw [dependents, edgeSome]
  case downstream =>
    intro u k some
    obtain ⟨d, member, key, _⟩ := (edgeSome u k).mp some
    rw [(task k _).mpr ⟨d, member, key, rfl⟩]
    rfl
  case incoming =>
    intro k t found
    obtain ⟨d, member, rfl, rfl⟩ := (task k t).mp found
    refine ⟨d.dependsOn, dependencies d member, rfl, ?_, ?_⟩
    · intro u
      rw [edgeSome]
      constructor
      · rintro ⟨other, inPlan, same, dep⟩
        rwa [inj_on_of_nodup_map distinct inPlan member same] at dep
      · exact fun dep => ⟨d, member, rfl, dep⟩
    · simp only [unsatisfied, countP_false]
      rfl
  case satisfied =>
    intro u k _
    rw [unsatisfied]
    constructor
    · rintro ⟨⟩
    · rintro ⟨t, found, done⟩
      rcases newState u t found with state | state <;> rw [state] at done <;> cases done
  case created =>
    intro k t found state
    rcases newState k t found with other | other <;> rw [other] at state <;> cases state
  case ready =>
    intro k t found state
    obtain ⟨d, _, _, rfl⟩ := (task k t).mp found
    simp only [TaskDef.row] at state
    split at state
    · rename_i none
      exact Nat.le_of_eq none
    · cases state
  case blocked =>
    intro k t found state
    obtain ⟨d, _, _, rfl⟩ := (task k t).mp found
    simp only [TaskDef.row] at state
    split at state
    · cases state
    · rename_i some
      exact Nat.pos_of_ne_zero some
  case failed =>
    intro u tu found ended
    rcases newState u tu found with state | state <;> rw [state] at ended <;> cases ended

end RunView

end Arco.Flow
