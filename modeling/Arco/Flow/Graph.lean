import Arco.Flow.Compactor
import Arco.Flow.Completion
import Arco.Flow.Consistency

/-! The dependency graph in memory and the edges in the table.

The two maps are not persisted: a load derives them from the edge and task tables.
`Lifecycle.Wired` says that the maps of a folded state hold what a load would derive, up to
the order and the repetition of list entries.
-/

namespace Arco.Flow

open Keyed List

namespace Lifecycle

open Table

variable {ext : Externals} {e : OrchestrationEvent} {ev : Envelope} {l l' : Lifecycle}

structure Wired (l : Lifecycle) : Prop where
  dependents : ∀ r u d, d ∈ l.getDependents r u ↔ (r, u, d) ∈ l.depSatisfaction.keys
  listed : ∀ k deps, l.taskDependents.get k = some deps → deps ≠ []
  downstream : ∀ r u d, (r, u, d) ∈ l.depSatisfaction.keys → (r, d) ∈ l.tasks.keys
  dependencies : ∀ k, (l.taskDependencies.get k).isSome = true ↔ k ∈ l.tasks.keys

theorem wired_empty : Wired {} where
  dependents _ _ _ := by simp [getDependents]
  listed k deps found := by simp at found
  downstream r u d member := by simp at member
  dependencies k := by simp

theorem Wired.frame (wired : l.Wired) (edges : l'.depSatisfaction.keys = l.depSatisfaction.keys)
    (tasks : l'.tasks.keys = l.tasks.keys) (dependents : l'.taskDependents = l.taskDependents)
    (dependencies : l'.taskDependencies = l.taskDependencies) : l'.Wired where
  dependents r u d := by
    rw [getDependents, dependents, edges]
    exact wired.dependents r u d
  listed := dependents ▸ wired.listed
  downstream r u d := by
    rw [edges, tasks]
    exact wired.downstream r u d
  dependencies k := by
    rw [dependencies, tasks]
    exact wired.dependencies k

section Plan

variable {p : PlanCreated}

theorem mem_getDependents_planned (r u d : String) : d ∈ (l.planned ev p).getDependents r u ↔
    d ∈ l.getDependents r u ∨ (r = p.runId ∧ ∃ task ∈ p.tasks, task.key = d ∧ u ∈ task.dependsOn) := by
  by_cases mine : r = p.runId
  · subst mine
    simp only [true_and]
    exact mem_planDependents p.tasks l.taskDependents u d
  · have same : (l.planned ev p).getDependents r u = l.getDependents r u :=
      congrFun (congrArg RunView.dependents (view_planned_other mine)) u
    simp [same, mine]

theorem mem_keys_planned_edges (r u d : String) : (r, u, d) ∈ (l.planned ev p).depSatisfaction.keys ↔
    (r, u, d) ∈ l.depSatisfaction.keys ∨
      (r = p.runId ∧ ∃ task ∈ p.tasks, task.key = d ∧ u ∈ task.dependsOn) := by
  rw [planned, mem_keys_upsertAll, mem_keys_planEdges]

theorem mem_keys_planned_tasks (k : String × String) :
    k ∈ (l.planned ev p).tasks.keys ↔ k ∈ l.tasks.keys ∨ ∃ task ∈ p.tasks, (p.runId, task.key) = k := by
  rw [planned, mem_keys_upsertAll]
  simp [TaskRow.key, TaskDef.row]

/-- Inserting values keeps a property that holds of each of them. -/
theorem get_foldl_of_step {K A B : Type} [DecidableEq K] {P : A → Prop} {step : Map K A → B → Map K A}
    (keeps : ∀ m b, (∀ k v, m.get k = some v → P v) → ∀ k v, (step m b).get k = some v → P v) (bs : List B)
    (m : Map K A) (all : ∀ k v, m.get k = some v → P v) : ∀ k v, (bs.foldl step m).get k = some v → P v := by
  induction bs generalizing m with
  | nil => exact all
  | cons b rest ih => exact ih (step m b) (keeps m b all)

theorem listed_planned (listed : ∀ k deps, l.taskDependents.get k = some deps → deps ≠ []) :
    ∀ k deps, (l.planned ev p).taskDependents.get k = some deps → deps ≠ [] := by
  refine get_foldl_of_step (fun m task all => get_foldl_of_step (fun m' u all' k deps found => ?_) _ m all) _ _ listed
  rw [addDependent, Map.get_insert] at found
  split at found
  · cases found
    simp
  · exact all' k deps found

theorem isSome_get_planned (k : String × String) : ((l.planned ev p).taskDependencies.get k).isSome = true ↔
    (l.taskDependencies.get k).isSome = true ∨ ∃ task ∈ p.tasks, (p.runId, task.key) = k := by
  have loop : ∀ (defs : List TaskDef) (m : TaskLists),
      ((defs.foldl (fun m d => m.insert (p.runId, d.key) d.dependsOn) m).get k).isSome = true ↔
        (m.get k).isSome = true ∨ ∃ task ∈ defs, (p.runId, task.key) = k := by
    intro defs
    induction defs with
    | nil => simp
    | cons d rest ih =>
      intro m
      rw [foldl_cons, ih, Map.get_insert]
      by_cases here : (p.runId, d.key) = k <;> simp [here]
  exact loop p.tasks l.taskDependencies

theorem Wired.planned (wired : l.Wired) : (l.planned ev p).Wired where
  dependents r u d := by
    rw [mem_getDependents_planned, mem_keys_planned_edges, wired.dependents]
  listed := listed_planned wired.listed
  downstream r u d member := by
    rw [mem_keys_planned_tasks]
    rcases (mem_keys_planned_edges r u d).mp member with old | ⟨rfl, task, inPlan, rfl, _⟩
    · exact .inl (wired.downstream r u d old)
    · exact .inr ⟨task, inPlan, rfl⟩
  dependencies k := by
    rw [isSome_get_planned, mem_keys_planned_tasks, wired.dependencies]

end Plan

theorem keys_finishTask_edges (wired : l.Wired) {p : TaskFinished} {t : TaskRow} (completes : l.Completes p t) :
    (l.finishTask ext ev p t).depSatisfaction.keys = l.depSatisfaction.keys := by
  generalize finish : l.finishTask ext ev p t = after
  cases finished_finishTask completes finish with
  | retried _ => rfl
  | succeeded _ =>
    refine keys_upsertAll_of_mem fun edge member => ?_
    obtain ⟨d, dependent, rfl⟩ := mem_map.mp member
    exact (wired.dependents p.runId p.taskKey d).mp dependent
  | failed _ closed _ _ =>
    refine keys_upsertAll_of_mem fun edge member => ?_
    obtain ⟨item, _, inItem⟩ := mem_flatMap.mp member
    obtain ⟨d, dependent, rfl⟩ := mem_map.mp inItem
    exact (wired.dependents p.runId item.1 d).mp dependent

theorem graph_finishTask (l : Lifecycle) {p : TaskFinished} {t : TaskRow} (completes : l.Completes p t) :
    (l.finishTask ext ev p t).taskDependents = l.taskDependents ∧
      (l.finishTask ext ev p t).taskDependencies = l.taskDependencies := by
  generalize finish : l.finishTask ext ev p t = after
  cases finished_finishTask completes finish with
  | retried _ | succeeded _ | failed _ _ _ _ => exact ⟨rfl, rfl⟩

theorem Step.wired (step : Step ext e l l') (wired : l.Wired) : l'.Wired := by
  cases step with
  | triggered p isEvent new => exact wired.frame rfl rfl rfl rfl
  | planned p isEvent fresh => exact wired.planned
  | cancelled p isEvent active => exact wired.frame rfl (keys_mapRows _ _) rfl rfl
  | updated t t' found update =>
    refine wired.frame rfl (keys_upsert_of_mem ?_) rfl rfl
    rw [update.rewritten.key]
    exact mem_keys_of_find found
  | finished p t isEvent found current active =>
    have completes : l.Completes p t := ⟨found, current, active⟩
    exact wired.frame (keys_finishTask_edges wired completes) (keys_finishTask ext _ completes)
      (graph_finishTask l completes).1 (graph_finishTask l completes).2

theorem Steps.wired (steps : Steps ext e l l') (wired : l.Wired) : l'.Wired := by
  induction steps with
  | refl => exact wired
  | tail _ step ih => exact step.wired ih

end Lifecycle

def SameLists (m m' : TaskLists) : Prop :=
  ∀ k, (m'.get k).isSome = (m.get k).isSome ∧ ∀ x, x ∈ (m'.get k).getD [] ↔ x ∈ (m.get k).getD []

namespace FoldState

theorem mem_foldl_addUnique {B : Type} (at_ : B → String × String) (entry : B → String) (bs : List B)
    (m : TaskLists) (k : String × String) (x : String) :
    x ∈ ((bs.foldl (fun m b => addUnique m (at_ b) (entry b)) m).get k).getD [] ↔
      x ∈ (m.get k).getD [] ∨ ∃ b ∈ bs, at_ b = k ∧ entry b = x := by
  induction bs generalizing m with
  | nil => simp
  | cons b rest ih =>
    have first : x ∈ ((addUnique m (at_ b) (entry b)).get k).getD [] ↔
        x ∈ (m.get k).getD [] ∨ (at_ b = k ∧ entry b = x) := by
      rw [addUnique, Map.get_insert]
      by_cases here : at_ b = k
      · subst here
        simp only [if_true, true_and]
        split
        · rename_i known
          exact ⟨.inl, fun entered => entered.elim id fun same => same ▸ known⟩
        · simp [eq_comm]
      · simp [here]
    rw [foldl_cons, ih, first]
    simp only [mem_cons, exists_eq_or_imp, or_assoc]

theorem isSome_foldl_addUnique {B : Type} (at_ : B → String × String) (entry : B → String) (bs : List B)
    (m : TaskLists) (k : String × String) :
    ((bs.foldl (fun m b => addUnique m (at_ b) (entry b)) m).get k).isSome = true ↔
      (m.get k).isSome = true ∨ ∃ b ∈ bs, at_ b = k := by
  induction bs generalizing m with
  | nil => simp
  | cons b rest ih =>
    rw [foldl_cons, ih, addUnique, Map.get_insert]
    by_cases here : at_ b = k <;> simp [here]

theorem get_foldl_addTaskEntry (keys : List (String × String)) (k : String × String) :
    (keys.foldl addTaskEntry Table.empty).get k = if k ∈ keys then some [] else none := by
  have loop : ∀ (keys : List (String × String)) (m : TaskLists), (∀ k v, m.get k = some v → v = []) →
        (keys.foldl addTaskEntry m).get k = if k ∈ keys then some [] else m.get k := by
    intro keys
    induction keys with
    | nil => simp
    | cons first rest ih =>
      intro m empty
      have value : (m.get first).getD [] = [] := by
        cases found : m.get first with
        | none => rfl
        | some v => exact empty first v found
      rw [foldl_cons, addTaskEntry, value, ih]
      · rw [Map.get_insert]
        by_cases inRest : k ∈ rest
        · simp [inRest]
        · simp [inRest, eq_comm]
      · intro k' v found
        rw [Map.get_insert] at found
        split at found
        · exact (Option.some.inj found).symm
        · exact empty k' v found
  rw [loop keys Table.empty fun k v found => by simp at found]
  rfl

variable {s : FoldState}

theorem mem_rebuilt_dependents (r u d : String) :
    d ∈ s.rebuildDependencyGraph.getDependents r u ↔ (r, u, d) ∈ s.depSatisfaction.keys := by
  unfold Lifecycle.getDependents rebuildDependencyGraph
  rw [mem_foldl_addUnique]
  simp [Table.keys, DepSatisfactionRow.key, and_assoc]

theorem isSome_rebuilt_dependents (k : String × String) :
    (s.rebuildDependencyGraph.taskDependents.get k).isSome = true ↔
      ∃ d, d ∈ s.rebuildDependencyGraph.getDependents k.1 k.2 := by
  have some : (s.rebuildDependencyGraph.taskDependents.get k).isSome = true ↔ _ :=
    isSome_foldl_addUnique (fun edge : DepSatisfactionRow => (edge.runId, edge.upstreamTaskKey)) _
      s.depSatisfaction.rows Table.empty k
  rw [some]
  simp only [mem_rebuilt_dependents, Map.get_empty, Option.isSome_none, Bool.false_eq_true, false_or]
  constructor
  · rintro ⟨edge, member, rfl⟩
    exact ⟨edge.downstreamTaskKey, mem_map_of_mem member⟩
  · rintro ⟨d, member⟩
    obtain ⟨edge, inRows, same⟩ := mem_map.mp member
    refine ⟨edge, inRows, ?_⟩
    simp only [DepSatisfactionRow.key, Prod.mk.injEq] at same
    exact Prod.ext same.1 same.2.1

theorem sameLists_dependents (wired : s.Wired) :
    SameLists s.taskDependents s.rebuildDependencyGraph.taskDependents := by
  intro k
  have entries : ∀ d, d ∈ (s.rebuildDependencyGraph.taskDependents.get k).getD [] ↔
      d ∈ (s.taskDependents.get k).getD [] := fun d =>
    (mem_rebuilt_dependents k.1 k.2 d).trans (wired.dependents k.1 k.2 d).symm
  refine ⟨?_, entries⟩
  rw [Bool.eq_iff_iff, isSome_rebuilt_dependents]
  constructor
  · rintro ⟨d, member⟩
    cases found : s.taskDependents.get k with
    | none =>
      have listed := (entries d).mp member
      rw [found] at listed
      cases listed
    | some deps => rfl
  · intro present
    obtain ⟨deps, found⟩ := Option.isSome_iff_exists.mp present
    obtain ⟨d, member⟩ := exists_mem_of_ne_nil _ (wired.listed k deps found)
    refine ⟨d, (entries d).mpr ?_⟩
    rwa [found]

theorem sameLists_dependencies (wired : s.Wired)
    (incoming : ∀ r k deps, s.taskDependencies.get (r, k) = some deps →
      ∀ u, (r, u, k) ∈ s.depSatisfaction.keys ↔ u ∈ deps) :
    SameLists s.taskDependencies s.rebuildDependencyGraph.taskDependencies := by
  rintro ⟨r, k⟩
  have entries : ∀ u, u ∈ (s.rebuildDependencyGraph.taskDependencies.get (r, k)).getD [] ↔
      (r, u, k) ∈ s.depSatisfaction.keys := by
    intro u
    have rebuilt : u ∈ (s.rebuildDependencyGraph.taskDependencies.get (r, k)).getD [] ↔ _ :=
      mem_foldl_addUnique (fun edge : DepSatisfactionRow => (edge.runId, edge.downstreamTaskKey)) _
        s.depSatisfaction.rows _ (r, k) u
    have noEntry : ((s.tasks.keys.foldl addTaskEntry Table.empty).get (r, k)).getD [] = [] := by
      rw [get_foldl_addTaskEntry]
      split <;> rfl
    rw [rebuilt, noEntry]
    simp only [not_mem_nil, false_or, Table.keys, mem_map, DepSatisfactionRow.key, Prod.mk.injEq]
    exact exists_congr fun edge => and_congr_right fun _ => by tauto
  have present : (s.rebuildDependencyGraph.taskDependencies.get (r, k)).isSome = true ↔ (r, k) ∈ s.tasks.keys := by
    have rebuilt : (s.rebuildDependencyGraph.taskDependencies.get (r, k)).isSome = true ↔ _ :=
      isSome_foldl_addUnique (fun edge : DepSatisfactionRow => (edge.runId, edge.downstreamTaskKey)) _
        s.depSatisfaction.rows _ (r, k)
    rw [rebuilt, get_foldl_addTaskEntry]
    constructor
    · rintro (task | ⟨edge, member, same⟩)
      · by_contra absent
        simp [absent] at task
      · rw [← same]
        exact wired.downstream _ edge.upstreamTaskKey _ (mem_map_of_mem member)
    · intro task
      simp [task]
  refine ⟨?_, fun u => ?_⟩
  · rw [Bool.eq_iff_iff, present, wired.dependencies]
  · rw [entries]
    cases found : s.taskDependencies.get (r, k) with
    | some deps => exact incoming r k deps found u
    | none =>
      have noTask : (r, k) ∉ s.tasks.keys := by
        rw [← wired.dependencies, found]
        exact Bool.false_ne_true
      simpa using fun edge => noTask (wired.downstream r u k edge)

/-- In runs planned with distinct keys the lists of dependencies are those of the edges. -/
theorem incoming_of_sound {plans : PlanCreated → Prop} (wired : s.Wired) (sound : ∀ r, (s.view r).Sound plans)
    (r k : String) (deps : List String) (known : s.taskDependencies.get (r, k) = some deps) (u : String) :
    (r, u, k) ∈ s.depSatisfaction.keys ↔ u ∈ deps := by
  have task : (r, k) ∈ s.tasks.keys := (wired.dependencies (r, k)).mp (by rw [known]; rfl)
  obtain ⟨t, found⟩ := Option.isSome_iff_exists.mp (Table.isSome_find_iff.mpr task)
  rcases sound r with blank | ⟨p, _, _, _, consistent⟩
  · have none : s.tasks.find (r, k) = none := blank.task k
    cases found.symm.trans none
  · obtain ⟨deps', known', _, edges, _⟩ := consistent.incoming k t found
    have same : deps' = deps := Option.some.inj (known'.symm.trans known)
    rw [← Table.isSome_find_iff, ← same]
    exact edges u

theorem wired_foldEvents (ext : Externals) {s : FoldState} (wired : s.Wired) (events : List OrchestrationEvent) :
    (foldEvents ext s events).Wired :=
  foldEvents_invariant (fun s => s.Wired) (fun s e wired => (foldEvent_steps ext s e).wired wired) wired events

end FoldState

end Arco.Flow
