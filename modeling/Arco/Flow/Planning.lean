import Arco.Flow.Closing
import Arco.Flow.Readiness
import Arco.Flow.Selection

/-! Plans built from a selection, folded.

The planner keeps the upstreams of an asset as often as the graph lists them, and the fold
takes the length of that list as the number of dependencies. The edges are keyed, so a
repeated upstream is satisfied once.
-/

namespace Arco.Flow

open Keyed List Table Lifecycle TaskRow

section Build

variable {g : AssetGraph} {roots : List String} {options : SelectionOptions} {partitionKey : Option String}
  {tasks : List TaskDef}

section

variable (built : buildTaskDefsForSelection g roots options partitionKey = .ok tasks)
include built

theorem buildTaskDefs_ok : ∃ canonicalRoots, roots.mapM canonicalizeAssetKey = .ok canonicalRoots ∧
      tasks = ((g.closeSelection canonicalRoots options).map
        (g.taskDef (g.closeSelection canonicalRoots options) partitionKey)).insertionSort fun a b => a.key ≤ b.key := by
  unfold buildTaskDefsForSelection at built
  cases canonical : roots.mapM canonicalizeAssetKey with
  | error message =>
    rw [canonical] at built
    cases built
  | ok canonicalRoots =>
    rw [canonical] at built
    exact ⟨canonicalRoots, rfl, (Except.ok.inj built).symm⟩

theorem keys_built_nodup : (tasks.map (·.key)).Nodup := by
  obtain ⟨canonicalRoots, _, rfl⟩ := buildTaskDefs_ok built
  rw [Perm.nodup_iff ((perm_insertionSort _ _).map _), map_map]
  have keys : ((fun d : TaskDef => d.key) ∘ g.taskDef (g.closeSelection canonicalRoots options) partitionKey) = id := rfl
  rw [keys, map_id]
  exact g.nodup_closeSelection canonicalRoots options

end

end Build

/-- No planned asset lists another planned asset twice among its upstreams, unless it lists itself. -/
def AssetGraph.SingleEdges (g : AssetGraph) (plannedAssets : List String) : Prop :=
  ∀ asset ∈ plannedAssets, (g.plannedUpstreams plannedAssets asset).Nodup ∨ asset ∈ g.plannedUpstreams plannedAssets asset

instance (g : AssetGraph) (plannedAssets : List String) : Decidable (g.SingleEdges plannedAssets) :=
  inferInstanceAs (Decidable (∀ asset ∈ plannedAssets, _))

namespace FoldState

variable {s : FoldState}

/-- The task is blocked although all that it depends on has succeeded. -/
def Stranded (s : FoldState) (runId : String) (d : TaskDef) : Prop :=
  ∃ t, s.tasks.find (runId, d.key) = some t ∧ t.state = .blocked ∧
    ∀ u ∈ d.dependsOn, ∃ up, s.tasks.find (runId, u) = some up ∧ up.state = .succeeded

theorem not_stranded {p : PlanCreated} (follows : (s.view p.runId).Follows p)
    (consistent : (s.view p.runId).Consistent) {d : TaskDef} (member : d ∈ p.tasks)
    (single : d.dependsOn.Nodup ∨ d.key ∈ d.dependsOn) : ¬ s.Stranded p.runId d := by
  rintro ⟨t, found, blocked, succeeded⟩
  rcases single with distinct | own
  · obtain ⟨u, dependency, pending⟩ :=
      consistent.waiting (k := d.key) found (follows.dependencies d member) distinct blocked
    exact pending (succeeded u dependency)
  · obtain ⟨_, foundUp, done⟩ := succeeded d.key own
    cases found.symm.trans foundUp
    cases blocked.symm.trans done

end FoldState

namespace Lifecycle

variable {ext : Externals} {e : OrchestrationEvent} {l l' : Lifecycle} {runId : String}

theorem hasTasks_planned {ev : Envelope} {p : PlanCreated} (nonempty : p.tasks ≠ []) :
    (l.planned ev p).hasTasks p.runId = true := by
  obtain ⟨d, member⟩ := exists_mem_of_ne_nil _ nonempty
  have row : d.row ev p.runId ∈ p.tasks.map (TaskDef.row ev p.runId) := mem_map_of_mem member
  rcases find_upsertAll_cases l.tasks (p.tasks.map (TaskDef.row ev p.runId)) (p.runId, d.key) with
    ⟨t, _, key, found⟩ | ⟨absent, _⟩
  · have run : t.runId = p.runId := congrArg Prod.fst key
    exact any_eq_true.mpr ⟨t, mem_of_find found, decide_eq_true run⟩
  · exact absurd rfl (absent _ row)

theorem Steps.hasTasks_or_blank (steps : Steps ext e l l') (before : l.hasTasks runId = true ∨ (l.view runId).Blank) :
    l'.hasTasks runId = true ∨ (l'.view runId).Blank := by
  induction steps with
  | refl => exact before
  | tail _ step ih =>
    rcases ih with has | blank
    · exact .inl (step.hasTasks has)
    · rcases step.blank blank with blank' | ⟨p, _, rfl, rfl⟩
      · exact .inr blank'
      · by_cases none : p.tasks = []
        · exact .inr (blank_planned_nil none blank)
        · exact .inl (hasTasks_planned none)

end Lifecycle

namespace FoldState

variable {ext : Externals} {e : OrchestrationEvent} {s : FoldState}

/-- A run without tasks is blank in every reachable state. -/
theorem Reachable.blank (reachable : Reachable ext s) {runId : String} (fresh : s.hasTasks runId = false) :
    (s.view runId).Blank := by
  obtain ⟨secret, events, rfl⟩ := reachable
  have known : (foldEvents ext { tenantSecret := secret } events).hasTasks runId = true ∨
      ((foldEvents ext { tenantSecret := secret } events).view runId).Blank :=
    foldEvents_invariant (fun s => s.hasTasks runId = true ∨ (s.view runId).Blank)
      (fun s e before => (foldEvent_steps ext s e).hasTasks_or_blank before) (.inr (blank_empty secret)) events
  rcases known with has | blank
  · cases fresh.symm.trans has
  · exact blank

theorem toLifecycle_foldEvent_planned {p : PlanCreated} (isEvent : e.data = .planCreated p)
    (new : s.IsNew e) (fresh : s.hasTasks p.runId = false) :
    (s.foldEvent ext e).toLifecycle = s.toLifecycle.planned e.toEnvelope p := by
  rw [toLifecycle_foldEvent ext s e new, isEvent, apply, toLifecycle_refreshed]
  simp only [onLifecycle, foldPlanCreated_eq, fresh, Bool.false_eq_true, if_false]

/-- Folding a plan into a run without tasks, and any events after it, keeps to that plan. -/
theorem follows_foldEvents {p : PlanCreated} (isEvent : e.data = .planCreated p) (distinct : (p.tasks.map (·.key)).Nodup)
    (nonempty : p.tasks ≠ []) (reachable : Reachable ext s)
    (new : s.IsNew e) (fresh : s.hasTasks p.runId = false)
    (events : List OrchestrationEvent) :
    ((foldEvents ext (s.foldEvent ext e) events).view p.runId).Follows p ∧
      ((foldEvents ext (s.foldEvent ext e) events).view p.runId).Consistent := by
  have start : ((s.foldEvent ext e).view p.runId).Follows p ∧ ((s.foldEvent ext e).view p.runId).Consistent := by
    rw [toLifecycle_foldEvent_planned isEvent new fresh]
    exact (consistent_planned e.toEnvelope distinct (reachable.blank fresh)).symm
  exact foldEvents_invariant (fun s => (s.view p.runId).Follows p ∧ (s.view p.runId).Consistent)
    (fun s' e' before => (foldEvent_steps ext s' e').follows nonempty before.1 before.2) start events

end FoldState

def RunView.Untouched (v : RunView) (k : String) : Prop :=
  ∃ t, v.task k = some t ∧ t.attempt = 0 ∧ (t.state = .blocked ∨ t.state = .ready)

namespace Lifecycle

variable {ext : Externals} {ev : Envelope} {l : Lifecycle}

theorem task_finishTask_succeeded {p : TaskFinished} (outcome : p.outcome = .succeeded) (t : TaskRow) (k : String) :
    (l.finishTask ext ev p t).tasks.find (p.runId, k) =
      ((l.tasks.upsert (t.finish ext ev p)).find (p.runId, k)).map
        (countIn ev (l.completed ext ev p t) p.runId p.taskKey (l.getDependents p.runId p.taskKey)) := by
  rw [finishTask_succeeded outcome]
  exact find_mapRows (key_countIn _) _ _

end Lifecycle

theorem TaskRow.countSatisfied_untouched {ev : Envelope} {t : TaskRow} (first : t.attempt = 0)
    (waits : t.state = .blocked ∨ t.state = .ready) :
    (t.countSatisfied ev).attempt = 0 ∧
      ((t.countSatisfied ev).state = .blocked ∨ (t.countSatisfied ev).state = .ready) := by
  dsimp only [countSatisfied]
  split
  · exact ⟨first, .inr rfl⟩
  · exact ⟨first, waits⟩

theorem TaskRow.countSatisfied_succeeded {ev : Envelope} {t : TaskRow} (done : t.state = .succeeded) :
    (t.countSatisfied ev).state = .succeeded := by
  rw [countSatisfied, if_neg (by simp [done])]
  exact done

namespace FoldState

variable {s : FoldState} {runId : String}

theorem exists_new_event (s : FoldState) (data : OrchestrationEventData) :
    ∃ e : OrchestrationEvent, e.data = data ∧ s.IsNew e := by
  obtain ⟨key, unused⟩ := Infinite.exists_notMem_finset s.idempotencyKeys.keys.toFinset
  refine ⟨{ OrchestrationEvent.sample "01" data with idempotencyKey := key }, rfl, ?_⟩
  have absent : key ∉ s.idempotencyKeys.keys := by simpa using unused
  rw [← Table.contains_iff] at absent
  simpa using absent

theorem exists_start (ext : Externals) (s : FoldState) (p : AttemptRef) {t : TaskRow}
    (found : s.tasks.find (p.runId, p.taskKey) = some t) (accepts : t.AcceptsStart p) :
    ∃ e t₁, (s.foldEvent ext e).toLifecycle = { s.toLifecycle with tasks := s.tasks.upsert t₁ } ∧
      t₁.key = (p.runId, p.taskKey) ∧ t₁.IsCurrentAttempt p ∧ t₁.state = .running := by
  obtain ⟨e, isEvent, new⟩ := exists_new_event s (.taskStarted p)
  let t₁ : TaskRow := { t with
    state := .running
    attempt := p.attempt
    attemptId := some p.attemptId
    startedAt := some e.timestamp
    rowVersion := e.eventId }
  have key : t.key = (p.runId, p.taskKey) := key_of_find found
  refine ⟨e, t₁, ?_, key, ⟨rfl, rfl⟩, rfl⟩
  rw [toLifecycle_foldEvent ext s e new, isEvent, apply, toLifecycle_refreshed, toLifecycle_foldTaskStarted]
  simp only [updateTask, found, Option.bind_some, start, if_pos accepts]
  rfl

theorem exists_finish (ext : Externals) (s : FoldState) (p : TaskFinished) {t : TaskRow}
    (found : s.tasks.find (p.runId, p.taskKey) = some t) (current : t.IsCurrentAttempt p.toAttemptRef)
    (active : t.state.isTerminal = false) :
    ∃ e : OrchestrationEvent, (s.foldEvent ext e).toLifecycle = s.toLifecycle.finishTask ext e.toEnvelope p t := by
  obtain ⟨e, isEvent, new⟩ := exists_new_event s (.taskFinished p)
  refine ⟨e, ?_⟩
  rw [toLifecycle_foldEvent ext s e new, isEvent, apply, toLifecycle_refreshed, toLifecycle_foldTaskFinished]
  simp [Lifecycle.foldTaskFinished, found, current, active]

theorem exists_success (ext : Externals) {u : String} (untouched : (s.view runId).Untouched u) :
    ∃ events, ((foldEvents ext s events).view runId).Succeeded u ∧ ∀ k, k ≠ u →
      ((s.view runId).Untouched k → ((foldEvents ext s events).view runId).Untouched k) ∧
        ((s.view runId).Succeeded k → ((foldEvents ext s events).view runId).Succeeded k) := by
  obtain ⟨t, found, first, waits⟩ := untouched
  let p : TaskFinished := { runId := runId, taskKey := u, attempt := 1, attemptId := "1", outcome := .succeeded }
  have accepts : t.AcceptsStart p.toAttemptRef := by
    refine ⟨?_, ?_, ?_⟩
    · rcases waits with state | state <;> rw [state] <;> rfl
    · rw [first]
      exact Nat.zero_le 1
    · intro same
      rw [first] at same
      cases same
  obtain ⟨e₁, t₁, started, key, current, running⟩ := exists_start ext s p.toAttemptRef found accepts
  have found₁ : (s.foldEvent ext e₁).tasks.find (p.runId, p.taskKey) = some t₁ := by
    rw [started]
    exact find_upsert_of_key key
  obtain ⟨e₂, finished⟩ := exists_finish ext _ p found₁ current (by rw [running]; rfl)
  have row : ∀ k, ((s.foldEvent ext e₁).foldEvent ext e₂).tasks.find (runId, k) = _ := fun k =>
    (congrArg (fun l : Lifecycle => l.tasks.find (runId, k)) finished).trans
      (task_finishTask_succeeded rfl t₁ k)
  have finishedKey : (t₁.finish ext e₂.toEnvelope p).key = (runId, u) := (key_finish _ _ _ _).trans key
  refine ⟨[e₁, e₂], ?_, ?_⟩
  · refine ⟨_, (row u).trans (congrArg (Option.map _) (find_upsert_of_key finishedKey)), ?_⟩
    have done : (t₁.finish ext e₂.toEnvelope p).state = .succeeded := state_finish _ _
    rcases countIn_cases _ _ _ (t₁.finish ext e₂.toEnvelope p) with same | counted
    · rw [same, done]
    · rw [counted, countSatisfied_succeeded done]
  · intro k other
    have different : ∀ t : TaskRow, t.key = (runId, u) → t.key ≠ (runId, k) := by
      intro t mine same
      exact other (congrArg Prod.snd (mine.symm.trans same)).symm
    have kept : ((s.foldEvent ext e₁).tasks.upsert (t₁.finish ext e₂.toEnvelope p)).find (runId, k) =
        s.tasks.find (runId, k) := by
      rw [find_upsert_of_ne (different _ finishedKey), started]
      exact find_upsert_of_ne (different _ key)
    constructor
    · rintro ⟨row₀, found₀, first₀, waits₀⟩
      refine ⟨_, (row k).trans (congrArg (Option.map _) (kept.trans found₀)), ?_⟩
      rcases countIn_cases _ _ _ row₀ with same | counted
      · rw [same]
        exact ⟨first₀, waits₀⟩
      · rw [counted]
        exact countSatisfied_untouched first₀ waits₀
    · rintro ⟨row₀, found₀, done₀⟩
      refine ⟨_, (row k).trans (congrArg (Option.map _) (kept.trans found₀)), ?_⟩
      rcases countIn_cases _ _ _ row₀ with same | counted
      · rw [same, done₀]
      · rw [counted, countSatisfied_succeeded done₀]

theorem exists_successes (ext : Externals) {us : List String} (distinct : us.Nodup) {a : String} (other : a ∉ us)
    (untouched : ∀ u ∈ us, (s.view runId).Untouched u) (waits : (s.view runId).Untouched a) :
    ∃ events, (∀ u ∈ us, ((foldEvents ext s events).view runId).Succeeded u) ∧
      ((foldEvents ext s events).view runId).Untouched a := by
  suffices more : ∀ done : List String, (∀ u ∈ done, u ∉ us ∧ (s.view runId).Succeeded u) →
      ∃ events, (∀ u ∈ us ++ done, ((foldEvents ext s events).view runId).Succeeded u) ∧
        ((foldEvents ext s events).view runId).Untouched a by
    simpa using more []
  induction us generalizing s with
  | nil =>
    intro done succeeded
    exact ⟨[], fun u member => (succeeded u (by simpa using member)).2, waits⟩
  | cons u rest ih =>
    intro done succeeded
    rw [nodup_cons] at distinct
    rw [mem_cons, not_or] at other
    obtain ⟨events, success, kept⟩ := exists_success ext (untouched u (by simp))
    have untouched' : ∀ w ∈ rest, ((foldEvents ext s events).view runId).Untouched w := by
      intro w member
      refine (kept w ?_).1 (untouched w (by simp [member]))
      rintro rfl
      exact distinct.1 member
    have succeeded' : ∀ w ∈ u :: done, w ∉ rest ∧ ((foldEvents ext s events).view runId).Succeeded w := by
      intro w member
      rcases mem_cons.mp member with rfl | old
      · exact ⟨distinct.1, success⟩
      · obtain ⟨notListed, was⟩ := succeeded w old
        rw [mem_cons, not_or] at notListed
        exact ⟨notListed.2, (kept w notListed.1).2 was⟩
    obtain ⟨later, all, still⟩ := ih distinct.2 other.2 untouched' ((kept a other.1).1 waits) (u :: done) succeeded'
    refine ⟨events ++ later, ?_, ?_⟩
    · intro w member
      rw [foldEvents, foldl_append]
      exact all w (by simpa [or_left_comm] using member)
    · rwa [foldEvents, foldl_append]

theorem stranded_of_successes {p : PlanCreated} (follows : (s.view p.runId).Follows p)
    (consistent : (s.view p.runId).Consistent) {d : TaskDef} (member : d ∈ p.tasks) (repeated : ¬ d.dependsOn.Nodup)
    (waits : (s.view p.runId).Untouched d.key) (succeeded : ∀ u ∈ d.dependsOn, (s.view p.runId).Succeeded u) :
    s.Stranded p.runId d := by
  obtain ⟨t, found, _, state⟩ := waits
  refine ⟨t, found, ?_, succeeded⟩
  rcases state with blocked | ready
  · exact blocked
  · -- a ready task has as many distinct dependencies as it was planned with
    exfalso
    obtain ⟨_, known, _, _, _⟩ := consistent.incoming d.key t found
    rw [follows.dependencies d member] at known
    cases known
    have full := consistent.ready d.key t found ready
    have bound := countP_le_length (p := ((s.view p.runId).sat · d.key)) (l := d.dependsOn.dedup)
    have shorter : d.dependsOn.dedup.length ≤ d.dependsOn.length := (dedup_sublist _).length_le
    have whole : d.dependsOn.dedup = d.dependsOn := (dedup_sublist _).eq_of_length (by omega)
    exact repeated (dedup_eq_self.mp whole)

theorem exists_stranded (ext : Externals) {p : PlanCreated} (distinct : (p.tasks.map (·.key)).Nodup) {d : TaskDef}
    (member : d ∈ p.tasks) (inside : ∀ u ∈ d.dependsOn, u ∈ p.tasks.map (·.key)) (repeated : ¬ d.dependsOn.Nodup)
    (other : d.key ∉ d.dependsOn) {e : OrchestrationEvent} (isEvent : e.data = .planCreated p)
    (reachable : Reachable ext s) (new : s.IsNew e)
    (fresh : s.hasTasks p.runId = false) :
    ∃ events, (foldEvents ext (s.foldEvent ext e) events).Stranded p.runId d := by
  have untouched : ∀ k ∈ p.tasks.map (·.key), ((s.foldEvent ext e).view p.runId).Untouched k := by
    intro k planned
    obtain ⟨def', inPlan, rfl⟩ := mem_map.mp planned
    rw [toLifecycle_foldEvent_planned isEvent new fresh]
    refine ⟨def'.row e.toEnvelope p.runId, ?_, rfl, ?_⟩
    · exact (view_planned_task e.toEnvelope distinct (reachable.blank fresh) _ _).mpr ⟨def', inPlan, rfl, rfl⟩
    · rw [TaskDef.row]
      split
      · exact .inr rfl
      · exact .inl rfl
  obtain ⟨events, succeeded, waits⟩ := exists_successes ext d.dependsOn.nodup_dedup
    (fun dependency => other (mem_dedup.mp dependency))
    (fun u dependency => untouched u (inside u (mem_dedup.mp dependency)))
    (untouched d.key (mem_map_of_mem member))
  obtain ⟨follows, consistent⟩ :=
    follows_foldEvents isEvent distinct (ne_nil_of_mem member) reachable new fresh events
  exact ⟨events, stranded_of_successes follows consistent member repeated waits fun u dependency =>
    succeeded u (mem_dedup.mpr dependency)⟩

/-- A plan that was built for a selection can strand a task exactly when the graph lists a planned
upstream of one of its assets twice. -/
theorem no_stranded_task_iff (ext : Externals) {g : AssetGraph} {roots canonicalRoots : List String}
    {options : SelectionOptions} {partitionKey : Option String} {tasks : List TaskDef}
    (canonical : roots.mapM canonicalizeAssetKey = .ok canonicalRoots)
    (built : buildTaskDefsForSelection g roots options partitionKey = .ok tasks) {s : FoldState}
    (reachable : Reachable ext s) {runId : String} {e : OrchestrationEvent}
    (isEvent : e.data = .planCreated { runId := runId, tasks := tasks })
    (new : s.IsNew e) (fresh : s.hasTasks runId = false) :
    (∀ events, ∀ d ∈ tasks, ¬ (foldEvents ext (s.foldEvent ext e) events).Stranded runId d) ↔
      g.SingleEdges (g.closeSelection canonicalRoots options) := by
  have distinct := keys_built_nodup built
  obtain ⟨_, canonical', planned⟩ := buildTaskDefs_ok built
  cases canonical.symm.trans canonical'
  have mem_tasks : ∀ d, d ∈ tasks ↔ ∃ asset ∈ g.closeSelection canonicalRoots options,
      g.taskDef (g.closeSelection canonicalRoots options) partitionKey asset = d := by
    intro d
    rw [planned, (perm_insertionSort _ _).mem_iff, mem_map]
  constructor
  · intro neverStranded asset selected
    by_contra twice
    rw [not_or] at twice
    have member := (mem_tasks _).mpr ⟨asset, selected, rfl⟩
    have inside : ∀ u ∈ g.plannedUpstreams (g.closeSelection canonicalRoots options) asset, u ∈ tasks.map (·.key) := by
      intro u dependency
      have listed := (perm_insertionSort _ _).mem_iff.mp dependency
      have upstream : u ∈ g.closeSelection canonicalRoots options := by simpa using (mem_filter.mp listed).2
      exact mem_map.mpr ⟨_, (mem_tasks _).mpr ⟨u, upstream, rfl⟩, rfl⟩
    obtain ⟨events, stranded⟩ := exists_stranded ext distinct member inside twice.1 twice.2 isEvent reachable new fresh
    exact neverStranded events _ member stranded
  · intro single events d member
    obtain ⟨follows, consistent⟩ := follows_foldEvents isEvent distinct (ne_nil_of_mem member)
      reachable new fresh events
    obtain ⟨asset, selected, rfl⟩ := (mem_tasks d).mp member
    exact not_stranded follows consistent member (single asset selected)

def dailyGraph (n : Nat) : AssetGraph :=
  ({} : AssetGraph).insertAsset "raw.orders" [] |>.insertAsset "mart.daily" (replicate n "raw.orders")

def planned (ext : Externals) (tasks : List TaskDef) (events : List OrchestrationEvent) : FoldState :=
  foldEvents ext (({} : FoldState).foldEvent ext (.sample "01" (.planCreated { runId := "run", tasks := tasks }))) events

def dailyTasks (n : Nat) : List TaskDef :=
  ["mart.daily", "raw.orders"].map ((dailyGraph n).taskDef ["mart.daily", "raw.orders"] none)

theorem no_stranded_task_iff_singleUpstream :
    buildTaskDefsForSelection (dailyGraph 1) ["mart/daily"] { includeUpstream := true } none = .ok (dailyTasks 1) ∧
      ∀ events, ∀ d ∈ dailyTasks 1, ¬ (planned .constant (dailyTasks 1) events).Stranded "run" d := by
  have canonical : ["mart/daily"].mapM canonicalizeAssetKey = .ok ["mart.daily"] := rfl
  have built : buildTaskDefsForSelection (dailyGraph 1) ["mart/daily"] { includeUpstream := true } none =
    .ok (dailyTasks 1) := rfl
  exact ⟨built, (no_stranded_task_iff .constant canonical built ⟨[], [], rfl⟩ rfl rfl rfl).mpr (by decide)⟩

theorem repeated_upstream_strands : ¬ ∀ g roots options partitionKey tasks,
    buildTaskDefsForSelection g roots options partitionKey = .ok tasks →
      ∀ events, ∀ d ∈ tasks, ¬ (planned .constant tasks events).Stranded "run" d := by
  intro neverStranded
  let orders : AttemptRef := { runId := "run", taskKey := "raw.orders", attempt := 1, attemptId := "a1" }
  let events : List OrchestrationEvent := [.sample "02" (.taskStarted orders),
    .sample "03" (.taskFinished { toAttemptRef := orders, outcome := .succeeded })]
  let tasks := dailyTasks 2
  have built : buildTaskDefsForSelection (dailyGraph 2) ["mart/daily"] { includeUpstream := true } none = .ok tasks := rfl
  have blocked : ((planned .constant tasks events).tasks.find ("run", "mart.daily")).any
      (fun t => t.state = .blocked) = true := by decide
  have succeeded : ((planned .constant tasks events).tasks.find ("run", "raw.orders")).any
      (fun t => t.state = .succeeded) = true := by decide
  obtain ⟨t, found, waits⟩ := (Option.any_eq_true _ _).mp blocked
  obtain ⟨up, foundUp, done⟩ := (Option.any_eq_true _ _).mp succeeded
  refine neverStranded _ _ _ _ tasks built events _ (mem_cons_self) ⟨t, found, of_decide_eq_true waits, ?_⟩
  intro u dependency
  have only : u = "raw.orders" := by
    have listed : u ∈ ["raw.orders", "raw.orders"] := dependency
    simpa using listed
  exact ⟨up, only ▸ foundUp, of_decide_eq_true done⟩

end FoldState

end Arco.Flow
