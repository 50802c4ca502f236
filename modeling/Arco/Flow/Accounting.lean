import Arco.Flow.Progress

/-! The counters of a run against its task rows.

The fold keeps the counters of a run row by adding to them when tasks end; a run that
is triggered after its tasks exist counts them from scratch. `RunRow.Accounts` says that
both agree, and that a run closes exactly when its last task ends.
-/

namespace Arco.Flow

open Keyed List Table Lifecycle RunRow

/-! ## Counts over the task rows -/

def completions (ended : TaskState → Nat) : Nat :=
  ended .succeeded + ended .failed + ended .skipped + ended .cancelled

theorem completions_congr {ended ended' : TaskState → Nat}
    (same : ∀ state, state.isTerminal = true → ended' state = ended state) :
    completions ended' = completions ended := by
  unfold completions
  rw [same _ rfl, same _ rfl, same _ rfl, same _ rfl]

namespace Lifecycle

def taskCount (l : Lifecycle) (runId : String) : Nat := l.tasks.rows.countP fun t => t.runId = runId

def ended (l : Lifecycle) (runId : String) (state : TaskState) : Nat :=
  l.tasks.rows.countP fun t => t.runId = runId ∧ t.state = state

def openTasks (l : Lifecycle) (runId : String) : Nat :=
  l.tasks.rows.countP fun t => t.runId = runId ∧ t.state.isTerminal = false

variable {l : Lifecycle} {runId : String}

theorem taskCount_eq :
    l.taskCount runId = completions (l.ended runId) + l.openTasks runId := by
  unfold taskCount completions ended openTasks
  induction l.tasks.rows with
  | nil => rfl
  | cons t rest ih =>
    simp only [countP_cons, ih]
    by_cases mine : t.runId = runId
    · cases state : t.state <;> simp [TaskState.isTerminal] <;> omega
    · simp [mine]

theorem completions_le (l : Lifecycle) (runId : String) : completions (l.ended runId) ≤ l.taskCount runId := by
  rw [taskCount_eq]
  exact Nat.le_add_right _ _

theorem completions_lt_of_find {k : String × String} {t : TaskRow} (found : l.tasks.find k = some t)
    (active : t.state.isTerminal = false) : completions (l.ended k.1) < l.taskCount k.1 := by
  have run : t.runId = k.1 := congrArg Prod.fst (key_of_find found)
  have isOpen : 0 < l.openTasks k.1 := countP_pos_of_find found (by simp [run, active])
  rw [taskCount_eq]
  omega

theorem taskCount_pos_iff : 0 < l.taskCount runId ↔ l.hasTasks runId = true := by
  unfold taskCount hasTasks
  rw [countP_pos_iff, any_eq_true]

/-! ### The recount -/

theorem foldl_add (rows : List TaskRow) (c : Tally) :
    let count (state : TaskState) := rows.countP fun t => t.state = state
    let after := rows.foldl Tally.add c
    after.total = c.total + rows.length ∧ after.completed = c.completed + completions count ∧
      after.succeeded = c.succeeded + count .succeeded ∧ after.failed = c.failed + count .failed ∧
      after.skipped = c.skipped + count .skipped ∧ after.cancelled = c.cancelled + count .cancelled := by
  dsimp only
  induction rows generalizing c with
  | nil => simp [completions]
  | cons t rest ih =>
    obtain ⟨total, completed, succeeded, failed, skipped, cancelled⟩ := ih (c.add t)
    rw [foldl_cons, total, completed, succeeded, failed, skipped, cancelled]
    cases state : t.state <;> simp [Tally.add, state, TaskState.isTerminal, completions] <;> omega

theorem recount_eq (l : Lifecycle) (runId : String) : (l.recount runId).total = l.taskCount runId ∧
      (l.recount runId).completed = completions (l.ended runId) ∧
      (l.recount runId).succeeded = l.ended runId .succeeded ∧ (l.recount runId).failed = l.ended runId .failed ∧
      (l.recount runId).skipped = l.ended runId .skipped ∧
      (l.recount runId).cancelled = l.ended runId .cancelled := by
  have counted := foldl_add (l.tasks.rows.filter fun t => t.runId = runId) {}
  have mine : ∀ state : TaskState, (l.tasks.rows.filter fun t => t.runId = runId).countP (fun t => t.state = state) =
      l.ended runId state := by
    intro state
    rw [countP_filter]
    congr 1
    funext t
    simp [Bool.and_comm]
  simp only [mine, Nat.zero_add] at counted
  rwa [← countP_eq_length_filter] at counted

end Lifecycle

/-! ## Run rows that agree with their tasks -/

namespace RunRow

/-- The state that the counters of a run with tasks call for. -/
def dueState (run : RunRow) : RunState :=
  if run.tasksCompleted = run.tasksTotal then finalState run.tasksCancelled run.tasksFailed else .running

/-- The counters of `run` agree with `rows` tasks of which `ended` says how many ended in each state.
A plan that lists a key twice makes the total too high; no other counter is off. -/
structure Accounts (distinctPlans : Prop) (rows : Nat) (ended : TaskState → Nat) (run : RunRow) : Prop where
  succeeded : run.tasksSucceeded = ended .succeeded
  failed : run.tasksFailed = ended .failed
  skipped : run.tasksSkipped = ended .skipped
  cancelled : run.tasksCancelled = ended .cancelled
  completed : run.tasksCompleted = completions ended
  bound : rows ≤ run.tasksTotal
  total : distinctPlans → run.tasksTotal = rows
  state : 0 < rows → run.state = run.dueState

variable {distinctPlans : Prop} {rows : Nat} {ended ended' : TaskState → Nat} {run : RunRow} {ev : Envelope}

theorem Accounts.congr (accounts : run.Accounts distinctPlans rows ended)
    (same : ∀ state, state.isTerminal = true → ended' state = ended state) :
    run.Accounts distinctPlans rows ended' where
  succeeded := by rw [accounts.succeeded, same _ rfl]
  failed := by rw [accounts.failed, same _ rfl]
  skipped := by rw [accounts.skipped, same _ rfl]
  cancelled := by rw [accounts.cancelled, same _ rfl]
  completed := by rw [accounts.completed, completions_congr same]
  bound := accounts.bound
  total := accounts.total
  state := accounts.state

theorem isTerminal_finalState (cancelled failed : Nat) : (finalState cancelled failed).isTerminal = true := by
  unfold finalState
  split
  · rfl
  · split <;> rfl

/-- A run is closed only when all of its tasks have ended. -/
theorem Accounts.completions_of_terminal (accounts : run.Accounts distinctPlans rows ended)
    (closed : run.state.isTerminal = true) (hasTasks : 0 < rows) : rows ≤ completions ended := by
  by_contra missing
  have short : run.tasksCompleted ≠ run.tasksTotal := by
    have := accounts.completed
    have := accounts.bound
    omega
  rw [accounts.state hasTasks, dueState, if_neg short] at closed
  cases closed

theorem Accounts.state_of_lt (accounts : run.Accounts distinctPlans rows ended) (missing : completions ended < rows) :
    run.state = .running ∧ run.tasksCompleted < run.tasksTotal := by
  have short : run.tasksCompleted < run.tasksTotal := by
    have := accounts.completed
    have := accounts.bound
    omega
  rw [accounts.state (by omega), dueState, if_neg (Nat.ne_of_lt short)]
  exact ⟨rfl, short⟩

def endMore (state : TaskState) (n : Nat) (ended : TaskState → Nat) : TaskState → Nat :=
  fun s => ended s + if state = s then n else 0

variable {state : TaskState}

section

variable (terminal : state.isTerminal = true)
include terminal

theorem completions_endMore (n : Nat) : completions (endMore state n ended) = completions ended + n := by
  unfold completions endMore
  cases state <;> first | (simp; omega) | cases terminal

theorem Accounts.endMore {n : Nat} {after : RunRow} (accounts : run.Accounts distinctPlans rows ended)
    (succeeded : after.tasksSucceeded = run.tasksSucceeded + if state = .succeeded then n else 0)
    (failed : after.tasksFailed = run.tasksFailed + if state = .failed then n else 0)
    (skipped : after.tasksSkipped = run.tasksSkipped + if state = .skipped then n else 0)
    (cancelled : after.tasksCancelled = run.tasksCancelled + if state = .cancelled then n else 0)
    (completed : after.tasksCompleted = run.tasksCompleted + n) (total : after.tasksTotal = run.tasksTotal)
    (due : 0 < rows → after.state = after.dueState) : after.Accounts distinctPlans rows (endMore state n ended) where
  succeeded := by rw [succeeded, accounts.succeeded]; rfl
  failed := by rw [failed, accounts.failed]; rfl
  skipped := by rw [skipped, accounts.skipped]; rfl
  cancelled := by rw [cancelled, accounts.cancelled]; rfl
  completed := by rw [completed, accounts.completed, completions_endMore terminal]
  bound := by rw [total]; exact accounts.bound
  total := by rw [total]; exact accounts.total
  state := due

theorem Accounts.settle (missing : completions ended < rows)
    (accounts : run.Accounts distinctPlans rows ended) :
    (run.settle ev state).Accounts distinctPlans rows (RunRow.endMore state 1 ended) := by
  dsimp only [RunRow.settle]
  split
  · rename_i last
    exact accounts.endMore terminal rfl rfl rfl rfl rfl rfl fun _ => by rw [dueState, if_pos last]
  · rename_i notLast
    refine accounts.endMore terminal rfl rfl rfl rfl rfl rfl fun _ => ?_
    rw [dueState, if_neg notLast]
    exact (accounts.state_of_lt missing).1

theorem Accounts.settle_iterate (n : Nat) (room : completions ended + n ≤ rows)
    (accounts : run.Accounts distinctPlans rows ended) :
    ((RunRow.settle ev state)^[n] run).Accounts distinctPlans rows (RunRow.endMore state n ended) := by
  induction n generalizing run ended with
  | zero => exact accounts.congr fun s _ => by simp [RunRow.endMore]
  | succ n ih =>
    have room' : completions (RunRow.endMore state 1 ended) + n ≤ rows := by
      rw [completions_endMore terminal]
      omega
    refine (ih room' (accounts.settle terminal (by omega))).congr fun s _ => ?_
    unfold RunRow.endMore
    split <;> omega

end

theorem Accounts.cancel (n : Nat) (active : run.state.isTerminal = false)
    (accounts : run.Accounts distinctPlans rows ended) :
    (cancelledRun ev n run).Accounts distinctPlans rows (RunRow.endMore .cancelled n ended) := by
  -- a run with tasks that is not closed misses a completion
  have short : 0 < rows → run.tasksCompleted ≠ run.tasksTotal ∧ run.state = .running := by
    intro hasTasks
    have state := accounts.state hasTasks
    unfold dueState at state
    split at state
    · rw [state, isTerminal_finalState] at active
      cases active
    · rename_i missing
      exact ⟨missing, state⟩
  dsimp only [cancelledRun, closeCancelled]
  split
  · rename_i last
    refine accounts.endMore rfl rfl rfl rfl rfl rfl rfl fun hasTasks => ?_
    have some : 0 < run.tasksCancelled + n := by
      omega
    simp only [dueState, finalState, last, some, if_true]
  · rename_i notLast
    refine accounts.endMore rfl rfl rfl rfl rfl rfl rfl fun hasTasks => ?_
    simp only [dueState, notLast]
    exact (short hasTasks).2

theorem Accounts.plan {planned : Nat} {rows' : Nat} (accounts : run.Accounts distinctPlans 0 ended)
    (empty : ∀ state, state.isTerminal = true → ended state = 0) (bound : rows' ≤ planned)
    (total : distinctPlans → planned = rows') (none : ∀ state, state.isTerminal = true → ended' state = 0) :
    (run.plan ev planned).Accounts distinctPlans rows' ended' := by
  have kept : run.Accounts distinctPlans 0 ended' :=
    accounts.congr fun state terminal => by rw [none _ terminal, empty _ terminal]
  refine ⟨kept.succeeded, kept.failed, kept.skipped, kept.cancelled, kept.completed, bound, total, ?_⟩
  intro hasTasks
  have zero : run.tasksCompleted = 0 := by
    rw [accounts.completed, completions, empty _ rfl, empty _ rfl, empty _ rfl, empty _ rfl]
  rw [dueState, if_neg]
  · rfl
  · show run.tasksCompleted ≠ planned
    omega

end RunRow

/-! ## What the steps do to the counts -/

namespace Lifecycle

variable {ext : Externals} {e : OrchestrationEvent} {ev : Envelope} {l l' : Lifecycle} {runId : String}

structure Closes (l l' : Lifecycle) (runId : String) (state : TaskState) (n : Nat) : Prop where
  taskCount : ∀ r, l'.taskCount r = l.taskCount r
  ended : ∀ r s, s.isTerminal = true → l'.ended r s = l.ended r s + if r = runId ∧ state = s then n else 0

variable {f : TaskRow → TaskRow} {state : TaskState} {t t' : TaskRow} {n : Nat}

theorem Closes.of_mapRows (selected : TaskRow → Bool) (keeps : ∀ row, (f row).key = row.key)
    (mapped : l'.tasks = l.tasks.mapRows f)
    (on : ∀ t ∈ l.tasks.rows, selected t = true → t.runId = runId ∧ t.state.isTerminal = false ∧ (f t).state = state)
    (off : ∀ t ∈ l.tasks.rows, selected t = false → TaskState.SameEnd t.state (f t).state) :
    Closes l l' runId state (l.tasks.rows.countP selected) := by
  have run : ∀ t, (f t).runId = t.runId := fun t => congrArg Prod.fst (keeps t)
  have rows : l'.tasks.rows = l.tasks.rows.map f := by rw [mapped, rows_mapRows keeps]
  constructor
  · intro r
    unfold Lifecycle.taskCount
    rw [rows, countP_map]
    simp only [Function.comp_def, run]
  · intro r s terminal
    have moved := countP_map_selected l.tasks.rows (fun t => t.runId = r ∧ t.state = s) selected f false
      (decide (r = runId ∧ state = s))
      (fun t member kept => by simp only [run, (off t member kept).eq_iff terminal])
      (fun t member mine => by
        obtain ⟨here, active, after⟩ := on t member mine
        have other : t.state ≠ s := fun same => by rw [same, terminal] at active; cases active
        simp [run, here, after, other, eq_comm])
    unfold Lifecycle.ended
    rw [rows]
    by_cases hit : r = runId ∧ state = s <;> simpa [hit] using moved

theorem Closes.of_mapRows_same (keeps : ∀ row, (f row).key = row.key) (mapped : l'.tasks = l.tasks.mapRows f)
    (same : ∀ t ∈ l.tasks.rows, TaskState.SameEnd t.state (f t).state) (runId : String) (state : TaskState) :
    Closes l l' runId state 0 := by
  have closes : Closes l l' runId state (l.tasks.rows.countP fun _ => false) :=
    Closes.of_mapRows _ keeps mapped (fun _ _ absurd => by cases absurd) fun t member _ => same t member
  rwa [countP_false] at closes

theorem Closes.of_upsert (found : l.tasks.find t.key = some t) (sameKey : t'.key = t.key)
    (upserted : l'.tasks = l.tasks.upsert t') (ends : ∀ s, s.isTerminal = true →
      (decide (t'.state = s)).toNat = (decide (t.state = s)).toNat + if state = s then n else 0) :
    Closes l l' t.runId state n := by
  have run : t'.runId = t.runId := congrArg Prod.fst sameKey
  have found' : l.tasks.find t'.key = some t := by rw [sameKey, found]
  constructor
  · intro r
    have balance := countP_upsert_of_find (fun row => decide (row.runId = r)) found'
    unfold Lifecycle.taskCount
    rw [upserted]
    simpa [run] using balance
  · intro r s terminal
    have balance := countP_upsert_of_find (fun row => decide (row.runId = r ∧ row.state = s)) found'
    have moved := ends s terminal
    unfold Lifecycle.ended
    rw [upserted]
    by_cases here : t.runId = r
    · simp [run, here] at balance ⊢
      omega
    · simpa [run, here, Ne.symm here] using balance

theorem closes_satisfied (upstream : String) (attempt : Nat) (done : List String) (r : String) (state : TaskState) :
    Closes l (l.satisfied ev runId upstream attempt done) r state 0 := by
  refine Closes.of_mapRows_same (key_countIn done) rfl (fun t _ => ?_) r state
  dsimp only [countIn, TaskRow.countSatisfied]
  split
  · split
    · rename_i last
      exact .inr ⟨by rw [last.2]; rfl, rfl⟩
    · exact .inl rfl
  · exact .inl rfl

theorem closes_cascaded {closed : List String} (written : List DepSatisfactionRow) (nodup : closed.Nodup)
    (wereOpen : ∀ d ∈ closed, l.Open runId d) :
    Closes l (l.cascaded ev runId state closed written) runId state closed.length := by
  rw [← countP_closed nodup wereOpen]
  refine Closes.of_mapRows _ (key_closeIn state closed) rfl ?_ ?_
  · intro t member mine
    obtain ⟨rfl, inClosed⟩ := of_decide_eq_true mine
    refine ⟨rfl, isTerminal_of_open member (wereOpen t.taskKey inClosed), ?_⟩
    rw [closeIn, if_pos ⟨rfl, inClosed⟩]
    rfl
  · intro t _ other
    rw [closeIn, if_neg (by simpa using other)]
    exact .inl rfl

theorem closes_cancelRequested (l : Lifecycle) (ev : Envelope) (runId : String) :
    Closes l (l.cancelRequested ev runId) runId .cancelled (l.tasks.rows.countP (cancellable runId)) := by
  refine Closes.of_mapRows _ key_cancelIn rfl ?_ ?_
  · intro t _ mine
    obtain ⟨run, active, _⟩ := of_decide_eq_true mine
    refine ⟨run, active, ?_⟩
    rw [cancelIn, if_pos mine]
    rfl
  · intro t _ other
    rw [cancelIn, if_neg (by simp [other])]
    exact .inl rfl

/-! ## The invariant -/

/-- Every run row agrees with the task rows of its run. -/
def Accounted (distinctPlans : Prop) (l : Lifecycle) : Prop :=
  ∀ runId run, l.runs.find runId = some run → run.Accounts distinctPlans (l.taskCount runId) (l.ended runId)

variable {distinctPlans : Prop}

section

variable (closes : Closes l l' runId state n)
include closes

theorem Closes.accounts {r : String} {run : RunRow}
    (accounts : run.Accounts distinctPlans (l.taskCount r) (l.ended r))
    (still : r ≠ runId ∨ n = 0 ∨ state.isTerminal = false) :
    run.Accounts distinctPlans (l'.taskCount r) (l'.ended r) := by
  rw [closes.taskCount]
  refine accounts.congr fun s terminal => ?_
  rw [closes.ended r s terminal]
  rcases still with other | none | isOpen
  · simp [other]
  · simp [none]
  · have differ : state ≠ s := fun same => by rw [same, terminal] at isOpen; cases isOpen
    simp [differ]

theorem Closes.accounts_endMore {run : RunRow}
    (accounts : run.Accounts distinctPlans (l.taskCount runId) (endMore state n (l.ended runId))) :
    run.Accounts distinctPlans (l'.taskCount runId) (l'.ended runId) := by
  rw [closes.taskCount]
  refine accounts.congr fun s terminal => ?_
  rw [closes.ended runId s terminal]
  simp [endMore]

theorem Closes.room (terminal : state.isTerminal = true) : completions (l.ended runId) + n ≤ l.taskCount runId := by
  have after : completions (l'.ended runId) = completions (endMore state n (l.ended runId)) :=
    completions_congr fun s ended => by rw [closes.ended runId s ended]; simp [endMore]
  have bound := l'.completions_le runId
  rwa [after, completions_endMore terminal, closes.taskCount] at bound

end

theorem Accounted.unchanged (accounted : Accounted distinctPlans l) (closes : Closes l l' runId state n)
    (still : n = 0 ∨ state.isTerminal = false) (runs : l'.runs = l.runs) :
    Accounted distinctPlans l' := by
  intro r run found
  rw [runs] at found
  exact closes.accounts (accounted r run found) (.inr still)

theorem Accounted.modified {f : RunRow → RunRow} (keeps : ∀ run, (f run).runId = run.runId)
    (accounted : Accounted distinctPlans l) (closes : Closes l l' runId state n)
    (runs : l'.runs = l.runs.modify runId f)
    (modified : ∀ run, l.runs.find runId = some run →
      (f run).Accounts distinctPlans (l.taskCount runId) (endMore state n (l.ended runId))) :
    Accounted distinctPlans l' := by
  intro r run found
  rw [runs, find_modify keeps] at found
  by_cases here : r = runId
  · subst here
    rw [if_pos rfl] at found
    obtain ⟨old, foundOld, rfl⟩ := Option.map_eq_some_iff.mp found
    exact closes.accounts_endMore (modified old foundOld)
  · rw [if_neg here] at found
    exact closes.accounts (accounted r run found) (.inl here)

theorem Accounted.settled (accounted : Accounted distinctPlans l) (closes : Closes l l' runId state n)
    (terminal : state.isTerminal = true) (runs : l'.runs = l.runs.modify runId (settle ev state)^[n]) :
    Accounted distinctPlans l' :=
  accounted.modified (runId_settle_iterate ev state n) closes runs fun run found =>
    (accounted runId run found).settle_iterate terminal n (closes.room terminal)

theorem accounted_triggered (accounted : Accounted distinctPlans l) (p : RunTriggered) :
    Accounted distinctPlans { l with runs := l.runs.upsert (triggeredRow ev p (l.recount p.runId)) } := by
  intro r run found
  rw [find_upsert] at found
  split at found
  · rename_i here
    cases found
    obtain ⟨total, completed, succeeded, failed, skipped, cancelled⟩ := l.recount_eq p.runId
    subst here
    refine ⟨succeeded, failed, skipped, cancelled, completed, total.ge, fun _ => total, fun hasTasks => ?_⟩
    have some : (l.recount p.runId).total ≠ 0 := by
      rw [total]
      exact Nat.ne_of_gt hasTasks
    show (l.recount p.runId).runState = _
    rw [Tally.runState, if_neg some]
    rfl
  · exact accounted r run found

section Plan

variable {p : PlanCreated}

theorem taskCount_of_fresh (fresh : l.hasTasks runId = false) : l.taskCount runId = 0 := by
  by_contra some
  have := taskCount_pos_iff.mp (Nat.pos_of_ne_zero some)
  cases fresh.symm.trans this

theorem row_planned {t : TaskRow} (member : t ∈ p.tasks.map (TaskDef.row ev p.runId)) :
    t.runId = p.runId ∧ t.state.isTerminal = false := by
  obtain ⟨d, _, rfl⟩ := mem_map.mp member
  refine ⟨rfl, ?_⟩
  simp only [TaskDef.row]
  split <;> rfl

theorem countP_planned {q : TaskRow → Bool} (ev : Envelope)
    (off : ∀ t ∈ p.tasks.map (TaskDef.row ev p.runId), q t = false)
    (foreign : ∀ t ∈ l.tasks.rows, q t = true → t.runId ≠ p.runId) :
    (l.planned ev p).tasks.rows.countP q = l.tasks.rows.countP q := by
  refine countP_upsertAll_of_false l.tasks off fun t member counted inPlan => ?_
  obtain ⟨_, inRows, same⟩ := mem_map.mp inPlan
  exact foreign t member counted ((congrArg Prod.fst same).symm.trans (row_planned inRows).1)

theorem taskCount_planned_other {r : String} (other : r ≠ p.runId) :
    (l.planned ev p).taskCount r = l.taskCount r :=
  countP_planned ev (fun t member => by simp [(row_planned member).1, Ne.symm other])
    (fun t _ mine => by rw [of_decide_eq_true mine]; exact other)

section

variable (fresh : l.hasTasks p.runId = false)
include fresh

theorem ended_planned (r : String) {state : TaskState}
    (terminal : state.isTerminal = true) : (l.planned ev p).ended r state = l.ended r state := by
  refine countP_planned ev (fun t member => ?_) (fun t member mine => ?_)
  · have differ : t.state ≠ state := fun same => by
      rw [← same, (row_planned member).2] at terminal
      cases terminal
    simp [differ]
  · exact ne_of_hasTasks_false fresh (find_of_mem member)

theorem taskCount_planned_le : (l.planned ev p).taskCount p.runId ≤ p.tasks.length := by
  have bound := countP_upsertAll_le l.tasks (fun t => t.runId = p.runId) (p.tasks.map (TaskDef.row ev p.runId))
  have none : l.tasks.rows.countP (fun t => t.runId = p.runId) = 0 := taskCount_of_fresh fresh
  have some := countP_le_length (p := fun t => decide (t.runId = p.runId)) (l := p.tasks.map (TaskDef.row ev p.runId))
  rw [length_map] at some
  dsimp only [taskCount, planned]
  omega

theorem taskCount_planned (distinct : (p.tasks.map (·.key)).Nodup) :
    (l.planned ev p).taskCount p.runId = p.tasks.length := by
  have keys : ((p.tasks.map (TaskDef.row ev p.runId)).map TaskRow.key).Nodup := by
    have paired : (p.tasks.map (TaskDef.row ev p.runId)).map TaskRow.key =
        (p.tasks.map (·.key)).map fun k => (p.runId, k) := by
      rw [map_map, map_map]
      rfl
    rw [paired]
    exact distinct.map fun a b same => (Prod.mk.inj same).2
  have appended := rows_upsertAll_of_fresh l.tasks keys fun t member inKeys => by
    obtain ⟨_, inRows, same⟩ := mem_map.mp inKeys
    exact ne_of_hasTasks_false fresh (find_of_mem inRows)
      ((congrArg Prod.fst same).trans (row_planned member).1)
  have none : l.tasks.rows.countP (fun t => t.runId = p.runId) = 0 := taskCount_of_fresh fresh
  unfold taskCount planned
  rw [appended, countP_append, none, Nat.zero_add, countP_eq_length.mpr, length_map]
  intro t member
  simp [(row_planned member).1]

end

theorem accounted_planned (accounted : Accounted distinctPlans l) (fresh : l.hasTasks p.runId = false)
    (distinct : distinctPlans → (p.tasks.map (·.key)).Nodup) : Accounted distinctPlans (l.planned ev p) := by
  intro r run found
  have keeps : ∀ run : RunRow, (run.plan ev p.tasks.length).runId = run.runId := fun _ => rfl
  have none : ∀ state, state.isTerminal = true → l.ended p.runId state = 0 := by
    intro state _
    rw [ended, countP_eq_zero]
    intro t member mine
    exact ne_of_hasTasks_false fresh (find_of_mem member) (of_decide_eq_true mine).1
  replace found : (l.runs.modify p.runId (plan ev p.tasks.length)).find r = some run := found
  rw [find_modify keeps] at found
  by_cases here : r = p.runId
  · subst here
    rw [if_pos rfl] at found
    obtain ⟨old, foundOld, rfl⟩ := Option.map_eq_some_iff.mp found
    have before := accounted _ old foundOld
    rw [taskCount_of_fresh fresh] at before
    refine before.plan none (taskCount_planned_le fresh) (fun plans => ?_) fun state terminal => ?_
    · exact (taskCount_planned fresh (distinct plans)).symm
    · rw [ended_planned fresh _ terminal, none state terminal]
  · rw [if_neg here] at found
    rw [taskCount_planned_other here]
    exact (accounted r run found).congr fun state terminal => ended_planned fresh r terminal

end Plan

theorem accounted_finishTask {p : TaskFinished} (completes : l.Completes p t) (accounted : Accounted distinctPlans l) :
    Accounted distinctPlans (l.finishTask ext ev p t) := by
  have key := key_of_find completes.found
  have run : t.runId = p.runId := congrArg Prod.fst key
  have closes : ∀ after : Lifecycle, after.tasks = l.tasks.upsert (t.finish ext ev p) →
      Closes l after p.runId (t.stateAfter p.outcome) 1 := by
    intro after upserted
    have here : l.tasks.find t.key = some t := by rw [key, completes.found]
    rw [← run]
    refine Closes.of_upsert here (TaskRow.key_finish ext ev p t) upserted fun s terminal => ?_
    have other : t.state ≠ s := fun same => by simp [← same, completes.active] at terminal
    by_cases same : t.stateAfter p.outcome = s <;> simp [TaskRow.state_finish, other, same]
  have settled : (t.stateAfter p.outcome).isTerminal = true → Accounted distinctPlans (l.completed ext ev p t) :=
    fun ended => accounted.settled (closes _ rfl) ended rfl
  generalize finish : l.finishTask ext ev p t = after
  cases finished_finishTask completes finish with
  | retried isOpen => exact accounted.unchanged (closes _ rfl) (.inr isOpen) rfl
  | succeeded success =>
    have ended : (t.stateAfter p.outcome).isTerminal = true := by rw [success]; rfl
    exact (settled ended).unchanged (closes_satisfied _ _ _ p.runId .succeeded) (.inl rfl) rfl
  | failed fails closed nodup doomed =>
    exact (settled fails.ended).settled (closes_cascaded _ nodup (completes.open_of_doomed fails doomed))
      (isTerminal_cascadeState _) rfl

theorem Step.accounted (step : Step ext e l l') (accounted : Accounted distinctPlans l)
    (distinct : distinctPlans → e.DistinctPlan) : Accounted distinctPlans l' := by
  cases step with
  | triggered p isEvent new => exact accounted_triggered accounted p
  | planned p isEvent fresh => exact accounted_planned accounted fresh fun plans => (distinct plans).nodup isEvent
  | cancelled p isEvent active =>
    refine accounted.modified (runId_cancelledRun _) (closes_cancelRequested l e.toEnvelope p.runId) rfl ?_
    intro run found
    refine (accounted _ run found).cancel _ ?_
    simpa [runIsTerminal, found] using active
  | updated t t' found update =>
    have closes : Closes l { l with tasks := l.tasks.upsert t' } t.runId t.state 0 :=
      .of_upsert found update.rewritten.key rfl fun s terminal => by simp [update.sameEnd.eq_iff terminal]
    exact accounted.unchanged closes (.inl rfl) rfl
  | finished p t isEvent found current active => exact accounted_finishTask ⟨found, current, active⟩ accounted

theorem Steps.accounted (steps : Steps ext e l l') (accounted : Accounted distinctPlans l)
    (distinct : distinctPlans → e.DistinctPlan) : Accounted distinctPlans l' := by
  induction steps with
  | refl => exact accounted
  | tail _ step ih => exact step.accounted ih distinct

end Lifecycle

/-! ## Accounting over whole runs -/

def RunRow.MatchesRecount (run : RunRow) (c : Tally) : Prop :=
  run.tasksTotal = c.total ∧ run.tasksCompleted = c.completed ∧ run.tasksSucceeded = c.succeeded ∧
    run.tasksFailed = c.failed ∧ run.tasksSkipped = c.skipped ∧ run.tasksCancelled = c.cancelled ∧
    run.state = c.runState

theorem RunRow.Accounts.matchesRecount {l : Lifecycle} {runId : String} {run : RunRow}
    (accounts : run.Accounts True (l.taskCount runId) (l.ended runId)) (hasTasks : l.hasTasks runId = true) :
    run.MatchesRecount (l.recount runId) := by
  obtain ⟨total, completed, succeeded, failed, skipped, cancelled⟩ := l.recount_eq runId
  have some : 0 < l.taskCount runId := taskCount_pos_iff.mpr hasTasks
  have sameTotal := accounts.total trivial
  unfold MatchesRecount Tally.runState
  rw [total, completed, succeeded, failed, skipped, cancelled, if_neg (Nat.ne_of_gt some), accounts.state some,
    dueState, accounts.completed, accounts.cancelled, accounts.failed, sameTotal]
  exact ⟨rfl, rfl, accounts.succeeded, rfl, accounts.skipped, rfl, rfl⟩

namespace FoldState

variable {ext : Externals} {s : FoldState}

theorem accounted_foldEvents {distinctPlans : Prop} {events : List OrchestrationEvent}
    (distinct : distinctPlans → ∀ e ∈ events, e.DistinctPlan) (secret : List UInt8) :
    (foldEvents ext { tenantSecret := secret } events).Accounted distinctPlans := by
  refine foldEvents_induction (fun s => s.toLifecycle.Accounted distinctPlans)
    (fun s e accounted plans => (foldEvent_steps ext s e).accounted accounted plans) ?_
    (Throughout.of_forall (fun e member _ plans => distinct plans e member) _)
  intro runId run found
  cases found

theorem Reachable.accounted (reachable : Reachable ext s) : s.toLifecycle.Accounted False := by
  obtain ⟨secret, _, rfl⟩ := reachable
  exact accounted_foldEvents (fun absurd => absurd.elim) secret

/-- In every state that plans with distinct keys lead to, each run with tasks holds the counters and
the state that a recount of its tasks would give it. -/
theorem run_matchesRecount (ext : Externals) (secret : List UInt8) (events : List OrchestrationEvent)
    (distinct : ∀ e ∈ events, e.DistinctPlan) {runId : String} {run : RunRow}
    (found : (foldEvents ext { tenantSecret := secret } events).runs.find runId = some run)
    (hasTasks : (foldEvents ext { tenantSecret := secret } events).hasTasks runId = true) :
    run.MatchesRecount ((foldEvents ext { tenantSecret := secret } events).recount runId) :=
  (accounted_foldEvents (fun _ => distinct) secret runId run found).matchesRecount hasTasks

def lateTrigger : List OrchestrationEvent :=
  [.sample "01" (.planCreated { runId := "run", tasks := [
     { key := "extract", dependsOn := [], maxAttempts := 1 }, { key := "load", dependsOn := ["extract"] },
     { key := "audit", dependsOn := [] }] }),
   .sample "02" (.taskStarted firstAttempt),
   .sample "03" (.runTriggered { runId := "run", planId := "plan" }),
   .sample "04" (.taskFinished (firstFinish .failed))]

theorem run_matchesRecount_lateTrigger :
    ∃ run, (foldEvents .constant {} lateTrigger).runs.find "run" = some run ∧ run.tasksSkipped = 1 ∧
      run.MatchesRecount ((foldEvents .constant {} lateTrigger).recount "run") := by
  have skipped : ((foldEvents .constant {} lateTrigger).runs.find "run").any (fun run => run.tasksSkipped = 1) = true := by
    decide
  obtain ⟨run, found, one⟩ := (Option.any_eq_true _ _).mp skipped
  exact ⟨run, found, of_decide_eq_true one,
    run_matchesRecount .constant [] lateTrigger (by decide) found (by decide)⟩

end FoldState

end Arco.Flow
