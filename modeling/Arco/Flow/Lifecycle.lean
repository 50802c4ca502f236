import Arco.Data.Worklist
import Arco.Flow.Rows

/-! Runs, tasks and dependency edges, and the handlers that change them.

Every handler returns the new state and whether the event was applied. Handlers that
rewrite one task row go through `Lifecycle.updateTask`, with the guards and the new
row given by a function on rows.
-/

namespace Arco.Flow

open Keyed

/-- The tasks that each task of each run is related to. -/
abbrev TaskLists : Type := Map (String × String) (List String)

/-- The tables of the fold state that follow the life of a run, with the two dependency maps that
are kept in memory only. -/
structure Lifecycle where
  runs : Table RunRow.runId := Table.empty
  tasks : Table TaskRow.key := Table.empty
  depSatisfaction : Table DepSatisfactionRow.key := Table.empty
  taskDependencies : TaskLists := Table.empty
  taskDependents : TaskLists := Table.empty

namespace TaskRow

def IsCurrentAttempt (t : TaskRow) (p : AttemptRef) : Prop :=
  t.attemptId = some p.attemptId ∧ t.attempt = p.attempt

instance (t : TaskRow) (p : AttemptRef) : Decidable (t.IsCurrentAttempt p) :=
  inferInstanceAs (Decidable (_ ∧ _))

/-- A start of the current attempt must carry its attempt id, if it has one; a start of a later
attempt overrides the current one. -/
def AcceptsStart (t : TaskRow) (p : AttemptRef) : Prop :=
  t.state.isTerminal = false ∧ t.attempt ≤ p.attempt ∧
    (p.attempt = t.attempt → t.attemptId = none ∨ t.attemptId = some p.attemptId)

instance (t : TaskRow) (p : AttemptRef) : Decidable (t.AcceptsStart p) :=
  inferInstanceAs (Decidable (_ ∧ _))

def start (ev : Envelope) (p : AttemptRef) (t : TaskRow) : Option TaskRow :=
  if t.AcceptsStart p then
    some { t with
      state := .running
      attempt := p.attempt
      attemptId := some p.attemptId
      startedAt := some ev.timestamp
      rowVersion := ev.eventId }
  else none

def heartbeat (ev : Envelope) (p : TaskHeartbeat) (t : TaskRow) : Option TaskRow :=
  if t.state.isTerminal = false ∧ t.IsCurrentAttempt p.toAttemptRef then
    some { t with lastHeartbeatAt := some (p.heartbeatAt.getD ev.timestamp), rowVersion := ev.eventId }
  else none

def changeOutputVisibility (ev : Envelope) (p : AttemptRef) (u : OutputVisibilityUpdate) (t : TaskRow) :
    Option TaskRow :=
  if ¬ t.IsCurrentAttempt p ∨ t.state ≠ .succeeded then none
  -- a published or failed output keeps its visibility
  else if (t.outputVisibilityState = some .visible ∨ t.outputVisibilityState = some .failed) ∧
      t.outputVisibilityState ≠ some u.visibilityState then none
  else
    let t := { t with outputVisibilityState := some u.visibilityState, rowVersion := ev.eventId }
    some <| match u.visibilityState with
      | .pending => { t with publishedAt := none, publishError := none }
      | .visible => { t with publishedAt := some (u.publishedAt.getD ev.timestamp), publishError := none }
      | .failed => { t with publishedAt := none, publishError := u.publishError }

/-- `attemptId` is the one of the outbox row when that row exists. -/
def dispatch (ev : Envelope) (attempt : Nat) (attemptId : String) (t : TaskRow) : Option TaskRow :=
  if (t.state = .ready ∨ t.state = .retryWait ∨ t.state = .dispatched) ∧ t.attempt ≤ attempt ∧
      (t.state ≠ .dispatched ∨ t.attempt ≠ attempt ∨ t.attemptId ≠ some attemptId) then
    some { t with
      state := .dispatched
      attempt := attempt
      attemptId := some attemptId
      retryNotBefore := none
      rowVersion := ev.eventId }
  else none

def setRetryNotBefore (ev : Envelope) (attempt : Nat) (fireAt : Timestamp) (t : TaskRow) : Option TaskRow :=
  if t.state = .retryWait ∧ t.attempt = attempt then
    some { t with retryNotBefore := some fireAt, rowVersion := ev.eventId }
  else none

/-- An attempt is consumed once its task has started it or moved past it. -/
def Consumed (t : TaskRow) (attempt : Nat) : Prop :=
  attempt < t.attempt ∨
    (t.attempt = attempt ∧ (t.state = .running ∨ t.state = .retryWait ∨ t.state.isTerminal = true))

instance (t : TaskRow) (attempt : Nat) : Decidable (t.Consumed attempt) :=
  inferInstanceAs (Decidable (_ ∨ _))

end TaskRow

structure ExecutionMetadata where
  materializationId : Option String
  deltaTable : Option String
  deltaVersion : Option Int
  deltaPartition : Option String

def extractExecutionMetadata (materializationId : Option String) (output : Option TaskOutput)
    (partitionKey : Option String) : ExecutionMetadata where
  materializationId := materializationId.or (output.bind (·.materializationId))
  deltaTable := output.bind (·.deltaTable)
  deltaVersion := output.bind (·.deltaVersion)
  deltaPartition := (output.bind (·.deltaPartition)).or partitionKey

def TaskFinished.metadata (p : TaskFinished) : ExecutionMetadata :=
  extractExecutionMetadata p.materializationId p.output p.partitionKey

def TaskFinished.effectivePartitionKey (p : TaskFinished) : Option String :=
  p.partitionKey.or p.metadata.deltaPartition

def TaskFinished.lineageRef (ext : Externals) (p : TaskFinished) : String :=
  ext.lineageJson p.runId p.taskKey p.attempt p.metadata.materializationId p.metadata.deltaTable
    p.metadata.deltaVersion p.metadata.deltaPartition

namespace TaskRow

/-- A failed attempt waits for its retry while attempts are left. -/
def stateAfter (t : TaskRow) : TaskOutcome → TaskState
  | .succeeded => .succeeded
  | .failed => if t.attempt < t.maxAttempts then .retryWait else .failed
  | .skipped => .skipped
  | .cancelled => .cancelled

def finish (ext : Externals) (ev : Envelope) (p : TaskFinished) (t : TaskRow) : TaskRow :=
  let newState := t.stateAfter p.outcome
  let t := { t with
    state := newState
    rowVersion := ev.eventId
    assetKey := t.assetKey.or p.assetKey
    partitionKey := t.partitionKey.or p.effectivePartitionKey
    completedAt := if newState.isTerminal then some ev.timestamp else t.completedAt }
  if p.outcome = .succeeded then
    { t with
      errorMessage := none
      retryNotBefore := none
      materializationId := p.metadata.materializationId
      publishedAt := if t.outputVisibilityState.isNone then none else t.publishedAt
      publishError := if t.outputVisibilityState.isNone then none else t.publishError
      deltaTable := p.metadata.deltaTable
      deltaVersion := p.metadata.deltaVersion
      deltaPartition := p.metadata.deltaPartition
      executionLineageRef := some (p.lineageRef ext) }
  else
    { t with
      errorMessage := p.errorMessage
      retryNotBefore := if newState = .retryWait then t.retryNotBefore else none
      outputVisibilityState := none
      publishedAt := none
      publishError := none }

end TaskRow

namespace RunRow

def finalState (tasksCancelled tasksFailed : Nat) : RunState :=
  if 0 < tasksCancelled then .cancelled else if 0 < tasksFailed then .failed else .succeeded

def count (run : RunRow) (state : TaskState) : RunRow :=
  { run with
    tasksCompleted := run.tasksCompleted + 1
    tasksSucceeded := run.tasksSucceeded + if state = .succeeded then 1 else 0
    tasksFailed := run.tasksFailed + if state = .failed then 1 else 0
    tasksSkipped := run.tasksSkipped + if state = .skipped then 1 else 0
    tasksCancelled := run.tasksCancelled + if state = .cancelled then 1 else 0 }

/-- Count a task that became terminal in `state`, and close the run when it was the last one. -/
def settle (ev : Envelope) (state : TaskState) (run : RunRow) : RunRow :=
  let run := { run.count state with rowVersion := ev.eventId }
  if run.tasksCompleted = run.tasksTotal then
    { run with state := finalState run.tasksCancelled run.tasksFailed, completedAt := some ev.timestamp }
  else run

def plan (ev : Envelope) (total : Nat) (run : RunRow) : RunRow :=
  { run with tasksTotal := total, state := .running, rowVersion := ev.eventId }

def requestCancel (ev : Envelope) (run : RunRow) : RunRow :=
  { run with cancelRequested := true, rowVersion := ev.eventId }

def countCancelled (ev : Envelope) (run : RunRow) : RunRow :=
  { run with
    tasksCancelled := run.tasksCancelled + 1
    tasksCompleted := run.tasksCompleted + 1
    rowVersion := ev.eventId }

def closeCancelled (ev : Envelope) (run : RunRow) : RunRow :=
  if run.tasksCompleted = run.tasksTotal then
    { run with state := .cancelled, completedAt := some ev.timestamp, rowVersion := ev.eventId }
  else run

end RunRow

namespace Lifecycle

def modifyRun (l : Lifecycle) (runId : String) (f : RunRow → RunRow) : Lifecycle :=
  { l with runs := l.runs.modify runId f }

/-- Rewrite one task row with `f`, which returns `none` to reject the event. -/
def updateTask (l : Lifecycle) (key : String × String) (f : TaskRow → Option TaskRow) : Lifecycle × Bool :=
  match (l.tasks.find key).bind f with
  | some t => ({ l with tasks := l.tasks.upsert t }, true)
  | none => (l, false)

def getDependents (l : Lifecycle) (runId taskKey : String) : List String :=
  (l.taskDependents.get (runId, taskKey)).getD []

def readyTasks (l : Lifecycle) : List TaskRow := l.tasks.rows.filter fun t => t.state = .ready

def edgeSatisfied (l : Lifecycle) (runId upstream downstream : String) : Bool :=
  ((l.depSatisfaction.find (runId, upstream, downstream)).map (·.satisfied)).getD false

end Lifecycle

/-- One more dependency of the task is satisfied; the last one makes a blocked task ready. The row
version changes only in that case. -/
def TaskRow.countSatisfied (ev : Envelope) (t : TaskRow) : TaskRow :=
  let t := { t with depsSatisfiedCount := t.depsSatisfiedCount + 1 }
  if t.depsSatisfiedCount = t.depsTotal ∧ t.state = .blocked then
    { t with state := .ready, readyAt := some ev.timestamp, rowVersion := ev.eventId }
  else t

def satisfiedEdge (ev : Envelope) (runId upstream : String) (attempt : Nat) (downstream : String) :
    DepSatisfactionRow where
  runId := runId
  upstreamTaskKey := upstream
  downstreamTaskKey := downstream
  satisfied := true
  resolution := some .success
  satisfiedAt := some ev.timestamp
  satisfyingAttempt := some attempt
  rowVersion := ev.eventId

def resolvedEdge (ev : Envelope) (runId upstream : String) (resolution : DepResolution) (downstream : String) :
    DepSatisfactionRow where
  runId := runId
  upstreamTaskKey := upstream
  downstreamTaskKey := downstream
  satisfied := false
  resolution := some resolution
  satisfiedAt := some ev.timestamp
  satisfyingAttempt := none
  rowVersion := ev.eventId

namespace DepResolution

def cascadeState : DepResolution → TaskState
  | cancelled => .cancelled
  | _ => .skipped

def cascade : DepResolution → DepResolution
  | cancelled => cancelled
  | _ => skipped

end DepResolution

def TaskRow.close (ev : Envelope) (state : TaskState) (t : TaskRow) : TaskRow :=
  { t with state := state, rowVersion := ev.eventId }

namespace Lifecycle

def satisfyEdge (ev : Envelope) (runId upstream : String) (attempt : Nat) (l : Lifecycle) (downstream : String) :
    Lifecycle :=
  let wasSatisfied := l.edgeSatisfied runId upstream downstream
  let l := { l with depSatisfaction := l.depSatisfaction.upsert (satisfiedEdge ev runId upstream attempt downstream) }
  if wasSatisfied then l
  else { l with tasks := l.tasks.modify (runId, downstream) (TaskRow.countSatisfied ev) }

def satisfyDownstreamEdges (l : Lifecycle) (ev : Envelope) (runId upstream : String) (attempt : Nat) : Lifecycle :=
  (l.getDependents runId upstream).foldl (satisfyEdge ev runId upstream attempt) l

/-- Resolve one edge of an upstream task that did not succeed. A downstream task that is still open
is closed, counted and queued. -/
def failEdge (ev : Envelope) (runId upstream : String) (resolution : DepResolution)
    (acc : Lifecycle × List (String × DepResolution)) (downstream : String) :
    Lifecycle × List (String × DepResolution) :=
  let l := { acc.1 with
    depSatisfaction := acc.1.depSatisfaction.upsert (resolvedEdge ev runId upstream resolution downstream) }
  match l.tasks.find (runId, downstream) with
  | some t =>
    if t.state.isTerminal then (l, acc.2)
    else
      let l := { l with tasks := l.tasks.modify (runId, downstream) (TaskRow.close ev resolution.cascadeState) }
      (l.modifyRun runId (RunRow.settle ev resolution.cascadeState), acc.2 ++ [(downstream, resolution.cascade)])
  | none => (l, acc.2)

def failEdges (ev : Envelope) (runId : String) (l : Lifecycle) (item : String × DepResolution) :
    Lifecycle × List (String × DepResolution) :=
  (l.getDependents runId item.1).foldl (failEdge ev runId item.1 item.2) (l, [])

/-- Every queued task has just become terminal, so at most one visit per task follows the first. -/
def propagateFailure (l : Lifecycle) (ev : Envelope) (runId failedTaskKey : String) (resolution : DepResolution) :
    Lifecycle :=
  Worklist.drain (failEdges ev runId) (l.tasks.rows.length + 1) [(failedTaskKey, resolution)] l

structure Tally where
  total : Nat := 0
  completed : Nat := 0
  succeeded : Nat := 0
  failed : Nat := 0
  skipped : Nat := 0
  cancelled : Nat := 0
  completedAt : Option Timestamp := none

def Tally.add (c : Tally) (t : TaskRow) : Tally :=
  let c := { c with total := c.total + 1 }
  if t.state.isTerminal then
    { c with
      completed := c.completed + 1
      succeeded := c.succeeded + if t.state = .succeeded then 1 else 0
      failed := c.failed + if t.state = .failed then 1 else 0
      skipped := c.skipped + if t.state = .skipped then 1 else 0
      cancelled := c.cancelled + if t.state = .cancelled then 1 else 0
      completedAt := match c.completedAt, t.completedAt with
        | some current, some candidate => some (max current candidate)
        | none, some candidate => some candidate
        | current, none => current }
  else c

def Tally.runState (c : Tally) : RunState :=
  if c.total = 0 then .triggered
  else if c.completed = c.total then RunRow.finalState c.cancelled c.failed
  else .running

def recount (l : Lifecycle) (runId : String) : Tally :=
  (l.tasks.rows.filter fun t => t.runId = runId).foldl Tally.add {}

def triggeredRow (ev : Envelope) (p : RunTriggered) (c : Tally) : RunRow where
  runId := p.runId
  planId := p.planId
  state := c.runState
  runKey := p.runKey
  labels := p.labels
  codeVersion := p.codeVersion
  cancelRequested := false
  tasksTotal := c.total
  tasksCompleted := c.completed
  tasksSucceeded := c.succeeded
  tasksFailed := c.failed
  tasksSkipped := c.skipped
  tasksCancelled := c.cancelled
  triggeredAt := ev.timestamp
  completedAt := if c.runState.isTerminal then c.completedAt else none
  rowVersion := ev.eventId

def foldRunTriggered (l : Lifecycle) (ev : Envelope) (p : RunTriggered) : Lifecycle × Bool :=
  if l.runs.contains p.runId then (l, false)
  else ({ l with runs := l.runs.upsert (triggeredRow ev p (l.recount p.runId)) }, true)

end Lifecycle

namespace TaskDef

def row (ev : Envelope) (runId : String) (d : TaskDef) : TaskRow where
  runId := runId
  taskKey := d.key
  state := if d.dependsOn.length = 0 then .ready else .blocked
  attempt := 0
  attemptId := none
  startedAt := none
  completedAt := none
  errorMessage := none
  depsTotal := d.dependsOn.length
  depsSatisfiedCount := 0
  maxAttempts := d.maxAttempts
  heartbeatTimeoutSec := d.heartbeatTimeoutSec
  lastHeartbeatAt := none
  readyAt := if d.dependsOn.length = 0 then some ev.timestamp else none
  assetKey := d.assetKey
  partitionKey := d.partitionKey
  requiresVisibleOutput := d.requiresVisibleOutput
  materializationId := none
  outputVisibilityState := none
  publishedAt := none
  publishError := none
  retryNotBefore := none
  deltaTable := none
  deltaVersion := none
  deltaPartition := none
  executionLineageRef := none
  rowVersion := ev.eventId

def edge (ev : Envelope) (runId : String) (d : TaskDef) (upstream : String) : DepSatisfactionRow where
  runId := runId
  upstreamTaskKey := upstream
  downstreamTaskKey := d.key
  satisfied := false
  resolution := none
  satisfiedAt := none
  satisfyingAttempt := none
  rowVersion := ev.eventId

end TaskDef

namespace Lifecycle

def addDependent (runId downstream : String) (m : TaskLists) (upstream : String) :
    TaskLists :=
  m.insert (runId, upstream) ((m.get (runId, upstream)).getD [] ++ [downstream])

def addToGraph (runId : String) (l : Lifecycle) (d : TaskDef) : Lifecycle :=
  { l with
    taskDependencies := l.taskDependencies.insert (runId, d.key) d.dependsOn
    taskDependents := d.dependsOn.foldl (addDependent runId d.key) l.taskDependents }

def addTask (ev : Envelope) (runId : String) (l : Lifecycle) (d : TaskDef) : Lifecycle :=
  { l with
    tasks := l.tasks.upsert (d.row ev runId)
    depSatisfaction := l.depSatisfaction.upsertAll (d.dependsOn.map (d.edge ev runId)) }

def hasTasks (l : Lifecycle) (runId : String) : Bool := l.tasks.rows.any fun t => t.runId = runId

def foldPlanCreated (l : Lifecycle) (ev : Envelope) (p : PlanCreated) : Lifecycle × Bool :=
  if l.hasTasks p.runId then (l, false)
  else
    let changed := l.runs.contains p.runId || !p.tasks.isEmpty
    let l := l.modifyRun p.runId (RunRow.plan ev p.tasks.length)
    let l := p.tasks.foldl (addToGraph p.runId) l
    (p.tasks.foldl (addTask ev p.runId) l, changed)

/-- Running tasks are left to their workers. -/
def cancellable (runId : String) (t : TaskRow) : Bool :=
  t.runId = runId ∧ t.state.isTerminal = false ∧ t.state ≠ .running

def cancelTask (ev : Envelope) (runId : String) (l : Lifecycle) (key : String × String) : Lifecycle :=
  let l := { l with tasks := l.tasks.modify key (TaskRow.close ev .cancelled) }
  l.modifyRun runId (RunRow.countCancelled ev)

def runIsTerminal (l : Lifecycle) (runId : String) : Bool :=
  ((l.runs.find runId).map (·.state.isTerminal)).getD false

def foldRunCancelRequested (l : Lifecycle) (ev : Envelope) (p : RunCancelRequested) : Lifecycle × Bool :=
  if l.runIsTerminal p.runId then (l, false)
  else
    let tasksToCancel := (l.tasks.rows.filter (cancellable p.runId)).map TaskRow.key
    let changed := l.runs.contains p.runId || !tasksToCancel.isEmpty
    let l := l.modifyRun p.runId (RunRow.requestCancel ev)
    let l := tasksToCancel.foldl (cancelTask ev p.runId) l
    (l.modifyRun p.runId (RunRow.closeCancelled ev), changed)

/-- What a completed attempt does to the other tasks of its run. A failed attempt that will be
retried does nothing. -/
def resolveDownstream (l : Lifecycle) (ev : Envelope) (p : TaskFinished) (newState : TaskState) : Lifecycle :=
  match p.outcome with
  | .succeeded => l.satisfyDownstreamEdges ev p.runId p.taskKey p.attempt
  | .failed => if newState = .failed then l.propagateFailure ev p.runId p.taskKey .failed else l
  | .skipped => l.propagateFailure ev p.runId p.taskKey .skipped
  | .cancelled => l.propagateFailure ev p.runId p.taskKey .cancelled

def finishTask (ext : Externals) (l : Lifecycle) (ev : Envelope) (p : TaskFinished) (t : TaskRow) : Lifecycle :=
  let newState := t.stateAfter p.outcome
  let l := { l with tasks := l.tasks.upsert (t.finish ext ev p) }
  let l := if newState.isTerminal then l.modifyRun p.runId (RunRow.settle ev newState) else l
  l.resolveDownstream ev p newState

/-- The completion of an attempt, without the partition status. -/
def foldTaskFinished (ext : Externals) (l : Lifecycle) (ev : Envelope) (p : TaskFinished) : Lifecycle × Bool :=
  match l.tasks.find (p.runId, p.taskKey) with
  | none => (l, false)
  | some t =>
    -- a repeated completion of a terminal attempt and a completion of another attempt are both dropped
    if t.state.isTerminal = true ∧ t.IsCurrentAttempt p.toAttemptRef then (l, false)
    else if ¬ t.IsCurrentAttempt p.toAttemptRef then (l, false)
    else (l.finishTask ext ev p t, true)

end Lifecycle

end Arco.Flow
