import Arco.Flow.Fold

/-! The controllers that ask for dispatches: ready dispatch, fired timers and the anti-entropy sweep.

They read a fold state and return the payloads of the events that they append to the
ledger. The time of the last compaction and the current time are parameters, as are
task tokens, envelope encoding and the task queue of the sweep.
-/

namespace Arco.Flow

open Keyed

def seconds (n : Int) : Int := n * 1000000000

def minutes (n : Int) : Int := seconds (60 * n)

def numSeconds (duration : Int) : Int := duration.tdiv 1000000000

def TaskState.debugName : TaskState → String
  | planned => "Planned"
  | blocked => "Blocked"
  | ready => "Ready"
  | dispatched => "Dispatched"
  | running => "Running"
  | retryWait => "RetryWait"
  | skipped => "Skipped"
  | cancelled => "Cancelled"
  | failed => "Failed"
  | succeeded => "Succeeded"

def DispatchStatus.debugName : DispatchStatus → String
  | pending => "Pending"
  | created => "Created"

/-- The first twelve bytes of the hash, in hexadecimal. -/
def deterministicAttemptId (ext : Externals) (dispatchId : String) : String :=
  "att_" ++ String.ofList ((ext.sha256Hex ("attempt:" ++ dispatchId)).toList.take 24)

/-- The dispatch of an attempt with the id that every controller gives it. -/
def dispatchRequest (ext : Externals) (runId taskKey : String) (attempt : Nat) (workerQueue : String) :
    DispatchRequested where
  runId := runId
  taskKey := taskKey
  attempt := attempt
  attemptId := deterministicAttemptId ext (dispatchIdOf runId taskKey attempt)
  workerQueue := workerQueue
  dispatchId := dispatchIdOf runId taskKey attempt

inductive ReadyDispatchAction where
  | emitDispatchRequested (p : DispatchRequested)
  | skip (runId taskKey reason : String)

def ReadyDispatchAction.intoEventData : ReadyDispatchAction → Option OrchestrationEventData
  | emitDispatchRequested p => some (.dispatchRequested p)
  | skip _ _ _ => none

structure ReadyDispatchController where
  maxCompactionLag : Int := minutes 5
  workerQueue : String := "default-queue"

namespace ReadyDispatchController

def reconcileTask (ext : Externals) (c : ReadyDispatchController) (s : FoldState) (t : TaskRow) :
    Option ReadyDispatchAction :=
  if t.state ≠ .ready then none
  else if (s.runs.find t.runId).any (·.cancelRequested) then
    some (.skip t.runId t.taskKey "run_cancel_requested")
  else
    -- a ready task is at attempt 0 until its first dispatch
    let attempt := max t.attempt 1
    match s.dispatchOutbox.find (dispatchIdOf t.runId t.taskKey attempt) with
    | some existing =>
      let status := existing.status.debugName
      some (.skip t.runId t.taskKey s!"existing_dispatch:{status}")
    | none => some (.emitDispatchRequested (dispatchRequest ext t.runId t.taskKey attempt c.workerQueue))

def reconcile (ext : Externals) (c : ReadyDispatchController) (lastProcessedAt now : Timestamp) (s : FoldState) :
    List ReadyDispatchAction :=
  if now - lastProcessedAt ≤ c.maxCompactionLag then s.tasks.rows.filterMap (c.reconcileTask ext s)
  else s.readyTasks.map fun t => .skip t.runId t.taskKey "compaction_lag"

end ReadyDispatchController

inductive HeartbeatAction where
  | reschedule (delay : Int) (reason : String)
  | failTask (attempt : AttemptRef) (reason : String)
  | noOp (reason : String)

structure HeartbeatHandler where
  maxCompactionLag : Int := seconds 30
  gracePeriod : Int := seconds 30

def lagReason (lag maxLag : Int) : String :=
  let lagSecs := numSeconds lag
  let maxSecs := numSeconds maxLag
  s!"compaction_lag_guard: {lagSecs}s lag (max {maxSecs}s)"

def HeartbeatHandler.check (h : HeartbeatHandler) (lastProcessedAt : Timestamp) (t : TaskRow) (now : Timestamp) :
    HeartbeatAction :=
  let stateName := t.state.debugName
  if t.state.isTerminal then .noOp s!"task is terminal: {stateName}"
  else if t.state ≠ .running then .noOp s!"task is not running: {stateName}"
  else if h.maxCompactionLag < now - lastProcessedAt then
    .reschedule (seconds 10) (lagReason (now - lastProcessedAt) h.maxCompactionLag)
  else match t.lastHeartbeatAt with
    | none => .reschedule (seconds 30) "no_heartbeat_yet"
    | some lastHeartbeat =>
      let heartbeatAge := now - lastHeartbeat
      let timeout := seconds t.heartbeatTimeoutSec
      if timeout + h.gracePeriod < heartbeatAge then
        match t.attemptId with
        | none => .reschedule (seconds 10) "missing_attempt_id"
        | some attemptId =>
          let ageSecs := numSeconds heartbeatAge
          let timeoutSecs := numSeconds timeout
          let graceSecs := numSeconds h.gracePeriod
          .failTask { runId := t.runId, taskKey := t.taskKey, attempt := t.attempt, attemptId := attemptId }
            s!"heartbeat_timeout: {ageSecs}s since last heartbeat (timeout: {timeoutSecs}s + {graceSecs}s grace)"
      else .reschedule (max (timeout - heartbeatAge + h.gracePeriod) (seconds 10)) "task_healthy"

inductive RetryAction where
  | reschedule (delay : Int) (reason : String)
  | incrementAttempt (attempt : AttemptRef)
  | noOp (reason : String)

structure RetryHandler where
  maxCompactionLag : Int := seconds 30

def RetryHandler.fire (ext : Externals) (h : RetryHandler) (lastProcessedAt : Timestamp) (t : TaskRow)
    (now : Timestamp) : RetryAction :=
  let stateName := t.state.debugName
  let attempt := t.attempt
  let maxAttempts := t.maxAttempts
  if t.state.isTerminal then .noOp s!"task is terminal: {stateName}"
  else if t.state ≠ .retryWait then .noOp s!"task is not in RetryWait: {stateName}"
  else if h.maxCompactionLag < now - lastProcessedAt then
    .reschedule (seconds 10) (lagReason (now - lastProcessedAt) h.maxCompactionLag)
  else if maxAttempts ≤ attempt then .noOp s!"max_attempts_reached: {attempt} >= {maxAttempts}"
  else
    .incrementAttempt {
      runId := t.runId
      taskKey := t.taskKey
      attempt := attempt + 1
      attemptId := deterministicAttemptId ext (dispatchIdOf t.runId t.taskKey (attempt + 1)) }

def rescheduleTimerEvent (timer : TimerRow) (fireAt : Timestamp) (suffix : String) : OrchestrationEventData :=
  let timerId := timer.timerId
  .timerRequested {
    timerId := s!"{timerId}:{suffix}"
    timerType := timer.timerType
    runId := timer.runId
    taskKey := timer.taskKey
    attempt := timer.attempt
    fireAt := fireAt }

def FoldState.timerTask (s : FoldState) (timer : TimerRow) : Option TaskRow := do
  s.tasks.find (← timer.runId, ← timer.taskKey)

/-- The completion that ends an attempt whose heartbeat is overdue. -/
def heartbeatFailure (s : FoldState) (t : TaskRow) (attempt : AttemptRef) (reason : String) : TaskFinished where
  toAttemptRef := attempt
  outcome := .failed
  errorMessage := some reason
  assetKey := t.assetKey
  partitionKey := t.partitionKey
  codeVersion := (s.runs.find attempt.runId).bind (·.codeVersion)

def processFiredTimer (ext : Externals) (s : FoldState) (lastProcessedAt now : Timestamp) (timer : TimerRow) :
    Option OrchestrationEventData :=
  match timer.timerType with
  | .heartbeatCheck =>
    (s.timerTask timer).bind fun t =>
      match HeartbeatHandler.check {} lastProcessedAt t now with
      | .reschedule delay _ => some (rescheduleTimerEvent timer (now + delay) "heartbeat_reschedule")
      | .failTask attempt reason => some (.taskFinished (heartbeatFailure s t attempt reason))
      | .noOp _ => none
  | .retry =>
    (s.timerTask timer).bind fun t =>
      match RetryHandler.fire ext {} lastProcessedAt t now with
      | .reschedule delay _ => some (rescheduleTimerEvent timer (now + delay) "retry_reschedule")
      | .incrementAttempt next => some (.dispatchRequested {
          toAttemptRef := next
          workerQueue := "default-queue"
          dispatchId := dispatchIdOf next.runId next.taskKey next.attempt })
      | .noOp _ => none
  | .cron | .slaCheck => none

def processFiredTimers (ext : Externals) (s : FoldState) (lastProcessedAt now : Timestamp) :
    List OrchestrationEventData :=
  (s.timers.rows.filter fun timer => timer.state = .fired).filterMap (processFiredTimer ext s lastProcessedAt now)

inductive Repair where
  | createDispatchOutbox (runId taskKey : String) (attempt : Nat) (reason : String)
  | redispatchStuckTask (runId taskKey : String) (attempt : Nat) (originalDispatchId reason : String)
  | failStaleRunningTask (attempt : AttemptRef) (reason : String)
  | skippedDueToLag (runId taskKey : String) (compactionLagSecs : Int)

structure AntiEntropySweeper where
  readyTimeout : Int := minutes 5
  dispatchTimeout : Int := minutes 10
  maxCompactionLag : Int := minutes 5

def runningTaskIsStale (t : TaskRow) (now : Timestamp) : Bool :=
  (t.lastHeartbeatAt.or t.startedAt).any fun reference =>
    seconds t.heartbeatTimeoutSec + seconds 30 < now - reference

namespace AntiEntropySweeper

def needsRepair (a : AntiEntropySweeper) (now : Timestamp) (t : TaskRow) : Bool :=
  match t.state with
  | .ready => t.readyAt.any fun readyAt => a.readyTimeout < now - readyAt
  | .dispatched => true
  | .retryWait => t.attempt < t.maxAttempts && t.retryNotBefore.any fun deadline => deadline ≤ now
  | .running => runningTaskIsStale t now
  | _ => false

def dispatchedTasks (outbox : List DispatchOutboxRow) : List (String × String × Nat) :=
  (outbox.filter fun o => o.status = .pending ∨ o.status = .created).map fun o => (o.runId, o.taskKey, o.attempt)

def checkReadyTask (a : AntiEntropySweeper) (outbox : List DispatchOutboxRow) (now : Timestamp) (t : TaskRow) :
    Option Repair :=
  t.readyAt.bind fun readyAt =>
    let nextAttempt := max t.attempt 1
    let waited := numSeconds (now - readyAt)
    if now - readyAt ≤ a.readyTimeout then none
    else if (t.runId, t.taskKey, nextAttempt) ∈ dispatchedTasks outbox then none
    else some (.createDispatchOutbox t.runId t.taskKey nextAttempt s!"stuck_ready_{waited}s")

def checkDispatchedTask (a : AntiEntropySweeper) (outbox : List DispatchOutboxRow) (now : Timestamp) (t : TaskRow) :
    Option Repair :=
  match outbox.find? fun o => o.runId = t.runId ∧ o.taskKey = t.taskKey ∧ o.attempt = t.attempt with
  | none => some (.createDispatchOutbox t.runId t.taskKey t.attempt "missing_dispatch_outbox")
  | some dispatch =>
    let waited := numSeconds (now - dispatch.createdAt)
    if now - dispatch.createdAt ≤ a.dispatchTimeout then none
    else some (.redispatchStuckTask t.runId t.taskKey t.attempt dispatch.dispatchId s!"stuck_dispatched_{waited}s")

def checkRetryWaitTask (outbox : List DispatchOutboxRow) (now : Timestamp) (t : TaskRow) : Option Repair :=
  if t.maxAttempts ≤ t.attempt then none
  else if t.retryNotBefore.all fun deadline => now < deadline then none
  else if (t.runId, t.taskKey, t.attempt + 1) ∈ dispatchedTasks outbox then none
  else some (.createDispatchOutbox t.runId t.taskKey (t.attempt + 1) "retry_wait_bootstrap")

def checkRunningTask (now : Timestamp) (t : TaskRow) : Option Repair :=
  if runningTaskIsStale t now then
    t.attemptId.map fun attemptId =>
      .failStaleRunningTask { runId := t.runId, taskKey := t.taskKey, attempt := t.attempt, attemptId := attemptId }
        "heartbeat_timeout_anti_entropy"
  else none

def checkTask (a : AntiEntropySweeper) (outbox : List DispatchOutboxRow) (now : Timestamp) (t : TaskRow) :
    Option Repair :=
  match t.state with
  | .ready => a.checkReadyTask outbox now t
  | .dispatched => a.checkDispatchedTask outbox now t
  | .retryWait => checkRetryWaitTask outbox now t
  | .running => checkRunningTask now t
  | _ => none

def scan (a : AntiEntropySweeper) (lastProcessedAt : Timestamp) (tasks : List TaskRow)
    (outbox : List DispatchOutboxRow) (now : Timestamp) : List Repair :=
  let compactionLag := now - lastProcessedAt
  if a.maxCompactionLag < compactionLag then
    (tasks.filter (a.needsRepair now)).map fun t => .skippedDueToLag t.runId t.taskKey (numSeconds compactionLag)
  else tasks.filterMap (a.checkTask outbox now)

end AntiEntropySweeper

structure Redispatch where
  runId : String
  taskKey : String
  attempt : Nat
  attemptId : String
  dispatchId : String
  repairEpoch : String

inductive EnqueueResult where
  | enqueued
  | deduplicated
  | queueFull
  | failed (message : String)

/-- What the sweep uses of its service: signed task tokens, the encoded envelope, fresh repair ids,
queue task ids and the queue itself. -/
structure SweepService where
  mintToken : Redispatch → Except String String
  envelopeJson : Redispatch → (token : String) → Except String String
  repairAttemptId : Redispatch → String
  cloudTaskId : (kind internalId : String) → String
  enqueueHttp : (cloudId body : String) → EnqueueResult

structure RunError where
  kind : String
  id : String
  message : String

structure Sweep where
  events : List OrchestrationEventData := []
  redispatched : List Redispatch := []
  repairsCreated : Nat := 0
  redispatchAttempted : Nat := 0
  redispatchEnqueued : Nat := 0
  redispatchDeduplicated : Nat := 0
  redispatchFailed : Nat := 0
  skippedDueToLag : Nat := 0
  errors : List RunError := []
  /-- The error that stopped the sweep; its events are not appended then. -/
  aborted : Option String := none

namespace Sweep

def redispatchOf (ext : Externals) (outbox : Table DispatchOutboxRow.dispatchId) (runId taskKey : String) (attempt : Nat)
    (dispatchId : String) : Redispatch where
  runId := runId
  taskKey := taskKey
  attempt := attempt
  attemptId := (((outbox.find dispatchId).map (·.attemptId)).filter (· ≠ "")).getD (deterministicAttemptId ext dispatchId)
  dispatchId := dispatchId
  repairEpoch := ((outbox.find dispatchId).map (·.rowVersion)).getD "missing_dispatch_outbox"

def enqueuedEvent (r : Redispatch) (cloudId : String) : OrchestrationEventData :=
  .dispatchEnqueued {
    dispatchId := r.dispatchId
    runId := some r.runId
    taskKey := some r.taskKey
    attempt := some r.attempt
    cloudTaskId := cloudId }

def enqueue (service : SweepService) (sweep : Sweep) (r : Redispatch) (body : String) : Sweep :=
  let dispatchId := r.dispatchId
  let repairEpoch := r.repairEpoch
  let repairAttemptId := service.repairAttemptId r
  let cloudId := service.cloudTaskId "d" s!"{dispatchId}:repair:{repairEpoch}:{repairAttemptId}"
  let sweep := { sweep with redispatched := sweep.redispatched ++ [r] }
  match service.enqueueHttp cloudId body with
  | .enqueued =>
    { sweep with
      redispatchEnqueued := sweep.redispatchEnqueued + 1
      events := sweep.events ++ [enqueuedEvent r cloudId] }
  | .deduplicated =>
    { sweep with
      redispatchDeduplicated := sweep.redispatchDeduplicated + 1
      events := sweep.events ++ [enqueuedEvent r cloudId] }
  | .queueFull =>
    { sweep with
      redispatchFailed := sweep.redispatchFailed + 1
      errors := sweep.errors ++ [⟨"redispatch_queue_full", dispatchId, "queue full"⟩] }
  | .failed message =>
    { sweep with
      redispatchFailed := sweep.redispatchFailed + 1
      errors := sweep.errors ++ [⟨"redispatch_enqueue_failed", dispatchId, message⟩] }

def redispatch (service : SweepService) (sweep : Sweep) (r : Redispatch) : Sweep :=
  let sweep := { sweep with redispatchAttempted := sweep.redispatchAttempted + 1 }
  match service.mintToken r with
  | .error e => { sweep with aborted := some s!"task token minting failed: {e}" }
  | .ok token =>
    match service.envelopeJson r token with
    | .error e => { sweep with aborted := some s!"dispatch envelope error: {e}" }
    | .ok body => sweep.enqueue service r body

def repair (ext : Externals) (service : SweepService) (outbox : Table DispatchOutboxRow.dispatchId) (sweep : Sweep) :
    Repair → Sweep
  | .createDispatchOutbox runId taskKey attempt _ =>
    { sweep with
      events := sweep.events ++ [.dispatchRequested (dispatchRequest ext runId taskKey attempt "default-queue")]
      repairsCreated := sweep.repairsCreated + 1 }
  | .redispatchStuckTask runId taskKey attempt originalDispatchId _ =>
    sweep.redispatch service (redispatchOf ext outbox runId taskKey attempt originalDispatchId)
  | .failStaleRunningTask attempt reason =>
    { sweep with
      events := sweep.events ++ [.taskFinished { toAttemptRef := attempt, outcome := .failed, errorMessage := some reason }]
      repairsCreated := sweep.repairsCreated + 1 }
  | .skippedDueToLag _ _ _ => { sweep with skippedDueToLag := sweep.skippedDueToLag + 1 }

/-- The loop of the sweep service. A token or an envelope that cannot be made ends it. -/
def act (ext : Externals) (service : SweepService) (outbox : Table DispatchOutboxRow.dispatchId) :
    Sweep → List Repair → Sweep
  | sweep, [] => sweep
  | sweep, repair :: rest =>
    if sweep.aborted.isSome then sweep else act ext service outbox (sweep.repair ext service outbox repair) rest

def appended (sweep : Sweep) : List OrchestrationEventData := if sweep.aborted.isSome then [] else sweep.events

end Sweep

def FoldState.sweep (ext : Externals) (service : SweepService) (sweeper : AntiEntropySweeper)
    (lastProcessedAt now : Timestamp) (s : FoldState) : Sweep :=
  Sweep.act ext service s.dispatchOutbox {} (sweeper.scan lastProcessedAt s.tasks.rows s.dispatchOutbox.rows now)

/-! ## The backoff of retries.

A retry waits for the timer of the attempt that failed. Fired timers stay in the state, and the retry
handler looks only at the task: a timer of an earlier attempt starts the next attempt at once.
-/

namespace FoldState

def RetryFired (s : FoldState) (runId taskKey : String) (attempt : Nat) : Prop :=
  ∃ timer ∈ s.timers.rows, timer.state = .fired ∧ timer.timerType = .retry ∧ timer.runId = some runId ∧
    timer.taskKey = some taskKey ∧ timer.attempt = some attempt

/-- Every dispatch of an attempt that the fired timers request follows the retry timer of the attempt before. -/
def RespectsBackoff (ext : Externals) (s : FoldState) (lastProcessedAt now : Timestamp) : Prop :=
  ∀ p, .dispatchRequested p ∈ processFiredTimers ext s lastProcessedAt now →
    ∃ n, p.attempt = n + 1 ∧ s.RetryFired p.runId p.taskKey n

def Retries (t : TaskRow) (lastProcessedAt now : Timestamp) : Prop :=
  t.state = .retryWait ∧ now - lastProcessedAt ≤ seconds 30 ∧ t.attempt < t.maxAttempts

variable {ext : Externals} {s : FoldState} {lastProcessedAt now : Timestamp} {t : TaskRow}

theorem fire_eq_incrementAttempt {next : AttemptRef} :
    RetryHandler.fire ext {} lastProcessedAt t now = .incrementAttempt next ↔
      Retries t lastProcessedAt now ∧ next = {
        runId := t.runId
        taskKey := t.taskKey
        attempt := t.attempt + 1
        attemptId := deterministicAttemptId ext (dispatchIdOf t.runId t.taskKey (t.attempt + 1)) } := by
  dsimp only [RetryHandler.fire]
  by_cases waits : t.state = .retryWait
  · have active : t.state.isTerminal = false := by rw [waits]; rfl
    rw [if_neg (by simp [active]), if_neg (by simp [waits])]
    by_cases lag : seconds 30 < now - lastProcessedAt
    · rw [if_pos lag]
      constructor
      · rintro ⟨⟩
      · rintro ⟨⟨_, fresh, _⟩, _⟩
        exact absurd lag (not_lt.mpr fresh)
    · rw [if_neg lag]
      by_cases left : t.maxAttempts ≤ t.attempt
      · rw [if_pos left]
        constructor
        · rintro ⟨⟩
        · rintro ⟨⟨_, _, _⟩, _⟩
          omega
      · rw [if_neg left, RetryAction.incrementAttempt.injEq, eq_comm]
        exact (and_iff_right ⟨waits, not_lt.mp lag, not_le.mp left⟩).symm
  · rw [if_pos (show t.state ≠ .retryWait from waits)]
    constructor
    · intro same
      split at same <;> cases same
    · exact fun ready => absurd ready.1.1 waits

/-- Only a retry timer leads to a dispatch, whatever its attempt is. -/
theorem dispatchRequested_mem_processFiredTimers {p : DispatchRequested} :
    .dispatchRequested p ∈ processFiredTimers ext s lastProcessedAt now ↔
      ∃ timer ∈ s.timers.rows, timer.state = .fired ∧ timer.timerType = .retry ∧
        ∃ t, s.timerTask timer = some t ∧ Retries t lastProcessedAt now ∧
          p = dispatchRequest ext t.runId t.taskKey (t.attempt + 1) "default-queue" := by
  simp only [processFiredTimers, List.mem_filterMap, List.mem_filter, decide_eq_true_eq]
  constructor
  · rintro ⟨timer, ⟨member, fired⟩, emits⟩
    unfold processFiredTimer at emits
    split at emits
    · obtain ⟨t, _, emits⟩ := Option.bind_eq_some_iff.mp emits
      split at emits <;> cases emits
    · rename_i isRetry
      obtain ⟨t, found, emits⟩ := Option.bind_eq_some_iff.mp emits
      split at emits
      · cases emits
      · rename_i next fires
        obtain ⟨ready, rfl⟩ := fire_eq_incrementAttempt.mp fires
        cases emits
        exact ⟨timer, member, fired, isRetry, t, found, ready, rfl⟩
      · cases emits
    · cases emits
    · cases emits
  · rintro ⟨timer, member, fired, isRetry, t, found, ready, rfl⟩
    refine ⟨timer, ⟨member, fired⟩, ?_⟩
    rw [processFiredTimer, isRetry]
    dsimp only
    rw [found, Option.bind_some, fire_eq_incrementAttempt.mpr ⟨ready, rfl⟩]
    rfl

/-- Exactly when a fired retry timer of the current attempt stands beside every fired retry timer of a task
that can be retried now. -/
theorem respectsBackoff_iff (ext : Externals) (s : FoldState) (lastProcessedAt now : Timestamp) :
    s.RespectsBackoff ext lastProcessedAt now ↔
      ∀ timer ∈ s.timers.rows, timer.state = .fired → timer.timerType = .retry →
        ∀ t, s.timerTask timer = some t → Retries t lastProcessedAt now →
          s.RetryFired t.runId t.taskKey t.attempt := by
  constructor
  · intro respects timer member fired isRetry t found ready
    obtain ⟨n, next, retryFired⟩ := respects _
      (dispatchRequested_mem_processFiredTimers.mpr ⟨timer, member, fired, isRetry, t, found, ready, rfl⟩)
    have same : t.attempt = n := Nat.succ.inj next
    rwa [same]
  · intro current p emitted
    obtain ⟨timer, member, fired, isRetry, t, found, ready, rfl⟩ :=
      dispatchRequested_mem_processFiredTimers.mp emitted
    exact ⟨t.attempt, rfl, current timer member fired isRetry t found ready⟩

def sampleAttempt (attempt : Nat) : AttemptRef :=
  (dispatchRequest .constant "run" "extract" attempt "default-queue").toAttemptRef

/-- The first attempt fails, its retry timer fires, and the second attempt fails as well. -/
def secondFailure : List OrchestrationEvent :=
  [.sample "01" (.planCreated .sample),
   .sample "02" (.taskStarted (sampleAttempt 1)),
   .sample "03" (.taskFinished { toAttemptRef := sampleAttempt 1, outcome := .failed }),
   .sample "04" (.timerRequested {
     timerId := "timer:retry:run:extract:1:0"
     timerType := .retry
     runId := some "run"
     taskKey := some "extract"
     attempt := some 1
     fireAt := 0 }),
   .sample "05" (.timerFired { timerId := "timer:retry:run:extract:1:0", timerType := .retry }),
   .sample "06" (.dispatchRequested (dispatchRequest .constant "run" "extract" 2 "default-queue")),
   .sample "07" (.taskStarted (sampleAttempt 2)),
   .sample "08" (.taskFinished { toAttemptRef := sampleAttempt 2, outcome := .failed })]

/-- The timer of the first attempt starts the third one, without any wait. -/
theorem retry_without_backoff : ¬ ∀ s, Reachable .constant s → ∀ lastProcessedAt now,
    s.RespectsBackoff .constant lastProcessedAt now := by
  intro respects
  have emitted : processFiredTimers .constant (foldEvents .constant {} secondFailure) 0 0 =
      [.dispatchRequested (dispatchRequest .constant "run" "extract" 3 "default-queue")] := rfl
  obtain ⟨n, next, timer, member, _, _, _, _, attempt⟩ := respects _ ⟨[], secondFailure, rfl⟩ 0 0
    (dispatchRequest .constant "run" "extract" 3 "default-queue") (by rw [emitted]; exact List.mem_singleton_self _)
  have first : ∀ timer ∈ (foldEvents .constant {} secondFailure).timers.rows, timer.attempt = some 1 := by decide
  rw [first timer member] at attempt
  have : n = 2 := (Nat.succ.inj next).symm
  cases attempt
  omega

end FoldState

end Arco.Flow
