import Arco.Flow.Controllers
import Arco.Flow.Steps

/-! The repair of stuck dispatches.

The sweep hands a stuck dispatch to the queue again and acknowledges it, which starts its clock anew. All
acknowledgements of a dispatch have one idempotency key, so only the first of them is folded.
-/

namespace Arco.Flow

open Keyed List

/-- The outbox row that the sweep takes for the dispatch of a task. -/
def TaskRow.outboxRow (t : TaskRow) (outbox : List DispatchOutboxRow) : Option DispatchOutboxRow :=
  outbox.find? fun o => o.runId = t.runId ∧ o.taskKey = t.taskKey ∧ o.attempt = t.attempt

namespace AntiEntropySweeper

variable {a : AntiEntropySweeper} {now : Timestamp} {outbox : List DispatchOutboxRow}
  {runId taskKey dispatchId reason : String} {attempt : Nat} {t : TaskRow}
  {row : DispatchOutboxRow}

/-- The task is dispatched, and its outbox row is too old. -/
structure Stuck (a : AntiEntropySweeper) (outbox : List DispatchOutboxRow) (now : Timestamp) (t : TaskRow)
    (row : DispatchOutboxRow) : Prop where
  state : t.state = .dispatched
  found : t.outboxRow outbox = some row
  old : a.dispatchTimeout < now - row.createdAt

theorem Stuck.checkTask (stuck : a.Stuck outbox now t row) :
    ∃ reason, a.checkTask outbox now t = some (.redispatchStuckTask t.runId t.taskKey t.attempt row.dispatchId reason) := by
  rw [AntiEntropySweeper.checkTask, stuck.state]
  rw [checkDispatchedTask, show outbox.find? _ = some row from stuck.found]
  exact ⟨_, if_neg (not_le.mpr stuck.old)⟩

theorem stuck_of_checkTask
    (checked : a.checkTask outbox now t = some (.redispatchStuckTask runId taskKey attempt dispatchId reason)) :
    ∃ row, a.Stuck outbox now t row ∧ t.key = (runId, taskKey) ∧ t.attempt = attempt ∧ row.dispatchId = dispatchId := by
  unfold AntiEntropySweeper.checkTask at checked
  split at checked
  · obtain ⟨_, _, checked⟩ := Option.bind_eq_some_iff.mp checked
    dsimp only at checked
    split_ifs at checked
    cases checked
  · rename_i state
    unfold checkDispatchedTask at checked
    split at checked
    · cases checked
    · rename_i row found
      split_ifs at checked with old
      cases checked
      exact ⟨row, ⟨state, found, not_le.mp old⟩, rfl, rfl, rfl⟩
  · unfold checkRetryWaitTask at checked
    split_ifs at checked
    cases checked
  · unfold checkRunningTask at checked
    split_ifs at checked
    obtain ⟨_, _, same⟩ := Option.map_eq_some_iff.mp checked
    cases same
  · cases checked

end AntiEntropySweeper

namespace FoldState

open AntiEntropySweeper

variable {ext : Externals} {s : FoldState} {e : OrchestrationEvent} {lastProcessedAt now : Timestamp}
  {runId taskKey dispatchId : String} {attempt : Nat} {t : TaskRow} {row : DispatchOutboxRow}

/-- The sweep finds that the dispatch of the task is stuck. -/
def Reports (s : FoldState) (lastProcessedAt now : Timestamp) (runId taskKey : String) (attempt : Nat)
    (dispatchId : String) : Prop :=
  ∃ reason, .redispatchStuckTask runId taskKey attempt dispatchId reason ∈
    ({} : AntiEntropySweeper).scan lastProcessedAt s.tasks.rows s.dispatchOutbox.rows now

theorem reports_iff : s.Reports lastProcessedAt now runId taskKey attempt dispatchId ↔
    now - lastProcessedAt ≤ minutes 5 ∧ ∃ t row, s.tasks.find (runId, taskKey) = some t ∧
      ({} : AntiEntropySweeper).Stuck s.dispatchOutbox.rows now t row ∧ t.attempt = attempt ∧
        row.dispatchId = dispatchId := by
  unfold Reports scan
  by_cases lag : minutes 5 < now - lastProcessedAt
  · rw [if_pos lag]
    exact ⟨fun ⟨_, member⟩ => by simp at member, fun ⟨le, _⟩ => absurd le (not_le.mpr lag)⟩
  · rw [if_neg lag]
    refine ⟨fun ⟨reason, member⟩ => ⟨not_lt.mp lag, ?_⟩, fun ⟨_, t, row, found, stuck, isAttempt, isDispatch⟩ => ?_⟩
    · obtain ⟨t, inTasks, checked⟩ := mem_filterMap.mp member
      obtain ⟨row, stuck, key, rest⟩ := stuck_of_checkTask checked
      exact ⟨t, row, key ▸ Table.find_of_mem inTasks, stuck, rest⟩
    · obtain ⟨reason, checked⟩ := stuck.checkTask
      have key : t.key = (runId, taskKey) := Table.key_of_find found
      cases key
      cases isAttempt
      cases isDispatch
      exact ⟨reason, mem_filterMap.mpr ⟨t, Table.mem_of_find found, checked⟩⟩

theorem foldEvent_redispatched {cloudId : String} (found : s.tasks.find (runId, taskKey) = some t)
    (stuck : ({} : AntiEntropySweeper).Stuck s.dispatchOutbox.rows now t row)
    (isEvent : e.data = Sweep.enqueuedEvent (Sweep.redispatchOf ext s.dispatchOutbox runId taskKey t.attempt row.dispatchId)
      cloudId) (new : s.IsNew e) :
    (s.foldEvent ext e).tasks = s.tasks ∧ (s.foldEvent ext e).dispatchOutbox =
      if e.eventId ≤ row.rowVersion then s.dispatchOutbox
      else s.dispatchOutbox.upsert { row with
        status := .created, cloudTaskId := some cloudId, createdAt := e.timestamp, rowVersion := e.eventId } := by
  have foundRow : s.dispatchOutbox.find row.dispatchId = some row :=
    Table.find_of_mem (mem_of_find?_eq_some stuck.found)
  have waits : ¬ s.dispatchAttemptConsumed runId taskKey t.attempt = true := by
    simp [dispatchAttemptConsumed, found, TaskRow.Consumed, stuck.state, TaskState.isTerminal]
  obtain ⟨_, folded⟩ := foldEvent_of_new ext new
  have applied : s.apply ext e.toEnvelope e.data = s.acknowledge e.toEnvelope
      { dispatchId := row.dispatchId, runId, taskKey, attempt := t.attempt, cloudTaskId := cloudId } := by
    rw [isEvent]
    exact if_neg waits
  rw [folded, applied, acknowledge, foundRow]
  dsimp only
  split <;> exact ⟨rfl, rfl⟩

def acknowledgement (eventId : String) (timestamp : Timestamp) : OrchestrationEvent :=
  .newWithTimestamp .constant eventId "tenant" "workspace" (.dispatchEnqueued {
    dispatchId := dispatchIdOf "run" "extract" 1, runId := "run", taskKey := "extract", attempt := some 1
    cloudTaskId := "cloud" }) timestamp

/-- A task that was dispatched at time zero and has not started. -/
def dispatchedAtZero (acknowledgements : List OrchestrationEvent) : FoldState :=
  foldEvents .constant {} (
    [.sample "01" (.planCreated .sample),
     .sample "02" (.dispatchRequested (dispatchRequest .constant "run" "extract" 1 "default-queue"))] ++ acknowledgements)

end FoldState

end Arco.Flow
