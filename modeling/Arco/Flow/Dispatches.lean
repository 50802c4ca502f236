import Arco.Flow.Outbox

/-! A dispatch and its acknowledgement in either order.

The request creates the outbox row and the acknowledgement updates it, or the acknowledgement
leaves a placeholder that the request fills. Both ways lead to the acknowledged row of the
request; the task row and the catalog rows depend on the request alone.
-/

namespace Arco.Flow

open Keyed Table

def requestedRow (ev : Envelope) (p : DispatchRequested) : DispatchOutboxRow where
  runId := p.runId
  taskKey := p.taskKey
  attempt := p.attempt
  dispatchId := p.dispatchId
  cloudTaskId := none
  status := .pending
  attemptId := p.attemptId
  workerQueue := p.workerQueue
  createdAt := ev.timestamp
  rowVersion := ev.eventId

def DispatchOutboxRow.acknowledged (ev : Envelope) (cloudTaskId : String) (row : DispatchOutboxRow) :
    DispatchOutboxRow :=
  { row with status := .created, cloudTaskId := some cloudTaskId, createdAt := ev.timestamp, rowVersion := ev.eventId }

/-- The row that an acknowledgement leaves when no request has come. -/
def placeholderRow (ev : Envelope) (p : DispatchRequested) (cloudTaskId : String) : DispatchOutboxRow :=
  { (requestedRow ev p).acknowledged ev cloudTaskId with attemptId := "", workerQueue := "default-queue" }

namespace FoldState

def dispatched (s : FoldState) (ev : Envelope) (p : DispatchRequested)
    (outbox : Table DispatchOutboxRow.dispatchId) : FoldState :=
  refreshCatalogRunIndexForRun
    { s with
      toLifecycle := (s.toLifecycle.updateTask (p.runId, p.taskKey) (TaskRow.dispatch ev p.attempt p.attemptId)).1
      dispatchOutbox := outbox } ev p.runId

section Dispatched

variable {s s' : FoldState} {ev : Envelope} {p : DispatchRequested} {outbox outbox' : Table DispatchOutboxRow.dispatchId}

theorem dispatched_fields : (s.dispatched ev p outbox).toLifecycle =
        (s.toLifecycle.updateTask (p.runId, p.taskKey) (TaskRow.dispatch ev p.attempt p.attemptId)).1 ∧
      (s.dispatched ev p outbox).dispatchOutbox = outbox ∧
      (s.dispatched ev p outbox).idempotencyKeys = s.idempotencyKeys := by
  unfold dispatched refreshCatalogRunIndexForRun
  split <;> exact ⟨rfl, rfl, rfl⟩

theorem catalogRunIndex_dispatched (lifecycle : s'.toLifecycle = s.toLifecycle)
    (index : s'.catalogRunIndex = s.catalogRunIndex) :
    (s'.dispatched ev p outbox').catalogRunIndex = (s.dispatched ev p outbox).catalogRunIndex := by
  dsimp only [dispatched, refreshCatalogRunIndexForRun]
  rw [lifecycle]
  split
  · exact index
  · dsimp only
    rw [index]

theorem consumed_dispatched (fresh : s.dispatchAttemptConsumed p.runId p.taskKey p.attempt = false) :
    (s.dispatched ev p outbox).dispatchAttemptConsumed p.runId p.taskKey p.attempt = false := by
  unfold dispatchAttemptConsumed at ⊢
  rw [dispatched_fields.1]
  unfold Lifecycle.updateTask
  cases found : s.tasks.find (p.runId, p.taskKey) with
  | none => simp [found]
  | some t =>
    rw [Option.bind_some]
    cases change : TaskRow.dispatch ev p.attempt p.attemptId t with
    | none => exact fresh
    | some t' =>
      have keeps : t'.key = t.key ∧ ¬ t'.Consumed p.attempt := by
        unfold TaskRow.dispatch at change
        split at change
        · cases change
          exact ⟨rfl, by simp [TaskRow.Consumed, TaskState.isTerminal]⟩
        · cases change
      rw [find_upsert_of_key (keeps.1.trans (key_of_find found))]
      simpa using keeps.2

end Dispatched

section Orders

variable {ext : Externals} {s : FoldState} {requested enqueued : OrchestrationEvent} {p : DispatchRequested}
  {q : DispatchEnqueued}

/-- The acknowledgement belongs to the dispatch of the request. -/
structure Acknowledges (p : DispatchRequested) (q : DispatchEnqueued) : Prop where
  dispatch : p.dispatchId = dispatchIdOf p.runId p.taskKey p.attempt
  dispatchId : q.dispatchId = p.dispatchId
  runId : q.runId = some p.runId
  taskKey : q.taskKey = some p.taskKey
  attempt : q.attempt = some p.attempt

theorem Acknowledges.enqueuedAttempt_eq (same : Acknowledges p q) :
    enqueuedAttempt q = some (p.runId, p.taskKey, p.attempt) := by
  simp [enqueuedAttempt, same.runId, same.taskKey, same.attempt]

theorem foldEvent_of_applied {e : OrchestrationEvent} {s' : FoldState} (new : s.IsNew e)
    (applied : s.apply ext e.toEnvelope e.data = (s', true)) :
    ∃ keys, s.foldEvent ext e = { s' with idempotencyKeys := keys } ∧
      ∀ key, e.idempotencyKey ≠ key → keys.contains key = s'.idempotencyKeys.contains key := by
  obtain ⟨keys, recorded⟩ := recordIdempotencyKey_eq s' e.toEnvelope
  refine ⟨keys, ?_, fun key other => ?_⟩
  · rw [foldEvent, if_neg (by simp [new]), applied]
    exact recorded
  · have := contains_recordIdempotencyKey s' e.toEnvelope key
    rw [recorded] at this
    simpa [other] using this

/-- Neither event of a consumed attempt does anything to a state without an outbox row for it. -/
theorem foldEvent_of_consumed {e : OrchestrationEvent} (same : Acknowledges p q)
    (isEvent : e.data = .dispatchRequested p ∨ e.data = .dispatchEnqueued q)
    (absent : s.dispatchOutbox.find p.dispatchId = none)
    (consumed : s.dispatchAttemptConsumed p.runId p.taskKey p.attempt = true) : s.foldEvent ext e = s := by
  have nothing : s.pruneDispatchOutboxRow p.runId p.taskKey p.attempt = s := by
    rw [pruneDispatchOutboxRow, ← same.dispatch, erase_eq_self absent]
  have unapplied : s.apply ext e.toEnvelope e.data = (s, false) := by
    rcases isEvent with isEvent | isEvent
    · rw [isEvent, apply, foldDispatchRequested, if_pos consumed, nothing, refreshed, if_neg (by simp)]
    · rw [isEvent, apply, foldDispatchEnqueued, same.enqueuedAttempt_eq]
      dsimp only
      rw [if_pos consumed, nothing]
  rw [foldEvent, unapplied]
  simp

theorem apply_requested (isEvent : requested.data = .dispatchRequested p)
    (absent : s.dispatchOutbox.find p.dispatchId = none)
    (fresh : s.dispatchAttemptConsumed p.runId p.taskKey p.attempt = false) :
    s.apply ext requested.toEnvelope requested.data = (s.dispatched requested.toEnvelope p
        (s.dispatchOutbox.upsert (requestedRow requested.toEnvelope p)), true) := by
  rw [isEvent, apply, foldDispatchRequested, if_neg (by simp [fresh]), absent]
  rfl

theorem apply_requested_placeholder {ev : Envelope} {cloudTaskId : String}
    (isEvent : requested.data = .dispatchRequested p)
    (found : s.dispatchOutbox.find p.dispatchId = some (placeholderRow ev p cloudTaskId))
    (fresh : s.dispatchAttemptConsumed p.runId p.taskKey p.attempt = false) :
    s.apply ext requested.toEnvelope requested.data = (s.dispatched requested.toEnvelope p
        (s.dispatchOutbox.upsert ((requestedRow requested.toEnvelope p).acknowledged ev cloudTaskId)), true) := by
  have filled : fillOutboxRow p (placeholderRow ev p cloudTaskId) =
      (requestedRow requested.toEnvelope p).acknowledged ev cloudTaskId := by
    by_cases queue : p.workerQueue = "default-queue" <;>
      simp [fillOutboxRow, missesAttemptId, missesWorkerQueue, placeholderRow, DispatchOutboxRow.acknowledged,
        requestedRow, queue]
  rw [isEvent, apply, foldDispatchRequested, if_neg (by simp [fresh]), found]
  dsimp only
  rw [filled]
  simp [refreshed, missesAttemptId, placeholderRow, dispatched, DispatchOutboxRow.acknowledged, requestedRow]

section

variable (same : Acknowledges p q) (isEvent : enqueued.data = .dispatchEnqueued q)
include same isEvent

theorem apply_enqueued (absent : s.dispatchOutbox.find p.dispatchId = none)
    (fresh : s.dispatchAttemptConsumed p.runId p.taskKey p.attempt = false) :
    s.apply ext enqueued.toEnvelope enqueued.data =
      ({ s with dispatchOutbox := s.dispatchOutbox.upsert (placeholderRow enqueued.toEnvelope p q.cloudTaskId) },
        true) := by
  rw [isEvent, apply, foldDispatchEnqueued, same.enqueuedAttempt_eq]
  dsimp only
  rw [if_neg (by simp [fresh]), acknowledge, same.dispatchId, absent]
  rw [same.enqueuedAttempt_eq]
  rfl

theorem apply_enqueued_requested {ev : Envelope}
    (found : s.dispatchOutbox.find p.dispatchId = some (requestedRow ev p)) (later : ev.eventId < enqueued.eventId)
    (fresh : s.dispatchAttemptConsumed p.runId p.taskKey p.attempt = false) :
    s.apply ext enqueued.toEnvelope enqueued.data = ({ s with
          dispatchOutbox := s.dispatchOutbox.upsert
            ((requestedRow ev p).acknowledged enqueued.toEnvelope q.cloudTaskId) }, true) := by
  have newer : ¬ enqueued.eventId ≤ (requestedRow ev p).rowVersion := not_le.mpr later
  rw [isEvent, apply, foldDispatchEnqueued, same.enqueuedAttempt_eq]
  dsimp only
  rw [if_neg (by simp [fresh]), acknowledge, same.dispatchId, found]
  dsimp only
  rw [if_neg newer]
  rfl

end

/-- An event whose key is recorded is passed over, before and after any other event. -/
theorem foldEvent_swap_of_known {a b : OrchestrationEvent}
    (known : s.idempotencyKeys.contains a.idempotencyKey = true) :
    (s.foldEvent ext a).foldEvent ext b = (s.foldEvent ext b).foldEvent ext a := by
  have still : (s.foldEvent ext b).idempotencyKeys.contains a.idempotencyKey = true := by
    by_contra absent
    have := contains_foldEvent ext s b (Bool.eq_false_iff.mpr absent)
    cases known.symm.trans this
  rw [foldEvent_of_known ext known, foldEvent_of_known ext still]

structure Settled (s : FoldState) (requested enqueued : Envelope) (p : DispatchRequested) (cloudTaskId : String)
    (s' : FoldState) : Prop where
  lifecycle : s'.toLifecycle =
    (s.toLifecycle.updateTask (p.runId, p.taskKey) (TaskRow.dispatch requested p.attempt p.attemptId)).1
  index : s'.catalogRunIndex = (s.dispatched requested p s.dispatchOutbox).catalogRunIndex
  outbox : s'.dispatchOutbox =
    s.dispatchOutbox.upsert ((requestedRow requested p).acknowledged enqueued cloudTaskId)

structure Undispatched (s : FoldState) (requested enqueued : Envelope) (p : DispatchRequested) : Prop where
  absent : s.dispatchOutbox.find p.dispatchId = none
  fresh : s.dispatchAttemptConsumed p.runId p.taskKey p.attempt = false
  newRequest : s.idempotencyKeys.contains requested.idempotencyKey = false
  newAcknowledgement : s.idempotencyKeys.contains enqueued.idempotencyKey = false
  keys : requested.idempotencyKey ≠ enqueued.idempotencyKey

theorem settled_requested_enqueued (ext : Externals) (same : Acknowledges p q)
    (isRequested : requested.data = .dispatchRequested p) (isEnqueued : enqueued.data = .dispatchEnqueued q)
    (later : requested.eventId < enqueued.eventId)
    (undispatched : s.Undispatched requested.toEnvelope enqueued.toEnvelope p) :
    Settled s requested.toEnvelope enqueued.toEnvelope p q.cloudTaskId
      ((s.foldEvent ext requested).foldEvent ext enqueued) := by
  obtain ⟨absent, fresh, newRequest, newAcknowledgement, other⟩ := undispatched
  obtain ⟨keys, first, others⟩ := foldEvent_of_applied newRequest (apply_requested (p := p) isRequested absent fresh)
  obtain ⟨lifecycle, outbox, seen⟩ := @dispatched_fields s requested.toEnvelope p
    (s.dispatchOutbox.upsert (requestedRow requested.toEnvelope p))
  have new : keys.contains enqueued.idempotencyKey = false := by
    rw [others _ other, seen, newAcknowledgement]
  have found : (s.dispatched requested.toEnvelope p
      (s.dispatchOutbox.upsert (requestedRow requested.toEnvelope p))).dispatchOutbox.find p.dispatchId =
        some (requestedRow requested.toEnvelope p) := by
    rw [outbox]
    exact find_upsert_of_key rfl
  let s₁ : FoldState := { s.dispatched requested.toEnvelope p
    (s.dispatchOutbox.upsert (requestedRow requested.toEnvelope p)) with idempotencyKeys := keys }
  obtain ⟨_, second, _⟩ := foldEvent_of_applied (s := s₁) new
    (apply_enqueued_requested same isEnqueued found later (consumed_dispatched fresh))
  rw [first, second]
  refine ⟨lifecycle, catalogRunIndex_dispatched rfl rfl, ?_⟩
  rw [outbox]
  exact upsert_upsert rfl

theorem settled_enqueued_requested (ext : Externals) (same : Acknowledges p q)
    (isRequested : requested.data = .dispatchRequested p) (isEnqueued : enqueued.data = .dispatchEnqueued q)
    (undispatched : s.Undispatched requested.toEnvelope enqueued.toEnvelope p) :
    Settled s requested.toEnvelope enqueued.toEnvelope p q.cloudTaskId
      ((s.foldEvent ext enqueued).foldEvent ext requested) := by
  obtain ⟨absent, fresh, newRequest, newAcknowledgement, other⟩ := undispatched
  obtain ⟨keys, first, others⟩ := foldEvent_of_applied newAcknowledgement
    (apply_enqueued same isEnqueued absent fresh)
  have new : keys.contains requested.idempotencyKey = false := by
    rw [others _ other.symm, newRequest]
  let s₁ : FoldState := { s with
    dispatchOutbox := s.dispatchOutbox.upsert (placeholderRow enqueued.toEnvelope p q.cloudTaskId)
    idempotencyKeys := keys }
  obtain ⟨_, second, _⟩ := foldEvent_of_applied (s := s₁) new
    (apply_requested_placeholder isRequested (find_upsert_of_key rfl) fresh)
  rw [first, second]
  refine ⟨dispatched_fields.1, catalogRunIndex_dispatched rfl rfl, ?_⟩
  rw [dispatched_fields.2.1]
  exact upsert_upsert rfl

end Orders

/-- A dispatch and its acknowledgement can be folded in either order into a state without an outbox row
for the dispatch. -/
theorem dispatch_events_commute (ext : Externals) (s : FoldState) (requested enqueued : OrchestrationEvent)
    (p : DispatchRequested) (q : DispatchEnqueued) (isRequested : requested.data = .dispatchRequested p)
    (isEnqueued : enqueued.data = .dispatchEnqueued q) (same : Acknowledges p q)
    (keys : requested.idempotencyKey ≠ enqueued.idempotencyKey)
    (absent : s.dispatchOutbox.find p.dispatchId = none) (later : requested.eventId < enqueued.eventId) :
    let forth := foldEvents ext s [requested, enqueued]
    let back := foldEvents ext s [enqueued, requested]
    forth.tasks = back.tasks ∧ forth.runs = back.runs ∧ forth.catalogRunIndex = back.catalogRunIndex ∧
      forth.dispatchOutbox = back.dispatchOutbox := by
  have swapped : (s.foldEvent ext requested).foldEvent ext enqueued = (s.foldEvent ext enqueued).foldEvent ext requested ∨
      s.Undispatched requested.toEnvelope enqueued.toEnvelope p := by
    cases fresh : s.dispatchAttemptConsumed p.runId p.taskKey p.attempt with
    | true =>
      left
      rw [foldEvent_of_consumed same (.inl isRequested) absent fresh,
        foldEvent_of_consumed same (.inr isEnqueued) absent fresh,
        foldEvent_of_consumed same (.inl isRequested) absent fresh]
    | false =>
      cases request : s.idempotencyKeys.contains requested.idempotencyKey with
      | true => exact .inl (foldEvent_swap_of_known request)
      | false =>
        cases acknowledgement : s.idempotencyKeys.contains enqueued.idempotencyKey with
        | true => exact .inl (foldEvent_swap_of_known acknowledgement).symm
        | false => exact .inr ⟨absent, fresh, request, acknowledgement, keys⟩
  have folded : ∀ a b, foldEvents ext s [a, b] = (s.foldEvent ext a).foldEvent ext b := fun _ _ => rfl
  dsimp only
  rw [folded, folded]
  rcases swapped with equal | undispatched
  · rw [equal]
    exact ⟨rfl, rfl, rfl, rfl⟩
  · have forth := settled_requested_enqueued ext same isRequested isEnqueued later undispatched
    have back := settled_enqueued_requested ext same isRequested isEnqueued undispatched
    rw [forth.lifecycle, back.lifecycle, forth.index, back.index, forth.outbox, back.outbox]
    exact ⟨rfl, rfl, rfl, rfl⟩

section Sample

def sampleDispatch : DispatchRequested where
  runId := "r"
  taskKey := "t"
  attempt := 1
  attemptId := "a1"
  workerQueue := "gpu"
  dispatchId := dispatchIdOf "r" "t" 1

def sampleAcknowledgement : DispatchEnqueued where
  dispatchId := dispatchIdOf "r" "t" 1
  runId := some "r"
  taskKey := some "t"
  attempt := some 1
  cloudTaskId := "c1"

/-- The task is planned and ready. -/
def plannedTask : FoldState :=
  foldEvents .constant {} [.sample "00" (.planCreated { runId := "r", tasks := [{ key := "t", dependsOn := [] }] })]

theorem dispatch_events_commute_sample : (plannedTask.tasks.find ("r", "t")).map (·.state) = some .ready ∧
      (foldEvents .constant plannedTask [.sample "01" (.dispatchRequested sampleDispatch),
        .sample "02" (.dispatchEnqueued sampleAcknowledgement)]).tasks =
      (foldEvents .constant plannedTask [.sample "02" (.dispatchEnqueued sampleAcknowledgement),
        .sample "01" (.dispatchRequested sampleDispatch)]).tasks :=
  ⟨by decide, (dispatch_events_commute .constant plannedTask (.sample "01" (.dispatchRequested sampleDispatch))
    (.sample "02" (.dispatchEnqueued sampleAcknowledgement)) sampleDispatch sampleAcknowledgement rfl rfl
    ⟨rfl, rfl, rfl, rfl, rfl⟩ (by decide) rfl (by decide)).1⟩

end Sample

end FoldState

end Arco.Flow
