import Arco.Flow.Lockstep

/-! The dispatch outbox.

Rows of the outbox are the only rows that an event removes. `Prunes` says which ones, from
the state before the event, and `OutboxEffect` is all that an event can do to one row.
-/

namespace Arco.Flow

open Keyed

namespace FoldState

open Table

variable {ext : Externals} {ev : Envelope} {e : OrchestrationEvent} {s : FoldState} {id : String}

/-- The event is new and removes the outbox row of this dispatch, if there is one: its attempt starts, or was
consumed before. -/
def Prunes (s : FoldState) (e : OrchestrationEvent) (id : String) : Prop :=
  s.IsNew e ∧
    match e.data with
    | .taskStarted p => id = dispatchIdOf p.runId p.taskKey p.attempt ∧
        ∃ t, s.tasks.find (p.runId, p.taskKey) = some t ∧ t.AcceptsStart p
    | .dispatchRequested p => id = dispatchIdOf p.runId p.taskKey p.attempt ∧
        s.dispatchAttemptConsumed p.runId p.taskKey p.attempt = true
    | .dispatchEnqueued p => ∃ runId taskKey attempt, enqueuedAttempt p = some (runId, taskKey, attempt) ∧
        id = dispatchIdOf runId taskKey attempt ∧ s.dispatchAttemptConsumed runId taskKey attempt = true
    | _ => False

/-- The row has no attempt id, or the one that it had, or the event requests its dispatch. -/
def KeepsAttempt (s : FoldState) (e : OrchestrationEvent) (id : String) (row : DispatchOutboxRow) : Prop :=
  row.attemptId = "" ∨ (∃ old, s.dispatchOutbox.find id = some old ∧ row.attemptId = old.attemptId) ∨
    ∃ p, e.data = .dispatchRequested p ∧ p.dispatchId = id

/-- What an event does to one row of the outbox. -/
inductive OutboxEffect (s : FoldState) (e : OrchestrationEvent) (id : String) : Option DispatchOutboxRow → Prop where
  | kept : OutboxEffect s e id (s.dispatchOutbox.find id)
  | pruned (prunes : s.Prunes e id) : OutboxEffect s e id none
  | written (row : DispatchOutboxRow) (version : row.rowVersion = e.eventId) (attempt : s.KeepsAttempt e id row) :
      OutboxEffect s e id (some row)
  | filled (old row : DispatchOutboxRow) (found : s.dispatchOutbox.find id = some old)
      (version : row.rowVersion = old.rowVersion) (attempt : s.KeepsAttempt e id row) : OutboxEffect s e id (some row)

@[simp] theorem dispatchOutbox_refreshed (runId : String) (r : FoldState × Bool) :
    (refreshed ev runId r).1.dispatchOutbox = r.1.dispatchOutbox := by
  obtain ⟨_, same⟩ := refreshed_fst ev runId r
  rw [same]

theorem outbox_foldTaskStarted {p : AttemptRef} (isEvent : e.data = .taskStarted p) (new : s.IsNew e) :
    OutboxEffect s e id ((s.foldTaskStarted e.toEnvelope p).1.dispatchOutbox.find id) := by
  dsimp only [foldTaskStarted]
  split
  · rename_i started
    have accepts : ∃ t, s.tasks.find (p.runId, p.taskKey) = some t ∧ t.AcceptsStart p := by
      unfold Lifecycle.updateTask at started
      split at started
      · rename_i row accepted
        obtain ⟨t, found, new⟩ := Option.bind_eq_some_iff.mp accepted
        unfold TaskRow.start at new
        split at new
        · exact ⟨t, found, ‹_›⟩
        · cases new
      · cases started
    simp only [pruneDispatchOutboxRow, find_erase]
    split
    · rename_i here
      refine .pruned ⟨new, ?_⟩
      rw [isEvent]
      exact ⟨here, accepts⟩
    · exact .kept
  · exact .kept

theorem outbox_foldDispatchRequested {p : DispatchRequested} (isEvent : e.data = .dispatchRequested p)
    (new : s.IsNew e) :
    OutboxEffect s e id ((s.foldDispatchRequested e.toEnvelope p).1.dispatchOutbox.find id) := by
  unfold foldDispatchRequested
  split
  · rename_i consumed
    simp only [pruneDispatchOutboxRow, find_erase]
    split
    · rename_i here
      refine .pruned ⟨new, ?_⟩
      rw [isEvent]
      exact ⟨here, consumed⟩
    · exact .kept
  · split
    · rename_i existing found
      rw [find_upsert]
      split
      · rename_i here
        have same : existing.dispatchId = p.dispatchId := key_of_find found
        have named : p.dispatchId = id := same.symm.trans here
        exact .filled existing _ (named ▸ found) rfl (.inr (.inr ⟨p, isEvent, named⟩))
      · exact .kept
    · dsimp only
      rw [find_upsert]
      split
      · rename_i here
        exact .written _ rfl (.inr (.inr ⟨p, isEvent, here⟩))
      · exact .kept

theorem outbox_acknowledge (p : DispatchEnqueued) :
    OutboxEffect s e id ((s.acknowledge e.toEnvelope p).1.dispatchOutbox.find id) := by
  unfold acknowledge
  split
  · rename_i existing found
    split
    · exact .kept
    · dsimp only
      rw [find_upsert]
      split
      · rename_i here
        have same : existing.dispatchId = p.dispatchId := key_of_find found
        have named : p.dispatchId = id := same.symm.trans here
        exact .written _ rfl (.inr (.inl ⟨existing, named ▸ found, rfl⟩))
      · exact .kept
  · split
    · dsimp only
      rw [find_upsert]
      split
      · exact .written _ rfl (.inl rfl)
      · exact .kept
    · exact .kept

theorem outbox_foldDispatchEnqueued {p : DispatchEnqueued} (isEvent : e.data = .dispatchEnqueued p)
    (new : s.IsNew e) :
    OutboxEffect s e id ((s.foldDispatchEnqueued e.toEnvelope p).1.dispatchOutbox.find id) := by
  unfold foldDispatchEnqueued
  split
  · rename_i runId taskKey attempt named
    split
    · rename_i consumed
      simp only [pruneDispatchOutboxRow, find_erase]
      split
      · rename_i here
        refine .pruned ⟨new, ?_⟩
        rw [isEvent]
        exact ⟨runId, taskKey, attempt, named, here, consumed⟩
      · exact .kept
    · exact outbox_acknowledge p
  · exact outbox_acknowledge p

theorem outbox_apply (ext : Externals) (new : s.IsNew e) :
    OutboxEffect s e id ((s.apply ext e.toEnvelope e.data).1.dispatchOutbox.find id) := by
  cases isEvent : e.data with
  | taskStarted p =>
    rw [apply, dispatchOutbox_refreshed]
    exact outbox_foldTaskStarted isEvent new
  | dispatchRequested p =>
    rw [apply, dispatchOutbox_refreshed]
    exact outbox_foldDispatchRequested isEvent new
  | dispatchEnqueued p => exact outbox_foldDispatchEnqueued isEvent new
  | _ =>
    rw [(handled_apply ext s _ _).rest.2.2 rfl]
    exact .kept

theorem outbox_foldEvent (ext : Externals) (s : FoldState) (e : OrchestrationEvent) (id : String) :
    OutboxEffect s e id ((s.foldEvent ext e).dispatchOutbox.find id) := by
  refine foldEvent_cases ext s e .kept fun new => ?_
  obtain ⟨_, folded⟩ := foldEvent_of_new ext new
  rw [folded]
  exact outbox_apply ext new

def OutboxBelow (s : FoldState) (id : String) : Prop :=
  ∀ k row, s.dispatchOutbox.find k = some row → row.rowVersion < id

theorem OutboxBelow.foldEvent (below : s.OutboxBelow id) (lt : e.eventId < id) :
    (s.foldEvent ext e).OutboxBelow id := by
  intro k row found
  have effect := outbox_foldEvent ext s e k
  generalize (s.foldEvent ext e).dispatchOutbox.find k = after at effect found
  cases effect with
  | kept => exact below k row found
  | pruned => cases found
  | written new version attempt =>
    cases found
    exact version ▸ lt
  | filled old new foundOld version attempt =>
    cases found
    exact version ▸ below k old foundOld

def OutboxRises (base s : FoldState) : Prop :=
  ∀ k old row, base.dispatchOutbox.find k = some old → s.dispatchOutbox.find k = some row →
    old.rowVersion ≤ row.rowVersion

theorem OutboxRises.refl (s : FoldState) : OutboxRises s s := by
  intro k old row foundOld found
  cases foundOld.symm.trans found
  exact le_refl _

theorem OutboxRises.foldEvent {base : FoldState} (rises : OutboxRises base s) (below : base.OutboxBelow e.eventId) :
    OutboxRises base (s.foldEvent ext e) := by
  intro k old row foundOld found
  have effect := outbox_foldEvent ext s e k
  generalize (s.foldEvent ext e).dispatchOutbox.find k = after at effect found
  cases effect with
  | kept => exact rises k old row foundOld found
  | pruned => cases found
  | written new version attempt =>
    cases found
    exact version ▸ le_of_lt (below k old foundOld)
  | filled before new foundBefore version attempt =>
    cases found
    exact version ▸ rises k old before foundOld foundBefore

theorem held_foldEvent (held : s.dispatchOutbox.find id ≠ none) (notPruned : ¬ s.Prunes e id) :
    (s.foldEvent ext e).dispatchOutbox.find id ≠ none := by
  have effect := outbox_foldEvent ext s e id
  generalize (s.foldEvent ext e).dispatchOutbox.find id = after at effect
  cases effect with
  | kept => exact held
  | pruned prunes => exact absurd prunes notPruned
  | written row _ _ | filled _ row _ _ _ => exact nofun

theorem held_foldEvents {events : List OrchestrationEvent} (held : s.dispatchOutbox.find id ≠ none)
    (notPruned : Throughout ext (fun s e => ¬ s.Prunes e id) s events) :
    (foldEvents ext s events).dispatchOutbox.find id ≠ none :=
  foldEvents_induction (fun s => s.dispatchOutbox.find id ≠ none) (fun _ _ held notPruned => held_foldEvent held notPruned)
    held notPruned

def requestKey (dispatchId : String) : String := s!"dispatch_req:{dispatchId}"

theorem toString_string (text : String) : toString text = text := rfl

theorem requestKey_ne_acknowledgementKey (a b : String) : requestKey a ≠ acknowledgementKey b := by
  intro same
  have chars := congrArg String.toList same
  simp [requestKey, acknowledgementKey, toString_string] at chars

end FoldState

open FoldState in
/-- The events of a dispatch have its keys, and no other event has the key of an acknowledgement. -/
def OrchestrationEvent.KeyedByDispatch (e : OrchestrationEvent) : Prop :=
  match e.data with
  | .dispatchRequested p => e.idempotencyKey = requestKey p.dispatchId
  | .dispatchEnqueued p => e.idempotencyKey = acknowledgementKey p.dispatchId
  | _ => ∀ id, e.idempotencyKey ≠ acknowledgementKey id

open FoldState in
theorem OrchestrationEventData.idempotencyKey_ne {ext : Externals} {data : OrchestrationEventData}
    (notAcknowledged : ∀ p, data ≠ .dispatchEnqueued p) (notRequested : ∀ p, data ≠ .dispatchRequested p) (id : String) :
    data.idempotencyKey ext ≠ acknowledgementKey id := by
  intro same
  -- the first letters differ
  have head := congrArg (fun key : String => key.toList.head?) same
  unfold idempotencyKey acknowledgementKey at head
  cases data with
  | dispatchEnqueued p => exact notAcknowledged p rfl
  | dispatchRequested p => exact notRequested p rfl
  | taskHeartbeat p =>
    dsimp only at head
    split at head <;> simp [toString_string] at head
  | sensorEvaluated p =>
    dsimp only [sensorEvaluatedIdempotencyKey] at head
    split at head <;> simp [toString_string] at head
  | scheduleDefinitionUpserted p =>
    simp [scheduleDefinitionIdempotencyKey, toString_string] at head
  | _ => simp [toString_string] at head

/-- Every event that gets its key from its data. -/
theorem OrchestrationEvent.keyedByDispatch {ext : Externals} {e : OrchestrationEvent}
    (computed : e.idempotencyKey = e.data.idempotencyKey ext) : e.KeyedByDispatch := by
  unfold KeyedByDispatch
  split
  · rename_i p isEvent
    rw [computed, isEvent]
    rfl
  · rename_i p isEvent
    rw [computed, isEvent]
    rfl
  · rename_i notRequested notAcknowledged
    rw [computed]
    exact OrchestrationEventData.idempotencyKey_ne notAcknowledged notRequested

namespace FoldState

variable {ext : Externals} {e : OrchestrationEvent} {s s' : FoldState} {tracked : Prop}

def tablesScope (tracked : Prop) : Scope := ⟨fun _ => False, tracked⟩

theorem foldDispatchEnqueued_frame (s : FoldState) (ev : Envelope) (p : DispatchEnqueued) :
    ∃ outbox, (s.foldDispatchEnqueued ev p).1 = { s with dispatchOutbox := outbox } := by
  unfold foldDispatchEnqueued acknowledge
  repeat' split
  all_goals exact ⟨_, rfl⟩

/-- An acknowledgement changes the outbox and records its key. -/
theorem foldEvent_acknowledged {p : DispatchEnqueued} (isEvent : e.data = .dispatchEnqueued p)
    (keyed : e.KeyedByDispatch) (s : FoldState) :
    ∃ dispatchOutbox idempotencyKeys, s.foldEvent ext e = { s with dispatchOutbox, idempotencyKeys } ∧
      ∀ key, (tablesScope tracked).Settles key → idempotencyKeys.contains key = s.idempotencyKeys.contains key := by
  rw [OrchestrationEvent.KeyedByDispatch, isEvent] at keyed
  obtain ⟨outbox, folded⟩ := foldDispatchEnqueued_frame s e.toEnvelope p
  unfold foldEvent
  split
  · exact ⟨_, _, rfl, fun _ _ => rfl⟩
  · rw [isEvent, apply]
    dsimp only
    rw [folded]
    split
    · obtain ⟨keys, same⟩ := recordIdempotencyKey_eq { s with dispatchOutbox := outbox } e.toEnvelope
      refine ⟨outbox, keys, same, fun other settled => ?_⟩
      have contains := contains_recordIdempotencyKey { s with dispatchOutbox := outbox } e.toEnvelope other
      have notKey : e.idempotencyKey ≠ other := fun hit => settled _ (hit.symm.trans keyed)
      rwa [same, decide_eq_false notKey, Bool.or_false] at contains
    · exact ⟨outbox, _, rfl, fun _ _ => rfl⟩

/-- A row has an attempt id only after its dispatch was requested. -/
def RequestedRows (s : FoldState) : Prop :=
  ∀ id, s.idempotencyKeys.contains (requestKey id) = false → s.Blank id

/-- Two folds stay alike outside of the outbox, whatever the rows that they hold there. -/
theorem Alike.foldEvent_tables (alike : Alike (tablesScope tracked) s s') (wired : s.Wired) (rows : s.RequestedRows)
    (rows' : s'.RequestedRows) (keyed : e.KeyedByDispatch) :
    Alike (tablesScope tracked) (s.foldEvent ext e) (s'.foldEvent ext e) := by
  by_cases acknowledges : ∃ p, e.data = .dispatchEnqueued p
  · obtain ⟨p, isEvent⟩ := acknowledges
    obtain ⟨_, _, folded, same⟩ := foldEvent_acknowledged isEvent keyed s
    obtain ⟨_, _, folded', same'⟩ := foldEvent_acknowledged isEvent keyed s'
    rw [folded, folded']
    refine { alike with idempotencyKeys := fun key settled => ?_, outbox := fun _ impossible => impossible.elim }
    rw [same' key settled, same key settled, alike.idempotencyKeys key settled]
  · have settled : (tablesScope tracked).Settles e.idempotencyKey := by
      intro id same
      unfold OrchestrationEvent.KeyedByDispatch at keyed
      split at keyed
      · exact requestKey_ne_acknowledgementKey _ id (keyed.symm.trans same)
      · rename_i p isEvent
        exact acknowledges ⟨p, isEvent⟩
      · exact keyed id same
    cases new : s.idempotencyKeys.contains e.idempotencyKey with
    | true =>
      rwa [foldEvent_of_known ext new, foldEvent_of_known ext ((alike.idempotencyKeys _ settled).trans new)]
    | false =>
      refine alike.foldEvent wired settled ?_
      unfold Agrees
      split
      · rename_i p isEvent
        rw [OrchestrationEvent.KeyedByDispatch, isEvent] at keyed
        rw [keyed] at new settled
        exact .inr ⟨rows _ new, rows' _ ((alike.idempotencyKeys _ settled).trans new)⟩
      · rename_i p isEvent
        exact acknowledges ⟨p, isEvent⟩
      · trivial

theorem Blank.foldEvent {id : String} (blank : s.Blank id)
    (other : ∀ p, e.data = .dispatchRequested p → p.dispatchId ≠ id) : (s.foldEvent ext e).Blank id := by
  have kept : ∀ row, s.KeepsAttempt e id row → row.attemptId = "" := by
    rintro row (none | ⟨old, found, same⟩ | ⟨p, isEvent, named⟩)
    · exact none
    · exact same.trans (blank old found)
    · exact absurd named (other p isEvent)
  intro row found
  have effect := outbox_foldEvent ext s e id
  generalize (s.foldEvent ext e).dispatchOutbox.find id = after at effect found
  cases effect with
  | kept => exact blank row found
  | pruned => cases found
  | written new version attempt | filled old new foundOld version attempt =>
    cases found
    exact kept _ attempt

theorem contains_foldEvent (ext : Externals) (s : FoldState) (e : OrchestrationEvent) {key : String}
    (absent : (s.foldEvent ext e).idempotencyKeys.contains key = false) : s.idempotencyKeys.contains key = false := by
  rw [Bool.eq_false_iff, Ne, Table.contains_iff] at absent ⊢
  exact fun member => absent ((advances_foldEvent ext s e).idempotencyKeys.keys.subset member)

/-- A request that is not consumed is applied to a row without an attempt id, and recorded. -/
theorem RequestedRows.foldEvent (rows : s.RequestedRows) (keyed : e.KeyedByDispatch) :
    (s.foldEvent ext e).RequestedRows := by
  intro id absent
  have blank := rows id (contains_foldEvent ext s e absent)
  by_cases requested : ∃ p, e.data = .dispatchRequested p ∧ p.dispatchId = id
  · obtain ⟨p, isEvent, rfl⟩ := requested
    rw [OrchestrationEvent.KeyedByDispatch, isEvent] at keyed
    have new : s.idempotencyKeys.contains e.idempotencyKey = false := keyed ▸ contains_foldEvent ext s e absent
    by_cases consumed : s.dispatchAttemptConsumed p.runId p.taskKey p.attempt = true
    · obtain ⟨_, folded⟩ := foldEvent_of_new ext new
      intro row found
      rw [folded, isEvent, apply, foldDispatchRequested_of_consumed consumed] at found
      simp only [dispatchOutbox_refreshed, pruneDispatchOutboxRow, Table.find_erase] at found
      split at found
      · cases found
      · exact blank row found
    · obtain ⟨_, _, folded⟩ := foldDispatchRequested_of_blank e.toEnvelope consumed blank
      have applied : (s.apply ext e.toEnvelope e.data).2 = true := by
        rw [isEvent, apply, folded]
        rfl
      have recorded : (s.foldEvent ext e).idempotencyKeys.contains (requestKey p.dispatchId) = true := by
        rw [FoldState.foldEvent, if_neg (by simp [new])]
        rw [if_pos applied, contains_recordIdempotencyKey, keyed, decide_eq_true rfl, Bool.or_true]
      cases recorded.symm.trans absent
  · exact blank.foldEvent fun p isEvent named => requested ⟨p, isEvent, named⟩

end FoldState

end Arco.Flow
