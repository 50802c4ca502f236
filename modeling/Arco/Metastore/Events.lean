import Arco.Metastore.Ledger

/-! The events of the metastore ledger, as a function of its objects, and what the operations of the ledger do to them. -/

namespace Arco.Metastore.MetastoreLedger

open Arco.Catalog (CatalogError)
open Effects Effects.Attempt
open Sorted (Inserted)
open List Objects

def Spares : LedgerOp → Prop
  | .put (.event _) _ _ => False
  | .delete (.event _) => False
  | _ => True

def Adds (event : MetastoreEvent) (op : LedgerOp) : Prop :=
  Spares op ∨ op = .put (.event event.eventId) event .doesNotExist

section Only

variable {object : WatermarkObject} {candidate : MetastoreLedgerWatermark} {allow reserved : Bool}
  {event : MetastoreEvent}

theorem only_readWatermarkMarker : (readWatermarkMarker object).Only Spares := by
  apply only_bind (only_headRaw trivial)
  intro head
  cases head with
  | none => exact only_pure
  | some version =>
    apply only_bind (only_getRaw trivial)
    intro watermark
    cases watermark <;> exact only_pure

theorem only_canReplaceStalePendingWatermark {current : MetastoreLedgerWatermark} :
    (canReplaceStalePendingWatermark current candidate).Only Spares := by
  unfold canReplaceStalePendingWatermark
  split
  · exact only_pure
  · apply only_bind (only_headRaw trivial)
    intro head
    cases head with
    | some version => exact only_pure
    | none =>
      apply only_bind (only_getRaw trivial)
      intro eventId
      cases eventId <;> exact only_pure

theorem only_mayReplace {current : Option (MetastoreLedgerWatermark × Nat)} :
    (mayReplace allow candidate current).Only Spares := by
  cases current with
  | none => exact only_pure
  | some marker =>
    unfold mayReplace
    simp only
    split
    · exact only_pure
    · split
      · split
        · apply only_bind only_canReplaceStalePendingWatermark
          intro stale
          split
          · exact only_pure
          · exact only_throw
        · exact only_throw
      · exact only_pure

theorem only_updateWatermarkMarkerInner {retries : Nat} :
    (updateWatermarkMarkerInner object candidate allow retries).Only Spares := by
  induction retries with
  | zero => exact only_throw
  | succ retries ih =>
    apply only_bind only_readWatermarkMarker
    intro current
    apply only_bind only_mayReplace
    intro replaces
    split
    · apply only_bind (only_putRaw trivial)
      intro result
      cases result with
      | success version => exact only_pure
      | preconditionFailed version => exact ih
    · exact only_pure

theorem only_reservedSequences : reservedSequences.Only Spares :=
  only_bind (only_listRaw trivial) fun _ => only_pure

theorem only_firstDurable {sequences : List Nat} : (firstDurable sequences).Only Spares := by
  induction sequences with
  | nil => exact only_pure
  | cons sequence rest ih =>
    apply only_bind (only_getRaw trivial)
    intro eventId
    cases eventId with
    | none => exact only_throw
    | some eventId =>
      apply only_bind (only_headRaw trivial)
      intro head
      cases head with
      | none => exact ih
      | some version => exact only_pure

theorem only_latestWatermarkFromSequenceMarkers : latestWatermarkFromSequenceMarkers.Only Spares :=
  only_bind only_reservedSequences fun _ => only_firstDurable

theorem only_scan {latest : Option MetastoreLedgerWatermark} {sequence count : Nat} :
    (scan latest sequence count).Only Spares := by
  induction count generalizing sequence latest with
  | zero => exact only_pure
  | succ count ih =>
    apply only_bind (only_getRaw trivial)
    intro eventId
    cases eventId with
    | none => exact ih
    | some eventId =>
      apply only_bind (only_headRaw trivial)
      intro head
      cases head with
      | none => exact only_pure
      | some version => exact ih

theorem only_watermarkBound {isFirst : Bool} : (watermarkBound event isFirst).Only Spares := by
  apply only_bind only_readWatermarkMarker
  intro pending
  split
  · exact only_bind only_latestWatermarkFromSequenceMarkers fun _ => only_pure
  · exact only_pure

theorem only_updateLatestWatermark : (updateLatestWatermark event).Only Spares := by
  apply only_bind only_readWatermarkMarker
  intro current
  apply only_bind only_watermarkBound
  intro upperBound
  split
  · exact only_pure
  · apply only_bind only_scan
    intro candidate
    cases candidate with
    | none => exact only_throw
    | some candidate =>
      apply only_bind only_updateWatermarkMarkerInner
      intro _
      split
      · exact only_throw
      · exact only_pure

theorem only_reserve : (reserve event).Only Spares := by
  apply only_bind (only_putRaw trivial)
  intro result
  cases result with
  | success version => exact only_pure
  | preconditionFailed version =>
    apply only_bind (only_getRaw trivial)
    intro existing
    cases existing with
    | none => exact only_throw
    | some existing =>
      simp only
      split
      · exact only_pure
      · exact only_throw

theorem only_giveUp {error : CatalogError} : (giveUp reserved event error).Only Spares := by
  unfold giveUp
  split
  · exact only_bind (only_deleteRaw trivial) fun _ => only_throw
  · exact only_throw

theorem only_writeEvent : (writeEvent reserved event).Only (Adds event) := by
  apply only_bind (only_tryPut (.inr rfl))
  intro reply
  cases reply with
  | fault => exact only_giveUp.inl
  | ok result =>
    cases result with
    | success version => exact only_pure
    | preconditionFailed version =>
      apply only_bind (only_getRaw (.inl trivial))
      intro existing
      cases existing with
      | none => exact only_throw
      | some existing =>
        simp only
        split
        · exact only_pure
        · exact only_giveUp.inl

theorem only_appendEvent {storage : StorageScope} : (appendEvent storage event).Only (Adds event) := by
  apply only_bind
  · cases validateEventScope storage event with
    | ok _ => exact only_pure
    | error error => exact only_throw
  intro _
  apply only_bind only_reserve.inl
  intro reserved
  apply only_bind (only_headRaw (.inl trivial))
  intro head
  cases head with
  | some version =>
    apply only_bind (only_getRaw (.inl trivial))
    intro existing
    cases existing with
    | none => exact only_throw
    | some existing =>
      simp only
      split
      · exact only_updateLatestWatermark.inl
      · exact only_giveUp.inl
  | none =>
    apply only_bind only_updateWatermarkMarkerInner.inl
    intro _
    exact only_bind only_writeEvent fun _ => only_updateLatestWatermark.inl

theorem only_getAll {ids : List String} : (getAll ids).Only Spares := by
  induction ids with
  | nil => exact only_pure
  | cons eventId rest ih =>
    apply only_bind (only_getRaw trivial)
    intro event
    cases event with
    | none => exact only_throw
    | some event => exact only_bind ih fun _ => only_pure

theorem only_loadEvents : loadEvents.Only Spares := only_bind (only_listRaw trivial) fun _ => only_getAll

theorem only_replay : replay.Only Spares := only_bind only_loadEvents fun _ => only_pure

theorem only_nextSequence : nextSequence.Only Spares := by
  apply only_bind only_loadEvents
  intro events
  exact only_bind only_reservedSequences fun _ => only_pure

end Only

def isEventKey : LedgerKey → Option String
  | .event eventId => some eventId
  | _ => none

def eventIds (s : Ledger) : List String :=
  ((s.list listed .events).filterMap isEventKey).insertionSort fun left right => eventPath left ≤ eventPath right

def events (s : Ledger) : List MetastoreEvent := (eventIds s).filterMap fun eventId => s.current (.event eventId)

variable {s s' : Ledger}

theorem toList_eventPath (eventId : String) :
    (eventPath eventId).toList = "ledger/metastore/".toList ++ (eventId.toList ++ ".json".toList) := by
  rw [← append_assoc, ← String.toList_append, ← String.toList_append]
  rfl

theorem eventPath_injective : Function.Injective eventPath := by
  intro left right same
  have chars := congrArg String.toList same
  rw [toList_eventPath, toList_eventPath, append_right_inj, append_left_inj] at chars
  exact String.toList_inj.mp chars

theorem mem_listed_events {eventId : String} :
    eventId ∈ (s.list listed .events).filterMap isEventKey ↔ (s.current (.event eventId)).isSome = true := by
  rw [mem_filterMap]
  constructor
  · rintro ⟨key, member, isKey⟩
    cases key with
    | event id =>
      obtain rfl := Option.some.inj isKey
      exact (mem_list.mp member).2
    | sequence number | watermark object => cases isKey
  · exact fun there => ⟨.event eventId, mem_list.mpr ⟨rfl, there⟩, rfl⟩

theorem nodup_listed_events : ((s.list listed .events).filterMap isEventKey).Nodup := by
  refine Nodup.filterMap ?_ nodup_list
  intro left right id isLeft isRight
  cases left <;> cases right <;> simp_all [isEventKey]

theorem mem_eventIds {eventId : String} : eventId ∈ eventIds s ↔ (s.current (.event eventId)).isSome = true := by
  rw [eventIds, mem_insertionSort, mem_listed_events]

theorem nodup_eventIds : (eventIds s).Nodup := (perm_insertionSort _ _).nodup_iff.mpr nodup_listed_events

theorem sorted_eventIds : (eventIds s).Pairwise fun left right => eventPath left ≤ eventPath right := by
  exact pairwise_insertionSort _ _

structure Added (event : MetastoreEvent) (s s' : Ledger) : Prop where
  absent : s.current (.event event.eventId) = none
  found : s'.current (.event event.eventId) = some event
  others : ∀ eventId, eventId ≠ event.eventId → s'.current (.event eventId) = s.current (.event eventId)

variable {event : MetastoreEvent} {loaded : List MetastoreEvent} {s₁ s₂ : Ledger}

theorem Added.eventIds (added : Added event s s') : Inserted event.eventId (eventIds s) (eventIds s') := by
  refine Sorted.inserted_of_mem (fun left right le ge => eventPath_injective (le_antisymm le ge)) sorted_eventIds
    sorted_eventIds nodup_eventIds nodup_eventIds ?_ fun eventId => ?_
  · rw [mem_eventIds, added.absent]
    simp
  · rw [mem_eventIds, mem_eventIds]
    by_cases same : eventId = event.eventId
    · subst same
      simp [added.found]
    · simp [same, added.others eventId same]

theorem Added.events (added : Added event s s') : Inserted event (events s) (events s') := by
  have inserted := added.eventIds.filterMap (f := fun eventId => s'.current (.event eventId)) added.found
  have same : (MetastoreLedger.eventIds s).filterMap (fun eventId => s'.current (.event eventId)) = MetastoreLedger.events s := by
    refine filterMap_congr fun eventId member => added.others eventId fun isNew => ?_
    rw [isNew, mem_eventIds, added.absent] at member
    cases member
  rwa [same] at inserted

theorem events_eq (same : ∀ eventId, s'.current (.event eventId) = s.current (.event eventId)) : events s' = events s := by
  have ids : eventIds s' = eventIds s := by
    refine Perm.eq_of_pairwise (fun left right _ _ le ge => eventPath_injective (le_antisymm le ge)) sorted_eventIds
      sorted_eventIds ((perm_ext_iff_of_nodup nodup_eventIds nodup_eventIds).mpr fun eventId => ?_)
    rw [mem_eventIds, mem_eventIds, same]
  rw [events, events, ids]
  exact filterMap_congr fun eventId _ => same eventId

def SameEvents (s s' : Ledger) : Prop := ∀ eventId, s'.current (.event eventId) = s.current (.event eventId)

theorem sameEvents_of_spares {op : LedgerOp} (spares : Spares op) (s : Ledger)
    (service : Storage.Service) : SameEvents s (serveObjects listed service op s).2 := by
  intro eventId
  cases op with
  | head k | get k | list l => rfl
  | put k value precondition =>
    simp only [serveObjects, conditionalPut]
    cases k with
    | event id => cases spares
    | sequence number | watermark object =>
      split <;> [rfl; (split <;> [exact current_put_of_ne (by simp); rfl])]
  | delete k =>
    simp only [serveObjects]
    cases k with
    | event id => cases spares
    | sequence number | watermark object => split <;> [rfl; exact current_delete_of_ne (by simp)]

theorem sameEvents_of_returns {α : Type} {x : LedgerProgram α} {a : α} (only : x.Only Spares)
    (returns : Returns listed x s a s') : SameEvents s s' :=
  Program.Only.runs only (fun _ _ => rfl)
    (fun _ _ _ first second eventId => (second eventId).trans (first eventId))
    (fun _ s service spares => sameEvents_of_spares spares s service) returns

theorem eq_of_returns_getAll {ids : List String} (returns : Returns listed (getAll ids) s loaded s') :
    loaded = ids.filterMap (fun eventId => s.current (.event eventId)) ∧ s' = s := by
  induction ids generalizing loaded s' with
  | nil => exact returns_pure.mp returns
  | cons eventId rest ih =>
    obtain ⟨event, isCurrent, returns⟩ := returns_found returns rfl
    obtain ⟨_, _, all, returns⟩ := returns_bind.mp returns
    obtain ⟨rfl, rfl⟩ := ih all
    obtain ⟨rfl, rfl⟩ := returns_pure.mp returns
    simp [isCurrent]

theorem eq_of_returns_loadEvents (returns : Returns listed loadEvents s loaded s') :
    loaded = events s ∧ s' = s := by
  obtain ⟨_, _, first, returns⟩ := returns_bind.mp returns
  obtain ⟨rfl, rfl⟩ := returns_listRaw first
  exact eq_of_returns_getAll returns

theorem eq_of_returns_replay {state : MetastoreState} (returns : Returns listed replay s state s') :
    state = replayEvents (events s) ∧ s' = s := by
  obtain ⟨_, _, first, returns⟩ := returns_bind.mp returns
  obtain ⟨rfl, rfl⟩ := eq_of_returns_loadEvents first
  exact returns_pure.mp returns

theorem not_returns_giveUp {reserved : Bool} {error : CatalogError} :
    ¬ Returns listed (giveUp reserved event error) s () s' := by
  intro returns
  unfold giveUp at returns
  split at returns
  · obtain ⟨_, _, _, returns⟩ := returns_bind.mp returns
    exact not_returns_throw returns
  · exact not_returns_throw returns

/-- The event was there before with the same content, and the events are as they were. -/
def Repeats (event : MetastoreEvent) (s s' : Ledger) : Prop :=
  SameEvents s s' ∧ ∃ existing, s.current (.event event.eventId) = some existing ∧
    MetastoreEvent.sameContent existing event = true

theorem added_of_returns_writeEvent {reserved : Bool}
    (returns : Returns listed (writeEvent reserved event) s () s') : Added event s s' ∨ Repeats event s s' := by
  obtain ⟨_, _, first, returns⟩ := returns_bind.mp returns
  obtain rfl | ⟨rfl, -, rfl⟩ | ⟨rfl, allowed, rfl⟩ := returns_tryPut first
  · exact absurd returns not_returns_giveUp
  · right
    obtain ⟨existing, isCurrent, returns⟩ := returns_found returns rfl
    dsimp only at returns
    split at returns
    · rename_i same
      obtain ⟨-, rfl⟩ := returns_pure.mp returns
      exact ⟨fun _ => rfl, existing, isCurrent, same⟩
    · exact absurd returns not_returns_giveUp
  · left
    obtain ⟨-, rfl⟩ := returns_pure.mp returns
    refine ⟨by simpa [allows] using allowed, current_put_self, fun eventId other => ?_⟩
    exact current_put_of_ne (by simpa using other)

theorem Added.around (before : SameEvents s s₁) (added : Added event s₁ s₂) (after : SameEvents s₂ s') : Added event s s' where
  absent := (before _).symm.trans added.absent
  found := (after _).trans added.found
  others eventId other := (after _).trans ((added.others eventId other).trans (before _))

theorem Repeats.around (before : SameEvents s s₁) (repeats : Repeats event s₁ s₂) (after : SameEvents s₂ s') :
    Repeats event s s' := by
  obtain ⟨same, existing, isCurrent, content⟩ := repeats
  exact ⟨fun eventId => (after _).trans ((same _).trans (before _)), existing, (before _).symm.trans isCurrent, content⟩

theorem added_of_returns_appendEvent {storage : StorageScope}
    (returns : Returns listed (appendEvent storage event) s () s') : Added event s s' ∨ Repeats event s s' := by
  obtain ⟨_, s₁, first, returns⟩ := returns_bind.mp returns
  have same₁ : SameEvents s s₁ := by
    refine sameEvents_of_returns ?_ first
    cases validateEventScope storage event <;> exact trivial
  obtain ⟨_, s₂, second, returns⟩ := returns_bind.mp returns
  have same₂ : SameEvents s s₂ := fun eventId =>
    (sameEvents_of_returns only_reserve second eventId).trans (same₁ eventId)
  obtain ⟨_, s₃, third, returns⟩ := returns_bind.mp returns
  obtain ⟨rfl, rfl⟩ := returns_headRaw third
  cases isHead : s₃.head (.event event.eventId) with
  | none =>
    rw [isHead] at returns
    obtain ⟨_, s₄, fourth, returns⟩ := returns_bind.mp returns
    obtain ⟨_, _, fifth, returns⟩ := returns_bind.mp returns
    have before : SameEvents s s₄ := fun eventId =>
      (sameEvents_of_returns only_updateWatermarkMarkerInner fourth eventId).trans (same₂ eventId)
    have after := sameEvents_of_returns only_updateLatestWatermark returns
    obtain added | repeats := added_of_returns_writeEvent fifth
    · exact .inl (.around before added after)
    · exact .inr (.around before repeats after)
  | some version =>
    right
    rw [isHead] at returns
    obtain ⟨existing, isCurrent, returns⟩ := returns_found returns rfl
    dsimp only at returns
    split at returns
    · rename_i content
      exact .around same₂ ⟨fun _ => rfl, existing, isCurrent, content⟩
        (sameEvents_of_returns only_updateLatestWatermark returns)
    · exact absurd returns not_returns_giveUp

end Arco.Metastore.MetastoreLedger
