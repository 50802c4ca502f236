import Arco.Catalog.Executions

/-! Which event decides about a materialization.

The one with the highest sequence position should, however the events are split into compactions. The
positions are only compared within one compaction: a snapshot does not keep them. Moreover a second
event with the same idempotency key is skipped within one compaction, though it may be the newest.
-/

namespace Arco.Catalog

open Keyed Folding List

namespace MaterializationEvent

def materializationId (event : MaterializationEvent) : String := event.record.materializationId

def position (event : MaterializationEvent) : Nat := event.sequencePosition.getD 0

def entry (event : MaterializationEvent) : RecordWithSequence := ⟨event.record, event.sequencePosition⟩

end MaterializationEvent

open MaterializationEvent

structure Numbered (events : List MaterializationEvent) : Prop where
  positioned : ∀ event ∈ events, event.sequencePosition.isSome = true
  distinct : ∀ event ∈ events, ∀ other ∈ events, event.sequencePosition = other.sequencePosition → event = other

/-- No event of the same materialization has a higher position. -/
def Newest (events : List MaterializationEvent) (event : MaterializationEvent) : Prop :=
  event ∈ events ∧ ∀ other ∈ events, other.materializationId = event.materializationId → other.position ≤ event.position

instance (events : List MaterializationEvent) (event : MaterializationEvent) : Decidable (Newest events event) :=
  inferInstanceAs (Decidable (_ ∧ _))

namespace Numbered

variable {events events' : List MaterializationEvent}

theorem mono (numbered : Numbered events) (subset : events' ⊆ events) : Numbered events' where
  positioned event member := numbered.positioned event (subset member)
  distinct event member other member' := numbered.distinct event (subset member) other (subset member')

variable {event other : MaterializationEvent}

theorem eq_of_position (numbered : Numbered events) (member : event ∈ events) (member' : other ∈ events)
    (same : event.position = other.position) : event = other := by
  refine numbered.distinct event member other member' ?_
  obtain ⟨m, isPosition⟩ := Option.isSome_iff_exists.mp (numbered.positioned event member)
  obtain ⟨n, isPosition'⟩ := Option.isSome_iff_exists.mp (numbered.positioned other member')
  simp only [position, isPosition, isPosition', Option.getD_some] at same
  rw [isPosition, isPosition', same]

theorem newest_unique (numbered : Numbered events) (newest : Newest events event) (newest' : Newest events other)
    (same : event.materializationId = other.materializationId) : event = other := by
  have above := newest.2 other newest'.1 same.symm
  have below := newest'.2 event newest.1 same
  exact numbered.eq_of_position newest.1 newest'.1 (by omega)

end Numbered

/-- The events of a batch that are not skipped, when some idempotency keys were seen. -/
def keptEvents : (seen : List String) → List MaterializationEvent → List MaterializationEvent
  | _, [] => []
  | seen, event :: events =>
    if event.idempotencyKey ∈ seen then keptEvents seen events
    else event :: keptEvents (event.idempotencyKey :: seen) events

theorem keptEvents_subset (seen : List String) (events : List MaterializationEvent) : keptEvents seen events ⊆ events := by
  induction events generalizing seen with
  | nil => simp [keptEvents]
  | cons event events ih =>
    unfold keptEvents
    split
    · exact fun _ member => mem_cons_of_mem _ (ih seen member)
    · exact cons_subset_cons _ (ih _)

def upsertEvents (records : Table RecordWithSequence.key) (events : List MaterializationEvent) :
    Table RecordWithSequence.key :=
  events.foldl (fun records event => upsert records event.entry) records

namespace Folding

theorem foldl_apply (folding : Folding) (events : List MaterializationEvent) :
    (events.foldl apply folding).recordsByKey =
        upsertEvents folding.recordsByKey (keptEvents folding.seenIdempotencyKeys events) ∧
      (events.foldl apply folding).eventsApplied =
        folding.eventsApplied + (keptEvents folding.seenIdempotencyKeys events).length := by
  induction events generalizing folding with
  | nil => exact ⟨rfl, rfl⟩
  | cons event events ih =>
    obtain ⟨records, applied⟩ := ih (folding.apply event)
    rw [foldl_cons, records, applied]
    by_cases seen : event.idempotencyKey ∈ folding.seenIdempotencyKeys
    · simp [apply, keptEvents, seen]
    · refine ⟨by simp [apply, keptEvents, seen, upsertEvents, entry], ?_⟩
      simp only [apply, keptEvents, seen, if_false, length_cons]
      omega

theorem mem_records {folding : Folding} {record : MaterializationRecord} : record ∈ folding.records ↔
      ∃ position, folding.recordsByKey.find record.materializationId = some ⟨record, position⟩ := by
  simp only [records, mem_insertionSort, mem_map]
  constructor
  · rintro ⟨row, member, rfl⟩
    exact ⟨row.sequencePosition, Table.find_of_mem member⟩
  · rintro ⟨_, found⟩
    exact ⟨_, Table.mem_of_find found, rfl⟩

theorem find_ofSnapshot {existing : List MaterializationRecord} {id : String} {row : RecordWithSequence}
    (found : (ofSnapshot existing).recordsByKey.find id = some row) : row.sequencePosition = none := by
  have cases := Table.find_upsertAll_cases (Table.empty : Table RecordWithSequence.key)
    (existing.map fun record => ⟨record, none⟩) id
  simp only [ofSnapshot] at found
  rw [found] at cases
  obtain ⟨_, member, _, same⟩ | ⟨_, same⟩ := cases
  · obtain ⟨_, _, rfl⟩ := mem_map.mp member
    cases same
    rfl
  · cases same

end Folding

variable {records : Table RecordWithSequence.key} {row : RecordWithSequence} {event : MaterializationEvent}
  {events : List MaterializationEvent} {record : MaterializationRecord}

theorem find_upsert_of_ne {id : String} (other : row.key ≠ id) : (upsert records row).find id = records.find id := by
  unfold upsert
  split
  · split
    · exact Table.find_upsert_of_ne other
    · rfl
  · exact Table.find_upsert_of_ne other

theorem find_upsert_of_replace
    (replaces : ∀ existing, records.find row.key = some existing →
      shouldReplaceSequence existing.sequencePosition row.sequencePosition = true) :
    (upsert records row).find row.key = some row := by
  unfold upsert
  split
  · rename_i existing found
    rw [if_pos (replaces existing found), Table.find_upsert_self]
  · exact Table.find_upsert_self records row

theorem upsert_of_keep {existing : RecordWithSequence} (found : records.find row.key = some existing)
    (keeps : shouldReplaceSequence existing.sequencePosition row.sequencePosition = false) :
    upsert records row = records := by
  simp [upsert, found, keeps]

theorem shouldReplace_iff {other : MaterializationEvent} (positioned : event.sequencePosition.isSome = true)
    (positioned' : other.sequencePosition.isSome = true) :
    shouldReplaceSequence event.sequencePosition other.sequencePosition = true ↔ event.position ≤ other.position := by
  obtain ⟨m, isPosition⟩ := Option.isSome_iff_exists.mp positioned
  obtain ⟨n, isPosition'⟩ := Option.isSome_iff_exists.mp positioned'
  simp [shouldReplaceSequence, position, isPosition, isPosition']

theorem Newest.append {best : MaterializationEvent} (newest : Newest events best)
    (below : event.materializationId = best.materializationId → event.position ≤ best.position) :
    Newest (events ++ [event]) best := by
  refine ⟨mem_append_left _ newest.1, fun other member same => ?_⟩
  obtain old | new := mem_append.mp member
  · exact newest.2 other old same
  · obtain rfl := mem_singleton.mp new
    exact below same

theorem find_upsertEvents (id : String)
    (unpositioned : ∀ row, records.find id = some row → row.sequencePosition = none)
    (positioned : ∀ event ∈ events, event.sequencePosition.isSome = true) :
    ((∀ event ∈ events, event.materializationId ≠ id) ∧ (upsertEvents records events).find id = records.find id) ∨
      ∃ best, Newest events best ∧ best.materializationId = id ∧
        (upsertEvents records events).find id = some best.entry := by
  induction events using reverseRecOn with
  | nil => exact .inl ⟨by simp, rfl⟩
  | append_singleton events event ih =>
    have step : upsertEvents records (events ++ [event]) = upsert (upsertEvents records events) event.entry := by
      simp [upsertEvents]
    have isEvent := positioned event (by simp)
    specialize ih fun other member => positioned other (mem_append_left _ member)
    rw [step]
    by_cases here : event.materializationId = id
    · subst here
      refine .inr ?_
      obtain ⟨foreign, found⟩ | ⟨best, newest, same, found⟩ := ih
      · -- The first event replaces what the snapshot has.
        refine ⟨event, ⟨by simp, fun other member same => ?_⟩, rfl, find_upsert_of_replace fun existing isExisting => ?_⟩
        · obtain old | new := mem_append.mp member
          · exact absurd same (foreign other old)
          · rw [mem_singleton.mp new]
        · rw [unpositioned existing (found ▸ isExisting)]
          rfl
      · have isBest := positioned best (mem_append_left _ newest.1)
        by_cases later : best.position ≤ event.position
        · refine ⟨event, ⟨by simp, fun other member isSame => ?_⟩, rfl, find_upsert_of_replace fun existing isExisting => ?_⟩
          · obtain old | new := mem_append.mp member
            · exact (newest.2 other old (isSame.trans same.symm)).trans later
            · rw [mem_singleton.mp new]
          · obtain rfl := Option.some.inj (found.symm.trans isExisting)
            exact (shouldReplace_iff isBest isEvent).mpr later
        · refine ⟨best, newest.append fun _ => by omega, same, ?_⟩
          have keeps : shouldReplaceSequence best.sequencePosition event.sequencePosition = false :=
            Bool.eq_false_iff.mpr fun replaces => later ((shouldReplace_iff isBest isEvent).mp replaces)
          have kept : upsert (upsertEvents records events) event.entry = upsertEvents records events :=
            upsert_of_keep found keeps
          rw [kept, found]
    · have unchanged : (upsert (upsertEvents records events) event.entry).find id =
          (upsertEvents records events).find id := find_upsert_of_ne here
      rw [unchanged]
      obtain ⟨foreign, found⟩ | ⟨best, newest, same, found⟩ := ih
      · refine .inl ⟨fun other member => ?_, found⟩
        obtain old | new := mem_append.mp member
        · exact foreign other old
        · rwa [mem_singleton.mp new]
      · exact .inr ⟨best, newest.append fun isSame => absurd (isSame.trans same) here, same, found⟩

def Shows (records : List MaterializationRecord) (record : MaterializationRecord) : Prop :=
  record ∈ records ∧ ∀ other ∈ records, other.materializationId = record.materializationId → other = record

theorem shows_records {folding : Folding} {position : Option Nat}
    (found : folding.recordsByKey.find record.materializationId = some ⟨record, position⟩) :
    Shows folding.records record := by
  refine ⟨mem_records.mpr ⟨position, found⟩, fun other member same => ?_⟩
  obtain ⟨_, found'⟩ := mem_records.mp member
  rw [same, found] at found'
  cases found'
  rfl

theorem Shows.find_ofSnapshot {records : List MaterializationRecord} (shown : Shows records record) :
    (ofSnapshot records).recordsByKey.find record.materializationId = some ⟨record, none⟩ := by
  have isRow : (⟨record, none⟩ : RecordWithSequence) ∈ records.map fun record => ⟨record, none⟩ :=
    mem_map.mpr ⟨record, shown.1, rfl⟩
  refine Table.find_upsertAll_of_mem isRow fun row member same => ?_
  obtain ⟨other, isRecord, rfl⟩ := mem_map.mp member
  rw [shown.2 other isRecord same]

/-- A batch that has an event of a materialization has its newest one, and does not skip it. -/
def HasNewest (events delivered : List MaterializationEvent) : Prop :=
  ∀ event ∈ events, ∃ last ∈ keptEvents [] events, last.materializationId = event.materializationId ∧
    Newest (events ++ delivered) last

instance (events delivered : List MaterializationEvent) : Decidable (HasNewest events delivered) :=
  inferInstanceAs (Decidable (∀ _ ∈ _, _))

theorem shows_upsertBatch {records : List MaterializationRecord} {delivered : List MaterializationEvent}
    (numbered : Numbered (events ++ delivered))
    (shown : ∀ event, Newest delivered event → Shows records event.record) (hasNewest : HasNewest events delivered)
    (newest : Newest (events ++ delivered) event) :
    Shows (upsertBatch records events) event.record := by
  have older : (∀ other ∈ events, other.materializationId ≠ event.materializationId) → Newest delivered event := by
    intro foreign
    refine ⟨(mem_append.mp newest.1).resolve_left fun member => foreign event member rfl, fun other member => ?_⟩
    exact newest.2 other (mem_append_right _ member)
  dsimp only [upsertBatch]
  rw [(foldl_apply _ events).2]
  split
  case isFalse notApplied =>
    have isNil : keptEvents [] events = [] := by
      simpa [ofSnapshot] using notApplied
    refine shown event (older fun other member => ?_)
    obtain ⟨last, isKept, _⟩ := hasNewest other member
    simp [isNil] at isKept
  case isTrue =>
    have subset := keptEvents_subset [] events
    have positioned : ∀ other ∈ keptEvents [] events, other.sequencePosition.isSome = true :=
      fun other member => numbered.positioned other (mem_append_left _ (subset member))
    have unpositioned : ∀ row, (ofSnapshot records).recordsByKey.find event.materializationId = some row →
      row.sequencePosition = none := fun _ found => find_ofSnapshot found
    have outcome := find_upsertEvents event.materializationId unpositioned positioned
    have isTable : (events.foldl apply (.ofSnapshot records)).recordsByKey =
      upsertEvents (ofSnapshot records).recordsByKey (keptEvents [] events) :=
      (foldl_apply _ events).1
    rw [← isTable] at outcome
    by_cases occurs : ∃ other ∈ events, other.materializationId = event.materializationId
    · obtain ⟨other, member, same⟩ := occurs
      obtain ⟨last, isKept, isSame, isNewest⟩ := hasNewest other member
      obtain rfl := numbered.newest_unique isNewest newest (isSame.trans same)
      obtain ⟨foreign, _⟩ | ⟨best, isBest, same', found⟩ := outcome
      · exact absurd rfl (foreign last isKept)
      · -- The best event of the batch is the newest of all.
        have above := isBest.2 last isKept same'.symm
        have inside := mem_append_left delivered (subset isBest.1)
        have below := newest.2 best inside same'
        obtain rfl := numbered.eq_of_position inside newest.1 (by omega)
        exact shows_records found
    · have foreign : ∀ other ∈ events, other.materializationId ≠ event.materializationId :=
        fun other member same => occurs ⟨other, member, same⟩
      have before := (shown event (older foreign)).find_ofSnapshot
      obtain ⟨_, found⟩ | ⟨best, isBest, same, _⟩ := outcome
      · exact shows_records (found.trans before)
      · exact absurd same (foreign best (subset isBest.1))

namespace Executions

def delivered (keys : IdempotencyKeys) (executions : Executions) : List MaterializationEvent :=
  executions.batches.flatMap (foldedEvents keys)

/-- Whenever a compaction has an event of a materialization, it has the newest one that was delivered so far and
does not skip it. -/
def KeepsNewest (keys : IdempotencyKeys) (executions : Executions) (operation : Operation) : Prop :=
  HasNewest (foldedEvents keys (executions.batch operation)) (executions.delivered keys)

instance (keys : IdempotencyKeys) (executions : Executions) (operation : Operation) :
    Decidable (executions.KeepsNewest keys operation) := inferInstanceAs (Decidable (HasNewest _ _))

theorem shows_newest_of_runs {keys : IdempotencyKeys} {start executions : Executions} (isEmpty : start.batches = [])
    (runs : Runs keys (KeepsNewest keys) start executions) :
    Numbered (executions.delivered keys) →
      ∀ event, Newest (executions.delivered keys) event → Shows executions.visible.records event.record := by
  refine runs.invariant_of_takes (fun e => Numbered (e.delivered keys) → ∀ event, Newest (e.delivered keys) event →
    Shows e.visible.records event.record) ?_ ?_
  · intro executions operation executions' holds keepsNewest takes
    cases takes with
    | duplicate | append _ | collect => exact holds
    | compact selected found compacted =>
      intro numbered event newest
      rw [Visible.records_of_compact (readEvents_spec found).length_eq compacted]
      rw [KeepsNewest, batch_of_compact selected found] at keepsNewest
      exact shows_upsertBatch numbered (holds (numbered.mono (subset_append_right _ _))) keepsNewest newest
  · intro _ event newest
    simp [delivered, isEmpty, Newest] at newest

/-- The record of each materialization is the one of its newest event, in every run whose compactions have the
newest event of each materialization that they have an event of. -/
theorem newest_event_wins {keys : IdempotencyKeys} {start executions : Executions} (isEmpty : start.batches = [])
    (runs : Runs keys (KeepsNewest keys) start executions) (numbered : Numbered (executions.delivered keys))
    {event : MaterializationEvent} (newest : Newest (executions.delivered keys) event) (record : MaterializationRecord) :
    record ∈ executions.visible.records ∧ record.materializationId = event.record.materializationId ↔
      record = event.record := by
  obtain ⟨member, only⟩ := shows_newest_of_runs isEmpty runs numbered event newest
  constructor
  · rintro ⟨isRecord, same⟩
    exact only record isRecord same
  · rintro rfl
    exact ⟨member, rfl⟩

section Samples

/-- The idempotency key is the hash of the record. -/
def sampleEvent (assetId : String) (position : Nat) : MaterializationEvent :=
  ⟨assetId, sampleRecord assetId, some position⟩

def firstPath : String := CatalogDomain.executions.ledgerEvent "01"

def secondPath : String := CatalogDomain.executions.ledgerEvent "02"

def thirdPath : String := CatalogDomain.executions.ledgerEvent "03"

def appendFirst : Operation := .append firstPath (some 1) (sampleFile "orders" 1)

def appendSecond : Operation := .append secondPath (some 2) (sampleFile "customers" 2)

/-- The same record as the first event has, at a later position. -/
def appendThird : Operation := .append thirdPath (some 3) (sampleFile "orders" 3)

end Samples

theorem newest_event_wins_in_order :
    ∃ executions : Executions, executions.delivered sampleKeys = [sampleEvent "customers" 2, sampleEvent "orders" 1] ∧
      ∀ record, record ∈ executions.visible.records ∧ record.materializationId = "m1" ↔
        record = sampleRecord "customers" := by
  obtain ⟨executions, runs, isDelivered⟩ : ∃ executions, Runs sampleKeys (KeepsNewest sampleKeys) fresh executions ∧
      executions.delivered sampleKeys = [sampleEvent "customers" 2, sampleEvent "orders" 1] :=
    ⟨_, ((((Runs.refl : Runs sampleKeys (KeepsNewest sampleKeys) fresh fresh).step appendFirst (by decide +kernel)).step
      appendSecond (by decide +kernel)).step (compactPaths [firstPath] 10) (by decide +kernel)).step
      (compactPaths [secondPath] 20) (by decide +kernel), by decide +kernel⟩
  have numbered : Numbered (executions.delivered sampleKeys) := by
    rw [isDelivered]
    exact ⟨by decide, by decide⟩
  have newest : Newest (executions.delivered sampleKeys) (sampleEvent "customers" 2) := by
    rw [isDelivered]
    decide
  exact ⟨executions, isDelivered, newest_event_wins rfl runs numbered newest⟩

/-- A late event replaces a newer one that was compacted before it, and an event is skipped for an older one with
the same idempotency key though one in between is different. -/
theorem older_event_wins : (∃ executions : Executions, Runs sampleKeys (fun _ _ => True) fresh executions ∧
      executions.delivered sampleKeys = [sampleEvent "orders" 1, sampleEvent "customers" 2] ∧
      Numbered (executions.delivered sampleKeys) ∧ executions.visible.records = [sampleRecord "orders"]) ∧
    ∃ executions : Executions, Runs sampleKeys (fun _ _ => True) fresh executions ∧
      executions.delivered sampleKeys = [sampleEvent "orders" 1, sampleEvent "customers" 2, sampleEvent "orders" 3] ∧
      Numbered (executions.delivered sampleKeys) ∧ executions.visible.records = [sampleRecord "customers"] := by
  constructor
  · obtain ⟨executions, runs, isDelivered, isVisible⟩ : ∃ executions, Runs sampleKeys (fun _ _ => True) fresh executions ∧
        executions.delivered sampleKeys = [sampleEvent "orders" 1, sampleEvent "customers" 2] ∧
        executions.visible.records = [sampleRecord "orders"] :=
      ⟨_, runs_run fresh sampleKeys [appendFirst, appendSecond, compactPaths [secondPath] 10,
        compactPaths [firstPath] 20], by decide +kernel, by decide +kernel⟩
    refine ⟨executions, runs, isDelivered, ?_, isVisible⟩
    rw [isDelivered]
    exact ⟨by decide, by decide⟩
  · obtain ⟨executions, runs, isDelivered, isVisible⟩ : ∃ executions, Runs sampleKeys (fun _ _ => True) fresh executions ∧
        executions.delivered sampleKeys = [sampleEvent "orders" 1, sampleEvent "customers" 2, sampleEvent "orders" 3] ∧
        executions.visible.records = [sampleRecord "customers"] :=
      ⟨_, runs_run fresh sampleKeys [appendFirst, appendSecond, appendThird,
        compactPaths [firstPath, secondPath, thirdPath] 10], by decide +kernel, by decide +kernel⟩
    refine ⟨executions, runs, isDelivered, ?_, isVisible⟩
    rw [isDelivered]
    exact ⟨by decide, by decide⟩

end Executions

end Arco.Catalog
