import Arco.Iceberg.Metadata

/-! Well-formed table metadata, and the updates that keep it so.

Updates that select something check that it is there. Updates that add something do not check whether
its identifier is taken, a reference may name a snapshot that does not exist, and the counter of the
columns is raised to the fields of a schema but not to those nested in their types.
-/

namespace Arco.Iceberg

open Results (bind_eq_ok)
open List Std.TreeMap TableMetadata Except

def assignedId (member : String) : Document → List Int
  | .number value => if member ∈ ["id", "element-id", "key-id", "value-id"] then [value] else []
  | .null | .boolean _ | .text _ | .array _ | .object _ => []

mutual

def Document.fieldIds : Document → List Int
  | .object members => memberFieldIds members
  | .array items => itemFieldIds items
  | .null | .boolean _ | .number _ | .text _ => []

def itemFieldIds : List Document → List Int
  | [] => []
  | item :: items => item.fieldIds ++ itemFieldIds items

def memberFieldIds : List (String × Document) → List Int
  | [] => []
  | (name, value) :: members => assignedId name value ++ value.fieldIds ++ memberFieldIds members

end

def Schema.fieldIds (schema : Schema) : List Int := schema.fields.flatMap fun field => field.id :: field.fieldType.fieldIds

structure TableMetadata.WellFormed (metadata : TableMetadata) : Prop where
  schemaIds : metadata.schemaIds.Nodup
  specIds : metadata.specIds.Nodup
  sortOrderIds : metadata.sortOrderIds.Nodup
  snapshotIds : metadata.snapshotIds.Nodup
  currentSchema : metadata.currentSchemaId ∈ metadata.schemaIds
  defaultSpec : metadata.defaultSpecId ∈ metadata.specIds
  defaultSortOrder : metadata.defaultSortOrderId ∈ metadata.sortOrderIds
  refs : ∀ (name : String) (ref : SnapshotRefMetadata), metadata.refs[name]? = some ref → ref.snapshotId ∈ metadata.snapshotIds
  currentSnapshot : ∀ id, metadata.currentSnapshotId = some id → id ∈ metadata.snapshotIds
  mainRef : metadata.currentSnapshotId = metadata.refs["main"]?.map SnapshotRefMetadata.snapshotId
  columnIds : ∀ schema ∈ metadata.schemas, ∀ id ∈ schema.fieldIds, id ≤ metadata.lastColumnId
  partitionIds : ∀ spec ∈ metadata.partitionSpecs, ∀ field ∈ spec.fields, field.fieldId ≤ metadata.lastPartitionId
  sequenceNumbers : ∀ snapshot ∈ metadata.snapshots, snapshot.sequenceNumber ≤ metadata.lastSequenceNumber

/-- What an update has to respect by itself: new identifiers are new, a reference names a snapshot, and
nested fields are below a column identifier that is counted. -/
def TableUpdate.Fits (metadata : TableMetadata) : TableUpdate → Prop
  | .addSchema schema lastColumnId => schema.schemaId ∉ metadata.schemaIds ∧ ∀ id ∈ schema.fieldIds,
      id ≤ metadata.lastColumnId ∨ (∃ field ∈ schema.fields, id ≤ field.id) ∨ ∃ last, lastColumnId = some last ∧ id ≤ last
  | .addPartitionSpec spec => spec.specId ∉ metadata.specIds
  | .addSortOrder sortOrder => sortOrder.orderId ∉ metadata.sortOrderIds
  | .addSnapshot snapshot => snapshot.snapshotId ∉ metadata.snapshotIds
  | .setSnapshotRef _ _ snapshotId => snapshotId ∈ metadata.snapshotIds
  | .assignUuid _ | .upgradeFormatVersion _ | .setCurrentSchema _ | .setDefaultSpec _ | .setDefaultSortOrder _
  | .removeSnapshotRef _ | .removeSnapshots _ | .setLocation _ | .setProperties _ | .removeProperties _ => True

theorem le_raisedTo_iff {last id : Int} {numbers : List Int} :
    id ≤ raisedTo last numbers ↔ id ≤ last ∨ ∃ number ∈ numbers, id ≤ number := by
  unfold raisedTo
  induction numbers generalizing last with
  | nil => simp
  | cons number numbers ih => simp [ih, or_assoc]

theorem le_raisedTo (last : Int) (numbers : List Int) : last ≤ raisedTo last numbers :=
  le_raisedTo_iff.mpr (.inl le_rfl)

section Updates

variable {metadata metadata' : TableMetadata}

theorem setExisting_eq_ok {ids : List Int} {id : Int} {message : String} {changed : TableMetadata} :
    setExisting ids id message changed = .ok metadata' ↔ id ∈ ids ∧ changed = metadata' := by
  unfold setExisting
  split <;> simp_all

theorem nodup_append_singleton {ids : List Int} {id : Int} (distinct : ids.Nodup) : (ids ++ [id]).Nodup ↔ id ∉ ids := by
  rw [nodup_append]
  simp only [nodup_cons, not_mem_nil, not_false_eq_true, nodup_nil, and_self, mem_singleton,
    forall_eq, distinct, true_and]
  exact ⟨fun apart member => apart id member rfl, fun absent other member same => absent (same ▸ member)⟩

theorem addSchema_eq_ok {schema : Schema} {lastColumnId : Option Int}
    (added : metadata.addSchema schema lastColumnId = .ok metadata') :
    ∃ last, metadata' = { metadata with schemas := metadata.schemas ++ [schema], lastColumnId := last } ∧
      metadata.lastColumnId ≤ last ∧ ∀ id, id ≤ last ↔
        id ≤ metadata.lastColumnId ∨ (∃ field ∈ schema.fields, id ≤ field.id) ∨
          ∃ given, lastColumnId = some given ∧ id ≤ given := by
  have raised : ∀ id, id ≤ raisedTo metadata.lastColumnId (schema.fields.map SchemaField.id) ↔
      id ≤ metadata.lastColumnId ∨ ∃ field ∈ schema.fields, id ≤ field.id := by
    intro id
    simp [le_raisedTo_iff]
  cases lastColumnId with
  | none =>
    obtain rfl := ok.inj added
    refine ⟨_, rfl, le_raisedTo _ _, fun id => ?_⟩
    simp [raised]
  | some given =>
    simp only [addSchema] at added
    split at added
    · cases added
    · rename_i enough
      obtain rfl := ok.inj added
      have above := not_lt.mp enough
      refine ⟨given, rfl, (le_raisedTo _ _).trans above, fun id => ?_⟩
      constructor
      · intro below
        exact .inr (.inr ⟨given, rfl, below⟩)
      · rintro (old | field | ⟨_, same, below⟩)
        · exact ((raised id).mpr (.inl old)).trans above
        · exact ((raised id).mpr (.inr field)).trans above
        · obtain rfl := Option.some.inj same
          exact below

section

variable (wellFormed : metadata.WellFormed)
include wellFormed

theorem wellFormed_addSchema_iff {schema : Schema} {lastColumnId : Option Int}
    (added : metadata.addSchema schema lastColumnId = .ok metadata') :
    metadata'.WellFormed ↔ (TableUpdate.addSchema schema lastColumnId).Fits metadata := by
  obtain ⟨last, rfl, grows, below⟩ := addSchema_eq_ok added
  have ids : schemaIds { metadata with schemas := metadata.schemas ++ [schema], lastColumnId := last } =
      metadata.schemaIds ++ [schema.schemaId] := by
    simp [schemaIds]
  constructor
  · intro after
    refine ⟨(nodup_append_singleton wellFormed.schemaIds).mp (ids ▸ after.schemaIds), fun id isField => ?_⟩
    exact (below id).mp (after.columnIds schema (by simp) id isField)
  · rintro ⟨new, counted⟩
    refine { wellFormed with
      schemaIds := ids ▸ (nodup_append_singleton wellFormed.schemaIds).mpr new
      currentSchema := ids ▸ mem_append_left _ wellFormed.currentSchema
      columnIds := ?_ }
    intro other isSchema id isField
    obtain old | isNew := mem_append.mp isSchema
    · exact (wellFormed.columnIds other old id isField).trans grows
    · obtain rfl := mem_singleton.mp isNew
      exact (below id).mpr (counted id isField)

theorem wellFormed_addPartitionSpec_iff {spec : PartitionSpec} : WellFormed { metadata with
      lastPartitionId := raisedTo metadata.lastPartitionId (spec.fields.map PartitionField.fieldId)
      partitionSpecs := metadata.partitionSpecs ++ [spec] } ↔ spec.specId ∉ metadata.specIds := by
  rw [← nodup_append_singleton wellFormed.specIds]
  constructor
  · intro after
    simpa [specIds] using after.specIds
  · intro distinct
    refine { wellFormed with
      specIds := by simpa [specIds] using distinct
      defaultSpec := ?_
      partitionIds := ?_ }
    · simp only [specIds, map_append]
      exact mem_append_left _ wellFormed.defaultSpec
    · intro other isSpec field isField
      obtain old | isNew := mem_append.mp isSpec
      · exact (wellFormed.partitionIds other old field isField).trans (le_raisedTo _ _)
      · obtain rfl := mem_singleton.mp isNew
        exact le_raisedTo_iff.mpr (.inr ⟨field.fieldId, mem_map_of_mem isField, le_rfl⟩)

theorem wellFormed_addSortOrder_iff {sortOrder : SortOrder} :
    WellFormed { metadata with sortOrders := metadata.sortOrders ++ [sortOrder] } ↔
      sortOrder.orderId ∉ metadata.sortOrderIds := by
  rw [← nodup_append_singleton wellFormed.sortOrderIds]
  constructor
  · intro after
    simpa [sortOrderIds] using after.sortOrderIds
  · intro distinct
    refine { wellFormed with
      sortOrderIds := by simpa [sortOrderIds] using distinct
      defaultSortOrder := ?_ }
    simp only [sortOrderIds, map_append]
    exact mem_append_left _ wellFormed.defaultSortOrder

theorem wellFormed_addSnapshot_iff {snapshot : Snapshot} : WellFormed { metadata with
      lastSequenceNumber := max metadata.lastSequenceNumber snapshot.sequenceNumber
      snapshots := metadata.snapshots ++ [snapshot] } ↔ snapshot.snapshotId ∉ metadata.snapshotIds := by
  rw [← nodup_append_singleton wellFormed.snapshotIds]
  constructor
  · intro after
    simpa [snapshotIds] using after.snapshotIds
  · intro distinct
    have ids : ∀ id ∈ metadata.snapshotIds, id ∈ (metadata.snapshots ++ [snapshot]).map Snapshot.snapshotId := by
      intro id member
      rw [map_append]
      exact mem_append_left _ member
    refine { wellFormed with
      snapshotIds := by simpa [snapshotIds] using distinct
      refs := fun name ref found => ids _ (wellFormed.refs name ref found)
      currentSnapshot := fun id isCurrent => ids _ (wellFormed.currentSnapshot id isCurrent)
      sequenceNumbers := ?_ }
    intro other isSnapshot
    obtain old | isNew := mem_append.mp isSnapshot
    · exact (wellFormed.sequenceNumbers other old).trans (le_max_left _ _)
    · obtain rfl := mem_singleton.mp isNew
      exact le_max_right _ _

theorem wellFormed_setSnapshotRef_iff {now : Int} {refName : String}
    {refType : UpdateSnapshotRefType} {snapshotId : Int} :
    (metadata.setSnapshotRef now refName refType snapshotId).WellFormed ↔ snapshotId ∈ metadata.snapshotIds := by
  constructor
  · intro after
    have found : (metadata.setSnapshotRef now refName refType snapshotId).refs[refName]? =
        some { snapshotId, refType := refType.text } := by
      unfold setSnapshotRef
      split <;> simp
    have ids : (metadata.setSnapshotRef now refName refType snapshotId).snapshotIds = metadata.snapshotIds := by
      unfold setSnapshotRef
      split <;> rfl
    exact ids ▸ after.refs refName _ found
  · intro isSnapshot
    have inserted : ∀ (name : String) (ref : SnapshotRefMetadata),
        (metadata.refs.insert refName { snapshotId, refType := refType.text })[name]? = some ref →
        ref.snapshotId ∈ metadata.snapshotIds := by
      intro name ref found
      rw [Std.TreeMap.getElem?_insert] at found
      split at found
      · obtain rfl := Option.some.inj found
        exact isSnapshot
      · exact wellFormed.refs name ref found
    unfold setSnapshotRef
    split
    · rename_i isMain
      subst isMain
      refine { wellFormed with
        refs := inserted
        currentSnapshot := fun id isCurrent => Option.some.inj isCurrent ▸ isSnapshot
        mainRef := by simp }
    · rename_i other
      refine { wellFormed with
        refs := inserted
        mainRef := ?_ }
      simp [Std.TreeMap.getElem?_insert, other, wellFormed.mainRef]

theorem wellFormed_removeSnapshotRef (refName : String) :
    (metadata.removeSnapshotRef refName).WellFormed := by
  have erased : ∀ (name : String) (ref : SnapshotRefMetadata),
      (metadata.refs.erase refName)[name]? = some ref → ref.snapshotId ∈ metadata.snapshotIds := by
    intro name ref found
    rw [getElem?_erase] at found
    split at found
    · cases found
    · exact wellFormed.refs name ref found
  unfold removeSnapshotRef
  split
  · rename_i isMain
    subst isMain
    refine { wellFormed with
      refs := erased
      currentSnapshot := nofun
      mainRef := by simp }
  · rename_i other
    refine { wellFormed with
      refs := erased
      mainRef := ?_ }
    simp [getElem?_erase, other, wellFormed.mainRef]

theorem wellFormed_removeSnapshots (ids : List Int) : (metadata.removeSnapshots ids).WellFormed := by
  have retained : ∀ id, id ∈ metadata.snapshotIds → id ∉ ids → id ∈ (metadata.removeSnapshots ids).snapshotIds := by
    intro id member notRemoved
    obtain ⟨snapshot, isSnapshot, rfl⟩ := mem_map.mp member
    exact mem_map_of_mem (mem_filter.mpr ⟨isSnapshot, by simpa using notRemoved⟩)
  refine { wellFormed with
    snapshotIds := wellFormed.snapshotIds.sublist (filter_sublist.map _)
    refs := ?_
    currentSnapshot := ?_
    mainRef := ?_
    sequenceNumbers := fun snapshot kept => wellFormed.sequenceNumbers snapshot (mem_filter.mp kept).1 }
  · intro name ref found
    rw [removeSnapshots, getElem?_filter'] at found
    obtain ⟨before, notRemoved⟩ := Option.filter_eq_some_iff.mp found
    exact retained _ (wellFormed.refs name ref before) (by simpa using notRemoved)
  · intro id isCurrent
    obtain ⟨current, notRemoved⟩ := Option.filter_eq_some_iff.mp isCurrent
    exact retained id (wellFormed.currentSnapshot id current) (by simpa using notRemoved)
  · simp only [removeSnapshots, wellFormed.mainRef, getElem?_filter']
    cases metadata.refs["main"]? with
    | none => rfl
    | some ref => by_cases removed : ref.snapshotId ∈ ids <;> simp [Option.filter, removed]

theorem wellFormed_applyUpdate_iff {now : Int} {update : TableUpdate}
    (accepted : applyUpdate now metadata update = .ok metadata') : metadata'.WellFormed ↔ update.Fits metadata := by
  cases update with
  | assignUuid uuid | setProperties updates | removeProperties removals =>
    obtain rfl := ok.inj accepted
    exact iff_of_true { wellFormed with } trivial
  | upgradeFormatVersion formatVersion =>
    simp only [applyUpdate] at accepted
    split at accepted
    · cases accepted
    · obtain rfl := ok.inj accepted
      exact iff_of_true { wellFormed with } trivial
  | addSchema schema lastColumnId => exact wellFormed_addSchema_iff wellFormed accepted
  | setCurrentSchema schemaId =>
    obtain ⟨isSchema, rfl⟩ := setExisting_eq_ok.mp accepted
    exact iff_of_true { wellFormed with currentSchema := isSchema } trivial
  | addPartitionSpec spec =>
    obtain rfl := ok.inj accepted
    exact wellFormed_addPartitionSpec_iff wellFormed
  | setDefaultSpec specId =>
    obtain ⟨isSpec, rfl⟩ := setExisting_eq_ok.mp accepted
    exact iff_of_true { wellFormed with defaultSpec := isSpec } trivial
  | addSortOrder sortOrder =>
    obtain rfl := ok.inj accepted
    exact wellFormed_addSortOrder_iff wellFormed
  | setDefaultSortOrder sortOrderId =>
    obtain ⟨isSortOrder, rfl⟩ := setExisting_eq_ok.mp accepted
    exact iff_of_true { wellFormed with defaultSortOrder := isSortOrder } trivial
  | addSnapshot snapshot =>
    obtain rfl := ok.inj accepted
    exact wellFormed_addSnapshot_iff wellFormed
  | setSnapshotRef refName refType snapshotId =>
    obtain rfl := ok.inj accepted
    exact wellFormed_setSnapshotRef_iff wellFormed
  | removeSnapshotRef refName =>
    obtain rfl := ok.inj accepted
    exact iff_of_true (wellFormed_removeSnapshotRef wellFormed refName) trivial
  | removeSnapshots snapshotIds =>
    obtain rfl := ok.inj accepted
    exact iff_of_true (wellFormed_removeSnapshots wellFormed snapshotIds) trivial
  | setLocation location => cases accepted

end

theorem lastSequenceNumber_applyUpdate {now : Int} {update : TableUpdate}
    (accepted : applyUpdate now metadata update = .ok metadata') :
    metadata.lastSequenceNumber ≤ metadata'.lastSequenceNumber := by
  cases update with
  | addSchema schema lastColumnId =>
    obtain ⟨_, rfl, _⟩ := addSchema_eq_ok accepted
    exact le_rfl
  | upgradeFormatVersion formatVersion =>
    simp only [applyUpdate] at accepted
    split at accepted
    · cases accepted
    · obtain rfl := ok.inj accepted
      exact le_rfl
  | setCurrentSchema _ | setDefaultSpec _ | setDefaultSortOrder _ =>
    obtain ⟨_, rfl⟩ := setExisting_eq_ok.mp accepted
    exact le_rfl
  | addSnapshot snapshot =>
    obtain rfl := ok.inj accepted
    exact le_max_left _ _
  | setSnapshotRef refName _ _ | removeSnapshotRef refName =>
    obtain rfl := ok.inj accepted
    simp only [setSnapshotRef, removeSnapshotRef]
    split <;> exact le_rfl
  | setLocation _ => cases accepted
  | assignUuid _ | addPartitionSpec _ | addSortOrder _ | removeSnapshots _ | setProperties _ | removeProperties _ =>
    obtain rfl := ok.inj accepted
    exact le_rfl

end Updates

section Lists

variable {clock : Nat → Int} {index : Nat} {metadata result : TableMetadata} {update : TableUpdate}
  {updates : List TableUpdate}

theorem applyUpdates_cons : applyUpdates clock index (update :: updates) metadata = .ok result ↔
    ∃ next, applyUpdate (clock index) metadata update = .ok next ∧
      applyUpdates clock (index + 1) updates next = .ok result :=
  bind_eq_ok

theorem lastSequenceNumber_applyUpdates (accepted : applyUpdates clock index updates metadata = .ok result) :
    metadata.lastSequenceNumber ≤ result.lastSequenceNumber := by
  induction updates generalizing index metadata with
  | nil =>
    obtain rfl := ok.inj accepted
    exact le_rfl
  | cons update updates ih =>
    obtain ⟨_, first, rest⟩ := applyUpdates_cons.mp accepted
    exact (lastSequenceNumber_applyUpdate first).trans (ih rest)

theorem wellFormed_applyUpdates_iff (wellFormed : metadata.WellFormed)
    (accepted : applyUpdates clock index updates metadata = .ok result) :
    (∀ n metadata', applyUpdates clock index (updates.take n) metadata = .ok metadata' → metadata'.WellFormed) ↔
      ∀ n update metadata', updates[n]? = some update →
        applyUpdates clock index (updates.take n) metadata = .ok metadata' → update.Fits metadata' := by
  induction updates generalizing index metadata with
  | nil =>
    refine iff_of_true (fun n metadata' ended => ?_) (fun n _ _ found => by simp at found)
    rw [take_nil] at ended
    obtain rfl := ok.inj ended
    exact wellFormed
  | cons update updates ih =>
    obtain ⟨next, first, rest⟩ := applyUpdates_cons.mp accepted
    have step := wellFormed_applyUpdate_iff wellFormed first
    -- After the first update the rest is a list of updates to the next metadata.
    have later : ∀ n metadata', applyUpdates clock index ((update :: updates).take (n + 1)) metadata = .ok metadata' ↔
        applyUpdates clock (index + 1) (updates.take n) next = .ok metadata' := by
      intro n metadata'
      rw [take_succ_cons, applyUpdates_cons]
      constructor
      · rintro ⟨_, first', rest'⟩
        obtain rfl := ok.inj (first.symm.trans first')
        exact rest'
      · exact fun rest' => ⟨next, first, rest'⟩
    constructor
    · intro each n update' metadata' found reached
      have nextWellFormed : next.WellFormed := each 1 next ((later 0 next).mpr rfl)
      cases n with
      | zero =>
        obtain rfl := Option.some.inj found
        obtain rfl := ok.inj reached
        exact step.mp nextWellFormed
      | succ n =>
        refine (ih nextWellFormed rest).mp (fun n metadata' reached => ?_) n update' metadata' found
          ((later n metadata').mp reached)
        exact each (n + 1) metadata' ((later n metadata').mpr reached)
    · intro fits n metadata' reached
      cases n with
      | zero =>
        obtain rfl := ok.inj reached
        exact wellFormed
      | succ n =>
        have nextWellFormed : next.WellFormed := step.mpr (fits 0 update metadata rfl rfl)
        refine (ih nextWellFormed rest).mpr (fun n update' metadata' found reached => ?_) n metadata'
          ((later n metadata').mp reached)
        exact fits (n + 1) update' metadata' found ((later n metadata').mpr reached)

/-- For updates that are accepted: the metadata is well formed after each of them, and its sequence
number has not moved back, if and only if each of them fits the metadata that it is applied to. -/
theorem updates_keep_wellFormed_iff (wellFormed : metadata.WellFormed)
    (accepted : applyUpdates clock 0 updates metadata = .ok result) :
    (∀ n metadata', applyUpdates clock 0 (updates.take n) metadata = .ok metadata' →
      metadata'.WellFormed ∧ metadata.lastSequenceNumber ≤ metadata'.lastSequenceNumber) ↔
      ∀ n update metadata', updates[n]? = some update →
        applyUpdates clock 0 (updates.take n) metadata = .ok metadata' → update.Fits metadata' := by
  rw [← wellFormed_applyUpdates_iff wellFormed accepted]
  constructor
  · exact fun each n metadata' reached => (each n metadata' reached).1
  · exact fun each n metadata' reached => ⟨each n metadata' reached, lastSequenceNumber_applyUpdates reached⟩

end Lists

/-- The sequence number of a commit is counted as well. -/
theorem wellFormed_finalizeMetadata {metadata : TableMetadata} (wellFormed : metadata.WellFormed) (base : TableMetadata)
    (previous : String) (nextSequence now : Int) :
    (finalizeMetadata metadata base previous nextSequence now).WellFormed :=
  { wellFormed with
    sequenceNumbers := fun snapshot isSnapshot =>
      (wellFormed.sequenceNumbers snapshot isSnapshot).trans (le_max_left _ _) }

def oneColumn : TableMetadata where
  formatVersion := 2
  tableUuid := "table"
  location := "gs://bucket/table"
  lastSequenceNumber := 0
  lastUpdatedMs := 0
  lastColumnId := 1
  currentSchemaId := 0
  schemas := [{ schemaId := 0, fields := [{ id := 1, name := "a", required := false, fieldType := .text "int" }] }]
  currentSnapshotId := none
  snapshots := []
  snapshotLog := []
  metadataLog := []
  properties := {}
  defaultSpecId := 0
  partitionSpecs := [{ specId := 0, fields := [] }]
  lastPartitionId := 999
  refs := {}
  defaultSortOrderId := 0
  sortOrders := [{ orderId := 0, fields := [] }]

theorem wellFormed_oneColumn : oneColumn.WellFormed where
  schemaIds := by decide
  specIds := by decide
  sortOrderIds := by decide
  snapshotIds := by decide
  currentSchema := by decide
  defaultSpec := by decide
  defaultSortOrder := by decide
  refs := by simp [oneColumn]
  currentSnapshot := by simp [oneColumn]
  mainRef := by simp [oneColumn]
  columnIds := by simp [oneColumn, Schema.fieldIds, Document.fieldIds]
  partitionIds := by simp [oneColumn]
  sequenceNumbers := by simp [oneColumn]

def firstSnapshot : List TableUpdate :=
  [.addSnapshot { snapshotId := 1, sequenceNumber := 1, timestampMs := 0, manifestList := "list" },
   .setSnapshotRef "main" .branch 1]

theorem updates_keep_wellFormed_iff_firstSnapshot :
    ∃ result, applyUpdates (fun _ => 0) 0 firstSnapshot oneColumn = .ok result ∧ result.WellFormed ∧
      result.currentSnapshotId = some 1 := by
  obtain ⟨result, accepted, isCurrent⟩ : ∃ result, applyUpdates (fun _ => 0) 0 firstSnapshot oneColumn = .ok result ∧
      result.currentSnapshotId = some 1 := ⟨_, rfl, rfl⟩
  have each := (updates_keep_wellFormed_iff wellFormed_oneColumn accepted).mpr fun n update metadata' found reached => by
    rcases n with _ | _ | n
    · obtain rfl := Option.some.inj found
      obtain rfl := ok.inj reached
      simp [TableUpdate.Fits, oneColumn, snapshotIds]
    · obtain rfl := Option.some.inj found
      obtain rfl := ok.inj reached
      simp [TableUpdate.Fits, snapshotIds]
    · simp [firstSnapshot] at found
  exact ⟨result, accepted, (each 2 result accepted).1, isCurrent⟩

/-- A second schema with the identifier of the first is accepted. -/
theorem updates_repeat_schema_id :
    ∃ metadata updates result, metadata.WellFormed ∧ applyUpdates (fun _ => 0) 0 updates metadata = .ok result ∧
      ¬ result.WellFormed := by
  refine ⟨oneColumn, [.addSchema { schemaId := 0, fields := [] } none], _, wellFormed_oneColumn, rfl, fun after => ?_⟩
  exact absurd after.schemaIds (by decide)

end Arco.Iceberg
