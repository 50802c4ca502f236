import Mathlib.Data.String.Basic
import Mathlib.Data.List.Nodup
import Arco.Data.Results

/-! Table metadata and the updates of a commit request. -/

namespace Arco.Iceberg

open Results (refuse)

inductive IcebergError where
  | badRequest (message errorType : String)
  | notFound (message errorType : String)
  | conflict (message errorType : String)
  | internal (message : String)

/-- The type of a field is kept as a document, which may describe nested fields. -/
inductive Document where
  | null
  | boolean (value : Bool)
  | number (value : Int)
  | text (value : String)
  | array (items : List Document)
  | object (members : List (String × Document))

structure SchemaField where
  id : Int
  name : String
  required : Bool
  fieldType : Document

structure Schema where
  schemaId : Int
  schemaType : String := "struct"
  fields : List SchemaField

structure Snapshot where
  snapshotId : Int
  parentSnapshotId : Option Int := none
  sequenceNumber : Int
  timestampMs : Int
  manifestList : String
  summary : List (String × String) := []
  schemaId : Option Int := none

structure SnapshotLogEntry where
  snapshotId : Int
  timestampMs : Int

structure MetadataLogEntry where
  metadataFile : String
  timestampMs : Int

structure PartitionField where
  fieldId : Int
  sourceId : Int
  name : String
  transform : String

structure PartitionSpec where
  specId : Int
  fields : List PartitionField

structure SnapshotRefMetadata where
  snapshotId : Int
  refType : String

structure SortField where
  sourceId : Int
  transform : String
  direction : String
  nullOrder : String

structure SortOrder where
  orderId : Int
  fields : List SortField

structure TableMetadata where
  formatVersion : Int
  tableUuid : String
  location : String
  lastSequenceNumber : Int
  lastUpdatedMs : Int
  lastColumnId : Int
  currentSchemaId : Int
  schemas : List Schema
  currentSnapshotId : Option Int
  snapshots : List Snapshot
  snapshotLog : List SnapshotLogEntry
  metadataLog : List MetadataLogEntry
  properties : Std.TreeMap String String
  defaultSpecId : Int
  partitionSpecs : List PartitionSpec
  lastPartitionId : Int
  refs : Std.TreeMap String SnapshotRefMetadata
  defaultSortOrderId : Int
  sortOrders : List SortOrder

inductive UpdateSnapshotRefType where
  | branch
  | tag

def UpdateSnapshotRefType.text : UpdateSnapshotRefType → String
  | .branch => "branch"
  | .tag => "tag"

/-- The retention settings of a reference are not kept. -/
inductive TableUpdate where
  | assignUuid (uuid : String)
  | upgradeFormatVersion (formatVersion : Int)
  | addSchema (schema : Schema) (lastColumnId : Option Int)
  | setCurrentSchema (schemaId : Int)
  | addPartitionSpec (spec : PartitionSpec)
  | setDefaultSpec (specId : Int)
  | addSortOrder (sortOrder : SortOrder)
  | setDefaultSortOrder (sortOrderId : Int)
  | addSnapshot (snapshot : Snapshot)
  | setSnapshotRef (refName : String) (refType : UpdateSnapshotRefType) (snapshotId : Int)
  | removeSnapshotRef (refName : String)
  | removeSnapshots (snapshotIds : List Int)
  | setLocation (location : String)
  | setProperties (updates : List (String × String))
  | removeProperties (removals : List String)

def raisedTo (last : Int) (numbers : List Int) : Int := numbers.foldl max last

/-- The log starts again after an entry whose snapshot is gone. -/
def prunedSnapshotLog (snapshotIds : List Int) (log : List SnapshotLogEntry) : List SnapshotLogEntry :=
  log.foldl (fun pruned entry => if entry.snapshotId ∈ snapshotIds then pruned ++ [entry] else []) []

def badRequest (message : String) : IcebergError := .badRequest message "BadRequestException"

namespace TableMetadata

variable (metadata : TableMetadata)

def schemaIds : List Int := metadata.schemas.map Schema.schemaId

def specIds : List Int := metadata.partitionSpecs.map PartitionSpec.specId

def sortOrderIds : List Int := metadata.sortOrders.map SortOrder.orderId

def snapshotIds : List Int := metadata.snapshots.map Snapshot.snapshotId

def addSchema (schema : Schema) (lastColumnId : Option Int) : Except IcebergError TableMetadata :=
  let raised := raisedTo metadata.lastColumnId (schema.fields.map SchemaField.id)
  let extended := { metadata with schemas := metadata.schemas ++ [schema], lastColumnId := raised }
  match lastColumnId with
  | none => .ok extended
  | some lastColumnId =>
    if lastColumnId < raised then .error (badRequest "last-column-id cannot move backwards")
    else .ok { extended with lastColumnId }

/-- The reference of the main branch is the current snapshot. -/
def setSnapshotRef (now : Int) (refName : String) (refType : UpdateSnapshotRefType) (snapshotId : Int) : TableMetadata :=
  let referenced := { metadata with refs := metadata.refs.insert refName { snapshotId, refType := refType.text } }
  if refName = "main" then { referenced with
    currentSnapshotId := some snapshotId
    snapshotLog := metadata.snapshotLog ++ [{ snapshotId, timestampMs := now }] }
  else referenced

def removeSnapshotRef (refName : String) : TableMetadata :=
  let removed := { metadata with refs := metadata.refs.erase refName }
  if refName = "main" then { removed with currentSnapshotId := none } else removed

def removeSnapshots (ids : List Int) : TableMetadata :=
  let retained := metadata.snapshots.filter fun snapshot => snapshot.snapshotId ∉ ids
  { metadata with
    snapshots := retained
    snapshotLog := prunedSnapshotLog (retained.map Snapshot.snapshotId) metadata.snapshotLog
    refs := metadata.refs.filter fun _ ref => ref.snapshotId ∉ ids
    currentSnapshotId := metadata.currentSnapshotId.filter fun id => id ∉ ids }

end TableMetadata

/-- An update that names an identifier refuses one that is not there. -/
def setExisting (ids : List Int) (id : Int) (message : String) (metadata : TableMetadata) :
    Except IcebergError TableMetadata :=
  if id ∈ ids then .ok metadata else .error (badRequest message)

def applyUpdate (now : Int) (metadata : TableMetadata) : TableUpdate → Except IcebergError TableMetadata
  | .assignUuid uuid => .ok { metadata with tableUuid := uuid }
  | .upgradeFormatVersion formatVersion =>
    if formatVersion < metadata.formatVersion then .error (badRequest "format-version cannot be downgraded")
    else .ok { metadata with formatVersion }
  | .addSchema schema lastColumnId => metadata.addSchema schema lastColumnId
  | .setCurrentSchema schemaId => setExisting metadata.schemaIds schemaId s!"Schema {schemaId} does not exist"
      { metadata with currentSchemaId := schemaId }
  | .addPartitionSpec spec => .ok { metadata with
      lastPartitionId := raisedTo metadata.lastPartitionId (spec.fields.map PartitionField.fieldId)
      partitionSpecs := metadata.partitionSpecs ++ [spec] }
  | .setDefaultSpec specId => setExisting metadata.specIds specId s!"Partition spec {specId} does not exist"
      { metadata with defaultSpecId := specId }
  | .addSortOrder sortOrder => .ok { metadata with sortOrders := metadata.sortOrders ++ [sortOrder] }
  | .setDefaultSortOrder sortOrderId =>
      setExisting metadata.sortOrderIds sortOrderId s!"Sort order {sortOrderId} does not exist"
        { metadata with defaultSortOrderId := sortOrderId }
  | .addSnapshot snapshot => .ok { metadata with
      lastSequenceNumber := max metadata.lastSequenceNumber snapshot.sequenceNumber
      snapshots := metadata.snapshots ++ [snapshot] }
  | .setSnapshotRef refName refType snapshotId => .ok (metadata.setSnapshotRef now refName refType snapshotId)
  | .removeSnapshotRef refName => .ok (metadata.removeSnapshotRef refName)
  | .removeSnapshots snapshotIds => .ok (metadata.removeSnapshots snapshotIds)
  | .setLocation _ => .error (badRequest "SetLocation is not permitted")
  | .setProperties updates => .ok { metadata with
      properties := updates.foldl (fun properties (key, value) => properties.insert key value) metadata.properties }
  | .removeProperties removals => .ok { metadata with properties := removals.foldl Std.TreeMap.erase metadata.properties }

/-- The updates are applied in order, up to the first that is refused. Each reads the clock anew. -/
def applyUpdates (clock : Nat → Int) : Nat → List TableUpdate → TableMetadata → Except IcebergError TableMetadata
  | _, [], metadata => .ok metadata
  | index, update :: updates, metadata => do applyUpdates clock (index + 1) updates (← applyUpdate (clock index) metadata update)

/-- The metadata that is replaced is added to the log, unless it is the last entry already. -/
def finalizeMetadata (metadata base : TableMetadata) (previous : String) (nextSequence now : Int) : TableMetadata :=
  { metadata with
    metadataLog := if metadata.metadataLog.getLast?.any fun entry => entry.metadataFile = previous then metadata.metadataLog
      else metadata.metadataLog ++ [{ metadataFile := previous, timestampMs := base.lastUpdatedMs }]
    lastSequenceNumber := max metadata.lastSequenceNumber nextSequence
    lastUpdatedMs := now }

end Arco.Iceberg
