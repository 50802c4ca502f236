import Mathlib.Data.String.Basic

/-! The catalog of one workspace and the events that change it.

The state holds the rows of the five tables of a snapshot, in the order in which they are stored. An
event either leaves a valid state behind or is refused with a message; an event that was applied
before is accepted once more where the source takes it for a repetition.
-/

namespace Arco.Catalog.Tier1

structure CatalogRecord where
  id : String
  name : String
  description : Option String := none
  createdAt : Int := 0
  updatedAt : Int := 0
  propertiesJson : Option String := none
  storageRoot : Option String := none
  deriving DecidableEq

/-- A namespace without a catalog belongs to the default catalog. -/
structure NamespaceRecord where
  id : String
  catalogId : Option String := none
  name : String
  description : Option String := none
  createdAt : Int := 0
  updatedAt : Int := 0
  propertiesJson : Option String := none
  storageRoot : Option String := none
  deriving DecidableEq

structure TableRecord where
  id : String
  namespaceId : String
  name : String
  description : Option String := none
  location : Option String := none
  format : Option String := none
  createdAt : Int := 0
  updatedAt : Int := 0
  tableType : Option String := none
  propertiesJson : Option String := none
  deriving DecidableEq

structure ColumnRecord where
  id : String
  tableId : String
  name : String
  dataType : String
  isNullable : Bool := false
  ordinal : Int := 0
  description : Option String := none
  deriving DecidableEq

structure CatalogCommitRecord where
  commitUlid : String
  snapshotVersion : Nat
  publishedAt : Int
  fencingToken : Nat
  watermarkEventId : Option String
  operation : Option String
  objectType : Option String
  objectId : Option String
  objectName : Option String
  deriving DecidableEq

structure CatalogState where
  catalogs : List CatalogRecord := []
  namespaces : List NamespaceRecord := []
  tables : List TableRecord := []
  columns : List ColumnRecord := []
  commits : List CatalogCommitRecord := []

inductive CatalogDdlEvent where
  | namespaceCreated (record : NamespaceRecord)
  | namespaceUpdated (record : NamespaceRecord)
  | namespaceDeleted (namespaceId namespaceName : String)
  | tableRegistered (table : TableRecord) (columns : List ColumnRecord)
  | tableUpdated (table : TableRecord)
  | tableDropped (tableId namespaceId tableName : String)
  | tableRenamed (tableId namespaceId oldName newName : String) (updatedAt : Int)

inductive CatalogDdlEventV2 where
  | catalogCreated (catalog : CatalogRecord)

inductive CatalogDdlEventV3 where
  | catalogUpdated (catalog : CatalogRecord)
  | catalogDeleted (catalogId catalogName : String)

inductive CatalogDdlEventV4 where
  | catalogRenamed (catalog : CatalogRecord) (oldName : String)
  | namespaceRenamed (record : NamespaceRecord) (oldName : String)

inductive ParsedCatalogDdlEvent where
  | v1 (event : CatalogDdlEvent)
  | v2 (event : CatalogDdlEventV2)
  | v3 (event : CatalogDdlEventV3)
  | v4 (event : CatalogDdlEventV4)

def ParsedCatalogDdlEvent.eventVersion : ParsedCatalogDdlEvent → Nat
  | .v1 _ => 1
  | .v2 _ => 2
  | .v3 _ => 3
  | .v4 _ => 4

structure CatalogCommitMetadata where
  operation : Option String := none
  objectType : Option String := none
  objectId : Option String := none
  objectName : Option String := none

def CatalogCommitMetadata.of (operation objectType objectId objectName : String) : CatalogCommitMetadata :=
  ⟨some operation, some objectType, some objectId, some objectName⟩

def catalogCommitMetadata : ParsedCatalogDdlEvent → CatalogCommitMetadata
  | .v1 (.namespaceCreated record) => .of "namespace_created" "namespace" record.id record.name
  | .v1 (.namespaceUpdated record) => .of "namespace_updated" "namespace" record.id record.name
  | .v1 (.namespaceDeleted id name) => .of "namespace_deleted" "namespace" id name
  | .v1 (.tableRegistered table _) => .of "table_registered" "table" table.id table.name
  | .v1 (.tableUpdated table) => .of "table_updated" "table" table.id table.name
  | .v1 (.tableDropped id _ name) => .of "table_dropped" "table" id name
  | .v1 (.tableRenamed id _ _ newName _) => .of "table_renamed" "table" id newName
  | .v2 (.catalogCreated catalog) => .of "catalog_created" "catalog" catalog.id catalog.name
  | .v3 (.catalogUpdated catalog) => .of "catalog_updated" "catalog" catalog.id catalog.name
  | .v3 (.catalogDeleted id name) => .of "catalog_deleted" "catalog" id name
  | .v4 (.catalogRenamed catalog _) => .of "catalog_renamed" "catalog" catalog.id catalog.name
  | .v4 (.namespaceRenamed record _) => .of "namespace_renamed" "namespace" record.id record.name

def setFirst {α : Type} (p : α → Bool) (value : α) : List α → List α
  | [] => []
  | a :: rest => if p a then value :: rest else a :: setFirst p value rest

namespace CatalogState

variable (state : CatalogState)

def defaultCatalogId : Option String := (state.catalogs.find? (·.name = "default")).map CatalogRecord.id

def catalogIdOf (record : NamespaceRecord) : Option String := record.catalogId.or state.defaultCatalogId

/-- Columns that are there already are left as they are. -/
def pushColumns (tableId : String) : List ColumnRecord → List ColumnRecord → Except String (List ColumnRecord)
  | columns, [] => .ok columns
  | columns, column :: rest =>
    let columnId := column.id
    if column.tableId ≠ tableId then .error s!"column '{columnId}' belongs to different table"
    else if columns.any (·.id = columnId) then pushColumns tableId columns rest
    else pushColumns tableId (columns ++ [column]) rest

def applyCatalogEventV1 : CatalogDdlEvent → Except String CatalogState
  | .namespaceCreated record =>
    let id := record.id
    let name := record.name
    match state.namespaces.find? (·.id = id) with
    | some existing => if existing = record then .ok state else .error s!"namespace id collision for {id}"
    | none =>
      if state.namespaces.any fun ns => ns.name = name && state.catalogIdOf ns = state.catalogIdOf record then
        .error s!"namespace '{name}' already exists"
      else .ok { state with namespaces := state.namespaces ++ [record] }
  | .namespaceUpdated record =>
    let id := record.id
    match state.namespaces.find? (·.id = id) with
    | none => .error s!"namespace '{id}' not found"
    | some existing =>
      if existing.name ≠ record.name then .error s!"namespace identity mismatch for {id}"
      else .ok { state with namespaces := setFirst (·.id = id) record state.namespaces }
  | .namespaceDeleted namespaceId namespaceName =>
    match state.namespaces.find? (·.id = namespaceId) with
    | none => .ok state
    | some existing =>
      if existing.name ≠ namespaceName then .error s!"namespace name mismatch for {namespaceId}"
      else if state.tables.any (·.namespaceId = namespaceId) then .error s!"namespace '{namespaceName}' contains tables"
      else .ok { state with namespaces := state.namespaces.eraseP (·.id = namespaceId) }
  | .tableRegistered table columns =>
    let id := table.id
    let namespaceId := table.namespaceId
    let name := table.name
    if ¬ state.namespaces.any (·.id = namespaceId) then .error s!"namespace '{namespaceId}' not found"
    else match state.tables.find? (·.id = id) with
      | some existing => if existing = table then .ok state else .error s!"table id collision for {id}"
      | none =>
        if state.tables.any fun t => t.namespaceId = namespaceId && t.name = name then
          .error s!"table '{name}' already exists in namespace {namespaceId}"
        else do
          let columns ← pushColumns id state.columns columns
          .ok { state with tables := state.tables ++ [table], columns }
  | .tableUpdated table =>
    let id := table.id
    match state.tables.find? (·.id = id) with
    | none => .error s!"table '{id}' not found"
    | some existing =>
      if existing.namespaceId ≠ table.namespaceId ∨ existing.name ≠ table.name then
        .error s!"table identity mismatch for {id}"
      else .ok { state with tables := setFirst (·.id = id) table state.tables }
  | .tableDropped tableId namespaceId tableName =>
    match state.tables.find? (·.id = tableId) with
    | none => .ok state
    | some existing =>
      if existing.namespaceId ≠ namespaceId ∨ existing.name ≠ tableName then
        .error s!"table identity mismatch for {tableId}"
      else .ok { state with
        tables := state.tables.eraseP (·.id = tableId)
        columns := state.columns.filter (·.tableId ≠ tableId) }
  | .tableRenamed tableId namespaceId oldName newName updatedAt =>
    match state.tables.find? (·.id = tableId) with
    | none => .error s!"table '{tableId}' not found for rename"
    | some existing =>
      let expected := existing.namespaceId
      let name := existing.name
      if expected ≠ namespaceId then
        .error s!"namespace mismatch for table {tableId}: expected {expected}, got {namespaceId}"
      else if name ≠ oldName then .error s!"table name mismatch for {tableId}: expected '{name}', got '{oldName}'"
      else if name = newName then .ok state
      else if state.tables.any fun t => t.namespaceId = namespaceId && t.name = newName then
        .error s!"table '{newName}' already exists in namespace {namespaceId}"
      else .ok { state with tables := setFirst (·.id = tableId) { existing with name := newName, updatedAt } state.tables }

def applyCatalogEventV2 : CatalogDdlEventV2 → Except String CatalogState
  | .catalogCreated catalog =>
    let id := catalog.id
    let name := catalog.name
    match state.catalogs.find? (·.id = id) with
    | some existing => if existing = catalog then .ok state else .error s!"catalog id collision for {id}"
    | none =>
      if state.catalogs.any (·.name = name) then .error s!"catalog '{name}' already exists"
      else .ok { state with catalogs := state.catalogs ++ [catalog] }

def applyCatalogEventV3 : CatalogDdlEventV3 → Except String CatalogState
  | .catalogUpdated catalog =>
    let id := catalog.id
    match state.catalogs.find? (·.id = id) with
    | none => .error s!"catalog '{id}' not found"
    | some existing =>
      if existing.name ≠ catalog.name then .error s!"catalog identity mismatch for {id}"
      else .ok { state with catalogs := setFirst (·.id = id) catalog state.catalogs }
  | .catalogDeleted catalogId catalogName =>
    match state.catalogs.find? (·.id = catalogId) with
    | none => .ok state
    | some existing =>
      if existing.name ≠ catalogName then .error s!"catalog name mismatch for {catalogId}"
      else if state.namespaces.any fun ns => state.catalogIdOf ns = some catalogId then
        .error s!"catalog '{catalogName}' contains schemas"
      else .ok { state with catalogs := state.catalogs.eraseP (·.id = catalogId) }

def applyCatalogEventV4 : CatalogDdlEventV4 → Except String CatalogState
  | .catalogRenamed catalog oldName =>
    let id := catalog.id
    let name := catalog.name
    match state.catalogs.find? (·.id = id) with
    | none => .error s!"catalog '{id}' not found"
    | some existing =>
      if existing.name ≠ oldName then .error s!"catalog identity mismatch for {id}"
      else if oldName ≠ name ∧ state.catalogs.any fun c => c.id ≠ id && c.name = name then
        .error s!"catalog '{name}' already exists"
      else .ok { state with catalogs := setFirst (·.id = id) catalog state.catalogs }
  | .namespaceRenamed record oldName =>
    let id := record.id
    let name := record.name
    match state.namespaces.find? (·.id = id) with
    | none => .error s!"namespace '{id}' not found"
    | some existing =>
      if existing.name ≠ oldName then .error s!"namespace identity mismatch for {id}"
      else if oldName ≠ name ∧ state.namespaces.any fun ns =>
          ns.id ≠ id && ns.name = name && state.catalogIdOf ns = state.catalogIdOf record then
        .error s!"namespace '{name}' already exists"
      else .ok { state with namespaces := setFirst (·.id = id) record state.namespaces }

def applyCatalogEvent : ParsedCatalogDdlEvent → Except String CatalogState
  | .v1 event => state.applyCatalogEventV1 event
  | .v2 event => state.applyCatalogEventV2 event
  | .v3 event => state.applyCatalogEventV3 event
  | .v4 event => state.applyCatalogEventV4 event

def applyAll (events : List ParsedCatalogDdlEvent) : Except String CatalogState :=
  events.foldlM applyCatalogEvent state

end CatalogState

end Arco.Catalog.Tier1
