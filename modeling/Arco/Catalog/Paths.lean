import Arco.Core.Environment
import Arco.Data.Text

/-! Names and errors that the parts of the catalog share. -/

namespace Arco.Catalog

/-- The messages of storage errors come from the storage backend. -/
inductive CatalogError where
  | storage
  | serialization (message : String)
  | parquet (message : String)
  | validation (message : String)
  | alreadyExists (entity name : String)
  | notFound (entity name : String)
  | preconditionFailed (message : String)
  | casFailed (message : String)
  | requestFailed (httpStatus : Nat) (message : String)
  | invariantViolation (message : String)
  | unsupportedOperation (message : String)
  deriving DecidableEq

inductive CatalogDomain where
  | catalog
  | lineage
  | executions
  | search
  deriving DecidableEq

namespace CatalogDomain

def asStr : CatalogDomain → String
  | .catalog => "catalog"
  | .lineage => "lineage"
  | .executions => "executions"
  | .search => "search"

def manifest (domain : CatalogDomain) : String :=
  let name := domain.asStr
  s!"manifests/{name}.manifest.json"

def manifestPointer (domain : CatalogDomain) : String :=
  let name := domain.asStr
  s!"manifests/{name}.pointer.json"

def manifestSnapshot (domain : CatalogDomain) (manifestId : String) : String :=
  let name := domain.asStr
  s!"manifests/{name}/{manifestId}.json"

def lock (domain : CatalogDomain) : String :=
  let name := domain.asStr
  s!"locks/{name}.lock.json"

def ledgerDir (domain : CatalogDomain) : String :=
  let name := domain.asStr
  s!"ledger/{name}/"

def ledgerEvent (domain : CatalogDomain) (eventId : String) : String :=
  let name := domain.asStr
  s!"ledger/{name}/{eventId}.json"

def snapshotDir (domain : CatalogDomain) (version : Nat) : String :=
  let name := domain.asStr
  s!"snapshots/{name}/v{version}/"

def quarantineEvent (domain : CatalogDomain) (filename : String) : String :=
  let name := domain.asStr
  s!"quarantine/{name}/{filename}"

def stateSnapshot (domain : CatalogDomain) (version : Nat) (ulid : String) : String :=
  let name := domain.asStr
  s!"state/{name}/snapshot_v{version}_{ulid}.parquet"

end CatalogDomain

/-- A ULID, known by its text, which is made of digits and letters. -/
structure EventId where
  text : String
  nonempty : text ≠ ""
  alphanumeric : text.toList.all Char.isAlphanum = true

theorem EventId.isAlphanum_of_mem (id : EventId) {c : Char} (member : c ∈ id.text.toList) : c.isAlphanum = true :=
  List.all_eq_true.mp id.alphanumeric c member

/-- What the library of ULIDs does: it reads back a text, and counts up to a greater one. -/
structure Ulids where
  parse : String → Option EventId
  increment : EventId → Option EventId
  parse_text : ∀ {text id}, parse text = some id → id.text = text
  lt_increment : ∀ {id next}, increment id = some next → id.text < next.text

structure RootManifest where
  catalogManifestPath : String := CatalogDomain.catalog.manifestPointer
  executionsManifestPath : String := CatalogDomain.executions.manifest

def normalizeManifestDomain : String → String
  | "core" => "catalog"
  | "execution" => "executions"
  | "governance" => "search"
  | other => other

/-- Old names of domains are replaced. -/
def normalizeManifestPath (path : String) : String :=
  match Text.stripPrefix "manifests/" path with
  | none => path
  | some rest =>
    match Text.stripSuffix ".manifest.json" rest with
    | some domain =>
      match normalizeManifestDomain domain with
      | "catalog" => CatalogDomain.catalog.manifestPointer
      | "lineage" => CatalogDomain.lineage.manifestPointer
      | "executions" => CatalogDomain.executions.manifest
      | "search" => CatalogDomain.search.manifestPointer
      | normalized => s!"manifests/{normalized}.manifest.json"
    | none =>
      match Text.stripSuffix ".pointer.json" rest with
      | some domain =>
        let normalized := normalizeManifestDomain domain
        s!"manifests/{normalized}.pointer.json"
      | none => path

def RootManifest.normalizePaths (root : RootManifest) : RootManifest where
  catalogManifestPath := normalizeManifestPath root.catalogManifestPath
  executionsManifestPath := normalizeManifestPath root.executionsManifestPath

end Arco.Catalog
