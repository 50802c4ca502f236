import Arco.Catalog.Ddl
import Arco.Catalog.Paths
import Arco.Data.Results
import Arco.Flow.Manifest

/-! The manifest of the catalog domain, the pointer that makes one manifest visible, and the
watermark that separates the events that were compacted from the others.

Of the files of a snapshot, a manifest keeps the names and the numbers of rows here; sizes and
checksums are computed from the stored bytes and are left out.
-/

namespace Arco.Catalog.Tier1

open Arco.Core (Timestamp)
open Arco.Flow (parseManifestId nextManifestId initialManifestId)
open Results (refuse)

structure SnapshotFile where
  path : String
  rowCount : Nat

structure SnapshotInfo where
  version : Nat
  path : String
  files : List SnapshotFile
  publishedAt : Timestamp

structure DomainManifestPointer where
  manifestId : String := initialManifestId
  manifestPath : String := CatalogDomain.catalog.manifestSnapshot initialManifestId
  epoch : Nat := 0
  parentPointerHash : Option String := none
  updatedAt : Timestamp

structure CatalogDomainManifest where
  manifestId : String := initialManifestId
  epoch : Nat := 0
  previousManifestPath : Option String := none
  writerSessionId : Option String := none
  snapshotVersion : Nat := 0
  snapshotPath : String := CatalogDomain.catalog.snapshotDir 0
  snapshot : Option SnapshotInfo := none
  watermarkEventId : Option String := none
  lastCommitId : Option String := none
  fencingToken : Option Nat := none
  commitUlid : Option String := none
  parentHash : Option String := none
  updatedAt : Timestamp

structure Checksums extends Ulids where
  pointerHash : DomainManifestPointer → String
  manifestHash : CatalogDomainManifest → String
  idempotencyKey : ParsedCatalogDdlEvent → String

namespace CatalogDomainManifest

/-- A parent hash, two fencing tokens or two commit ids are only compared if they are there. -/
def validateSuccession (manifest previous : CatalogDomainManifest) (previousRawHash : String) : Except String Unit := do
  let previousId ← parseManifestId previous.manifestId
  let nextId ← parseManifestId manifest.manifestId
  refuse (nextId < previousId)
    s!"manifest_id regression: {previous.manifestId} -> {manifest.manifestId} (rollback not allowed)"
  refuse (manifest.snapshotVersion < previous.snapshotVersion)
    s!"version regression: {previous.snapshotVersion} -> {manifest.snapshotVersion} (rollback not allowed)"
  let parentHash := manifest.parentHash.getD ""
  refuse (manifest.parentHash.any (· ≠ previousRawHash))
    s!"parent hash mismatch: expected {previousRawHash}, got {parentHash} (concurrent modification detected)"
  let before := previous.fencingToken.getD 0
  let after := manifest.fencingToken.getD 0
  refuse (previous.fencingToken.any fun before => manifest.fencingToken.any (· < before))
    s!"fencing token regression: {before} -> {after} (stale holder)"
  refuse (manifest.epoch < previous.epoch)
    s!"epoch regression: {previous.epoch} -> {manifest.epoch} (stale holder)"
  let before := previous.commitUlid.getD ""
  let after := manifest.commitUlid.getD ""
  refuse (previous.commitUlid.any fun before => manifest.commitUlid.any (· ≤ before))
    s!"commit ulid regression: {before} -> {after} (non-monotonic)"

structure Advances (previous manifest : CatalogDomainManifest) : Prop where
  manifestId : ∃ before after, parseManifestId previous.manifestId = .ok before ∧
    parseManifestId manifest.manifestId = .ok after ∧ before ≤ after
  epoch : previous.epoch ≤ manifest.epoch
  snapshotVersion : previous.snapshotVersion ≤ manifest.snapshotVersion

theorem advances_of_validateSuccession {manifest previous : CatalogDomainManifest} {previousRawHash : String}
    (valid : manifest.validateSuccession previous previousRawHash = .ok ()) : previous.Advances manifest := by
  simp only [validateSuccession, Results.bind_eq_ok, Results.refuse_eq_ok, decide_eq_false_iff_not, not_lt] at valid
  obtain ⟨before, isBefore, after, isAfter, _, ids, _, versions, _, _, _, _, _, epochs, _⟩ := valid
  exact ⟨⟨before, after, isBefore, isAfter, ids⟩, epochs, versions⟩

end CatalogDomainManifest

def generateAfter (ulids : Ulids) (candidate : EventId) : Option EventId → Option EventId
  | none => some candidate
  | some watermark => if watermark.text < candidate.text then some candidate else ulids.increment watermark

def nextCommitUlid (ulids : Ulids) (candidate : EventId) : Option String → Except String String
  | none => .ok candidate.text
  | some previous =>
    match ulids.parse previous with
    | none => .error s!"invalid previous commit_ulid '{previous}'"
    | some previous =>
      match generateAfter ulids candidate (some previous) with
      | some next => .ok next.text
      | none => .error "commit_ulid overflow while generating monotonic successor"

def eventIdFromPath (path : String) : Option String := Text.stripSuffix ".json" (Text.afterLast '/' path)

def maxEventIdFromPaths (eventPaths : List String) : Option String := (eventPaths.filterMap eventIdFromPath).max?

/-- A path without an id counts as not compacted. -/
def isUnapplied (watermark path : String) : Bool := (eventIdFromPath path).all (watermark < ·)

def unappliedEventPathsAfterWatermark (eventPaths : List String) : Option String → List String
  | none => eventPaths
  | some watermark => eventPaths.filter (isUnapplied watermark)

/-- The paths of a request that the manifest does not count as compacted. -/
abbrev CatalogDomainManifest.unapplied (manifest : CatalogDomainManifest) (eventPaths : List String) : List String :=
  unappliedEventPathsAfterWatermark eventPaths manifest.watermarkEventId

def snapshotAttemptDir (domain : CatalogDomain) (version : Nat) (attemptId : String) : String :=
  let name := domain.asStr
  s!"snapshots/{name}/v{version}/attempts/{attemptId}/"

/-- `str::trim_end_matches('/')`. -/
def trimSlashes (path : String) : String := String.ofList (path.toList.reverse.dropWhile (· = '/')).reverse

def ensureDir (directory : String) : String := trimSlashes directory ++ "/"

def isEmptySnapshot (snapshotPath : String) : Bool :=
  snapshotPath = "" || (Text.splitString '/' snapshotPath).any (· = "v0")

/-! ## Markers of idempotent requests.

A marker is claimed before a request does its work and finalized after it. The entity that a request
is going to create is recorded in the marker first, so that a caller that takes over a stale marker
can tell what its predecessor was about to do.
-/

inductive IdempotencyStatus where
  | inProgress
  | committed
  | failed

structure CatalogIdempotencyMarker where
  status : IdempotencyStatus
  idempotencyKey : String
  requestHash : String
  startedAt : Timestamp
  committedAt : Option Timestamp := none
  failedAt : Option Timestamp := none
  errorHttpStatus : Option Nat := none
  errorMessage : Option String := none
  entityId : Option String := none
  entityName : Option String := none

end Arco.Catalog.Tier1
