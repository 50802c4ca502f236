import Arco.Catalog.DomainManifest
import Arco.Catalog.Materialization
import Arco.Core.Lock
import Arco.Storage.Frame

/-! The synchronous compactor of the catalog domain and the writer of its manifests.

A writer appends events to the ledger and asks the compactor to apply them. The compactor applies
them to the snapshot of the visible manifest, writes a new snapshot and a new manifest, and replaces
the pointer, provided that nobody has replaced it since. Every step is taken under a lock that can
expire at any time; the number of its acquisition is the fencing token of the holder.
-/

namespace Arco.Catalog.Tier1

open Storage Arco.Core Fallible CatalogDomain
open Arco.Flow (parseManifestId nextManifestId initialManifestId)

inductive SnapshotTable where
  | catalogs
  | namespaces
  | tables
  | columns
  | commits
  deriving DecidableEq

namespace SnapshotTable

@[reducible] def Row : SnapshotTable → Type
  | catalogs => CatalogRecord
  | namespaces => NamespaceRecord
  | tables => TableRecord
  | columns => ColumnRecord
  | commits => CatalogCommitRecord

instance : (table : SnapshotTable) → DecidableEq table.Row
  | catalogs => inferInstanceAs (DecidableEq CatalogRecord)
  | namespaces => inferInstanceAs (DecidableEq NamespaceRecord)
  | tables => inferInstanceAs (DecidableEq TableRecord)
  | columns => inferInstanceAs (DecidableEq ColumnRecord)
  | commits => inferInstanceAs (DecidableEq CatalogCommitRecord)

def fileName : SnapshotTable → String
  | catalogs => "catalogs.parquet"
  | namespaces => "namespaces.parquet"
  | tables => "tables.parquet"
  | columns => "columns.parquet"
  | commits => "commits.parquet"

end SnapshotTable

def CatalogState.rows (state : CatalogState) : (table : SnapshotTable) → List table.Row
  | .catalogs => state.catalogs
  | .namespaces => state.namespaces
  | .tables => state.tables
  | .columns => state.columns
  | .commits => state.commits

/-- An event of the ledger. Its type is that of all catalog events, its version that of its payload. -/
structure CatalogEvent where
  payload : ParsedCatalogDdlEvent
  idempotencyKey : String
  source : String

def CatalogEvent.validate (event : CatalogEvent) : Except String Unit :=
  if Text.trim event.idempotencyKey = "" then .error "idempotency_key must be non-empty"
  else if Text.trim event.source = "" then .error "source must be non-empty"
  else .ok ()

inductive ObjectPath where
  | lock
  | root
  | pointer
  | manifest (path : String)
  | file (directory : String) (table : SnapshotTable)
  | ledger (path : String)
  | marker (idempotencyKey : String)
  deriving DecidableEq

@[reducible] def Object : ObjectPath → Type
  | .lock => LockInfo
  | .root => RootManifest
  | .pointer => DomainManifestPointer
  | .manifest _ => CatalogDomainManifest
  | .file _ table => List table.Row
  | .ledger _ => CatalogEvent
  | .marker _ => CatalogIdempotencyMarker

/-- Besides the time and fresh identifiers, a program is asked nothing: `unreadable` marks in a run
that a storage error was taken for an empty file. -/
inductive Question where
  | now
  | ulid
  | uuid
  | unreadable

@[reducible] def Answer : Question → Type
  | .now => Timestamp
  | .ulid => EventId
  | .uuid => String
  | .unreadable => Unit

inductive StorageError where
  | storage
  | notFound (path : ObjectPath)
  | preconditionFailed (message : String)

instance : Faulty StorageError ObjectPath where
  fault := .storage
  notFound := .notFound

inductive Tier1CompactionError where
  | staleFencingToken (expected provided : Nat)
  | eventReadError (path : String)
  | processingError (message : String)
  | validation (message : String)
  | publishFailed (message : String)

abbrev RawM : Type → Type := Fallible Object Answer StorageError

abbrev CompactorM : Type → Type := Fallible Object Answer Tier1CompactionError

abbrev WriterM : Type → Type := Fallible Object Answer CatalogError

abbrev headRaw (path : ObjectPath) : RawM (Option Nat) := head path

abbrev findRaw (path : ObjectPath) : RawM (Option (Object path)) := find path

abbrev getRaw (path : ObjectPath) : RawM (Object path) := get path

abbrev putRaw (path : ObjectPath) (value : Object path) (precondition : WritePrecondition) : RawM WriteResult :=
  put path value precondition

section Asking

variable {ε : Type}

def utcNow : Fallible Object Answer ε Timestamp := ask Question.now

def newUlid : Fallible Object Answer ε EventId := ask Question.ulid

end Asking

def StorageError.text : StorageError → String
  | .storage => "storage error"
  | .notFound _ => "not found"
  | .preconditionFailed message => message

section Errors

variable {α : Type}

def processing (x : RawM α) : CompactorM α := mapError (fun error => .processingError error.text) x

def publishing (x : RawM α) : CompactorM α := mapError (fun error => .publishFailed error.text) x

def StorageError.toCatalogError : StorageError → CatalogError
  | .storage => .storage
  | .notFound _ => .notFound "object" "not found"
  | .preconditionFailed message => .preconditionFailed message

def reporting (x : RawM α) : WriterM α := mapError StorageError.toCatalogError x

def checked {ε : Type} (report : String → ε) (result : Except String α) : Fallible Object Answer ε α :=
  Fallible.ofExcept (result.mapError report)

end Errors

/-- Whatever goes wrong, the snapshot counts as one without catalogs. -/
def readCatalogs (directory : String) : RawM (List CatalogRecord) :=
  Program.get (ObjectPath.file directory .catalogs) fun
    | .ok (some catalogs) => .done (.ok catalogs)
    | .ok none => .done (.ok [])
    | .fault => .ask .unreadable fun _ => .done (.ok [])

def readRows (directory : String) (table : SnapshotTable) : RawM (List table.Row) := do
  let rows ← findRaw (.file directory table)
  pure (rows.getD [])

def loadCatalogState (snapshotPath : String) : RawM CatalogState :=
  if isEmptySnapshot snapshotPath then pure {}
  else do
    let directory := trimSlashes snapshotPath
    let catalogs ← readCatalogs directory
    let namespaces ← readRows directory .namespaces
    let tables ← readRows directory .tables
    let columns ← readRows directory .columns
    let commits ← readRows directory .commits
    pure { catalogs, namespaces, tables, columns, commits }

def fileExists (directory : String) (table : SnapshotTable) (version : Nat) (rest : String) : Tier1CompactionError :=
  .processingError s!"precondition failed: snapshot file already exists{rest} at {directory}/{table.fileName} with version {version}"

/-- A file that is there already has to have the same content. -/
def putStateIfAbsent (directory : String) (table : SnapshotTable) (rows : List table.Row) : CompactorM Unit := do
  match ← processing (putRaw (.file directory table) rows .doesNotExist) with
  | .success _ => pure ()
  | .preconditionFailed version =>
    let existing ← mapError (fun _ => fileExists directory table version "") (getRaw (.file directory table))
    if existing = rows then pure ()
    else throw (fileExists directory table version " with different content")

def writeCatalogSnapshotInDir (version : Nat) (snapshotDir : String) (state : CatalogState) : CompactorM SnapshotInfo := do
  let directory := trimSlashes snapshotDir
  putStateIfAbsent directory .catalogs state.catalogs
  putStateIfAbsent directory .namespaces state.namespaces
  putStateIfAbsent directory .tables state.tables
  putStateIfAbsent directory .columns state.columns
  putStateIfAbsent directory .commits state.commits
  let publishedAt ← utcNow
  let file (table : SnapshotTable) : SnapshotFile := ⟨table.fileName, (state.rows table).length⟩
  pure { version, path := ensureDir snapshotDir, publishedAt
         files := [file .catalogs, file .namespaces, file .tables, file .columns, file .commits] }

def readCatalogEvent (path : String) : CompactorM ParsedCatalogDdlEvent := do
  let event ← mapError (fun _ => .eventReadError path) (getRaw (.ledger path))
  checked (fun message => .processingError s!"invalid catalog event envelope: {message}") event.validate
  pure event.payload

/-- The events are applied one by one, in the order in which they are named. -/
def applyEvents : List String → CatalogState → CompactorM (CatalogState × List ParsedCatalogDdlEvent)
  | [], state => pure (state, [])
  | path :: paths, state => do
    let event ← readCatalogEvent path
    let state ← checked .processingError (state.applyCatalogEvent event)
    let (state, events) ← applyEvents paths state
    pure (state, event :: events)

def nextAvailableFrom {ε : Type} (headError : StorageError → ε) (idError : String → ε) :
    (fuel : Nat) → (candidate : String) → Fallible Object Answer ε String
  | 0, _ => throw (idError "manifest_id overflow while generating successor")
  | fuel + 1, candidate => do
    let path := ObjectPath.manifest (catalog.manifestSnapshot candidate)
    match ← mapError headError (headRaw path) with
    | none => pure candidate
    | some _ =>
      let candidate ← checked idError (nextManifestId candidate)
      nextAvailableFrom headError idError fuel candidate

/-- There are no more candidates than numbers of 64 bits. -/
def nextAvailableManifestId {ε : Type} (headError : StorageError → ε) (idError : String → ε)
    (previousManifestId : String) : Fallible Object Answer ε String := do
  let candidate ← checked idError (nextManifestId previousManifestId)
  nextAvailableFrom headError idError Core.maxU64 candidate

def buildCatalogCommitRecord (commitUlid : String) (snapshotVersion : Nat) (publishedAt : Int) (fencingToken : Nat)
    (watermarkEventId : Option String) (metadata : CatalogCommitMetadata) : Except String CatalogCommitRecord :=
  if 2 ^ 63 ≤ snapshotVersion then .error s!"snapshot_version {snapshotVersion} does not fit in i64"
  else if 2 ^ 63 ≤ fencingToken then .error s!"fencing_token {fencingToken} does not fit in i64"
  else .ok {
    commitUlid, snapshotVersion, publishedAt, fencingToken, watermarkEventId
    operation := metadata.operation
    objectType := metadata.objectType
    objectId := metadata.objectId
    objectName := metadata.objectName }

def timestampMillis (time : Timestamp) : Int := time / 1000000

def revalidateLock (fencingToken : Nat) : CompactorM Unit := do
  match ← processing (findRaw .lock) with
  | none => throw (.staleFencingToken 0 fencingToken)
  | some lockInfo =>
    let now ← utcNow
    if lockInfo.isExpired now || lockInfo.sequenceNumber ≠ fencingToken then
      throw (.staleFencingToken lockInfo.sequenceNumber fencingToken)

structure Visible where
  version : Nat
  pointer : DomainManifestPointer
  manifest : CatalogDomainManifest

def readVisible (fencingToken : Nat) : CompactorM Visible := do
  match ← processing (headRaw .pointer) with
  | none => throw (.processingError "missing catalog manifest pointer")
  | some version =>
    let pointer ← processing (getRaw .pointer)
    if fencingToken < pointer.epoch then throw (.staleFencingToken pointer.epoch fencingToken)
    else
      let manifest ← processing (getRaw (.manifest pointer.manifestPath))
      pure { version, pointer, manifest }

structure Tier1CompactionResult where
  manifestVersion : Nat
  commitUlid : String
  manifestId : String
  eventsProcessed : Nat
  snapshotVersion : Nat

/-- The result for events that are all at or below the watermark. -/
def Visible.unchanged (visible : Visible) : Tier1CompactionResult where
  manifestVersion := visible.version
  commitUlid := (visible.manifest.lastCommitId.or visible.manifest.commitUlid).getD ""
  manifestId := visible.manifest.manifestId
  eventsProcessed := 0
  snapshotVersion := visible.manifest.snapshotVersion

/-- A commit keeps its id and its time when it is tried again on the same manifest. -/
structure ReservedCatalogCommit where
  previousManifestId : String
  commitUlid : String
  publishedAt : Timestamp

/-- A new commit is made in any case, and dropped if there is one. -/
def reserveCommit (ulids : Ulids) (reserved : Option ReservedCatalogCommit) (previous : CatalogDomainManifest) :
    CompactorM ReservedCatalogCommit := do
  let candidate ← newUlid
  let commitUlid ← checked .processingError (nextCommitUlid ulids candidate previous.commitUlid)
  let publishedAt ← utcNow
  pure ((reserved.filter (·.previousManifestId = previous.manifestId)).getD
    { previousManifestId := previous.manifestId, commitUlid, publishedAt })

section Compaction

variable (sums : Checksums) (fencingToken : Nat)

def Visible.successor (visible : Visible) (commit : ReservedCatalogCommit) (manifestId : String) (snapshot : SnapshotInfo)
    (watermarkEventId : Option String) : CatalogDomainManifest where
  manifestId := manifestId
  epoch := fencingToken
  previousManifestPath := some visible.pointer.manifestPath
  writerSessionId := some catalog.lock
  snapshotVersion := snapshot.version
  snapshotPath := snapshot.path
  snapshot := some { snapshot with publishedAt := commit.publishedAt }
  watermarkEventId := watermarkEventId
  lastCommitId := some commit.commitUlid
  fencingToken := some fencingToken
  commitUlid := some commit.commitUlid
  parentHash := some (sums.manifestHash visible.manifest)
  updatedAt := commit.publishedAt

def Visible.successorPointer (visible : Visible) (manifest : CatalogDomainManifest) (updatedAt : Timestamp) :
    DomainManifestPointer where
  manifestId := manifest.manifestId
  manifestPath := catalog.manifestSnapshot manifest.manifestId
  epoch := fencingToken
  parentPointerHash := some (sums.pointerHash visible.pointer)
  updatedAt := updatedAt

def commitMetadata : List ParsedCatalogDdlEvent → CatalogCommitMetadata
  | [event] => catalogCommitMetadata event
  | _ => {}

/-- The events are applied and the snapshot is written; nothing of it is visible yet. -/
def prepareCommit (visible : Visible) (unapplied : List String) (reserved : Option ReservedCatalogCommit) :
    CompactorM (ReservedCatalogCommit × CatalogDomainManifest) := do
  let state ← processing (loadCatalogState visible.manifest.snapshotPath)
  let (state, events) ← applyEvents unapplied state
  let nextVersion := visible.manifest.snapshotVersion + 1
  let commit ← reserveCommit sums.toUlids reserved visible.manifest
  let manifestId ← nextAvailableManifestId (fun error => .publishFailed error.text) .processingError
    visible.manifest.manifestId
  let record ← checked .processingError (buildCatalogCommitRecord commit.commitUlid nextVersion
    (timestampMillis commit.publishedAt) fencingToken (maxEventIdFromPaths unapplied) (commitMetadata events))
  let snapshot ← writeCatalogSnapshotInDir nextVersion (snapshotAttemptDir .catalog nextVersion manifestId)
    { state with commits := state.commits ++ [record] }
  let manifest := visible.successor sums fencingToken commit manifestId snapshot (maxEventIdFromPaths unapplied)
  checked .processingError (manifest.validateSuccession visible.manifest (sums.manifestHash visible.manifest))
  pure (commit, manifest)

/-- The remaining attempts are made with the commit that was reserved by the first. -/
def syncCompactAttempts (eventPaths : List String) :
    (attempts : Nat) → Option ReservedCatalogCommit → CompactorM Tier1CompactionResult
  | 0, _ => throw (.publishFailed "manifest update lost CAS race after max retries")
  | attempts + 1, reserved => do
    let visible ← readVisible fencingToken
    let unapplied := unappliedEventPathsAfterWatermark eventPaths visible.manifest.watermarkEventId
    if unapplied.isEmpty then pure visible.unchanged
    else
      let (commit, manifest) ← prepareCommit sums fencingToken visible unapplied reserved
      let path := catalog.manifestSnapshot manifest.manifestId
      match ← processing (putRaw (.manifest path) manifest .doesNotExist) with
      | .preconditionFailed _ =>
        if attempts = 0 then throw (.publishFailed s!"catalog snapshot manifest already exists: {path}")
        else syncCompactAttempts eventPaths attempts (some commit)
      | .success _ =>
        let updatedAt ← utcNow
        revalidateLock fencingToken
        let pointer := visible.successorPointer sums fencingToken manifest updatedAt
        match ← publishing (putRaw .pointer pointer (.matchesVersion visible.version)) with
        | .success version =>
          pure {
            manifestVersion := version
            commitUlid := commit.commitUlid
            manifestId := manifest.manifestId
            eventsProcessed := unapplied.length
            snapshotVersion := manifest.snapshotVersion }
        | .preconditionFailed _ => syncCompactAttempts eventPaths attempts (some commit)

def casMaxRetries : Nat := 5

def syncCompactCatalog (eventPaths : List String) : CompactorM Tier1CompactionResult :=
  syncCompactAttempts sums fencingToken eventPaths casMaxRetries none

def validatePaths (eventPaths : List String) : Except String (List String) :=
  (validateEventPaths .catalog eventPaths).mapError fun
    | .validation message => message
    | _ => ""

def syncCompact (eventPaths : List String) : CompactorM Tier1CompactionResult := do
  let eventPaths ← checked .processingError (validatePaths eventPaths)
  if eventPaths.isEmpty then throw (.processingError "no event paths provided")
  else
    revalidateLock fencingToken
    syncCompactCatalog sums fencingToken eventPaths

end Compaction

/-! ## The writer: initialization, direct updates of the manifest, and the ledger -/

def readCurrentManifest : WriterM CatalogDomainManifest := do
  let pointer ← reporting (getRaw .pointer)
  reporting (getRaw (.manifest pointer.manifestPath))

/-- The manifests of the other domains are read too, which can only fail. -/
def readManifest : WriterM CatalogDomainManifest := do
  let _ ← reporting (getRaw .root)
  readCurrentManifest

structure CommitRecord where
  commitId : String
  prevCommitId : Option String
  operation : String
  payloadHash : String
  createdAt : Timestamp

section Update

variable (sums : Checksums) (writerEpoch : Nat)

/-- What an update leaves to the caller is everything but the fields that tie a manifest to its predecessor. -/
def Visible.updated (visible : Visible) (manifest : CatalogDomainManifest) (manifestId commitUlid sessionId : String)
    (updatedAt : Timestamp) : CatalogDomainManifest :=
  { manifest with
    manifestId
    epoch := writerEpoch
    previousManifestPath := some visible.pointer.manifestPath
    writerSessionId := some sessionId
    fencingToken := some writerEpoch
    commitUlid := some commitUlid
    parentHash := some (sums.manifestHash visible.manifest)
    updatedAt }

def readForUpdate : WriterM Visible := do
  match ← reporting (headRaw .pointer) with
  | none => throw (.notFound "catalog manifest pointer" catalog.manifestPointer)
  | some version =>
    let pointer ← reporting (getRaw .pointer)
    if writerEpoch < pointer.epoch then
      throw (.preconditionFailed s!"stale epoch: writer epoch {writerEpoch} is behind pointer epoch {pointer.epoch}")
    else
      let manifest ← reporting (getRaw (.manifest pointer.manifestPath))
      pure { version, pointer, manifest }

def prepareUpdate (visible : Visible) (update : CatalogDomainManifest → Except CatalogError CatalogDomainManifest) :
    WriterM (CatalogDomainManifest × CommitRecord) := do
  let manifest ← Fallible.ofExcept (update visible.manifest)
  let updatedAt ← utcNow
  let sessionId ← newUlid
  let candidate ← newUlid
  let commitUlid ← checked .invariantViolation (nextCommitUlid sums.toUlids candidate visible.manifest.commitUlid)
  let manifestId ← nextAvailableManifestId StorageError.toCatalogError .invariantViolation visible.manifest.manifestId
  let manifest := visible.updated sums writerEpoch manifest manifestId commitUlid sessionId.text updatedAt
  checked .invariantViolation (manifest.validateSuccession visible.manifest (sums.manifestHash visible.manifest))
  let createdAt ← utcNow
  pure ({ manifest with lastCommitId := some commitUlid }, {
    commitId := commitUlid
    prevCommitId := visible.manifest.lastCommitId
    operation := "Update"
    payloadHash := sums.manifestHash manifest
    createdAt })

def publishUpdate (visible : Visible) (manifest : CatalogDomainManifest) (pointer : DomainManifestPointer) :
    RawM Core.SnapshotPointerPublishOutcome :=
  Core.publishSnapshotPointerTransaction
    (.preconditionFailed s!"immutable manifest snapshot already exists: {pointer.manifestPath}")
    (.preconditionFailed "manifest publish failed - concurrent write")
    (ObjectPath.manifest pointer.manifestPath) manifest ObjectPath.pointer pointer (some visible.version) none .visible
    (pure ())

/-- An update is tried again when another manifest or another pointer came first. -/
def updateInner (update : CatalogDomainManifest → Except CatalogError CatalogDomainManifest) :
    (attempts : Nat) → WriterM CommitRecord
  | 0 => throw (.invariantViolation "unreachable: CAS retry loop exhausted")
  | attempts + 1 => do
    let visible ← readForUpdate writerEpoch
    let (manifest, commit) ← prepareUpdate sums writerEpoch visible update
    let updatedAt ← utcNow
    let pointer := visible.successorPointer sums writerEpoch manifest updatedAt
    match ← attempt (publishUpdate visible manifest pointer) with
    | .ok (.visible _ _) => pure commit
    | .ok .persistedNotVisible =>
      throw (.invariantViolation "unexpected persisted-not-visible outcome in visible durability mode")
    | .error (.preconditionFailed _) =>
      if attempts = 0 then throw (.preconditionFailed "manifest update lost CAS race after max retries")
      else updateInner update attempts
    | .error error => throw error.toCatalogError

end Update

/-! ## Initialization

Installations of old versions had one manifest that was overwritten in place. A manifest of such an
installation is copied when there is no pointer yet, and a chain of manifests that leads back to it
is cut off.
-/

def domainManifestStr (domain : String) : String :=
  let normalized := normalizeManifestDomain domain
  s!"manifests/{normalized}.manifest.json"

def legacyDomain (path : String) : Option String :=
  (Text.stripPrefix "manifests/" path).bind (Text.stripSuffix ".manifest.json")

def legacyManifestCandidatePath (rootPath : String) : String :=
  match legacyDomain rootPath with
  | some domain => domainManifestStr domain
  | none => catalog.manifest

def isLegacyDomainManifestPath (path : String) : Bool :=
  match legacyDomain path with
  | some domain => domainManifestStr domain = catalog.manifest
  | none => false

def sanitizeLegacyBootstrapHistory (manifest : CatalogDomainManifest) (snapshotManifestPath : String) :
    CatalogDomainManifest :=
  if manifest.previousManifestPath.any fun path => isLegacyDomainManifestPath path || path = snapshotManifestPath then
    { manifest with previousManifestPath := none, parentHash := none }
  else manifest

/-- Nothing is written over an object that is there. -/
def ensureExists (path : ObjectPath) (value : Object path) : WriterM Unit := do
  let _ ← reporting (putRaw path value .doesNotExist)
  pure ()

def bootstrapTier1Manifest (legacyRootPath : String) : WriterM Unit := do
  match ← reporting (headRaw .pointer) with
  | some _ => pure ()
  | none =>
    match ← reporting (findRaw (.manifest (legacyManifestCandidatePath legacyRootPath))) with
    | some manifest =>
      let path := catalog.manifestSnapshot manifest.manifestId
      ensureExists (.manifest path) (sanitizeLegacyBootstrapHistory manifest path)
      let updatedAt ← utcNow
      ensureExists .pointer {
        manifestId := manifest.manifestId
        manifestPath := path
        epoch := manifest.fencingToken.getD manifest.epoch
        updatedAt }
    | none =>
      let updatedAt ← utcNow
      ensureExists (.manifest (catalog.manifestSnapshot initialManifestId)) { updatedAt }
      let updatedAt ← utcNow
      ensureExists .pointer { updatedAt }

/-- The walk ends at a path that was visited before, or when the manifests run out. -/
def reachesLegacyHead : (fuel : Nat) → (visited : List String) → (path : String) → CatalogDomainManifest → WriterM Bool
  | 0, _, _, _ => throw .storage
  | fuel + 1, visited, path, manifest =>
    match manifest.previousManifestPath with
    | none => pure false
    | some previous =>
      if isLegacyDomainManifestPath previous || previous = path then pure true
      else if previous ∈ visited then pure false
      else do
        match ← reporting (findRaw (.manifest previous)) with
        | none => pure false
        | some manifest => reachesLegacyHead fuel (previous :: visited) previous manifest

section Initialization

variable (sums : Checksums) (writerEpoch fuel : Nat)

def Visible.repaired (visible : Visible) (manifestId : String) (updatedAt : Timestamp) : CatalogDomainManifest :=
  { visible.manifest with
    manifestId, previousManifestPath := none, parentHash := none, epoch := writerEpoch
    fencingToken := some writerEpoch, updatedAt }

def repairLegacyCatalogManifestHistory : WriterM Unit := do
  match ← reporting (headRaw .pointer) with
  | none => pure ()
  | some version =>
    let pointer ← reporting (getRaw .pointer)
    let manifest ← reporting (getRaw (.manifest pointer.manifestPath))
    let visible : Visible := { version, pointer, manifest }
    if ← reachesLegacyHead fuel [pointer.manifestPath] pointer.manifestPath manifest then
      let manifestId ← nextAvailableManifestId StorageError.toCatalogError .invariantViolation pointer.manifestId
      let updatedAt ← utcNow
      let repaired := visible.repaired writerEpoch manifestId updatedAt
      let updatedAt ← utcNow
      match ← reporting (publishUpdate visible repaired (visible.successorPointer sums writerEpoch repaired updatedAt)) with
      | .visible _ _ => pure ()
      | .persistedNotVisible =>
        throw (.invariantViolation "unexpected persisted-not-visible outcome in visible durability mode")

def initializeCatalog : WriterM Unit := do
  let root ← reporting (findRaw .root)
  let root : RootManifest := root.getD {}
  bootstrapTier1Manifest root.catalogManifestPath
  let _ ← reporting (putRaw .root root.normalizePaths .none)
  repairLegacyCatalogManifestHistory sums writerEpoch fuel

end Initialization

def currentWatermarkEventId (ulids : Ulids) : WriterM (Option EventId) := do
  let manifest ← readManifest
  match manifest.watermarkEventId with
  | none => pure none
  | some text =>
    match ulids.parse text with
    | some id => pure (some id)
    | none => throw (.validation s!"invalid event ID '{text}'")

def maxEventId : Option EventId → Option EventId → Option EventId
  | some first, some second => some (if first.text < second.text then second else first)
  | some first, none => some first
  | none, second => second

def newEventId (ulids : Ulids) (floor : Option EventId) : WriterM EventId := do
  let candidate ← newUlid
  match generateAfter ulids candidate floor with
  | some id => pure id
  | none => throw (.validation "event ID watermark overflowed while generating successor")

/-- An event with the same payload that is there already is taken for the one to be written. -/
def appendAttempts (ulids : Ulids) (event : CatalogEvent) : (attempts : Nat) → EventId → WriterM EventId
  | 0, _ => throw (.invariantViolation "failed to allocate unique ledger event ID after collision retries")
  | attempts + 1, id => do
    let path := ObjectPath.ledger (catalog.ledgerEvent id.text)
    match ← reporting (putRaw path event .doesNotExist) with
    | .success _ => pure id
    | .preconditionFailed _ =>
      let existing ← reporting (getRaw path)
      if existing.payload.eventVersion = event.payload.eventVersion ∧ existing.idempotencyKey = event.idempotencyKey then
        pure id
      else
        let next ← newEventId ulids (some id)
        appendAttempts ulids event attempts next

def appendLedgerEventAfter (sums : Checksums) (payload : ParsedCatalogDdlEvent) (source : String)
    (previousEventId : Option EventId) : WriterM EventId := do
  let event : CatalogEvent := { payload, idempotencyKey := sums.idempotencyKey payload, source }
  checked (fun message => .invariantViolation s!"invalid event envelope: {message}") event.validate
  let watermark ← currentWatermarkEventId sums.toUlids
  let id ← newEventId sums.toUlids (maxEventId watermark previousEventId)
  appendAttempts sums.toUlids event 1024 id

end Arco.Catalog.Tier1
