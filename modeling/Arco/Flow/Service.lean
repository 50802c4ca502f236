import Arco.Core.Lock
import Arco.Flow.Manifest

/-! The micro-compactor as a program over the object store.

A compaction reads the visible manifest, folds the events of its batch into the state that the
manifest describes, writes what has changed as a delta or the whole state as a new base, and
publishes a manifest that follows the one it has read. Where storage reports that an immutable object
exists already, the compaction starts again, up to three times.
-/

namespace Arco.Flow

open Storage

inductive ObjectPath where
  | pointer
  | manifest (path : String)
  | artifact (tables : TablePaths)
  | ledger (path : String)
  | lock
  deriving DecidableEq

@[reducible] def Object : ObjectPath → Type
  | .pointer => OrchestrationManifestPointer
  | .manifest _ => OrchestrationManifest
  | .artifact _ => FoldState
  | .ledger _ => OrchestrationEvent
  | .lock => Core.LockInfo

inductive CompactionError where
  | storage
  | notFound (path : ObjectPath)
  | invalidInput (message : String)
  | serialization (message : String)
  | validation (message : String)
  | fencingLockUnavailable (lockPath : String) (provided : Nat)
  | staleFencingToken (expected provided : Nat)
  | artifactExists (tables : TablePaths)
  | snapshotConflict (snapshotPath : String)
  | concurrentWrite

instance : Faulty CompactionError ObjectPath where
  fault := .storage
  notFound := .notFound

abbrev CompactorM : Type → Type := Fallible Object Core.Answer CompactionError

abbrev headRaw (path : ObjectPath) : CompactorM (Option Nat) := Fallible.head path

abbrev getRaw (path : ObjectPath) : CompactorM (Object path) := Fallible.get path

def readLockInfo : CompactorM (Option Core.LockInfo) := Fallible.find ObjectPath.lock

structure Checksums where
  pointerHash : OrchestrationManifestPointer → String
  tablesChecksum : FoldState → String

structure MicroCompactor where
  tenantId : String
  workspaceId : String
  tenantSecret : List UInt8 := []
  durabilityMode : DurabilityMode := .visible

inductive CompactionVisibility where
  | visible
  | persistedNotVisible

structure CompactionResult where
  eventsProcessed : Nat
  deltaId : Option String
  manifestId : String
  manifestRevision : String
  pointerVersion : Option Nat
  visibilityStatus : CompactionVisibility
  repairPending : Bool

structure Current where
  manifest : OrchestrationManifest
  previous : Option (Nat × OrchestrationManifestPointer)

def validateFencingLock (fencingToken : Option Nat) (lockPath : Option String) : CompactorM Unit :=
  match fencingToken, lockPath with
  | some fencingToken, some lockPath =>
    if lockPath ≠ orchestrationCompactionLockPath then throw (.invalidInput "invalid lock_path")
    else do
      match ← readLockInfo with
      | none => throw (.fencingLockUnavailable lockPath fencingToken)
      | some lockInfo =>
        let now ← Core.utcNow
        if lockInfo.isExpired now then throw (.fencingLockUnavailable lockPath fencingToken)
        else if lockInfo.sequenceNumber ≠ fencingToken then
          throw (.staleFencingToken lockInfo.sequenceNumber fencingToken)
        else pure ()
  | _, _ => pure ()

/-- The version of the pointer is read before the pointer. Without a pointer, the manifest of an old
installation is used if there is one. -/
def readManifestWithVersion : CompactorM Current := do
  match ← headRaw .pointer with
  | some version =>
    let pointer ← getRaw .pointer
    let manifest ← getRaw (.manifest pointer.manifestPath)
    pure {
      manifest := { manifest with manifestId := pointer.manifestId, epoch := max manifest.epoch pointer.epoch }
      previous := some (version, pointer) }
  | none =>
    match ← headRaw (.manifest orchestrationManifestPath) with
    | some _ =>
      let manifest ← getRaw (.manifest orchestrationManifestPath)
      pure { manifest, previous := none }
    | none =>
      let revisionUlid ← Core.newUlid
      let publishedAt ← Core.utcNow
      pure { manifest := { revisionUlid, publishedAt }, previous := none }

def loadDeltas : List L0Delta → CompactorM (List FoldState)
  | [] => pure []
  | delta :: deltas => do
    let state ← getRaw (.artifact delta.tables)
    let states ← loadDeltas deltas
    pure (state :: states)

def loadBase (base : BaseSnapshot) : CompactorM FoldState :=
  match base.snapshotId with
  | some _ => getRaw (.artifact base.tables)
  | none => pure {}

/-- The base and the deltas of a manifest, to be merged by `Store.loadCurrentState`. -/
def loadCurrentState (manifest : OrchestrationManifest) : CompactorM Store := do
  let base ← loadBase manifest.baseSnapshot
  let deltas ← loadDeltas manifest.l0Deltas
  pure { base, deltas }

def MicroCompactor.scopeMismatch (compactor : MicroCompactor) (path : String) (event : OrchestrationEvent) : String :=
  let expectedTenant := compactor.tenantId.quote
  let expectedWorkspace := compactor.workspaceId.quote
  let tenant := event.tenantId.quote
  let workspace := event.workspaceId.quote
  s!"event scope mismatch at {path}: expected tenant_id={expectedTenant} workspace_id={expectedWorkspace}, " ++
    s!"got tenant_id={tenant} workspace_id={workspace}"

def MicroCompactor.readEvents (compactor : MicroCompactor) : List String → CompactorM LedgerEvents
  | [] => pure []
  | path :: paths => do
    let event ← getRaw (.ledger path)
    if event.tenantId = compactor.tenantId ∧ event.workspaceId = compactor.workspaceId then
      let events ← compactor.readEvents paths
      pure ((path, event) :: events)
    else throw (.invalidInput (compactor.scopeMismatch path event))

def writeStateParquet (sums : Checksums) (directory : String) (state : FoldState) : CompactorM TablePaths := do
  let tables : TablePaths := { directory, checksum := sums.tablesChecksum state }
  match ← Fallible.put (ObjectPath.artifact tables) state .doesNotExist with
  | .success _ => pure tables
  | .preconditionFailed _ => throw (.artifactExists tables)

section Compaction

variable (ext : Externals) (sums : Checksums) (compactor : MicroCompactor) (fencingToken : Option Nat)
  (lockPath : Option String)

def successorPointer (manifest : OrchestrationManifest) (previous : Option (Nat × OrchestrationManifestPointer))
    (updatedAt : Timestamp) : OrchestrationManifestPointer where
  manifestId := manifest.manifestId
  manifestPath := orchestrationManifestSnapshotPath manifest.manifestId
  epoch := manifest.epoch
  parentPointerHash := previous.map fun (_, pointer) => sums.pointerHash pointer
  updatedAt := updatedAt

/-- A manifest that follows a visible one is checked against it and against its pointer. -/
def validatePublication (manifest previousManifest : OrchestrationManifest) (pointer : OrchestrationManifestPointer) :
    Option (Nat × OrchestrationManifestPointer) → Except String Unit
  | none => pure ()
  | some (_, previousPointer) => do
    manifest.validateSuccession previousManifest
    pointer.validateSuccession previousPointer (sums.pointerHash previousPointer)

def publishManifest (manifest previousManifest : OrchestrationManifest)
    (previous : Option (Nat × OrchestrationManifestPointer)) : CompactorM Core.SnapshotPointerPublishOutcome := do
  let updatedAt ← Core.utcNow
  let pointer := successorPointer sums manifest previous updatedAt
  validateFencingLock fencingToken lockPath
  match validatePublication sums manifest previousManifest pointer previous with
  | .error message => throw (.validation message)
  | .ok () =>
    Core.publishSnapshotPointerTransaction (.snapshotConflict pointer.manifestPath) .concurrentWrite
      (ObjectPath.manifest pointer.manifestPath) manifest ObjectPath.pointer pointer (previous.map Prod.fst) none
      (match compactor.durabilityMode with
        | .visible => .visible
        | .persisted => .persisted)
      (pure ())

def CompactionResult.of (eventsProcessed : Nat) (deltaId : Option String) (manifest : OrchestrationManifest)
    (previous : Option (Nat × OrchestrationManifestPointer)) : Core.SnapshotPointerPublishOutcome → CompactionResult
  | .visible pointerVersion repairPending =>
    { eventsProcessed, deltaId, manifestId := manifest.manifestId, manifestRevision := manifest.revisionUlid
      pointerVersion := some pointerVersion, visibilityStatus := .visible, repairPending }
  | .persistedNotVisible =>
    { eventsProcessed, deltaId, manifestId := manifest.manifestId, manifestRevision := manifest.revisionUlid
      pointerVersion := previous.map Prod.fst, visibilityStatus := .persistedNotVisible, repairPending := false }

/-- The result that reports the visible manifest, without a publication. -/
def CompactionResult.unchanged (eventsProcessed : Nat) (current : Current) : CompactionResult where
  eventsProcessed := eventsProcessed
  deltaId := none
  manifestId := current.manifest.manifestId
  manifestRevision := current.manifest.revisionUlid
  pointerVersion := current.previous.map Prod.fst
  visibilityStatus := .visible
  repairPending := false

/-- An empty batch only publishes the first manifest. -/
def publishFirst (current : Current) : CompactorM CompactionResult :=
  match current.previous with
  | some _ => pure (.unchanged 0 current)
  | none => do
    let outcome ← publishManifest sums compactor fencingToken lockPath current.manifest current.manifest none
    pure (.of 0 none current.manifest none outcome)

/-- The new state of a batch, and the rows in which it differs from the loaded one. -/
structure FoldedBatch where
  events : LedgerEvents
  state : FoldState
  delta : FoldState

def foldBatch (store : Store) (events : LedgerEvents) : FoldedBatch :=
  let state := store.compacted ext compactor.tenantSecret (events.map Prod.snd)
  { events := events.insertionSort fun a b => a.2.eventId ≤ b.2.eventId
    state
    delta := (store.opened compactor.tenantSecret).deltaFromStates state }

def FoldedBatch.hasDelta (batch : FoldedBatch) : Bool := !batch.delta.deltaStateIsEmpty

def FoldedBatch.lastEventId (batch : FoldedBatch) : String :=
  (batch.events.getLast?.map fun event => event.2.eventId).getD ""

def FoldedBatch.eventRange (batch : FoldedBatch) : EventRange where
  fromEvent := (batch.events.head?.map fun event => event.2.eventId).getD ""
  toEvent := batch.lastEventId
  eventCount := batch.events.length

def FoldedBatch.l0Delta (batch : FoldedBatch) (deltaId : String) (createdAt : Timestamp) (tables : TablePaths) :
    L0Delta where
  deltaId := deltaId
  createdAt := createdAt
  eventRange := batch.eventRange
  tables := tables
  rowCounts := batch.delta.rowCounts

def OrchestrationManifest.withDelta (manifest : OrchestrationManifest) (delta : L0Delta) : OrchestrationManifest :=
  { manifest with l0Deltas := manifest.l0Deltas ++ [delta], l0Count := manifest.l0Count + 1 }

def OrchestrationManifest.withBase (manifest : OrchestrationManifest) (base : BaseSnapshot) : OrchestrationManifest :=
  { manifest with baseSnapshot := base, l0Deltas := [], l0Count := 0 }

/-- The decision to collapse the deltas counts the one that is about to be written. -/
def FoldedBatch.shouldMergeToBase (batch : FoldedBatch) (manifest : OrchestrationManifest) (createdAt now : Timestamp) :
    Bool :=
  if batch.hasDelta then (manifest.withDelta (batch.l0Delta "pending" createdAt ⟨"", ""⟩)).shouldCompactL0 now
  else manifest.shouldCompactL0 now

/-- A manifest whose artifacts are written, the id of its new delta, and whether anything has changed. -/
structure Persisted where
  manifest : OrchestrationManifest
  deltaId : Option String
  storageChanged : Bool

def persistBatch (manifest : OrchestrationManifest) (batch : FoldedBatch) : CompactorM Persisted := do
  let createdAt ← Core.utcNow
  let now ← Core.utcNow
  if batch.shouldMergeToBase manifest createdAt now then
    let snapshotId ← Core.newUlid
    let tables ← writeStateParquet sums (orchestrationBaseSnapshotDir snapshotId) batch.state.tables
    let publishedAt ← Core.utcNow
    pure { manifest := manifest.withBase { snapshotId := some snapshotId, publishedAt, tables }
           deltaId := none
           storageChanged := !manifest.l0Deltas.isEmpty || batch.hasDelta }
  else if batch.hasDelta then
    let deltaId ← Core.newUlid
    let tables ← writeStateParquet sums (orchestrationL0Dir deltaId) batch.delta
    pure { manifest := manifest.withDelta (batch.l0Delta deltaId createdAt tables)
           deltaId := some deltaId
           storageChanged := true }
  else pure { manifest, deltaId := none, storageChanged := false }

/-- The header of a successor; the epoch never falls behind the pointer or the fencing token. -/
def OrchestrationManifest.advanced (manifest : OrchestrationManifest) (manifestId : String)
    (previous : Option (Nat × OrchestrationManifestPointer)) (revisionUlid : String) (publishedAt : Timestamp) :
    OrchestrationManifest :=
  { manifest with
    manifestId
    previousManifestPath := previous.map fun (_, pointer) => pointer.manifestPath
    epoch := max (max manifest.epoch ((previous.map fun (_, pointer) => pointer.epoch).getD 0)) (fencingToken.getD 0)
    revisionUlid
    publishedAt }

def publishBatch (current : Current) (batch : FoldedBatch) : CompactorM CompactionResult := do
  let persisted ← persistBatch sums current.manifest batch
  let now ← Core.utcNow
  let (watermarkChanged, manifest) :=
    updateWatermarks persisted.manifest batch.events batch.lastEventId compactor.durabilityMode now
  if persisted.storageChanged || watermarkChanged then
    match nextManifestId manifest.manifestId with
    | .error message => throw (.serialization message)
    | .ok manifestId =>
      let revisionUlid ← Core.newUlid
      let publishedAt ← Core.utcNow
      let manifest := manifest.advanced fencingToken manifestId current.previous revisionUlid publishedAt
      let outcome ← publishManifest sums compactor fencingToken lockPath manifest current.manifest current.previous
      pure (.of batch.events.length persisted.deltaId manifest current.previous outcome)
  else pure (.unchanged batch.events.length current)

def compactOnce (eventPaths : List String) : CompactorM CompactionResult := do
  validateFencingLock fencingToken lockPath
  let current ← readManifestWithVersion
  if eventPaths.isEmpty then publishFirst sums compactor fencingToken lockPath current
  else
    let store ← loadCurrentState current.manifest
    let events ← compactor.readEvents eventPaths
    publishBatch sums compactor fencingToken lockPath current (foldBatch ext compactor store events)

def CompactionError.retries : CompactionError → Bool
  | .snapshotConflict _ | .artifactExists _ => true
  | _ => false

def compactEventsRetrying (eventPaths : List String) : (retries : Nat) → CompactorM CompactionResult
  | 0 => compactOnce ext sums compactor fencingToken lockPath eventPaths
  | retries + 1 => (compactOnce ext sums compactor fencingToken lockPath eventPaths).run.bind fun
    | .ok result => .done (.ok result)
    | .error error => if error.retries then compactEventsRetrying eventPaths retries else .done (.error error)

/-- One attempt for each delay between two attempts, and one more. -/
def compactionPublishRetryDelaysMs : List Nat := [0, 5, 25]

def compactEventsInternal (eventPaths : List String) : CompactorM CompactionResult :=
  compactEventsRetrying ext sums compactor fencingToken lockPath eventPaths compactionPublishRetryDelaysMs.length

end Compaction

/-- Besides the compactors there are the producers of events and the holders of the compaction lock. -/
inductive CompactorCall where
  | compact (compactor : MicroCompactor) (eventPaths : List String) (fencingToken : Option Nat)
    (lockPath : Option String)
  | append (date : String) (event : OrchestrationEvent)
  | lock (lockInfo : Core.LockInfo)

def orchestrationEventPath (date eventId : String) : String := s!"ledger/orchestration/{date}/{eventId}.json"

/-- An event that is there already is not written again. -/
def appendEvent (date : String) (event : OrchestrationEvent) : CompactorM Unit := do
  let _ ← Fallible.put (ObjectPath.ledger (orchestrationEventPath date event.eventId)) event .doesNotExist
  pure ()

/-- Holders of the lock may leave any record there. -/
def writeLock (lockInfo : Core.LockInfo) : CompactorM Unit := do
  let _ ← Fallible.put ObjectPath.lock lockInfo .none
  pure ()

abbrev CompactorOutcome : Type := Except CompactionError (Option CompactionResult)

def CompactorCall.program (ext : Externals) (sums : Checksums) : CompactorCall → CompactorM (Option CompactionResult)
  | .compact compactor eventPaths fencingToken lockPath => do
    let result ← compactEventsInternal ext sums compactor fencingToken lockPath eventPaths
    pure (some result)
  | .append date event => do
    appendEvent date event
    pure none
  | .lock lockInfo => do
    writeLock lockInfo
    pure none

def compactorProtocol (ext : Externals) (sums : Checksums) :
    Protocol Object Core.Answer CompactorOutcome CompactorCall where
  program call := (call.program ext sums).run
  follows _ _ := true

end Arco.Flow
