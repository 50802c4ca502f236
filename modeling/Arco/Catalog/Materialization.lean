import Arco.Catalog.Paths
import Arco.Data.Table
import Mathlib.Data.List.Sort

/-! The compaction of execution events, without storage.

A compaction selects event files, folds their records into the ones of the visible snapshot and
describes the result by a new manifest. A record with a sequence position is not replaced by one with
a lower position; the records of the snapshot have lost their positions.
-/

namespace Arco.Catalog

open Keyed Arco.Core

structure MaterializationRecord where
  materializationId : String
  assetId : String
  rowCount : Int := 0
  byteSize : Int := 0
  deriving DecidableEq

def materializationEventType : String := "materialization.completed"

def materializationEventVersion : Nat := 1

/-- An envelope, with the record that its payload is read as, or the reason why it is none. -/
structure CatalogEvent where
  eventType : String := materializationEventType
  eventVersion : Nat := materializationEventVersion
  idempotencyKey : String
  source : String
  sequencePosition : Option Nat
  payload : Except String MaterializationRecord

/-- An event file holds an envelope, a bare record of an old writer, or neither. -/
inductive EventFile where
  | enveloped (event : CatalogEvent)
  | legacy (record : MaterializationRecord)
  | unreadable (message : String)

def CatalogEvent.validate (event : CatalogEvent) : Except String Unit :=
  if Text.trim event.eventType = "" then .error "invalid input: event_type must be non-empty"
  else if event.eventVersion = 0 then .error "invalid input: event_version must be >= 1"
  else if Text.trim event.idempotencyKey = "" then .error "invalid input: idempotency_key must be non-empty"
  else if Text.trim event.source = "" then .error "invalid input: source must be non-empty"
  else .ok ()

abbrev IdempotencyKeys : Type := String → Nat → MaterializationRecord → String

structure MaterializationEvent where
  idempotencyKey : String
  record : MaterializationRecord
  sequencePosition : Option Nat
  deriving DecidableEq

/-- Why a file is not folded: the error if that is reported, and the reason for its quarantine if not. -/
structure Unusable where
  error : CatalogError
  reason : String

def parseEventFile (keys : IdempotencyKeys) (path : String) : EventFile → Except Unusable MaterializationEvent
  | .enveloped event =>
    match event.validate with
    | .error e => .error ⟨.invariantViolation s!"invalid event envelope in '{path}': {e}", "invalid_envelope"⟩
    | .ok () =>
      match event.payload with
      | .error e => .error ⟨.serialization s!"failed to parse event payload '{path}': {e}", "invalid_payload"⟩
      | .ok record =>
        if event.eventType ≠ materializationEventType ∨ event.eventVersion ≠ materializationEventVersion then
          let eventType := event.eventType
          let eventVersion := event.eventVersion
          .error ⟨.invariantViolation s!"unsupported event in '{path}': type='{eventType}' version={eventVersion}",
            "unsupported_event"⟩
        else .ok ⟨event.idempotencyKey, record, event.sequencePosition⟩
  | .legacy record => .ok ⟨keys materializationEventType materializationEventVersion record, record, none⟩
  | .unreadable e => .error ⟨.serialization s!"failed to parse legacy event '{path}': {e}", "unparseable_legacy_event"⟩

structure RecordWithSequence where
  record : MaterializationRecord
  sequencePosition : Option Nat

def RecordWithSequence.key (entry : RecordWithSequence) : String := entry.record.materializationId

def shouldReplaceSequence : (existing incoming : Option Nat) → Bool
  | some existing, some incoming => existing ≤ incoming
  | some _, none => false
  | none, _ => true

structure Folding where
  recordsByKey : Table RecordWithSequence.key := Table.empty
  seenIdempotencyKeys : List String := []
  eventsApplied : Nat := 0

namespace Folding

/-- The records of a snapshot come without sequence positions. -/
def ofSnapshot (existing : List MaterializationRecord) : Folding where
  recordsByKey := Table.empty.upsertAll (existing.map fun record => ⟨record, none⟩)

def upsert (records : Table RecordWithSequence.key) (entry : RecordWithSequence) : Table RecordWithSequence.key :=
  match records.find entry.key with
  | some existing =>
    if shouldReplaceSequence existing.sequencePosition entry.sequencePosition then records.upsert entry else records
  | none => records.upsert entry

/-- A second event with the same idempotency key is ignored within one compaction. -/
def apply (folding : Folding) (event : MaterializationEvent) : Folding :=
  if event.idempotencyKey ∈ folding.seenIdempotencyKeys then folding
  else {
    recordsByKey := upsert folding.recordsByKey ⟨event.record, event.sequencePosition⟩
    seenIdempotencyKeys := event.idempotencyKey :: folding.seenIdempotencyKeys
    eventsApplied := folding.eventsApplied + 1 }

def records (folding : Folding) : List MaterializationRecord :=
  (folding.recordsByKey.rows.map RecordWithSequence.record).insertionSort fun a b =>
    a.materializationId ≤ b.materializationId

end Folding

inductive UnknownEventPolicy where
  | reject
  | quarantine

/-- One event file; a file that is not an event stops the compaction or is left out. -/
def foldFile (keys : IdempotencyKeys) (policy : UnknownEventPolicy) (folding : Folding) (file : String × EventFile) :
    Except CatalogError Folding :=
  match parseEventFile keys file.1 file.2 with
  | .ok event => .ok (folding.apply event)
  | .error unusable =>
    match policy with
    | .reject => .error unusable.error
    | .quarantine => .ok folding

def foldFiles (keys : IdempotencyKeys) (policy : UnknownEventPolicy) (folding : Folding)
    (files : List (String × EventFile)) : Except CatalogError Folding :=
  files.foldlM (foldFile keys policy) folding

theorem foldFiles_cons {keys : IdempotencyKeys} {policy : UnknownEventPolicy} {folding folding' : Folding}
    {file : String × EventFile} (files : List (String × EventFile))
    (folded : foldFile keys policy folding file = .ok folding') :
    foldFiles keys policy folding (file :: files) = foldFiles keys policy folding' files := by
  simp only [foldFiles, List.foldlM_cons, folded]
  rfl

inductive LateEventPolicy where
  | skip
  | log
  | process
  | quarantine
  deriving DecidableEq

/-- Numbers are 64-bit in the source; a workspace has less than 2^64 compactions. -/
structure ExecutionsManifest where
  watermarkVersion : Nat := 0
  snapshotPath : Option String := none
  snapshotVersion : Nat := 0
  watermarkEventId : Option String := none
  lastCompactionAt : Option Timestamp := none
  totalEventsCompacted : Nat := 0
  totalFilesWritten : Nat := 0
  updatedAt : Timestamp

structure ObjectMeta where
  path : String
  lastModified : Option Timestamp

structure CompactionWork where
  eventsToProcess : List String
  lateEvents : List String
  newWatermarkEventId : Option String

def fileName (path : String) : String := Text.afterLast '/' path

namespace ExecutionsManifest

variable (manifest : ExecutionsManifest)

def isAfterWatermark (path : String) : Bool :=
  match manifest.watermarkEventId with
  | some watermark => watermark < fileName path
  | none => true

def modifiedSince (file : ObjectMeta) : Bool :=
  match manifest.lastCompactionAt, file.lastModified with
  | some lastCompactionAt, some lastModified => lastCompactionAt < lastModified
  | _, _ => false

/-- The events of a listing that are after the watermark. Those that are not, but were written since the
last compaction, are late. -/
def listedWork (listing : List ObjectMeta) : CompactionWork :=
  let files := listing.insertionSort fun a b => a.path ≤ b.path
  let eventsToProcess := (files.filter fun file => manifest.isAfterWatermark file.path).map ObjectMeta.path
  { eventsToProcess
    lateEvents := (files.filter fun file =>
      !manifest.isAfterWatermark file.path && manifest.modifiedSince file).map ObjectMeta.path
    newWatermarkEventId := eventsToProcess.getLast?.map fileName }

def advanceWatermark (candidate : Option String) : Option String :=
  match manifest.watermarkEventId, candidate with
  | some current, some candidate => some (if current < candidate then candidate else current)
  | some current, none => some current
  | none, candidate => candidate

/-- The events that were named explicitly. Those that are not after the watermark are late, and are only
processed if the policy says so. -/
def explicitWork (policy : LateEventPolicy) (eventPaths : List String) : CompactionWork :=
  let eventsToProcess := (eventPaths.filter fun path => manifest.isAfterWatermark path || policy = .process).insertionSort
    (· ≤ ·)
  { eventsToProcess
    lateEvents := eventPaths.filter fun path => !manifest.isAfterWatermark path
    newWatermarkEventId := manifest.advanceWatermark (eventsToProcess.getLast?.map fileName) }

/-- Without events, only the time of the compaction is noted. -/
def withoutEvents (now : Timestamp) : ExecutionsManifest :=
  { manifest with lastCompactionAt := some now, updatedAt := now }

/-- The name of a snapshot: its version and the last event in it. -/
def nextSnapshotPath (eventsToProcess : List String) : String :=
  let last := (eventsToProcess.getLast?.map fileName).getD ""
  CatalogDomain.executions.stateSnapshot (manifest.snapshotVersion + 1) ((Text.stripSuffix ".json" last).getD last)

/-- The manifest of a snapshot that was written, unless all events were ignored. -/
def withEvents (work : CompactionWork) (folding : Folding) (wroteNew : Bool) (now : Timestamp) : ExecutionsManifest :=
  { watermarkVersion := manifest.watermarkVersion + 1
    watermarkEventId := work.newWatermarkEventId.or manifest.watermarkEventId
    snapshotPath :=
      if 0 < folding.eventsApplied then some (manifest.nextSnapshotPath work.eventsToProcess) else manifest.snapshotPath
    snapshotVersion := if 0 < folding.eventsApplied then manifest.snapshotVersion + 1 else manifest.snapshotVersion
    lastCompactionAt := some now
    totalEventsCompacted := manifest.totalEventsCompacted + work.eventsToProcess.length
    totalFilesWritten := manifest.totalFilesWritten + wroteNew.toNat
    updatedAt := now }

end ExecutionsManifest

/-- Paths are taken once each, in the order in which they are named. -/
def validateEventPaths (domain : CatalogDomain) : List String → Except CatalogError (List String)
  | [] => .ok []
  | path :: paths =>
    let directory := domain.ledgerDir
    if ¬ directory.toList <+: path.toList then .error (.validation s!"event path '{path}' is outside {directory}")
    else if ¬ (Text.pathExtension path).any (Text.eqIgnoreAsciiCase · "json") then
      .error (.validation s!"event path '{path}' must end with .json")
    else do
      let rest ← validateEventPaths domain paths
      pure (path :: rest.filter (· ≠ path))

structure CompactionResult where
  eventsProcessed : Nat
  parquetFilesWritten : Nat
  newWatermark : String

end Arco.Catalog
