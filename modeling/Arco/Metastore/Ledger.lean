import Arco.Core.Environment
import Arco.Effects.Attempt
import Arco.Metastore.State

/-! The metastore ledger: events, reservations of their sequence numbers, and the two watermark objects. -/

namespace Arco.Metastore

open Arco.Catalog (CatalogError)
open Effects Effects.Attempt

structure MetastoreLedgerWatermark where
  eventId : String
  sequence : Nat

inductive WatermarkObject where
  | latest
  | pending
  deriving DecidableEq

inductive LedgerKey where
  | event (eventId : String)
  | sequence (number : Nat)
  | watermark (object : WatermarkObject)
  deriving DecidableEq

abbrev LedgerValue : LedgerKey → Type
  | .event _ => MetastoreEvent
  | .sequence _ => String
  | .watermark _ => MetastoreLedgerWatermark

inductive LedgerListing where
  | events
  | sequences

def listed : LedgerListing → LedgerKey → Bool
  | .events, .event _ => true
  | .sequences, .sequence _ => true
  | _, _ => false

abbrev Ledger : Type := Objects LedgerValue

abbrev LedgerOp : Type := ObjectOp LedgerValue LedgerListing

abbrev LedgerProgram (α : Type) : Type := Attempt LedgerValue LedgerListing CatalogError α

structure StorageScope where
  tenantId : String
  workspaceId : String

def eventPath (eventId : String) : String := s!"ledger/metastore/{eventId}.json"

def GrantRecord.sameContent (left right : GrantRecord) : Bool :=
  left.grantId = right.grantId ∧ left.objectId = right.objectId ∧ left.objectType = right.objectType ∧
    left.principalId = right.principalId ∧ left.privilege = right.privilege ∧ left.owner = right.owner ∧
    left.lifecycleState = right.lifecycleState ∧ left.updatedAtMs = right.updatedAtMs ∧
    left.properties.toList = right.properties.toList

def MetastoreMutation.sameContent : MetastoreMutation → MetastoreMutation → Bool
  | .catalogObjectUpserted left, .catalogObjectUpserted right => left = right
  | .principalUpserted left, .principalUpserted right => left = right
  | .grantUpserted left, .grantUpserted right => left.sameContent right
  | .storageCredentialUpserted left, .storageCredentialUpserted right => left = right
  | .externalLocationUpserted left, .externalLocationUpserted right => left = right
  | .managedRootUpserted left, .managedRootUpserted right => left = right
  | .workspaceBindingUpserted left, .workspaceBindingUpserted right => left = right
  | _, _ => false

def MetastoreEvent.sameContent (left right : MetastoreEvent) : Bool :=
  left.scope = right.scope ∧ left.eventId = right.eventId ∧ left.sequence = right.sequence ∧
    left.mutation.sameContent right.mutation

namespace MetastoreLedger

def readWatermarkMarker (object : WatermarkObject) : LedgerProgram (Option (MetastoreLedgerWatermark × Nat)) := do
  match ← headRaw .storage (LedgerKey.watermark object) with
  | none => return none
  | some version =>
    match ← getRaw .storage (LedgerKey.watermark object) with
    | none => return none
    | some watermark => return some (watermark, version)

def canReplaceStalePendingWatermark (current candidate : MetastoreLedgerWatermark) : LedgerProgram Bool := do
  if current.sequence ≠ candidate.sequence ∨ current.eventId = candidate.eventId then return false
  else
    match ← headRaw .storage (LedgerKey.event current.eventId) with
    | some _ => return false
    | none =>
      match ← getRaw .storage (LedgerKey.sequence candidate.sequence) with
      | none => return false
      | some eventId => return eventId = candidate.eventId

/-- Whether the object is left as it is, or may be written; it is an error if it names another event. -/
def mayReplace (allowStalePendingReplacement : Bool) (candidate : MetastoreLedgerWatermark) :
    Option (MetastoreLedgerWatermark × Nat) → LedgerProgram Bool
  | none => return true
  | some (current, _) => do
    if current.sequence > candidate.sequence ∨
        (current.sequence = candidate.sequence ∧ current.eventId = candidate.eventId) then return false
    else if current.sequence = candidate.sequence then
      let stale ← if allowStalePendingReplacement then canReplaceStalePendingWatermark current candidate else pure false
      if stale then return true
      else throw (.preconditionFailed
        s!"metastore latest watermark sequence {candidate.sequence} already points at '{current.eventId}'")
    else return true

def preconditionFor : Option (MetastoreLedgerWatermark × Nat) → Storage.WritePrecondition
  | none => .doesNotExist
  | some (_, version) => .matchesVersion version

def watermarkPath : WatermarkObject → String
  | .latest => "ledger/metastore-latest/watermark.json"
  | .pending => "ledger/metastore-latest/pending.json"

def updateWatermarkMarkerInner (object : WatermarkObject) (candidate : MetastoreLedgerWatermark)
    (allowStalePendingReplacement : Bool) : (retries : Nat) → LedgerProgram Unit
  | 0 => throw (.casFailed s!"failed to update metastore watermark marker '{watermarkPath object}' after retries")
  | retries + 1 => do
    let current ← readWatermarkMarker object
    if ← mayReplace allowStalePendingReplacement candidate current then
      match ← putRaw .storage (LedgerKey.watermark object) candidate (preconditionFor current) with
      | .success _ => return ()
      | .preconditionFailed _ =>
        updateWatermarkMarkerInner object candidate allowStalePendingReplacement retries
    else return ()

def updateWatermarkMarker (object : WatermarkObject) (candidate : MetastoreLedgerWatermark) : LedgerProgram Unit :=
  updateWatermarkMarkerInner object candidate false 8

def updatePendingWatermark (event : MetastoreEvent) : LedgerProgram Unit :=
  updateWatermarkMarkerInner .pending { eventId := event.eventId, sequence := event.sequence } true 8

def reservedSequences : LedgerProgram (List Nat) := do
  let keys ← listRaw .storage .sequences
  return keys.filterMap fun
    | .sequence number => some number
    | _ => none

/-- The first of the numbers whose event is durable. -/
def firstDurable : List Nat → LedgerProgram (Option MetastoreLedgerWatermark)
  | [] => return none
  | sequence :: rest => do
    match ← getRaw .storage (LedgerKey.sequence sequence) with
    | none => throw .storage
    | some eventId =>
      match ← headRaw .storage (LedgerKey.event eventId) with
      | some _ => return some { eventId, sequence }
      | none => firstDurable rest

def latestWatermarkFromSequenceMarkers : LedgerProgram (Option MetastoreLedgerWatermark) := do
  let sequences ← reservedSequences
  firstDurable (sequences.insertionSort (· ≥ ·))

/-- The loop over the numbers from `sequence` on, of which `count` are left. -/
def scan (latest : Option MetastoreLedgerWatermark) (sequence : Nat) :
    (count : Nat) → LedgerProgram (Option MetastoreLedgerWatermark)
  | 0 => return latest
  | count + 1 => do
    match ← getRaw .storage (LedgerKey.sequence sequence) with
    | none => scan latest (sequence + 1) count
    | some eventId =>
      match ← headRaw .storage (LedgerKey.event eventId) with
      | none => return latest
      | some _ => scan (some { eventId, sequence }) (sequence + 1) count

def contiguousDurableWatermarkAfter (currentSequence upperBound : Nat) :
    LedgerProgram (Option MetastoreLedgerWatermark) :=
  scan none (Core.saturatingSucc currentSequence) (upperBound + 1 - Core.saturatingSucc currentSequence)

def updatePending : CatalogError := .invariantViolation "metastore latest watermark update is pending"

def watermarkBound (event : MetastoreEvent) (isFirst : Bool) : LedgerProgram Nat := do
  let pending ← readWatermarkMarker .pending
  let bound := max event.sequence ((pending.map fun marker => marker.1.sequence).getD 0)
  if isFirst then
    let discovered ← latestWatermarkFromSequenceMarkers
    return max bound ((discovered.map MetastoreLedgerWatermark.sequence).getD 0)
  else return bound

def updateLatestWatermark (event : MetastoreEvent) : LedgerProgram Unit := do
  let current ← readWatermarkMarker .latest
  let currentSequence := (current.map fun marker => marker.1.sequence).getD 0
  let upperBound ← watermarkBound event current.isNone
  if upperBound ≤ currentSequence then return ()
  else
    match ← contiguousDurableWatermarkAfter currentSequence upperBound with
    | none => throw updatePending
    | some candidate =>
      updateWatermarkMarker .latest candidate
      if candidate.sequence < upperBound then throw updatePending
      else return ()

def latestWatermark : LedgerProgram (Option MetastoreLedgerWatermark) := do
  let pending ← readWatermarkMarker .pending
  match ← readWatermarkMarker .latest with
  | some (watermark, _) =>
    if pending.any fun marker => marker.1.sequence > watermark.sequence then throw updatePending
    else
      match ← headRaw .storage (LedgerKey.event watermark.eventId) with
      | some _ => return some watermark
      | none => throw (.invariantViolation
          s!"latest metastore watermark '{watermark.eventId}' points at a missing event")
  | none =>
    if pending.isSome then throw updatePending else latestWatermarkFromSequenceMarkers

def validateEventScope (storage : StorageScope) (event : MetastoreEvent) : Except CatalogError Unit :=
  match event.scope with
  | none => .error (.validation s!"metastore event '{event.eventId}' is missing durable scope")
  | some scope =>
    if scope.tenantId ≠ storage.tenantId then
      .error (.validation s!"metastore event '{event.eventId}' tenant scope does not match storage scope")
    else if scope.workspaceId ≠ storage.workspaceId then
      .error (.validation s!"metastore event '{event.eventId}' workspace scope does not match storage scope")
    else .ok ()

/-- Whether the number was reserved by this call; it can have been reserved for the same event before. -/
def reserve (event : MetastoreEvent) : LedgerProgram Bool := do
  match ← putRaw .storage (LedgerKey.sequence event.sequence) event.eventId .doesNotExist with
  | .success _ => return true
  | .preconditionFailed _ =>
    match ← getRaw .storage (LedgerKey.sequence event.sequence) with
    | none => throw .storage
    | some existing =>
      if existing = event.eventId then return false
      else throw (.preconditionFailed s!"metastore replay sequence {event.sequence} is already reserved")

/-- The reservation is taken back before the error is returned. -/
def giveUp (reserved : Bool) (event : MetastoreEvent) (error : CatalogError) : LedgerProgram Unit := do
  if reserved then
    deleteRaw .storage (LedgerKey.sequence event.sequence)
    throw error
  else throw error

def differentContent (event : MetastoreEvent) : CatalogError :=
  .preconditionFailed s!"metastore event '{event.eventId}' already exists with different content"

def writeEvent (reserved : Bool) (event : MetastoreEvent) : LedgerProgram Unit := do
  match ← tryPut (LedgerKey.event event.eventId) event .doesNotExist with
  | .fault => giveUp reserved event .storage
  | .ok (.success _) => return ()
  | .ok (.preconditionFailed _) =>
    match ← getRaw .storage (LedgerKey.event event.eventId) with
    | none => throw .storage
    | some existing =>
      if MetastoreEvent.sameContent existing event then return ()
      else giveUp reserved event (differentContent event)

def appendEvent (storage : StorageScope) (event : MetastoreEvent) : LedgerProgram Unit := do
  liftExcept (validateEventScope storage event)
  let reserved ← reserve event
  match ← headRaw .storage (LedgerKey.event event.eventId) with
  | some _ =>
    match ← getRaw .storage (LedgerKey.event event.eventId) with
    | none => throw .storage
    | some existing =>
      if MetastoreEvent.sameContent existing event then updateLatestWatermark event
      else giveUp reserved event (differentContent event)
  | none =>
    updatePendingWatermark event
    writeEvent reserved event
    updateLatestWatermark event
where
  liftExcept : Except CatalogError Unit → LedgerProgram Unit
    | .ok _ => return ()
    | .error error => throw error

def getAll : List String → LedgerProgram (List MetastoreEvent)
  | [] => return []
  | eventId :: rest => do
    match ← getRaw .storage (LedgerKey.event eventId) with
    | none => throw .storage
    | some event => return event :: (← getAll rest)

def loadEvents : LedgerProgram (List MetastoreEvent) := do
  let keys ← listRaw .storage .events
  let ids := keys.filterMap fun
    | .event eventId => some eventId
    | _ => none
  getAll (ids.insertionSort fun left right => eventPath left ≤ eventPath right)

def replay : LedgerProgram MetastoreState := do
  return replayEvents (← loadEvents)

def nextSequence : LedgerProgram Nat := do
  let events ← loadEvents
  let reserved ← reservedSequences
  return Core.saturatingSucc (max ((events.map MetastoreEvent.sequence).foldl max 0) (reserved.foldl max 0))

end MetastoreLedger

end Arco.Metastore
