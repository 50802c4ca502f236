import Arco.Catalog.Materialization

/-! The compactor of execution events as a program over the object store.

A compaction reads the manifest, writes a snapshot file if there is none at its path, and publishes a
manifest that names it, on the condition that the manifest has not changed since it was read.
-/

namespace Arco.Catalog.Tier2

open Storage Arco.Core

inductive ObjectPath where
  | root
  | manifest (path : String)
  | snapshot (path : String)
  | ledger (path : String)
  | quarantine (path : String)
  deriving DecidableEq

@[reducible] def Object : ObjectPath → Type
  | .root => RootManifest
  | .manifest _ => ExecutionsManifest
  | .snapshot _ => List MaterializationRecord
  | .ledger _ => EventFile
  | .quarantine _ => EventFile

/-- Besides the time, a program asks for the files below a directory. -/
inductive Question where
  | now
  | listMeta (directory : String)

@[reducible] def Answer : Question → Type
  | .now => Timestamp
  | .listMeta _ => List ObjectMeta

instance : Faulty CatalogError ObjectPath where
  fault := .storage
  notFound _ := .storage

abbrev Tier2M : Type → Type := Fallible Object Answer CatalogError

abbrev headRaw (path : ObjectPath) : Tier2M (Option Nat) := Fallible.head path

abbrev getRaw (path : ObjectPath) : Tier2M (Object path) := Fallible.get path

abbrev putRaw (path : ObjectPath) (value : Object path) (precondition : WritePrecondition) : Tier2M WriteResult :=
  Fallible.put path value precondition

def utcNow : Tier2M Timestamp := Fallible.ask Question.now

def listMeta (directory : String) : Tier2M (List ObjectMeta) := Fallible.ask (Question.listMeta directory)

/-- A compactor waits between two attempts; how long does not matter here. -/
structure Compactor where
  casMaxRetries : Nat := 10
  unknownEventPolicy : UnknownEventPolicy := .reject
  lateEventPolicy : LateEventPolicy := .log

structure Current where
  path : String
  version : Nat
  manifest : ExecutionsManifest

/-- The version of the manifest is read before the manifest. -/
def readManifestWithVersion : Tier2M Current := do
  let root ← getRaw .root
  let path := root.normalizePaths.executionsManifestPath
  match ← headRaw (.manifest path) with
  | none => throw (.notFound "manifest" path)
  | some version =>
    let manifest ← getRaw (.manifest path)
    pure { path, version, manifest }

def publishManifest (current : Current) (manifest : ExecutionsManifest) : Tier2M Unit := do
  match ← putRaw (.manifest current.path) manifest (.matchesVersion current.version) with
  | .success _ => pure ()
  | .preconditionFailed _ => throw (.casFailed "manifest updated by another compactor")

/-- A copy that is there already is kept. -/
def quarantineEventBytes (path : String) (file : EventFile) : Tier2M Unit := do
  let _ ← putRaw (.quarantine (CatalogDomain.executions.quarantineEvent (fileName path))) file .doesNotExist
  pure ()

def quarantineAll : List String → Tier2M Unit
  | [] => pure ()
  | path :: paths => do
    let file ← getRaw (.ledger path)
    quarantineEventBytes path file
    quarantineAll paths

def readSnapshotRecords (snapshotPath : Option String) : Tier2M (List MaterializationRecord) :=
  match snapshotPath with
  | some path => getRaw (.snapshot path)
  | none => pure []

/-- Whether a new file was written. A file that is there already is kept. -/
def writeParquet (path : String) (records : List MaterializationRecord) : Tier2M Bool := do
  match ← putRaw (.snapshot path) records .doesNotExist with
  | .success _ => pure true
  | .preconditionFailed _ => pure false

namespace Compactor

variable (keys : IdempotencyKeys) (compactor : Compactor)

def handleLateEvents (paths : List String) : Tier2M Unit :=
  match compactor.lateEventPolicy with
  | .quarantine => quarantineAll paths
  | .skip | .log | .process => pure ()

def foldEvents : List String → Folding → Tier2M Folding
  | [], folding => pure folding
  | path :: paths, folding => do
    let file ← getRaw (.ledger path)
    match parseEventFile keys path file with
    | .ok event => foldEvents paths (folding.apply event)
    | .error unusable =>
      match compactor.unknownEventPolicy with
      | .reject => throw unusable.error
      | .quarantine =>
        quarantineEventBytes path file
        foldEvents paths folding

/-- If no event was applied, the snapshot stays the one it was. -/
def writeSnapshot (manifest : ExecutionsManifest) (work : CompactionWork) (folding : Folding) : Tier2M Bool :=
  if 0 < folding.eventsApplied then writeParquet (manifest.nextSnapshotPath work.eventsToProcess) folding.records
  else pure false

def compactEvents (current : Current) (work : CompactionWork) : Tier2M CompactionResult := do
  let existing ← readSnapshotRecords current.manifest.snapshotPath
  let folding ← compactor.foldEvents keys work.eventsToProcess (.ofSnapshot existing)
  let wroteNew ← writeSnapshot current.manifest work folding
  let now ← utcNow
  let manifest := current.manifest.withEvents work folding wroteNew now
  publishManifest current manifest
  pure {
    eventsProcessed := work.eventsToProcess.length
    parquetFilesWritten := wroteNew.toNat
    newWatermark := manifest.watermarkEventId.getD "" }

def compactDomainWithEvents (current : Current) (work : CompactionWork) : Tier2M CompactionResult := do
  compactor.handleLateEvents work.lateEvents
  if work.eventsToProcess.isEmpty then
    let unchanged : CompactionResult := ⟨0, 0, current.manifest.watermarkEventId.getD ""⟩
    if work.lateEvents.isEmpty then pure unchanged
    else
      let now ← utcNow
      publishManifest current (current.manifest.withoutEvents now)
      pure unchanged
  else compactor.compactEvents keys current work

def compactDomainOnce : Tier2M CompactionResult := do
  let current ← readManifestWithVersion
  let listing ← listMeta CatalogDomain.executions.ledgerDir
  compactor.compactDomainWithEvents keys current (current.manifest.listedWork listing)

def compactDomainExplicitOnce (eventPaths : List String) : Tier2M CompactionResult := do
  let current ← readManifestWithVersion
  compactor.compactDomainWithEvents keys current (current.manifest.explicitWork compactor.lateEventPolicy eventPaths)

def retrying (attempt : Tier2M CompactionResult) : (attempts : Nat) → Tier2M CompactionResult
  | 0 =>
    let retries := compactor.casMaxRetries
    throw (.casFailed s!"manifest update lost CAS race after {retries} retries")
  | attempts + 1 => Fallible.handle attempt fun
    | .casFailed message => if 0 < attempts then retrying attempt attempts else throw (.casFailed message)
    | error => throw error

def compactDomain (domain : CatalogDomain) : Tier2M CompactionResult :=
  let name := domain.asStr
  if domain ≠ .executions then throw (.invariantViolation s!"compaction not implemented for domain: {name}")
  else compactor.retrying (compactor.compactDomainOnce keys) compactor.casMaxRetries

def compactDomainExplicit (domain : CatalogDomain) (eventPaths : List String) : Tier2M CompactionResult :=
  let name := domain.asStr
  if domain ≠ .executions then throw (.invariantViolation s!"compaction not implemented for domain: {name}")
  else do
    let eventPaths ← Fallible.ofExcept (validateEventPaths domain eventPaths)
    compactor.retrying (compactor.compactDomainExplicitOnce keys eventPaths) compactor.casMaxRetries

end Compactor

inductive Call where
  | append (path : String) (file : EventFile)
  | compact (compactor : Compactor) (domain : CatalogDomain)
  | compactExplicit (compactor : Compactor) (domain : CatalogDomain) (eventPaths : List String)

/-- An event file is never overwritten. -/
def appendEvent (path : String) (file : EventFile) : Tier2M Unit := do
  let _ ← putRaw (.ledger path) file .doesNotExist
  pure ()

inductive Outcome where
  | appended
  | compacted (result : CompactionResult)

def Call.program (keys : IdempotencyKeys) : Call → Tier2M Outcome
  | .append path file => do
    appendEvent path file
    pure .appended
  | .compact compactor domain => do
    let result ← compactor.compactDomain keys domain
    pure (.compacted result)
  | .compactExplicit compactor domain eventPaths => do
    let result ← compactor.compactDomainExplicit keys domain eventPaths
    pure (.compacted result)

def protocol (keys : IdempotencyKeys) : Protocol Object Answer (Except CatalogError Outcome) Call where
  program call := call.program keys
  follows _ _ := true

abbrev Objects : Type := Store Object (Label Call)

abbrev Tier2World (P : Type) : Type := World Object Answer (Except CatalogError Outcome) Call P

end Arco.Catalog.Tier2
