import Arco.Core.Environment
import Arco.Data.Text

/-! The coordinator of commits to the log of a Delta table.

A commit reserves the next version of the log in the state of the coordinator, writes the log file,
writes a record under the idempotency key and at last clears the reservation. A reservation that has
expired, or whose log file is there, is completed by whoever finds it.

Objects are named by what their paths are made of; an idempotency marker by the key itself, of which
the path holds the hash.
-/

namespace Arco.Delta

open Storage Fallible

abbrev Payload : Type := List UInt8

structure StagedCommit where
  stagedPath : String
  stagedVersion : Nat

structure CommitDeltaRequest where
  readVersion : Int
  stagedPath : String
  stagedVersion : Nat
  idempotencyKey : String
  deriving DecidableEq

structure CommitDeltaResponse where
  version : Int
  deltaLogPath : String

structure InflightCommit where
  commitId : String
  readVersion : Option Int
  version : Int
  stagedPath : String
  stagedVersion : Nat
  startedAtMs : Int
  expiresAtMs : Int

structure DeltaCoordinatorState where
  latestVersion : Int := -1
  inflight : Option InflightCommit := none

structure DeltaCommitIdempotencyRecord where
  idempotencyKey : String
  requestHash : String
  version : Int
  deltaLogPath : String
  committedAtMs : Int

inductive DeltaObject where
  | staged (path : String)
  | coordinatorState
  | idempotencyMarker (key : String)
  | deltaLog (version : Int)
  deriving DecidableEq

@[reducible] def Content : DeltaObject → Type
  | .staged _ => Payload
  | .coordinatorState => DeltaCoordinatorState
  | .idempotencyMarker _ => DeltaCommitIdempotencyRecord
  | .deltaLog _ => Payload

inductive DeltaError where
  | badRequest (message : String)
  | conflict (message : String)
  | notFound (message : String)
  | storage
  | invalidPath (message : String)

instance : Faulty DeltaError DeltaObject where
  fault := .storage
  notFound _ := .storage

abbrev DeltaM : Type → Type := Fallible Content Core.Answer DeltaError

structure Externals where
  parseUuid : String → Option (Nat × String)
  requestHash : (idempotencyKey : String) → (readVersion : Int) → (stagedPath : String) → Payload → String
  legacyRequestHash : CommitDeltaRequest → String

structure DeltaPaths where
  tableId : String
  tableRoot : String

structure DeltaCommitCoordinatorConfig where
  inflightTtlMs : Nat := 300000
  maxCasRetries : Nat := 16

structure DeltaCommitCoordinator where
  paths : DeltaPaths
  config : DeltaCommitCoordinatorConfig

def maxI64 : Int := 9223372036854775807

def saturatingAddI64 (a b : Int) : Int := min (a + b) maxI64

namespace DeltaPaths

def legacy (tableId : String) : DeltaPaths where
  tableId
  tableRoot := s!"tables/{tableId}"

def stagingPayload (paths : DeltaPaths) (ulid : String) : String := s!"delta/staging/{paths.tableId}/{ulid}.json"

def deltaLogJson (paths : DeltaPaths) (version : Int) : Except DeltaError String :=
  if version < 0 then .error (.invalidPath "delta log version must be non-negative")
  else
    let digits := Text.zeroPadded 20 version.toNat
    .ok s!"{paths.tableRoot}/_delta_log/{digits}.json"

def validateStagedPath (paths : DeltaPaths) (stagedPath : String) : Except DeltaError Unit :=
  let expectedPrefix := s!"delta/staging/{paths.tableId}/"
  if ¬ expectedPrefix.toList <+: stagedPath.toList then
    .error (.badRequest s!"staged_path must start with {expectedPrefix}")
  else .ok ()

end DeltaPaths

def validateUuidv7 (ext : Externals) (key : String) : Except DeltaError Unit :=
  match ext.parseUuid key with
  | none => .error (.badRequest "Idempotency-Key must be a valid UUID")
  | some (version, canonical) =>
    if version ≠ 7 then .error (.badRequest "Idempotency-Key must be UUIDv7 (RFC 9562)")
    else if canonical ≠ key then .error (.badRequest "Idempotency-Key must be a canonical lowercase UUID string")
    else .ok ()

def requestHash (ext : Externals) (req : CommitDeltaRequest) (payload : Payload) : String :=
  ext.requestHash req.idempotencyKey req.readVersion req.stagedPath payload

def keyReused : DeltaError := .conflict "Idempotency-Key already used with different request body"

def staleReadVersion (latest read : Int) : DeltaError :=
  .conflict s!"stale read_version: expected {latest}, got {read}"

abbrev headRaw (object : DeltaObject) : DeltaM (Option Nat) := head object

abbrev getRaw (object : DeltaObject) : DeltaM (Content object) := get object

abbrev putRaw (object : DeltaObject) (content : Content object) (precondition : WritePrecondition) : DeltaM WriteResult :=
  put object content precondition

/-- A staged payload is only used in the version that the client has named. -/
def readStagedPayload (stagedPath : String) (stagedVersion : Nat) : DeltaM Payload := do
  match ← headRaw (.staged stagedPath) with
  | none => throw (.notFound s!"staged payload not found: {stagedPath}")
  | some version =>
    if version ≠ stagedVersion then throw (.conflict s!"staged payload version mismatch for {stagedPath}")
    else getRaw (.staged stagedPath)

/-- The version of the state is read before the state. -/
def loadState : DeltaM (DeltaCoordinatorState × Option Nat) := do
  match ← headRaw .coordinatorState with
  | none => pure ({}, none)
  | some version =>
    let state ← getRaw .coordinatorState
    pure (state, some version)

def storeState (state : DeltaCoordinatorState) (expectedVersion : Option Nat) : DeltaM WriteResult :=
  putRaw .coordinatorState state (expectedVersion.elim .doesNotExist .matchesVersion)

def readIdempotencyRecord (key : String) : DeltaM (Option DeltaCommitIdempotencyRecord) := do
  match ← headRaw (.idempotencyMarker key) with
  | none => pure none
  | some _ =>
    let record ← getRaw (.idempotencyMarker key)
    pure (some record)

/-- A record that is there already is kept. -/
def writeIdempotencyRecord (key requestHash : String) (response : CommitDeltaResponse) (nowMs : Int) : DeltaM Unit := do
  let _ ← putRaw (.idempotencyMarker key)
    { idempotencyKey := key, requestHash, version := response.version
      deltaLogPath := response.deltaLogPath, committedAtMs := nowMs } .doesNotExist
  pure ()

def responseFromIdempotencyRecord (record : DeltaCommitIdempotencyRecord) : CommitDeltaResponse where
  version := record.version
  deltaLogPath := record.deltaLogPath

structure RecoveredInflight where
  commitId : String
  requestHash : String
  response : CommitDeltaResponse

namespace DeltaCommitCoordinator

variable (coordinator : DeltaCommitCoordinator) (ext : Externals)

def stageCommitPayload (payload : Payload) : DeltaM StagedCommit := do
  let ulid ← Core.newUlid
  let stagedPath := coordinator.paths.stagingPayload ulid
  match ← putRaw (.staged stagedPath) payload .doesNotExist with
  | .success version => pure ⟨stagedPath, version⟩
  | .preconditionFailed _ => throw (.conflict "staging path already exists; retry")

def replayCommittedWithHashes (idempotencyKey : String) (requestHashes : List String) :
    DeltaM (Option CommitDeltaResponse) := do
  match ← readIdempotencyRecord idempotencyKey with
  | none => pure none
  | some record =>
    if record.requestHash ∈ requestHashes then pure (some (responseFromIdempotencyRecord record))
    else throw keyReused

def replayCommitted (req : CommitDeltaRequest) : DeltaM (Option CommitDeltaResponse) := do
  Fallible.ofExcept (validateUuidv7 ext req.idempotencyKey)
  Fallible.ofExcept (coordinator.paths.validateStagedPath req.stagedPath)
  match ← readIdempotencyRecord req.idempotencyKey with
  | none => pure none
  | some record =>
    if record.requestHash = ext.legacyRequestHash req then pure (some (responseFromIdempotencyRecord record))
    else
      let payload ← readStagedPayload req.stagedPath req.stagedVersion
      if record.requestHash = requestHash ext req payload then pure (some (responseFromIdempotencyRecord record))
      else throw keyReused

def readValidatedStagedPayload (req : CommitDeltaRequest) : DeltaM Payload := do
  Fallible.ofExcept (validateUuidv7 ext req.idempotencyKey)
  Fallible.ofExcept (coordinator.paths.validateStagedPath req.stagedPath)
  readStagedPayload req.stagedPath req.stagedVersion

/-- The request of which a reservation was made. The version has been checked not to be negative, so
that the version before it can be computed. -/
def inflightRequest (inflight : InflightCommit) : CommitDeltaRequest where
  readVersion := inflight.readVersion.getD (inflight.version - 1)
  stagedPath := inflight.stagedPath
  stagedVersion := inflight.stagedVersion
  idempotencyKey := inflight.commitId

/-- The log file of a reservation, from its staged payload. Another party may write it first. -/
def materializeInflight (inflight : InflightCommit) (commitExists : Bool) : DeltaM Unit :=
  if commitExists then pure ()
  else do
    let payload ← readStagedPayload inflight.stagedPath inflight.stagedVersion
    let _ ← putRaw (.deltaLog inflight.version) payload .doesNotExist
    pure ()

def recoverInflight (nowMs : Int) : (retries : Nat) → DeltaM (Option RecoveredInflight)
  | 0 => throw (.conflict "failed to recover inflight delta commit after retries")
  | retries + 1 => do
    match ← loadState with
    | (state, some currentVersion) =>
      match state.inflight with
      | none => pure none
      | some inflight =>
        Fallible.ofExcept (coordinator.paths.validateStagedPath inflight.stagedPath)
        let deltaLogPath ← Fallible.ofExcept (coordinator.paths.deltaLogJson inflight.version)
        let found ← headRaw (.deltaLog inflight.version)
        if found.isSome ∨ inflight.expiresAtMs ≤ nowMs then
          materializeInflight inflight found.isSome
          let payload ← readStagedPayload inflight.stagedPath inflight.stagedVersion
          let recoveredRequestHash := requestHash ext (inflightRequest inflight) payload
          let response := { version := inflight.version, deltaLogPath }
          writeIdempotencyRecord inflight.commitId recoveredRequestHash response nowMs
          let updated := { state with latestVersion := max inflight.version state.latestVersion, inflight := none }
          match ← storeState updated (some currentVersion) with
          | .success _ => pure (some ⟨inflight.commitId, recoveredRequestHash, response⟩)
          | .preconditionFailed _ => recoverInflight nowMs retries
        else pure none
    | (_, none) => pure none

/-- A reservation that has not expired is only taken up by the request that it was made for. -/
def resumeInflight (req : CommitDeltaRequest) (latestVersion : Int) (inflight : InflightCommit) : Except DeltaError Int :=
  if inflight.commitId = req.idempotencyKey then
    if inflight.stagedPath ≠ req.stagedPath ∨ inflight.stagedVersion ≠ req.stagedVersion then .error keyReused
    else if inflight.readVersion.any (· ≠ req.readVersion) then .error keyReused
    else if latestVersion ≠ req.readVersion then .error (staleReadVersion latestVersion req.readVersion)
    else .ok inflight.version
  else .error (.conflict "delta commit already reserved; retry later")

def newInflight (req : CommitDeltaRequest) (newVersion nowMs : Int) : InflightCommit where
  commitId := req.idempotencyKey
  readVersion := some req.readVersion
  version := newVersion
  stagedPath := req.stagedPath
  stagedVersion := req.stagedVersion
  startedAtMs := nowMs
  expiresAtMs := saturatingAddI64 nowMs (min coordinator.config.inflightTtlMs maxI64)

def reserveOrResumeInflight (req : CommitDeltaRequest) (nowMs : Int) : (retries : Nat) → DeltaM Int
  | 0 => throw (.conflict "failed to reserve delta commit after retries")
  | retries + 1 => do
    let (state, version) ← loadState
    match state.inflight with
    | some inflight =>
      if nowMs < inflight.expiresAtMs then
        Fallible.ofExcept (resumeInflight req state.latestVersion inflight)
      else
        -- A reservation that has expired is recovered first.
        let _ ← coordinator.recoverInflight ext nowMs coordinator.config.maxCasRetries
        reserveOrResumeInflight req nowMs retries
    | none =>
      if state.latestVersion ≠ req.readVersion then throw (staleReadVersion state.latestVersion req.readVersion)
      else if state.latestVersion = maxI64 then throw (.conflict "delta version overflow")
      else
        let newVersion := state.latestVersion + 1
        match ← storeState { state with inflight := some (coordinator.newInflight req newVersion nowMs) } version with
        | .success _ => pure newVersion
        | .preconditionFailed _ => reserveOrResumeInflight req nowMs retries

def finalizeInflight (commitId : String) (committedVersion : Int) : (retries : Nat) → DeltaM Unit
  | 0 => throw (.conflict "failed to finalize delta commit after retries")
  | retries + 1 => do
    match ← loadState with
    | (_, none) => throw (.conflict "coordinator state missing during finalize")
    | (state, some version) =>
      if state.inflight.isNone ∧ committedVersion ≤ state.latestVersion then pure ()
      else if state.inflight.any (·.commitId ≠ commitId) then
        throw (.conflict "coordinator inflight changed during finalize; retry")
      else
        let updated := { state with latestVersion := max committedVersion state.latestVersion, inflight := none }
        match ← storeState updated (some version) with
        | .success _ => pure ()
        | .preconditionFailed _ => finalizeInflight commitId committedVersion retries

def finalizeReplayedCommit (commitId : String) (committedVersion : Int) : (retries : Nat) → DeltaM Unit
  | 0 => throw (.conflict "failed to finalize replayed delta commit after retries")
  | retries + 1 => do
    match ← loadState with
    | (_, none) => pure ()
    | (state, some version) =>
      match state.inflight with
      | none =>
        if committedVersion ≤ state.latestVersion then pure ()
        else
          match ← storeState { state with latestVersion := committedVersion } (some version) with
          | .success _ => pure ()
          | .preconditionFailed _ => finalizeReplayedCommit commitId committedVersion retries
      | some inflight =>
        if inflight.commitId ≠ commitId then pure ()
        else
          let updated := { state with latestVersion := max committedVersion inflight.version, inflight := none }
          match ← storeState updated (some version) with
          | .success _ => pure ()
          | .preconditionFailed _ => finalizeReplayedCommit commitId committedVersion retries

/-- If the log file is there already, another party may have completed the same commit. -/
def writeDeltaLog (version : Int) (payload : Payload) : DeltaM Unit := do
  match ← putRaw (.deltaLog version) payload .doesNotExist with
  | .success _ => pure ()
  | .preconditionFailed _ =>
    let existing ← getRaw (.deltaLog version)
    if existing ≠ payload then throw (.conflict "delta log version already exists with different contents")
    else pure ()

def commitNew (req : CommitDeltaRequest) (payload : Payload) (nowMs : Int) : DeltaM CommitDeltaResponse := do
  let version ← coordinator.reserveOrResumeInflight ext req nowMs coordinator.config.maxCasRetries
  let deltaLogPath ← Fallible.ofExcept (coordinator.paths.deltaLogJson version)
  writeDeltaLog version payload
  let response := { version, deltaLogPath }
  writeIdempotencyRecord req.idempotencyKey (requestHash ext req payload) response nowMs
  finalizeInflight req.idempotencyKey version coordinator.config.maxCasRetries
  pure response

def commit (req : CommitDeltaRequest) (nowMs : Int) : DeltaM CommitDeltaResponse := do
  let payload ← coordinator.readValidatedStagedPayload ext req
  match ← replayCommittedWithHashes req.idempotencyKey [requestHash ext req payload, ext.legacyRequestHash req] with
  | some response =>
    finalizeReplayedCommit req.idempotencyKey response.version coordinator.config.maxCasRetries
    pure response
  | none =>
    match ← coordinator.recoverInflight ext nowMs coordinator.config.maxCasRetries with
    | some recovered =>
      if recovered.commitId = req.idempotencyKey then
        if recovered.requestHash ≠ requestHash ext req payload then throw keyReused
        else pure recovered.response
      else coordinator.commitNew ext req payload nowMs
    | none => coordinator.commitNew ext req payload nowMs

end DeltaCommitCoordinator

inductive DeltaCall where
  | stage (payload : Payload)
  | upload (path : String) (payload : Payload)
  | replay (req : CommitDeltaRequest)
  | commit (config : DeltaCommitCoordinatorConfig) (req : CommitDeltaRequest) (nowMs : Int)

inductive DeltaAnswer where
  | staged (commit : StagedCommit)
  | replayed (response : Option CommitDeltaResponse)
  | committed (response : CommitDeltaResponse)

def uploadPayload (path : String) (payload : Payload) : DeltaM StagedCommit := do
  match ← putRaw (.staged path) payload .doesNotExist with
  | .success version => pure ⟨path, version⟩
  | .preconditionFailed _ => throw (.conflict "staging path already exists; retry")

def DeltaCall.program (ext : Externals) (paths : DeltaPaths) : DeltaCall → DeltaM DeltaAnswer
  | .stage payload => do
    let staged ← DeltaCommitCoordinator.stageCommitPayload ⟨paths, {}⟩ payload
    pure (.staged staged)
  | .upload path payload => do
    let staged ← uploadPayload path payload
    pure (.staged staged)
  | .replay req => do
    let response ← DeltaCommitCoordinator.replayCommitted ⟨paths, {}⟩ ext req
    pure (.replayed response)
  | .commit config req nowMs => do
    let response ← DeltaCommitCoordinator.commit ⟨paths, config⟩ ext req nowMs
    pure (.committed response)

/-- Any number of clients of one table that commit the requests that `admits` says. -/
def deltaProtocol (ext : Externals) (paths : DeltaPaths) (admits : CommitDeltaRequest → Bool) :
    Protocol Content Core.Answer (Except DeltaError DeltaAnswer) DeltaCall where
  program call := call.program ext paths
  follows _ call := match call with
    | .commit _ req _ | .replay req => admits req
    | _ => true

abbrev Objects : Type := Store Content (Label DeltaCall)

end Arco.Delta
