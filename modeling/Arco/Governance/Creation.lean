import Arco.Governance.Extension
import Arco.Metastore.Events

/-! The Unity Catalog route that creates an external location.

The location is checked against the governance state of the ledger, and is then appended to the ledger under the canonical
form of its path. It is parsed again whenever the ledger is loaded.
-/

namespace Arco.Governance

open Arco.Catalog (CatalogError)
open Arco.Metastore Effects StorageGovernanceState MetastoreLedger

inductive UnityCatalogError where
  | badRequest (message : String)
  | unauthorized (message : String)
  | forbidden (message : String)
  | notFound (message : String)
  | conflict (message : String)
  | notImplemented (message : String)
  | serviceUnavailable (message : String)
  | tooManyRequests (message : String)
  | internal (message : String)

def unityCatalogErrorForStatus (httpStatus : Nat) (message : String) : UnityCatalogError :=
  match httpStatus with
  | 400 => .badRequest message
  | 401 => .unauthorized message
  | 403 => .forbidden message
  | 404 => .notFound message
  | 409 | 412 => .conflict message
  | 429 => .tooManyRequests message
  | 501 => .notImplemented message
  | 503 => .serviceUnavailable message
  | _ => .internal message

def mapCatalogError : CatalogError → UnityCatalogError
  | .validation message => .badRequest message
  | .alreadyExists entity name => .conflict s!"already exists: {entity} {name}"
  | .notFound entity name => .notFound s!"not found: {entity} {name}"
  | .preconditionFailed message | .casFailed message => .conflict message
  | .requestFailed httpStatus message => unityCatalogErrorForStatus httpStatus message
  | .unsupportedOperation message => .notImplemented s!"unsupported operation: {message}"
  | .storage => .serviceUnavailable "Service temporarily unavailable"
  | .serialization _ | .parquet _ | .invariantViolation _ => .internal "Internal server error"

structure CreateExternalLocationRequest where
  locationId : String
  name : String
  url : String
  credentialId : String
  owner : String

structure UnityCatalogRequestContext where
  tenant : String
  workspace : String
  authzDenialReason : Option String := none

structure EventStamp where
  eventId : String
  nowMs : Int

def controlPlaneScope (ctx : UnityCatalogRequestContext) : MetastoreEventScope where
  tenantId := ctx.tenant
  workspaceId := ctx.workspace
  metastoreId := ctx.workspace

def ExternalLocation.toRecord (location : ExternalLocation) (nowMs : Int) : ExternalLocationRecord where
  locationId := location.locationId
  name := location.name
  url := location.path.canonicalUri
  credentialId := location.credentialId
  owner := location.owner
  lifecycleState := .active
  updatedAtMs := nowMs

def locationEvent (ctx : UnityCatalogRequestContext) (stamp : EventStamp) (sequence : Nat) (location : ExternalLocation) :
    MetastoreEvent where
  scope := some (controlPlaneScope ctx)
  eventId := stamp.eventId
  sequence := sequence
  mutation := .externalLocationUpserted (location.toRecord stamp.nowMs)

def ofExcept {α : Type} : Except CatalogError α → LedgerProgram α
  | .ok value => return value
  | .error error => throw error

/-- The location is checked, a number is taken, and the event is appended. -/
def createLocation (ctx : UnityCatalogRequestContext) (stamp : EventStamp) (request : CreateExternalLocationRequest) :
    LedgerProgram ExternalLocationRecord := do
  let metastore ← replay
  let storageState ← ofExcept (fromMetastoreState metastore)
  let location ← ofExcept (ExternalLocation.new request.locationId request.name request.url request.credentialId request.owner)
  let _ ← ofExcept (storageState.createExternalLocation location)
  let sequence ← nextSequence
  appendEvent { tenantId := ctx.tenant, workspaceId := ctx.workspace } (locationEvent ctx stamp sequence location)
  return location.toRecord stamp.nowMs

def createExternalLocation (ctx : UnityCatalogRequestContext) (stamp : EventStamp) (request : CreateExternalLocationRequest) :
    Program (ObjectRes LedgerValue LedgerListing) (Except UnityCatalogError ExternalLocationRecord) :=
  match ctx.authzDenialReason with
  | some reason => return .error (.forbidden s!"storage_governance_denied:{reason}")
  | none => do
    let result ← (createLocation ctx stamp request).run
    return result.mapError mapCatalogError

def governance (s : Ledger) : Except CatalogError StorageGovernanceState :=
  fromMetastoreState (replayEvents (events s))

def CreateExternalLocationRequest.location (request : CreateExternalLocationRequest) (path : GovernedPath) :
    ExternalLocation where
  locationId := request.locationId
  name := request.name
  path
  credentialId := request.credentialId
  owner := request.owner
  lifecycleState := .active

theorem returns_ofExcept {α : Type} {x : Except CatalogError α} {s s' : Ledger} {a : α}
    (returns : Returns listed (ofExcept x) s a s') : x = .ok a ∧ s' = s := by
  cases x with
  | ok value =>
    obtain ⟨rfl, rfl⟩ := returns_pure.mp returns
    exact ⟨rfl, rfl⟩
  | error error => exact absurd returns not_returns_throw

variable {location : ExternalLocation} {state : StorageGovernanceState} {event : MetastoreEvent}
  {record : ExternalLocationRecord}

theorem new_eq_ok {request : CreateExternalLocationRequest}
    (created : ExternalLocation.new request.locationId request.name request.url request.credentialId
      request.owner = .ok location) :
    ∃ path, GovernedPath.parse request.url = .ok path ∧ location = request.location path := by
  obtain ⟨path, parsed, same⟩ := Results.bind_eq_ok.mp created
  exact ⟨path, parsed, (Except.ok.inj same).symm⟩

open Arco.Metastore.MetastoreLedger (Added SameEvents)

variable {ctx : UnityCatalogRequestContext} {stamp : EventStamp} {request : CreateExternalLocationRequest} {s s' : Ledger}

/-- An accepted request has passed the check, and its event is new in the ledger. -/
structure Accepted (ctx : UnityCatalogRequestContext) (stamp : EventStamp) (request : CreateExternalLocationRequest)
    (s s' : Ledger) (state : StorageGovernanceState) (path : GovernedPath) : Prop where
  loaded : governance s = .ok state
  parsed : GovernedPath.parse request.url = .ok path
  accepts : state.AcceptsLocation (request.location path)
  added : ∃ sequence, Added (locationEvent ctx stamp sequence (request.location path)) s s'

theorem not_accepts_of_mem (loaded : governance s = .ok state) (member : event ∈ events s)
    (isLocation : event.mutation.location = some record) (same : record.locationId = location.locationId) :
    ¬ state.AcceptsLocation location := by
  intro accepts
  obtain ⟨_, found⟩ := Option.isSome_iff_exists.mp (isSome_replayEvents member isLocation)
  obtain ⟨_, -, there⟩ := exists_location (keyed_replayEvents _) loaded found
  rw [same, accepts.absent] at there
  cases there

theorem mem_events {eventId : String} (found : s.current (.event eventId) = some event) :
    event ∈ events s := by
  refine List.mem_filterMap.mpr ⟨eventId, mem_eventIds.mpr ?_, found⟩
  rw [found]
  rfl

theorem location_of_sameContent {existing : MetastoreEvent} (same : existing.sameContent event = true)
    (isEvent : event.mutation = .externalLocationUpserted record) :
    existing.mutation.location = some record := by
  simp only [MetastoreEvent.sameContent, decide_eq_true_eq] at same
  cases isMutation : existing.mutation <;> simp_all [MetastoreMutation.sameContent, MetastoreMutation.location]

theorem accepted_of_returns (returns : Returns listed (createLocation ctx stamp request) s record s') :
    ∃ state path, Accepted ctx stamp request s s' state path := by
  obtain ⟨_, _, replayed, checking⟩ := returns_bind.mp returns
  obtain ⟨rfl, rfl⟩ := eq_of_returns_replay replayed
  obtain ⟨state, _, isLoaded, parsing⟩ := returns_bind.mp checking
  obtain ⟨loaded, rfl⟩ := returns_ofExcept isLoaded
  obtain ⟨location, _, isNew, accepting⟩ := returns_bind.mp parsing
  obtain ⟨created, rfl⟩ := returns_ofExcept isNew
  obtain ⟨path, parsed, rfl⟩ := new_eq_ok created
  obtain ⟨_, _, isChecked, numbering⟩ := returns_bind.mp accepting
  obtain ⟨checked, rfl⟩ := returns_ofExcept isChecked
  obtain ⟨accepts, -⟩ := createExternalLocation_eq_ok.mp checked
  obtain ⟨sequence, _, numbered, appending⟩ := returns_bind.mp numbering
  obtain ⟨_, _, appended, ending⟩ := returns_bind.mp appending
  obtain ⟨-, rfl⟩ := returns_pure.mp ending
  have before := sameEvents_of_returns only_nextSequence numbered
  refine ⟨state, path, loaded, parsed, accepts, sequence, ?_⟩
  obtain added | repeats := added_of_returns_appendEvent appended
  · exact .around before added fun _ => rfl
  · -- The same event was there before, so the location was there.
    obtain ⟨-, _, found, same⟩ := repeats
    rw [before] at found
    exact absurd accepts (not_accepts_of_mem loaded (mem_events found) (location_of_sameContent same rfl) rfl)

theorem accepted_of_runs
    (runs : (createExternalLocation ctx stamp request).Runs (serveObjects listed) s (.ok record) s') :
    ∃ state path, Accepted ctx stamp request s s' state path := by
  unfold createExternalLocation at runs
  split at runs
  · cases runs
  · obtain ⟨result, _, runs, ends⟩ := Program.runs_bind.mp runs
    cases result with
    | error error => cases ends
    | ok record' =>
      obtain ⟨-, rfl⟩ := Program.runs_done.mp ends
      exact accepted_of_returns runs

theorem Accepted.extended {path : GovernedPath} (accepted : Accepted ctx stamp request s s' state path) :
    Metastore.Extended ((request.location path).toRecord stamp.nowMs) (replayEvents (events s)) (replayEvents (events s')) := by
  obtain ⟨_, added⟩ := accepted.added
  refine extended_replayEvents added.events rfl ?_
  cases found : (replayEvents (events s)).externalLocations[request.locationId]? with
  | none => exact found
  | some record =>
    obtain ⟨_, -, there⟩ := exists_location (keyed_replayEvents _) accepted.loaded found
    exact absurd there (by rw [show state.externalLocations[request.locationId]? = none from accepted.accepts.absent]; simp)

/-- The ledger can be loaded after the request, with the location where it was validated and with the same path decisions. -/
def LoadsBack (request : CreateExternalLocationRequest) (path : GovernedPath) (state : StorageGovernanceState) (s' : Ledger) :
    Prop :=
  ∃ state', governance s' = .ok state' ∧
    (∃ location, state'.externalLocations[request.locationId]? = some location ∧ location.path = path) ∧
    ∀ workspaceId uri, state'.authorityForPath workspaceId uri = state.authorityForPath workspaceId uri

/-- An accepted location can be loaded back unless its path has a percent sign, which is not encoded again. -/
theorem accepted_loadsBack_iff {record : ExternalLocationRecord}
    (runs : (createExternalLocation ctx stamp request).Runs (serveObjects listed) s (.ok record) s') :
    ∃ state path, governance s = .ok state ∧ GovernedPath.parse request.url = .ok path ∧
      (LoadsBack request path state s' ↔ '%' ∉ path.path.toList) := by
  obtain ⟨state, path, accepted⟩ := accepted_of_runs runs
  refine ⟨state, path, accepted.loaded, accepted.parsed, ?_⟩
  rw [← parse_canonicalUri accepted.parsed]
  constructor
  · rintro ⟨state', loaded, ⟨_, found, isPath⟩, -⟩
    have there := (accepted.extended.locations request.locationId).trans (if_pos rfl)
    obtain ⟨path', parsed, found'⟩ := exists_location (keyed_replayEvents _) loaded there
    rw [found] at found'
    obtain rfl := Option.some.inj found'
    obtain rfl : path' = path := isPath
    exact parsed
  · intro parsed
    obtain ⟨state', loaded, wider⟩ := fromMetastoreState_extended (keyed_replayEvents _)
      accepted.extended accepted.loaded parsed rfl accepted.accepts
    refine ⟨state', loaded, ⟨_, (wider.locations request.locationId).trans (if_pos rfl), rfl⟩, ?_⟩
    exact wider.authorityForPath (attached_fromMetastoreState accepted.loaded) accepted.accepts.absent

def sampleCredential : MetastoreEvent where
  scope := some { tenantId := "t", workspaceId := "w", metastoreId := "w" }
  eventId := "c"
  sequence := 1
  mutation := .storageCredentialUpserted {
    credentialId := "c", name := "c", cloud := "aws", owner := "o", lifecycleState := .active, updatedAtMs := 0,
    secretMaterialRef := none, encryptedPayload := none }

def sampleLedger : Ledger := ({} : Ledger).put (.event "c") sampleCredential

def sampleRequest (url : String) : CreateExternalLocationRequest where
  locationId := "l"
  name := "n"
  url := url
  credentialId := "c"
  owner := "o"

def sampleRun (url : String) : Option (Except UnityCatalogError ExternalLocationRecord × Ledger) :=
  Program.execute (serveObjects listed) .answered 60
    (createExternalLocation { tenant := "t", workspace := "w" } { eventId := "e", nowMs := 0 } (sampleRequest url)) sampleLedger

theorem accepted_loadsBack_iff_plain : ∃ record s' state path,
    (createExternalLocation { tenant := "t", workspace := "w" } { eventId := "e", nowMs := 0 }
      (sampleRequest "s3://b/a")).Runs (serveObjects listed) sampleLedger (.ok record) s' ∧
    (LoadsBack (sampleRequest "s3://b/a") path state s' ↔ '%' ∉ path.path.toList) := by
  have executed : ∃ result, sampleRun "s3://b/a" = some result ∧ result.1.isOk = true :=
    (Option.any_eq_true _ _).mp (by decide +kernel)
  obtain ⟨⟨result, s'⟩, executed, isOk⟩ := executed
  cases result with
  | error error => cases isOk
  | ok record =>
    have runs := Program.runs_of_execute executed
    obtain ⟨state, path, -, -, loadsBack⟩ := accepted_loadsBack_iff runs
    exact ⟨record, s', state, path, runs, loadsBack⟩

/-- The percent sign of the path is not encoded in the ledger, where it is not followed by two digits. -/
theorem accepted_location_not_loaded : ∃ record s',
    (createExternalLocation { tenant := "t", workspace := "w" } { eventId := "e", nowMs := 0 }
      (sampleRequest "s3://b/100%25")).Runs (serveObjects listed) sampleLedger (.ok record) s' ∧
    (∃ state, governance sampleLedger = .ok state) ∧ ¬ ∃ state', governance s' = .ok state' := by
  have executed : ∃ result, sampleRun "s3://b/100%25" = some result ∧ (result.1.isOk && !(governance result.2).isOk) = true :=
    (Option.any_eq_true _ _).mp (by decide +kernel)
  obtain ⟨⟨result, s'⟩, executed, passed⟩ := executed
  obtain ⟨isOk, fails⟩ := Bool.and_eq_true_iff.mp passed
  cases result with
  | error error => cases isOk
  | ok record =>
    have runs := Program.runs_of_execute executed
    obtain ⟨state, _, accepted⟩ := accepted_of_runs runs
    refine ⟨record, s', runs, ⟨state, accepted.loaded⟩, fun ⟨state', loaded⟩ => ?_⟩
    rw [loaded] at fails
    cases fails

/-! ## Concurrent requests -/

open Effects.Attempt

structure LocationCall where
  stamp : EventStamp
  request : CreateExternalLocationRequest
  authzDenialReason : Option String := none

def LocationCall.context (tenant workspace : String) (call : LocationCall) : UnityCatalogRequestContext where
  tenant
  workspace
  authzDenialReason := call.authzDenialReason

/-- Requests of one workspace, whose URLs have no percent sign. -/
def locationProtocol (tenant workspace : String) :
    Protocol (ObjectRes LedgerValue LedgerListing) (Except UnityCatalogError ExternalLocationRecord) LocationCall where
  program call := createExternalLocation (call.context tenant workspace) call.stamp call.request
  admits _ call := '%' ∉ call.request.url.toList

def passesCheck (state : StorageGovernanceState) (request : CreateExternalLocationRequest) : Bool :=
  (do
    let location ← ExternalLocation.new request.locationId request.name request.url request.credentialId request.owner
    state.createExternalLocation location).isOk

theorem passesCheck_iff {state : StorageGovernanceState} {request : CreateExternalLocationRequest} :
    passesCheck state request = true ↔
      ∃ path, GovernedPath.parse request.url = .ok path ∧ state.AcceptsLocation (request.location path) := by
  rw [passesCheck, Results.isOk_iff]
  simp only [Results.bind_eq_ok]
  constructor
  · rintro ⟨_, _, created, checked⟩
    obtain ⟨path, parsed, rfl⟩ := new_eq_ok created
    exact ⟨path, parsed, (createExternalLocation_eq_ok.mp checked).1⟩
  · rintro ⟨path, parsed, accepts⟩
    refine ⟨_, request.location path, ?_, createExternalLocation_eq_ok.mpr ⟨accepts, rfl⟩⟩
    rw [ExternalLocation.new, parsed]
    rfl

/-- An event is written only while its request passes the check on what the ledger holds. -/
def Checked (call : LocationCall) (op : LedgerOp) (s : Ledger) : Prop :=
  ∀ eventId event precondition, op = .put (.event eventId) event precondition →
    s.current (.event eventId) = none → ∀ state, governance s = .ok state → passesCheck state call.request = true

def Loadable (s : Ledger) : Prop := ∃ state, governance s = .ok state

def locationContract : Contract LedgerOp Ledger LocationCall where
  inv := Loadable
  guarantee _ _ := True
  may := Checked
  refl _ := trivial

/-- The only event that a request adds is that of its location. -/
def AddsLocation (ctx : UnityCatalogRequestContext) (stamp : EventStamp) (request : CreateExternalLocationRequest)
    (op : LedgerOp) : Prop :=
  ∃ sequence path, GovernedPath.parse request.url = .ok path ∧ Adds (locationEvent ctx stamp sequence (request.location path)) op

theorem only_ofExcept_bind {α β : Type} {Q : LedgerOp → Prop} {x : Except CatalogError β}
    {f : β → LedgerProgram α} (rest : ∀ b, x = .ok b → (f b).Only Q) : Only Q (ofExcept x >>= f) := by
  cases x with
  | ok value => exact rest value rfl
  | error error => exact only_throw

theorem only_createLocation :
    (createLocation ctx stamp request).Only fun op => Spares op ∨ AddsLocation ctx stamp request op := by
  apply only_bind only_replay.inl
  intro metastore
  apply only_ofExcept_bind
  intro state _
  apply only_ofExcept_bind
  intro location created
  obtain ⟨path, parsed, rfl⟩ := new_eq_ok created
  apply only_ofExcept_bind
  intro _ _
  apply only_bind only_nextSequence.inl
  intro sequence
  refine only_bind (Program.Only.mono only_appendEvent fun op adds => ?_) fun _ => only_pure
  exact .inr ⟨sequence, path, parsed, adds⟩

theorem only_createExternalLocation :
    (createExternalLocation ctx stamp request).Only fun op => Spares op ∨ AddsLocation ctx stamp request op := by
  unfold createExternalLocation
  split
  · trivial
  · exact Program.only_bind only_createLocation fun _ => trivial

variable {op : LedgerOp}

theorem Loadable.spares (loadable : Loadable s) (spares : Spares op) (service : Storage.Service) :
    Loadable (serveObjects listed service op s).2 := by
  obtain ⟨state, _⟩ := loadable
  refine ⟨state, ?_⟩
  rwa [governance, events_eq (sameEvents_of_spares spares s service)]

theorem Loadable.added {s' : Ledger} {state : StorageGovernanceState} {sequence : Nat} {path : GovernedPath}
    (loaded : governance s = .ok state) (absent : '%' ∉ request.url.toList)
    (parsed : GovernedPath.parse request.url = .ok path) (passed : passesCheck state request = true)
    (added : Added (locationEvent ctx stamp sequence (request.location path)) s s') : Loadable s' := by
  obtain ⟨path', parsed', accepts⟩ := passesCheck_iff.mp passed
  obtain rfl : path' = path := Except.ok.inj (parsed'.symm.trans parsed)
  have accepted : Accepted ctx stamp request s s' state path' := ⟨loaded, parsed, accepts, sequence, added⟩
  obtain ⟨state', loaded', -⟩ := fromMetastoreState_extended (keyed_replayEvents _)
    accepted.extended loaded ((parse_canonicalUri parsed).mpr (percent_not_mem_path parsed absent)) rfl accepts
  exact ⟨state', loaded'⟩

theorem Loadable.served (loadable : Loadable s) {call : LocationCall} (absent : '%' ∉ call.request.url.toList)
    (isOp : Spares op ∨ AddsLocation ctx stamp call.request op) (checked : Checked call op s)
    (service : Storage.Service) : Loadable (serveObjects listed service op s).2 := by
  obtain spares | ⟨sequence, path, parsed, spares | rfl⟩ := isOp
  · exact loadable.spares spares service
  · exact loadable.spares spares service
  · simp only [serveObjects, conditionalPut]
    split
    · exact loadable
    · split
      · -- The event is written.
        rename_i allowed
        have isNew : s.current (.event (locationEvent ctx stamp sequence (call.request.location path)).eventId) = none := by
          simpa [Objects.allows] using allowed
        obtain ⟨state, loaded⟩ := loadable
        refine Loadable.added loaded absent parsed (checked _ _ _ rfl isNew state loaded)
          ⟨isNew, Objects.current_put_self, fun eventId other => ?_⟩
        exact Objects.current_put_of_ne (by simpa using other)
      · exact loadable

theorem location_verified (tenant workspace : String) :
    locationContract.Verified (serveObjects listed) (locationProtocol tenant workspace) fun _ _ _ _ => True := by
  refine ⟨fun returned call s admitted loadable _ => ?_⟩
  have absent : '%' ∉ call.request.url.toList := by simpa [locationProtocol] using admitted
  refine Program.Only.safe only_createExternalLocation (fun op s' service isOp loadable checked => ⟨?_, trivial⟩) s
  exact Loadable.served loadable absent isOp checked service

abbrev LocationWorld (P : Type) : Type :=
  World (ObjectRes LedgerValue LedgerListing) (Except UnityCatalogError ExternalLocationRecord) LocationCall P Ledger

/-- The ledger stays loadable if every event is written while its request passes the check. -/
theorem loadable_of_checked {P : Type} [DecidableEq P] {tenant workspace : String} {initial : Ledger} {w : LocationWorld P}
    (loadable : Loadable initial)
    (reaches : (locationProtocol tenant workspace).Reaches (serveObjects listed) locationContract.Meets { state := initial } w) :
    Loadable w.state :=
  ((location_verified tenant workspace).reaches (World.sound_initial loadable) reaches).1.holds

def meetsCheck {P : Type} (w : LocationWorld P) : Action LocationCall P Storage.Service → Bool
  | .step p _ => match w.party p with
    | .running label (.call (.put (.event _) _ _) _) => (governance w.state).toOption.all (passesCheck · label.call.request)
    | _ => true
  | _ => true

theorem meets_of_meetsCheck {P : Type} {w : LocationWorld P} {action : Action LocationCall P Storage.Service}
    (passed : meetsCheck w action = true) : locationContract.Meets w action := by
  intro p choice label op rest isAction running
  subst isAction
  intro eventId event precondition isOp _ state loaded
  subst isOp
  simpa [meetsCheck, running, loaded, Except.toOption] using passed

def locationCall (id url : String) : LocationCall where
  stamp := { eventId := id, nowMs := 0 }
  request := { locationId := id, name := id, url := url, credentialId := "c", owner := "o" }

abbrev LocationMove : Type := Schedules.Move (LocationWorld Bool) (Action LocationCall Bool Storage.Service)

def startsCall (party : Bool) (call : LocationCall) : LocationMove := .act (.start party call)

def steps (party : Bool) : LocationMove := .act (.step party .answered)

def returns (party : Bool) : LocationMove := Protocol.goOn party .answered

def allCreated (w : LocationWorld Bool) : Bool := w.returned.length = 2 && w.returned.all fun x => x.2.isOk

theorem loadable_sampleLedger : Loadable sampleLedger := Results.isOk_iff.mp (by decide +kernel)

theorem loadable_of_checked_apart : ∃ w : LocationWorld Bool, allCreated w = true ∧ Loadable w.state := by
  obtain ⟨w, reached, created⟩ := Protocol.exists_of_play (serveObjects listed) (locationProtocol "t" "w")
    meetsCheck 60 { state := sampleLedger }
    [startsCall false (locationCall "a" "s3://b/a"), steps false, steps false,
      startsCall true (locationCall "d" "s3://b/d"), returns true, returns false] allCreated (by decide +kernel)
  exact ⟨w, created, loadable_of_checked loadable_sampleLedger (reached.mono fun _ _ => meets_of_meetsCheck)⟩

/-- Both requests check the ledger before the event of the other is there. -/
theorem concurrent_locations_not_loadable : ∃ w : LocationWorld Bool,
    (locationProtocol "t" "w").Reaches (serveObjects listed) (fun _ _ => True) { state := sampleLedger } w ∧
    Loadable sampleLedger ∧ allCreated w = true ∧ ¬ Loadable w.state := by
  obtain ⟨w, reached, passed⟩ := Protocol.exists_of_play (serveObjects listed) (locationProtocol "t" "w")
    (fun _ _ => true) 60 { state := sampleLedger }
    [startsCall false (locationCall "a" "s3://b/a"), steps false, steps false,
      startsCall true (locationCall "d" "s3://b/a/d"), returns true, returns false]
    (fun w => allCreated w && !(governance w.state).isOk) (by decide +kernel)
  obtain ⟨created, fails⟩ := Bool.and_eq_true_iff.mp passed
  refine ⟨w, reached.mono fun _ _ _ => trivial, loadable_sampleLedger, created, fun loadable => ?_⟩
  rw [Results.isOk_iff.mpr loadable] at fails
  cases fails

end Arco.Governance
