import Arco.Governance.Path
import Arco.Metastore.State

/-! The storage-governance state: credentials, path authorities and workspace bindings. -/

namespace Arco.Governance

open Arco.Catalog (CatalogError)
open Arco.Metastore
open Results (refuse)

abbrev ObjectMap (V : Type) : Type := Std.TreeMap (String × String) V (lexOrd.compare)

abbrev ObjectSet : Type := Std.TreeSet (String × String) (lexOrd.compare)

inductive PathAuthorityKind where
  | externalLocation
  | managedRoot
  deriving DecidableEq

structure PathDecision where
  objectId : String
  authorityKind : PathAuthorityKind
  deriving DecidableEq

structure PathAuthority where
  objectId : String
  kind : PathAuthorityKind
  path : GovernedPath
  workspaceId : Option String
  lifecycleState : LifecycleState

structure StorageCredentialMetadata where
  credentialId : String
  name : String
  cloud : String
  owner : String
  lifecycleState : LifecycleState

structure ExternalLocation where
  locationId : String
  name : String
  path : GovernedPath
  credentialId : String
  owner : String
  lifecycleState : LifecycleState

structure ManagedRoot where
  rootId : String
  name : String
  workspaceId : String
  path : GovernedPath
  owner : String
  lifecycleState : LifecycleState

structure WorkspaceBinding where
  bindingId : String
  workspaceId : String
  objectId : String
  objectType : String
  owner : String
  lifecycleState : LifecycleState

def ExternalLocation.new (locationId name url credentialId owner : String) : Except CatalogError ExternalLocation := do
  return { locationId, name, path := ← GovernedPath.parse url, credentialId, owner, lifecycleState := .active }

def ManagedRoot.new (rootId name workspaceId url owner : String) : Except CatalogError ManagedRoot := do
  return { rootId, name, workspaceId, path := ← GovernedPath.parse url, owner, lifecycleState := .active }

def WorkspaceBinding.new (bindingId workspaceId objectId objectType owner : String) : WorkspaceBinding :=
  { bindingId, workspaceId, objectId, objectType, owner, lifecycleState := .active }

def authorityObjectType : PathAuthorityKind → String
  | .externalLocation => "EXTERNAL_LOCATION"
  | .managedRoot => "MANAGED_ROOT"

def pathAuthorityForExternalLocation (location : ExternalLocation) : PathAuthority where
  objectId := location.locationId
  kind := .externalLocation
  path := location.path
  workspaceId := none
  lifecycleState := location.lifecycleState

def pathAuthorityForManagedRoot (root : ManagedRoot) : PathAuthority where
  objectId := root.rootId
  kind := .managedRoot
  path := root.path
  workspaceId := some root.workspaceId
  lifecycleState := root.lifecycleState

def authorityBindingKey (authority : PathAuthority) : String × String :=
  (authorityObjectType authority.kind, authority.objectId)

def bindingIndexEntry (binding : WorkspaceBinding) : Option (String × (String × String)) :=
  if binding.lifecycleState = .active then
    some (binding.workspaceId, (Text.toAsciiUppercase binding.objectType, binding.objectId))
  else none

structure StorageGovernanceState where
  credentials : BTreeMap StorageCredentialMetadata := {}
  externalLocations : BTreeMap ExternalLocation := {}
  managedRoots : BTreeMap ManagedRoot := {}
  workspaceBindings : BTreeMap WorkspaceBinding := {}
  authoritiesByWorkspace : BTreeMap (List PathAuthority) := {}
  authoritiesByObject : ObjectMap PathAuthority := {}
  globalAuthorities : List PathAuthority := []
  bindingsByWorkspace : BTreeMap ObjectSet := {}

def values {V : Type} (map : BTreeMap V) : List V := map.toList.map Prod.snd

namespace StorageGovernanceState

def createStorageCredential (state : StorageGovernanceState) (metadata : StorageCredentialMetadata) :
    Except CatalogError StorageGovernanceState := do
  refuse (state.credentials.contains metadata.credentialId) (.alreadyExists "storage_credential" metadata.credentialId)
  return { state with credentials := state.credentials.insert metadata.credentialId metadata }

def activeAuthorities (state : StorageGovernanceState) : List PathAuthority :=
  ((values state.externalLocations).map pathAuthorityForExternalLocation ++
    (values state.managedRoots).map pathAuthorityForManagedRoot).filter (·.lifecycleState = .active)

def validateNoOverlap (state : StorageGovernanceState) (objectId : String) (kind : PathAuthorityKind)
    (path : GovernedPath) : Except CatalogError Unit :=
  let blocks (authority : PathAuthority) : Bool :=
    ¬ (authority.objectId = objectId ∧ authority.kind = kind) ∧ authority.path.overlaps path
  match state.activeAuthorities.find? blocks with
  | some authority => .error (.preconditionFailed s!"path overlaps existing authority '{authority.objectId}'")
  | none => .ok ()

def indexAuthority (state : StorageGovernanceState) (authority : PathAuthority) : StorageGovernanceState :=
  if authority.lifecycleState ≠ .active then state
  else
    let state := { state with
      authoritiesByObject := state.authoritiesByObject.insert (authorityBindingKey authority) authority }
    match authority.workspaceId with
    | some workspaceId => { state with
        authoritiesByWorkspace := state.authoritiesByWorkspace.insert workspaceId
          (state.authoritiesByWorkspace[workspaceId]?.getD [] ++ [authority]) }
    | none => { state with globalAuthorities := state.globalAuthorities ++ [authority] }

def createExternalLocation (state : StorageGovernanceState) (location : ExternalLocation) :
    Except CatalogError StorageGovernanceState := do
  refuse (!state.credentials.contains location.credentialId) (.notFound "storage_credential" location.credentialId)
  refuse (state.externalLocations.contains location.locationId) (.alreadyExists "external_location" location.locationId)
  refuse ((values state.externalLocations).any (·.name = location.name))
    (.alreadyExists "external_location_name" location.name)
  state.validateNoOverlap location.locationId .externalLocation location.path
  return { state with
    externalLocations := state.externalLocations.insert location.locationId location
  }.indexAuthority (pathAuthorityForExternalLocation location)

def createManagedRoot (state : StorageGovernanceState) (root : ManagedRoot) :
    Except CatalogError StorageGovernanceState := do
  refuse (state.managedRoots.contains root.rootId) (.alreadyExists "managed_root" root.rootId)
  state.validateNoOverlap root.rootId .managedRoot root.path
  return { state with
    managedRoots := state.managedRoots.insert root.rootId root
  }.indexAuthority (pathAuthorityForManagedRoot root)

def bindingTargetExists (state : StorageGovernanceState) (binding : WorkspaceBinding) : Bool :=
  let objectType := Text.toAsciiUppercase binding.objectType
  if objectType = "EXTERNAL_LOCATION" then state.externalLocations.contains binding.objectId
  else if objectType = "MANAGED_ROOT" then state.managedRoots.contains binding.objectId
  else false

def bindWorkspace (state : StorageGovernanceState) (binding : WorkspaceBinding) :
    Except CatalogError StorageGovernanceState := do
  refuse (state.workspaceBindings.contains binding.bindingId) (.alreadyExists "workspace_binding" binding.bindingId)
  refuse (!state.bindingTargetExists binding) (.validation
    s!"workspace binding '{binding.bindingId}' references unknown or mismatched {binding.objectType} '{binding.objectId}'")
  let state := { state with workspaceBindings := state.workspaceBindings.insert binding.bindingId binding }
  return match bindingIndexEntry binding with
  | some (workspaceId, entry) => { state with
      bindingsByWorkspace := state.bindingsByWorkspace.insert workspaceId
        ((state.bindingsByWorkspace[workspaceId]?.getD {}).insert entry) }
  | none => state

def candidates (state : StorageGovernanceState) (workspaceId : String) (path : GovernedPath) : ObjectMap PathAuthority :=
  let owned := (state.authoritiesByWorkspace[workspaceId]?.getD []).filter (·.path.contains path)
  let found := owned.foldl (fun found authority => found.insert (authorityBindingKey authority) authority) {}
  (state.bindingsByWorkspace[workspaceId]?.getD {}).toList.foldl (fun found binding =>
    match state.authoritiesByObject[binding]? with
    | some authority => if authority.path.contains path then found.insert binding authority else found
    | none => found) found

def authorityForPath (state : StorageGovernanceState) (workspaceId uri : String) : Except CatalogError PathDecision := do
  let path ← GovernedPath.parse uri
  let length (authority : PathAuthority) : Nat := authority.path.canonicalUri.utf8ByteSize
  let found := ((state.candidates workspaceId path).toList.map Prod.snd).insertionSort fun left right =>
    length right ≤ length left
  match found with
  | [] => .error (.notFound "path_authority" path.canonicalUri)
  | authority :: rest =>
    refuse (rest.any fun candidate => length candidate = length authority) (.preconditionFailed "ambiguous path authority")
    return { objectId := authority.objectId, authorityKind := authority.kind }

def loadCredential (state : StorageGovernanceState) (record : StorageCredentialRecord) :
    Except CatalogError StorageGovernanceState :=
  state.createStorageCredential {
    credentialId := record.credentialId
    name := record.name
    cloud := record.cloud
    owner := record.owner
    lifecycleState := record.lifecycleState }

def loadLocation (state : StorageGovernanceState) (record : ExternalLocationRecord) :
    Except CatalogError StorageGovernanceState := do
  let location ← ExternalLocation.new record.locationId record.name record.url record.credentialId record.owner
  let location := { location with lifecycleState := record.lifecycleState }
  if location.lifecycleState = .active then state.createExternalLocation location
  else return { state with externalLocations := state.externalLocations.insert location.locationId location }

def loadRoot (state : StorageGovernanceState) (record : ManagedRootRecord) :
    Except CatalogError StorageGovernanceState := do
  let root ← ManagedRoot.new record.rootId record.name record.workspaceId record.url record.owner
  let root := { root with lifecycleState := record.lifecycleState }
  if root.lifecycleState = .active then state.createManagedRoot root
  else return { state with managedRoots := state.managedRoots.insert root.rootId root }

def loadBinding (state : StorageGovernanceState) (record : WorkspaceBindingRecord) :
    Except CatalogError StorageGovernanceState :=
  state.bindWorkspace { WorkspaceBinding.new record.bindingId record.workspaceId record.objectId record.objectType
    record.owner with lifecycleState := record.lifecycleState }

def fromMetastoreState (metastore : MetastoreState) : Except CatalogError StorageGovernanceState := do
  let state ← (values metastore.storageCredentials).foldlM loadCredential {}
  let state ← (values metastore.externalLocations).foldlM loadLocation state
  let state ← (values metastore.managedRoots).foldlM loadRoot state
  (values metastore.workspaceBindings).foldlM loadBinding state

end StorageGovernanceState

end Arco.Governance
