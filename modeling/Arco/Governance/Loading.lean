import Arco.Governance.State

/-! What the operations of the governance state check, and what they leave behind.

Each operation either fails or places its object: `placeLocation`, `placeRoot` and `placeBinding` are what an
operation does once its checks have passed.
-/

namespace Arco.Governance

open Arco.Catalog (CatalogError)
open Arco.Metastore Results List Std.TreeMap Except

variable {V : Type} {key : String}

theorem mem_values {map : BTreeMap V} {value : V} : value ∈ values map ↔ ∃ key : String, map[key]? = some value := by
  simp [values]

theorem contains_eq_false {map : BTreeMap V} : map.contains key = false ↔ map[key]? = none := by
  rw [contains_eq_isSome_getElem?, Option.isSome_eq_false_iff, Option.isNone_iff_eq_none]

theorem not_contains_eq_false {map : BTreeMap V} :
    (!map.contains key) = false ↔ (map[key]?).isSome = true := by
  rw [contains_eq_isSome_getElem?, Bool.not_eq_false']

theorem getElem?_insert_of_absent {map : BTreeMap V} {new : String} {value : V} (found : map[key]? = some value)
    (absent : map[new]? = none) (w : V) : (map.insert new w)[key]? = some value := by
  rw [Std.TreeMap.getElem?_insert, if_neg]
  · exact found
  · intro same
    rw [← Std.LawfulEqCmp.eq_of_compare same, absent] at found
    cases found

namespace StorageGovernanceState

variable {state state' : StorageGovernanceState}

def placeLocation (state : StorageGovernanceState) (location : ExternalLocation) : StorageGovernanceState :=
  { state with
    externalLocations := state.externalLocations.insert location.locationId location
  }.indexAuthority (pathAuthorityForExternalLocation location)

def placeRoot (state : StorageGovernanceState) (root : ManagedRoot) : StorageGovernanceState :=
  { state with managedRoots := state.managedRoots.insert root.rootId root }.indexAuthority (pathAuthorityForManagedRoot root)

def placeBinding (state : StorageGovernanceState) (binding : WorkspaceBinding) : StorageGovernanceState :=
  let state := { state with workspaceBindings := state.workspaceBindings.insert binding.bindingId binding }
  match bindingIndexEntry binding with
  | some (workspaceId, entry) => { state with
      bindingsByWorkspace := state.bindingsByWorkspace.insert workspaceId
        ((state.bindingsByWorkspace[workspaceId]?.getD {}).insert entry) }
  | none => state

def Unclaimed (state : StorageGovernanceState) (objectId : String) (kind : PathAuthorityKind) (path : GovernedPath) : Prop :=
  ∀ authority ∈ state.activeAuthorities, ¬ (authority.objectId = objectId ∧ authority.kind = kind) →
    authority.path.overlaps path = false

structure AcceptsLocation (state : StorageGovernanceState) (location : ExternalLocation) : Prop where
  credential : (state.credentials[location.credentialId]?).isSome = true
  absent : state.externalLocations[location.locationId]? = none
  name : ∀ (id : String) other, state.externalLocations[id]? = some other → other.name ≠ location.name
  unclaimed : state.Unclaimed location.locationId .externalLocation location.path

structure AcceptsRoot (state : StorageGovernanceState) (root : ManagedRoot) : Prop where
  absent : state.managedRoots[root.rootId]? = none
  unclaimed : state.Unclaimed root.rootId .managedRoot root.path

theorem mem_activeAuthorities {authority : PathAuthority} :
    authority ∈ state.activeAuthorities ↔ authority.lifecycleState = .active ∧
      ((∃ (id : String) (location : _), state.externalLocations[id]? = some location ∧
          authority = pathAuthorityForExternalLocation location) ∨
        ∃ (id : String) (root : _), state.managedRoots[id]? = some root ∧ authority = pathAuthorityForManagedRoot root) := by
  simp only [activeAuthorities, mem_filter, mem_append, mem_map, mem_values, decide_eq_true_eq]
  constructor
  · rintro ⟨⟨location, ⟨id, found⟩, rfl⟩ | ⟨root, ⟨id, found⟩, rfl⟩, active⟩
    · exact ⟨active, .inl ⟨id, location, found, rfl⟩⟩
    · exact ⟨active, .inr ⟨id, root, found, rfl⟩⟩
  · rintro ⟨active, ⟨id, location, found, rfl⟩ | ⟨id, root, found, rfl⟩⟩
    · exact ⟨.inl ⟨location, ⟨id, found⟩, rfl⟩, active⟩
    · exact ⟨.inr ⟨root, ⟨id, found⟩, rfl⟩, active⟩

theorem validateNoOverlap_eq_ok {objectId : String} {kind : PathAuthorityKind} {path : GovernedPath} {u : Unit} :
    state.validateNoOverlap objectId kind path = .ok u ↔ state.Unclaimed objectId kind path := by
  unfold validateNoOverlap
  extract_lets isBlocking
  split
  · rename_i authority found
    have blocks : isBlocking authority = true := find?_some found
    simp only [isBlocking, decide_eq_true_eq] at blocks
    simp only [reduceCtorEq, false_iff]
    intro unclaimed
    have free := unclaimed authority (mem_of_find?_eq_some found) blocks.1
    cases blocks.2.symm.trans free
  · rename_i absent
    simp only [true_iff]
    intro authority member other
    have passes := find?_eq_none.mp absent authority member
    rw [decide_eq_true_eq, not_and] at passes
    exact Bool.eq_false_iff.mpr (passes other)

theorem createExternalLocation_eq_ok {location : ExternalLocation} :
    state.createExternalLocation location = .ok state' ↔
      state.AcceptsLocation location ∧ state' = state.placeLocation location := by
  have names : (values state.externalLocations).any (·.name = location.name) = false ↔
      ∀ (id : String) other, state.externalLocations[id]? = some other → other.name ≠ location.name := by
    simp only [any_eq_false, mem_values, decide_eq_true_eq]
    exact ⟨fun free id other found => free other ⟨id, found⟩, fun free other ⟨id, found⟩ => free id other found⟩
  simp only [createExternalLocation, bind_eq_ok, refuse_eq_ok, names, validateNoOverlap_eq_ok, pure, Except.pure,
    ok.injEq, not_contains_eq_false, contains_eq_false]
  constructor
  · rintro ⟨_, credential, _, absent, _, name, _, unclaimed, rfl⟩
    exact ⟨⟨credential, absent, name, unclaimed⟩, rfl⟩
  · rintro ⟨accepts, rfl⟩
    exact ⟨(), accepts.credential, (), accepts.absent, (), accepts.name, (), accepts.unclaimed, rfl⟩

theorem createManagedRoot_eq_ok {root : ManagedRoot} :
    state.createManagedRoot root = .ok state' ↔ state.AcceptsRoot root ∧ state' = state.placeRoot root := by
  simp only [createManagedRoot, bind_eq_ok, refuse_eq_ok, validateNoOverlap_eq_ok, pure, Except.pure, ok.injEq,
    contains_eq_false]
  constructor
  · rintro ⟨_, absent, _, unclaimed, rfl⟩
    exact ⟨⟨absent, unclaimed⟩, rfl⟩
  · rintro ⟨accepts, rfl⟩
    exact ⟨(), accepts.absent, (), accepts.unclaimed, rfl⟩

theorem bindWorkspace_eq_ok {binding : WorkspaceBinding} : state.bindWorkspace binding = .ok state' ↔
      state.workspaceBindings[binding.bindingId]? = none ∧ state.bindingTargetExists binding = true ∧
        state' = state.placeBinding binding := by
  simp only [bindWorkspace, bind_eq_ok, refuse_eq_ok, pure, Except.pure, ok.injEq, contains_eq_false,
    Bool.not_eq_false']
  constructor
  · rintro ⟨_, absent, _, target, rfl⟩
    exact ⟨absent, target, rfl⟩
  · rintro ⟨absent, target, rfl⟩
    exact ⟨(), absent, (), target, rfl⟩

theorem createStorageCredential_eq_ok {metadata : StorageCredentialMetadata} :
    state.createStorageCredential metadata = .ok state' ↔ state.credentials[metadata.credentialId]? = none ∧
        state' = { state with credentials := state.credentials.insert metadata.credentialId metadata } := by
  simp only [createStorageCredential, bind_eq_ok, refuse_eq_ok, pure, Except.pure, ok.injEq, contains_eq_false]
  constructor
  · rintro ⟨_, absent, rfl⟩
    exact ⟨absent, rfl⟩
  · rintro ⟨absent, rfl⟩
    exact ⟨(), absent, rfl⟩

end StorageGovernanceState

def ExternalLocation.ofRecord (record : ExternalLocationRecord) (path : GovernedPath) : ExternalLocation where
  locationId := record.locationId
  name := record.name
  path
  credentialId := record.credentialId
  owner := record.owner
  lifecycleState := record.lifecycleState

def ManagedRoot.ofRecord (record : ManagedRootRecord) (path : GovernedPath) : ManagedRoot where
  rootId := record.rootId
  name := record.name
  workspaceId := record.workspaceId
  path
  owner := record.owner
  lifecycleState := record.lifecycleState

def WorkspaceBinding.ofRecord (record : WorkspaceBindingRecord) : WorkspaceBinding where
  bindingId := record.bindingId
  workspaceId := record.workspaceId
  objectId := record.objectId
  objectType := record.objectType
  owner := record.owner
  lifecycleState := record.lifecycleState

namespace StorageGovernanceState

variable {state state' : StorageGovernanceState}

theorem indexAuthority_of_inactive {authority : PathAuthority} (inactive : authority.lifecycleState ≠ .active) :
    state.indexAuthority authority = state := by
  rw [indexAuthority, if_pos inactive]

theorem loadLocation_eq_ok {record : ExternalLocationRecord} :
    state.loadLocation record = .ok state' ↔ ∃ path, GovernedPath.parse record.url = .ok path ∧
      (record.lifecycleState = .active → state.AcceptsLocation (.ofRecord record path)) ∧
        state' = state.placeLocation (.ofRecord record path) := by
  simp only [loadLocation, ExternalLocation.new, bind_eq_ok, pure, Except.pure, ok.injEq, exists_exists_and_eq_and]
  exact exists_congr fun path => and_congr_right fun _ =>
    ite_eq_ok createExternalLocation_eq_ok fun inactive => (indexAuthority_of_inactive inactive).symm

theorem loadRoot_eq_ok {record : ManagedRootRecord} :
    state.loadRoot record = .ok state' ↔ ∃ path, GovernedPath.parse record.url = .ok path ∧
      (record.lifecycleState = .active → state.AcceptsRoot (.ofRecord record path)) ∧
        state' = state.placeRoot (.ofRecord record path) := by
  simp only [loadRoot, ManagedRoot.new, bind_eq_ok, pure, Except.pure, ok.injEq, exists_exists_and_eq_and]
  exact exists_congr fun path => and_congr_right fun _ =>
    ite_eq_ok createManagedRoot_eq_ok fun inactive => (indexAuthority_of_inactive inactive).symm

theorem loadBinding_eq_ok {record : WorkspaceBindingRecord} : state.loadBinding record = .ok state' ↔
      state.workspaceBindings[record.bindingId]? = none ∧ state.bindingTargetExists (.ofRecord record) = true ∧
        state' = state.placeBinding (.ofRecord record) :=
  bindWorkspace_eq_ok

def authorityPath (state : StorageGovernanceState) (decision : PathDecision) : Option GovernedPath :=
  match decision.authorityKind with
  | .externalLocation => state.externalLocations[decision.objectId]?.map ExternalLocation.path
  | .managedRoot => state.managedRoots[decision.objectId]?.map ManagedRoot.path

section Index

variable (state) (authority : PathAuthority)

theorem indexAuthority_eq : state.indexAuthority authority =
    if authority.lifecycleState = .active then { state with
      authoritiesByObject := state.authoritiesByObject.insert (authorityBindingKey authority) authority
      authoritiesByWorkspace := match authority.workspaceId with
        | some workspaceId => state.authoritiesByWorkspace.insert workspaceId
            (state.authoritiesByWorkspace[workspaceId]?.getD [] ++ [authority])
        | none => state.authoritiesByWorkspace
      globalAuthorities := match authority.workspaceId with
        | some _ => state.globalAuthorities
        | none => state.globalAuthorities ++ [authority] }
    else state := by
  unfold indexAuthority
  by_cases active : authority.lifecycleState = .active
  · rw [if_neg (not_not.mpr active), if_pos active]
    cases authority.workspaceId <;> rfl
  · rw [if_pos active, if_neg active]

@[simp] theorem externalLocations_indexAuthority :
    (state.indexAuthority authority).externalLocations = state.externalLocations := by
  rw [indexAuthority_eq]
  split <;> rfl

@[simp] theorem managedRoots_indexAuthority : (state.indexAuthority authority).managedRoots = state.managedRoots := by
  rw [indexAuthority_eq]
  split <;> rfl

end Index

theorem distinct_values {V : Type} {map : BTreeMap V} {id : V → String}
    (keyed : ∀ (key : String) value, map[key]? = some value → id value = key) :
    (values map).Pairwise fun earlier later => id earlier ≠ id later := by
  rw [values, pairwise_map]
  refine Pairwise.imp_of_mem ?_ map.distinct_keys_toList
  intro earlier later isEarlier isLater distinct same
  have first := keyed _ _ (mem_toList_iff_getElem?_eq_some.mp isEarlier)
  have second := keyed _ _ (mem_toList_iff_getElem?_eq_some.mp isLater)
  rw [← first, ← second, same] at distinct
  exact distinct (Std.ReflCmp.compare_self)

/-- The objects that are still to be loaded are not there, and differ from each other. -/
def Pending {V W : Type} (objects : BTreeMap W) (id : V → String) (records : List V) : Prop :=
  (∀ record ∈ records, objects[id record]? = none) ∧ records.Pairwise fun earlier later => id earlier ≠ id later

theorem Pending.insert {V W : Type} {objects : BTreeMap W} {id : V → String} {record : V} {records : List V}
    (pending : Pending objects id (record :: records)) (value : W) : Pending (objects.insert (id record) value) id records := by
  obtain ⟨absent, distinct⟩ := pending
  obtain ⟨first, distinct⟩ := pairwise_cons.mp distinct
  refine ⟨fun other member => ?_, distinct⟩
  rw [Std.TreeMap.getElem?_insert, if_neg]
  · exact absent other (mem_cons_of_mem _ member)
  · exact fun same => first other member (Std.LawfulEqCmp.eq_of_compare same)

structure Underway (locations : List ExternalLocationRecord) (roots : List ManagedRootRecord)
    (state : StorageGovernanceState) : Prop where
  locations : Pending state.externalLocations ExternalLocationRecord.locationId locations
  roots : Pending state.managedRoots ManagedRootRecord.rootId roots

section Underway

variable {locations : List ExternalLocationRecord} {roots : List ManagedRootRecord}

theorem Underway.credential (underway : Underway locations roots state) {record : StorageCredentialRecord}
    (loaded : state.loadCredential record = .ok state') : Underway locations roots state' := by
  obtain ⟨-, rfl⟩ := createStorageCredential_eq_ok.mp loaded
  exact ⟨underway.locations, underway.roots⟩

theorem Underway.location {record : ExternalLocationRecord} (underway : Underway (record :: locations) roots state)
    (loaded : state.loadLocation record = .ok state') : Underway locations roots state' := by
  obtain ⟨_, -, -, rfl⟩ := loadLocation_eq_ok.mp loaded
  constructor
  · rw [placeLocation, externalLocations_indexAuthority]
    exact underway.locations.insert _
  · rw [placeLocation, managedRoots_indexAuthority]
    exact underway.roots

theorem Underway.root {record : ManagedRootRecord} (underway : Underway locations (record :: roots) state)
    (loaded : state.loadRoot record = .ok state') : Underway locations roots state' := by
  obtain ⟨_, -, -, rfl⟩ := loadRoot_eq_ok.mp loaded
  constructor
  · rw [placeRoot, externalLocations_indexAuthority]
    exact underway.locations
  · rw [placeRoot, managedRoots_indexAuthority]
    exact underway.roots.insert _

end Underway

variable {metastore : MetastoreState} {withCredentials withLocations withRoots : StorageGovernanceState}

/-- The states between the four folds of `from_metastore_state`. -/
structure Stages (metastore : MetastoreState) (withCredentials withLocations withRoots state : StorageGovernanceState) :
    Prop where
  credentials : (values metastore.storageCredentials).foldlM loadCredential {} = .ok withCredentials
  locations : (values metastore.externalLocations).foldlM loadLocation withCredentials = .ok withLocations
  roots : (values metastore.managedRoots).foldlM loadRoot withLocations = .ok withRoots
  bindings : (values metastore.workspaceBindings).foldlM loadBinding withRoots = .ok state

theorem fromMetastoreState_eq_ok : fromMetastoreState metastore = .ok state ↔
    ∃ withCredentials withLocations withRoots, Stages metastore withCredentials withLocations withRoots state := by
  simp only [fromMetastoreState, bind_eq_ok]
  constructor
  · rintro ⟨withCredentials, credentials, withLocations, locations, withRoots, roots, bindings⟩
    exact ⟨withCredentials, withLocations, withRoots, credentials, locations, roots, bindings⟩
  · rintro ⟨withCredentials, withLocations, withRoots, credentials, locations, roots, bindings⟩
    exact ⟨withCredentials, credentials, withLocations, locations, withRoots, roots, bindings⟩

section Stages

variable (stages : Stages metastore withCredentials withLocations withRoots state) (keyed : metastore.Keyed)
include stages keyed

theorem Stages.underway :
    Underway (values metastore.externalLocations) (values metastore.managedRoots) withCredentials := by
  have start : Underway (values metastore.externalLocations) (values metastore.managedRoots) {} :=
    ⟨⟨by simp, distinct_values keyed.locations⟩, ⟨by simp, distinct_values keyed.roots⟩⟩
  exact foldlM_invariant (fun _ state => Underway _ _ state) (fun underway loaded => underway.credential loaded)
    start stages.credentials

theorem Stages.underway' : Underway [] (values metastore.managedRoots) withLocations :=
  foldlM_invariant (fun records state => Underway records _ state) (fun underway loaded => underway.location loaded)
    (stages.underway keyed) stages.locations

end Stages

/-- States that are loaded from a ledger or made by the operations. `from_projection_rows` takes the steps of a load, one
for each row, on rows that differ in their ids. -/
inductive Built : StorageGovernanceState → Prop where
  | empty : Built {}
  | loaded {events : List Metastore.MetastoreEvent} {state : StorageGovernanceState}
      (loads : fromMetastoreState (Metastore.replayEvents events) = .ok state) : Built state
  | credential {state state' : StorageGovernanceState} {metadata : StorageCredentialMetadata} (built : Built state)
      (created : state.createStorageCredential metadata = .ok state') : Built state'
  | location {state state' : StorageGovernanceState} {location : ExternalLocation} (built : Built state)
      (parsed : ∃ url, GovernedPath.parse url = .ok location.path)
      (created : state.createExternalLocation location = .ok state') : Built state'
  | root {state state' : StorageGovernanceState} {root : ManagedRoot} (built : Built state)
      (parsed : ∃ url, GovernedPath.parse url = .ok root.path)
      (created : state.createManagedRoot root = .ok state') : Built state'
  | locationRow {state state' : StorageGovernanceState} {record : ExternalLocationRecord} (built : Built state)
      (absent : state.externalLocations[record.locationId]? = none)
      (loads : state.loadLocation record = .ok state') : Built state'
  | rootRow {state state' : StorageGovernanceState} {record : ManagedRootRecord} (built : Built state)
      (absent : state.managedRoots[record.rootId]? = none) (loads : state.loadRoot record = .ok state') : Built state'
  | binding {state state' : StorageGovernanceState} {binding : WorkspaceBinding} (built : Built state)
      (bound : state.bindWorkspace binding = .ok state') : Built state'

end StorageGovernanceState

end Arco.Governance
