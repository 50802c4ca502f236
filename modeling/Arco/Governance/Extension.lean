import Arco.Governance.Loading

/-! Loading the governance state with one external location more.

The loads of both ledgers go side by side. From the place where the new location is loaded on, one state is the other
with the location added. What still comes passes its checks there as well, since the location was accepted by the state at
the end, in which all of it is.
-/

namespace Arco.Governance

open Arco.Catalog (CatalogError)
open Arco.Metastore Results
open Sorted (Inserted)

namespace StorageGovernanceState

variable {state state' state'' : StorageGovernanceState} {new : ExternalLocation}

/-! ## What is kept -/

structure Kept (state state' : StorageGovernanceState) : Prop where
  credentials : state'.credentials = state.credentials
  locations : ∀ (id : String) location, state.externalLocations[id]? = some location →
    state'.externalLocations[id]? = some location
  roots : ∀ (id : String) root, state.managedRoots[id]? = some root → state'.managedRoots[id]? = some root

theorem Kept.refl (state : StorageGovernanceState) : Kept state state := ⟨rfl, fun _ _ => id, fun _ _ => id⟩

theorem Kept.trans (first : Kept state state') (second : Kept state' state'') : Kept state state'' where
  credentials := second.credentials.trans first.credentials
  locations id location found := second.locations id location (first.locations id location found)
  roots id root found := second.roots id root (first.roots id root found)

theorem credentials_indexAuthority :
    (state.indexAuthority authority).credentials = state.credentials := by
  rw [indexAuthority_eq]
  split <;> rfl

theorem externalLocations_placeLocation (location : ExternalLocation) (id : String) :
    (state.placeLocation location).externalLocations[id]? =
      if id = location.locationId then some location else state.externalLocations[id]? := by
  rw [placeLocation, externalLocations_indexAuthority, getElem?_insert]

theorem managedRoots_placeRoot (root : ManagedRoot) (id : String) :
    (state.placeRoot root).managedRoots[id]? = if id = root.rootId then some root else state.managedRoots[id]? := by
  rw [placeRoot, managedRoots_indexAuthority, getElem?_insert]

variable {location : ExternalLocation} {records : List ExternalLocationRecord} {roots : List ManagedRootRecord}
  {authority : PathAuthority}
  {metastore : MetastoreState}

theorem kept_placeLocation (absent : state.externalLocations[location.locationId]? = none) :
    Kept state (state.placeLocation location) := by
  refine ⟨credentials_indexAuthority, fun id other found => ?_, fun id root found => ?_⟩
  · rw [placeLocation, externalLocations_indexAuthority]
    exact getElem?_insert_of_absent found absent _
  · rwa [placeLocation, managedRoots_indexAuthority]

theorem kept_placeRoot {root : ManagedRoot} (absent : state.managedRoots[root.rootId]? = none) :
    Kept state (state.placeRoot root) := by
  refine ⟨credentials_indexAuthority, fun id location found => ?_, fun id other found => ?_⟩
  · rwa [placeRoot, externalLocations_indexAuthority]
  · rw [placeRoot, managedRoots_indexAuthority]
    exact getElem?_insert_of_absent found absent _

theorem kept_placeBinding {binding : WorkspaceBinding} :
    Kept state (state.placeBinding binding) := by
  unfold placeBinding
  cases bindingIndexEntry binding <;> exact ⟨rfl, fun _ _ => id, fun _ _ => id⟩

theorem kept_loadLocations (underway : Underway records roots state)
    (loaded : records.foldlM loadLocation state = .ok state') : Kept state state' := by
  refine (foldlM_invariant (fun rest s => Underway rest roots s ∧ Kept state s) ?_ ⟨underway, .refl state⟩ loaded).2
  intro record _ _ _ ⟨underway, kept⟩ first
  refine ⟨underway.location first, kept.trans ?_⟩
  obtain ⟨_, -, -, rfl⟩ := loadLocation_eq_ok.mp first
  exact kept_placeLocation (underway.locations.1 record List.mem_cons_self)

theorem kept_loadRoots (underway : Underway records roots state) (loaded : roots.foldlM loadRoot state = .ok state') :
    Kept state state' := by
  refine (foldlM_invariant (fun rest s => Underway records rest s ∧ Kept state s) ?_ ⟨underway, .refl state⟩ loaded).2
  intro record _ _ _ ⟨underway, kept⟩ first
  refine ⟨underway.root first, kept.trans ?_⟩
  obtain ⟨_, -, -, rfl⟩ := loadRoot_eq_ok.mp first
  exact kept_placeRoot (underway.roots.1 record List.mem_cons_self)

theorem kept_loadBindings {records : List WorkspaceBindingRecord} (loaded : records.foldlM loadBinding state = .ok state') :
    Kept state state' := by
  refine foldlM_invariant (fun _ s => Kept state s) (fun kept first => ?_) (.refl state) loaded
  obtain ⟨-, -, rfl⟩ := loadBinding_eq_ok.mp first
  exact kept.trans kept_placeBinding

theorem Kept.mem_activeAuthorities (kept : Kept state state') (member : authority ∈ state.activeAuthorities) :
    authority ∈ state'.activeAuthorities := by
  rw [StorageGovernanceState.mem_activeAuthorities] at member ⊢
  obtain ⟨active, ⟨id, location, found, isAuthority⟩ | ⟨id, root, found, isAuthority⟩⟩ := member
  · exact ⟨active, .inl ⟨id, location, kept.locations id location found, isAuthority⟩⟩
  · exact ⟨active, .inr ⟨id, root, kept.roots id root found, isAuthority⟩⟩

theorem Kept.accepts (kept : Kept state state') (accepts : state'.AcceptsLocation new) : state.AcceptsLocation new where
  credential := kept.credentials ▸ accepts.credential
  absent := by
    cases found : state.externalLocations[new.locationId]? with
    | none => rfl
    | some location => exact absurd (kept.locations _ _ found) (by simp [accepts.absent])
  name id other found := accepts.name id other (kept.locations id other found)
  unclaimed authority member := accepts.unclaimed authority (kept.mem_activeAuthorities member)

/-! ## One location more -/

structure Extends (new : ExternalLocation) (state state' : StorageGovernanceState) : Prop where
  credentials : state'.credentials = state.credentials
  roots : state'.managedRoots = state.managedRoots
  bindings : state'.workspaceBindings = state.workspaceBindings
  byWorkspace : state'.authoritiesByWorkspace = state.authoritiesByWorkspace
  bound : state'.bindingsByWorkspace = state.bindingsByWorkspace
  locations : ∀ id : String, state'.externalLocations[id]? =
    if id = new.locationId then some new else state.externalLocations[id]?
  byObject : ∀ key : String × String, state'.authoritiesByObject[key]? =
    if key = authorityBindingKey (pathAuthorityForExternalLocation new) then some (pathAuthorityForExternalLocation new)
    else state.authoritiesByObject[key]?

theorem extends_placeLocation (active : new.lifecycleState = .active) : Extends new state (state.placeLocation new) := by
  have isActive : (pathAuthorityForExternalLocation new).lifecycleState = .active := active
  rw [placeLocation, indexAuthority_eq, if_pos isActive]
  exact ⟨rfl, rfl, rfl, rfl, rfl, fun id => getElem?_insert _ _ id _, fun key => getElem?_insert _ _ key _⟩

section

variable (wider : Extends new state state')
include wider

theorem Extends.indexAuthority
    (other : authorityBindingKey authority ≠ authorityBindingKey (pathAuthorityForExternalLocation new)) :
    Extends new (state.indexAuthority authority) (state'.indexAuthority authority) := by
  rw [indexAuthority_eq, indexAuthority_eq]
  split
  · refine ⟨wider.credentials, wider.roots, wider.bindings, ?_, wider.bound, wider.locations, fun key => ?_⟩
    · simp only [wider.byWorkspace]
    · simp only [getElem?_insert, wider.byObject key]
      split_ifs with isOther isNew
      · exact absurd (isOther.symm.trans isNew) other
      · rfl
      · rfl
      · rfl
  · exact wider

theorem Extends.placeLocation (other : location.locationId ≠ new.locationId) :
    Extends new (state.placeLocation location) (state'.placeLocation location) := by
  apply Extends.indexAuthority
  · refine ⟨wider.credentials, wider.roots, wider.bindings, wider.byWorkspace, wider.bound, fun id => ?_,
      wider.byObject⟩
    simp only [getElem?_insert, wider.locations id]
    split_ifs with isOther isNew
    · exact absurd (isOther.symm.trans isNew) other
    · rfl
    · rfl
    · rfl
  · intro same
    exact other (congrArg Prod.snd same)

theorem Extends.placeRoot (root : ManagedRoot) :
    Extends new (state.placeRoot root) (state'.placeRoot root) := by
  apply Extends.indexAuthority
  · exact ⟨wider.credentials, congrArg (·.insert root.rootId root) wider.roots, wider.bindings, wider.byWorkspace,
      wider.bound, wider.locations, wider.byObject⟩
  · intro same
    have types := congrArg Prod.fst same
    simp [authorityBindingKey, authorityObjectType, pathAuthorityForManagedRoot, pathAuthorityForExternalLocation] at types

theorem Extends.placeBinding (binding : WorkspaceBinding) :
    Extends new (state.placeBinding binding) (state'.placeBinding binding) := by
  have bindings := congrArg (·.insert binding.bindingId binding) wider.bindings
  unfold StorageGovernanceState.placeBinding
  cases bindingIndexEntry binding with
  | none =>
    exact ⟨wider.credentials, wider.roots, bindings, wider.byWorkspace, wider.bound, wider.locations,
      wider.byObject⟩
  | some entry =>
    refine ⟨wider.credentials, wider.roots, bindings, wider.byWorkspace, ?_, wider.locations, wider.byObject⟩
    simp only [wider.bound]

/-- The new location is the only authority that is added. -/
theorem Extends.unclaimed {objectId : String} {kind : PathAuthorityKind}
    {path : GovernedPath} (unclaimed : state.Unclaimed objectId kind path) (apart : new.path.overlaps path = false) :
    state'.Unclaimed objectId kind path := by
  intro authority member other
  obtain ⟨active, ⟨id, location, found, rfl⟩ | ⟨id, root, found, rfl⟩⟩ := mem_activeAuthorities.mp member
  · rw [wider.locations id] at found
    split at found
    · obtain rfl := Option.some.inj found
      exact apart
    · exact unclaimed _ (mem_activeAuthorities.mpr ⟨active, .inl ⟨id, location, found, rfl⟩⟩) other
  · rw [wider.roots] at found
    exact unclaimed _ (mem_activeAuthorities.mpr ⟨active, .inr ⟨id, root, found, rfl⟩⟩) other

theorem Extends.nextLocation {record : ExternalLocationRecord}
    (loaded : state.loadLocation record = .ok state'') (accepts : state''.AcceptsLocation new) :
    ∃ after, state'.loadLocation record = .ok after ∧ Extends new state'' after := by
  obtain ⟨path, parsed, accepted, rfl⟩ := loadLocation_eq_ok.mp loaded
  have there : (state.placeLocation (.ofRecord record path)).externalLocations[record.locationId]? =
      some (.ofRecord record path) := by
    rw [externalLocations_placeLocation]
    exact if_pos rfl
  have other : record.locationId ≠ new.locationId := by
    intro same
    rw [same, accepts.absent] at there
    cases there
  refine ⟨_, loadLocation_eq_ok.mpr ⟨path, parsed, fun active => ?_, rfl⟩, wider.placeLocation other⟩
  obtain ⟨credential, absent, name, unclaimed⟩ := accepted active
  refine ⟨wider.credentials ▸ credential, ?_, fun id location found => ?_, wider.unclaimed unclaimed ?_⟩
  · rwa [wider.locations, if_neg (show ¬ (ExternalLocation.ofRecord record path).locationId = _ from other)]
  · rw [wider.locations id] at found
    split at found
    · obtain rfl := Option.some.inj found
      exact fun same => accepts.name _ _ there same.symm
    · exact name id location found
  · -- The new location was compared with this one.
    rw [GovernedPath.overlaps_comm]
    refine accepts.unclaimed (pathAuthorityForExternalLocation (.ofRecord record path)) ?_ fun same => other same.1
    exact mem_activeAuthorities.mpr ⟨active, .inl ⟨_, _, there, rfl⟩⟩

theorem Extends.nextRoot {record : ManagedRootRecord}
    (loaded : state.loadRoot record = .ok state'') (accepts : state''.AcceptsLocation new) :
    ∃ after, state'.loadRoot record = .ok after ∧ Extends new state'' after := by
  obtain ⟨path, parsed, accepted, rfl⟩ := loadRoot_eq_ok.mp loaded
  have there : (state.placeRoot (.ofRecord record path)).managedRoots[record.rootId]? = some (.ofRecord record path) := by
    rw [managedRoots_placeRoot]
    exact if_pos rfl
  refine ⟨_, loadRoot_eq_ok.mpr ⟨path, parsed, fun active => ?_, rfl⟩, wider.placeRoot _⟩
  obtain ⟨absent, unclaimed⟩ := accepted active
  refine ⟨by rw [wider.roots]; exact absent, wider.unclaimed unclaimed ?_⟩
  rw [GovernedPath.overlaps_comm]
  refine accepts.unclaimed (pathAuthorityForManagedRoot (.ofRecord record path)) ?_ nofun
  exact mem_activeAuthorities.mpr ⟨active, .inr ⟨_, _, there, rfl⟩⟩

theorem Extends.nextBinding {record : WorkspaceBindingRecord}
    (loaded : state.loadBinding record = .ok state'') :
    ∃ after, state'.loadBinding record = .ok after ∧ Extends new state'' after := by
  obtain ⟨absent, target, rfl⟩ := loadBinding_eq_ok.mp loaded
  refine ⟨_, loadBinding_eq_ok.mpr ⟨wider.bindings ▸ absent, ?_, rfl⟩, wider.placeBinding _⟩
  unfold bindingTargetExists at target ⊢
  simp only [Std.TreeMap.contains_eq_isSome_getElem?, wider.locations, wider.roots] at ⊢
  split_ifs at target ⊢ <;> simp_all

theorem Extends.loadLocations (underway : Underway records roots state)
    (loaded : records.foldlM loadLocation state = .ok state'')
    (accepts : state''.AcceptsLocation new) :
    ∃ after, records.foldlM loadLocation state' = .ok after ∧ Extends new state'' after := by
  induction records generalizing state state' with
  | nil =>
    cases loaded
    exact ⟨state', rfl, wider⟩
  | cons record rest ih =>
    obtain ⟨_, first, loaded⟩ := bind_eq_ok.mp loaded
    have underway' := underway.location first
    -- The location is accepted at the end, so it is accepted here.
    have accepted := (kept_loadLocations underway' loaded).accepts accepts
    obtain ⟨between', first', wider'⟩ := wider.nextLocation first accepted
    obtain ⟨after, rest', wider''⟩ := ih wider' underway' loaded
    exact ⟨after, bind_eq_ok.mpr ⟨between', first', rest'⟩, wider''⟩

theorem Extends.loadRoots (underway : Underway records roots state)
    (loaded : roots.foldlM loadRoot state = .ok state'') (accepts : state''.AcceptsLocation new) :
    ∃ after, roots.foldlM loadRoot state' = .ok after ∧ Extends new state'' after := by
  induction roots generalizing state state' with
  | nil =>
    cases loaded
    exact ⟨state', rfl, wider⟩
  | cons record rest ih =>
    obtain ⟨_, first, loaded⟩ := bind_eq_ok.mp loaded
    have underway' := underway.root first
    have accepted := (kept_loadRoots underway' loaded).accepts accepts
    obtain ⟨between', first', wider'⟩ := wider.nextRoot first accepted
    obtain ⟨after, rest', wider''⟩ := ih wider' underway' loaded
    exact ⟨after, bind_eq_ok.mpr ⟨between', first', rest'⟩, wider''⟩

theorem Extends.loadBindings {records : List WorkspaceBindingRecord}
    (loaded : records.foldlM loadBinding state = .ok state'') :
    ∃ after, records.foldlM loadBinding state' = .ok after ∧ Extends new state'' after := by
  induction records generalizing state state' with
  | nil =>
    cases loaded
    exact ⟨state', rfl, wider⟩
  | cons record rest ih =>
    obtain ⟨_, first, loaded⟩ := bind_eq_ok.mp loaded
    obtain ⟨between', first', wider'⟩ := wider.nextBinding first
    obtain ⟨after, rest', wider''⟩ := ih wider' loaded
    exact ⟨after, bind_eq_ok.mpr ⟨between', first', rest'⟩, wider''⟩

end

/-! ## The stages of a load -/

theorem Stages.kept {withCredentials withLocations withRoots : StorageGovernanceState}
    (stages : Stages metastore withCredentials withLocations withRoots state) (keyed : metastore.Keyed) :
    Kept withLocations state :=
  (kept_loadRoots (stages.underway' keyed) stages.roots).trans (kept_loadBindings stages.bindings)

variable {record : ExternalLocationRecord} {metastore' : MetastoreState}

theorem exists_loadLocations (underway : Underway records roots state)
    (loaded : records.foldlM loadLocation state = .ok state') (member : record ∈ records) :
    ∃ path, GovernedPath.parse record.url = .ok path ∧
      state'.externalLocations[record.locationId]? = some (.ofRecord record path) := by
  induction records generalizing state with
  | nil => cases member
  | cons first rest ih =>
    obtain ⟨_, loadedFirst, loaded⟩ := bind_eq_ok.mp loaded
    have underway' := underway.location loadedFirst
    obtain ⟨path, parsed, -, rfl⟩ := loadLocation_eq_ok.mp loadedFirst
    obtain rfl | later := List.mem_cons.mp member
    · refine ⟨path, parsed, (kept_loadLocations underway' loaded).locations _ _ ?_⟩
      rw [externalLocations_placeLocation]
      exact if_pos rfl
    · exact ih underway' loaded later

theorem exists_location (keyed : metastore.Keyed) (loaded : fromMetastoreState metastore = .ok state) {id : String}
    (found : metastore.externalLocations[id]? = some record) :
    ∃ path, GovernedPath.parse record.url = .ok path ∧ state.externalLocations[id]? = some (.ofRecord record path) := by
  obtain ⟨_, _, _, stages⟩ := fromMetastoreState_eq_ok.mp loaded
  obtain ⟨path, parsed, there⟩ := exists_loadLocations (stages.underway keyed) stages.locations
    (mem_values.mpr ⟨id, found⟩)
  rw [keyed.locations id record found] at there
  exact ⟨path, parsed, (stages.kept keyed).locations _ _ there⟩

theorem inserted_values (extended : Extended record metastore metastore')
    (absent : metastore.externalLocations[record.locationId]? = none) :
    Inserted record (values metastore.externalLocations) (values metastore'.externalLocations) := by
  have distinct : ∀ map : BTreeMap ExternalLocationRecord, map.toList.Nodup := by
    intro map
    refine List.Pairwise.imp ?_ map.distinct_keys_toList
    rintro left _ differs rfl
    exact differs Std.ReflCmp.compare_self
  suffices pairs : Inserted (record.locationId, record) metastore.externalLocations.toList
      metastore'.externalLocations.toList from pairs.map Prod.snd
  refine Sorted.inserted_of_mem (r := fun left right => compare left.1 right.1 = .lt) ?_
    Std.TreeMap.ordered_keys_toList Std.TreeMap.ordered_keys_toList (distinct _) (distinct _) ?_ ?_
  · intro left right before after
    have swapped : compare right.1 left.1 = (compare left.1 right.1).swap := Std.OrientedCmp.eq_swap
    rw [swapped, before] at after
    cases after
  · intro member
    rw [Std.TreeMap.mem_toList_iff_getElem?_eq_some.mp member] at absent
    cases absent
  · rintro ⟨id, _⟩
    rw [Std.TreeMap.mem_toList_iff_getElem?_eq_some, Std.TreeMap.mem_toList_iff_getElem?_eq_some, extended.locations id,
      Prod.mk.injEq]
    by_cases same : id = record.locationId
    · subst same
      simp [absent, eq_comm]
    · simp [same]

/-- A ledger that is extended by an accepted location can be loaded. -/
theorem fromMetastoreState_extended (keyed : metastore.Keyed) {path : GovernedPath}
    (extended : Extended record metastore metastore') (loaded : fromMetastoreState metastore = .ok state)
    (parsed : GovernedPath.parse record.url = .ok path) (active : record.lifecycleState = .active)
    (accepts : state.AcceptsLocation (.ofRecord record path)) :
    ∃ state', fromMetastoreState metastore' = .ok state' ∧ Extends (.ofRecord record path) state state' := by
  obtain ⟨withCredentials, _, _, stages⟩ := fromMetastoreState_eq_ok.mp loaded
  have absent : metastore.externalLocations[record.locationId]? = none := by
    cases found : metastore.externalLocations[record.locationId]? with
    | none => rfl
    | some other =>
      obtain ⟨_, _, there⟩ := exists_location keyed loaded found
      exact absurd there (by rw [show state.externalLocations[record.locationId]? = none from accepts.absent]; simp)
  obtain ⟨front, back, isBefore, isAfter⟩ := inserted_values extended absent
  have acceptsLocations := (stages.kept keyed).accepts accepts
  have acceptsRoots := (kept_loadBindings stages.bindings).accepts accepts
  -- The locations in front of the new one, the new one, and the ones behind it.
  have locations := stages.locations
  rw [isBefore, List.foldlM_append] at locations
  obtain ⟨atNew, loadedFront, loadedBack⟩ := bind_eq_ok.mp locations
  have underway := stages.underway keyed
  rw [isBefore] at underway
  have underwayBack : Underway back _ atNew := foldlM_invariant
    (fun records state => Underway (records ++ back) _ state) (fun underway loaded => underway.location loaded) underway
    loadedFront
  have acceptsNew := (kept_loadLocations underwayBack loadedBack).accepts acceptsLocations
  have placed : Extends (.ofRecord record path) atNew _ := extends_placeLocation active
  obtain ⟨withLocations', loadedBack', wider⟩ := placed.loadLocations underwayBack loadedBack acceptsLocations
  obtain ⟨withRoots', roots', widerRoots⟩ := wider.loadRoots (stages.underway' keyed) stages.roots acceptsRoots
  obtain ⟨state', bindings', widerBindings⟩ := widerRoots.loadBindings stages.bindings
  refine ⟨state', fromMetastoreState_eq_ok.mpr ⟨withCredentials, withLocations', withRoots', ?_, ?_, ?_, ?_⟩, widerBindings⟩
  · rw [extended.credentials]
    exact stages.credentials
  · rw [isAfter, List.foldlM_append]
    refine bind_eq_ok.mpr ⟨atNew, loadedFront, bind_eq_ok.mpr ⟨_, ?_, loadedBack'⟩⟩
    exact loadLocation_eq_ok.mpr ⟨path, parsed, fun _ => acceptsNew, rfl⟩
  · rwa [extended.roots]
  · rwa [extended.bindings]

/-! ## Path decisions -/

/-- The bindings of the workspaces refer to locations that are there. -/
def Attached (state : StorageGovernanceState) : Prop :=
  ∀ (workspaceId : String) bound (key : String × String), state.bindingsByWorkspace[workspaceId]? = some bound → key ∈ bound →
    key.1 = "EXTERNAL_LOCATION" → (state.externalLocations[key.2]?).isSome = true

theorem bindingsByWorkspace_indexAuthority :
    (state.indexAuthority authority).bindingsByWorkspace = state.bindingsByWorkspace := by
  rw [indexAuthority_eq]
  split <;> rfl

theorem Attached.placeLocation (attached : state.Attached) (location : ExternalLocation) :
    (state.placeLocation location).Attached := by
  intro workspaceId bound key found member isLocation
  rw [StorageGovernanceState.placeLocation, bindingsByWorkspace_indexAuthority] at found
  rw [externalLocations_placeLocation]
  split
  · rfl
  · exact attached workspaceId bound key found member isLocation

theorem Attached.placeRoot (attached : state.Attached) (root : ManagedRoot) : (state.placeRoot root).Attached := by
  intro workspaceId bound key found member isLocation
  rw [StorageGovernanceState.placeRoot, bindingsByWorkspace_indexAuthority] at found
  rw [StorageGovernanceState.placeRoot, externalLocations_indexAuthority]
  exact attached workspaceId bound key found member isLocation

theorem Attached.placeBinding (attached : state.Attached) {binding : WorkspaceBinding}
    (target : state.bindingTargetExists binding = true) : (state.placeBinding binding).Attached := by
  unfold StorageGovernanceState.placeBinding
  cases isEntry : bindingIndexEntry binding with
  | none => exact attached
  | some entry =>
    obtain ⟨ownId, entry⟩ := entry
    obtain ⟨rfl, rfl⟩ : ownId = binding.workspaceId ∧ entry = (Text.toAsciiUppercase binding.objectType, binding.objectId) := by
      unfold bindingIndexEntry at isEntry
      split at isEntry
      · simpa [eq_comm] using isEntry
      · cases isEntry
    intro workspaceId bound key found member isLocation
    simp only [getElem?_insert] at found
    split at found
    · obtain rfl := Option.some.inj found
      rw [Std.TreeSet.mem_insert] at member
      obtain same | old := member
      · -- The new binding was checked.
        obtain rfl := Std.LawfulEqCmp.eq_of_compare same
        simp only [bindingTargetExists, show Text.toAsciiUppercase binding.objectType = "EXTERNAL_LOCATION" from isLocation,
          Std.TreeMap.contains_eq_isSome_getElem?] at target
        simpa using target
      · cases known : state.bindingsByWorkspace[binding.workspaceId]? with
        | none => simp [known] at old
        | some before => exact attached binding.workspaceId before key known (by simpa [known] using old) isLocation
    · exact attached workspaceId bound key found member isLocation

theorem attached_fromMetastoreState (loaded : fromMetastoreState metastore = .ok state) : state.Attached := by
  obtain ⟨_, _, _, credentials, locations, roots, bindings⟩ := fromMetastoreState_eq_ok.mp loaded
  have afterCredentials := foldlM_invariant (fun _ state => Attached state) (fun attached loaded => by
    obtain ⟨-, rfl⟩ := createStorageCredential_eq_ok.mp loaded
    exact attached) (by simp [Attached]) credentials
  have afterLocations := foldlM_invariant (fun _ state => Attached state) (fun attached loaded => by
    obtain ⟨path, -, -, rfl⟩ := loadLocation_eq_ok.mp loaded
    exact attached.placeLocation _) afterCredentials locations
  have afterRoots := foldlM_invariant (fun _ state => Attached state) (fun attached loaded => by
    obtain ⟨_, -, -, rfl⟩ := loadRoot_eq_ok.mp loaded
    exact attached.placeRoot _) afterLocations roots
  exact foldlM_invariant (fun _ state => Attached state) (fun attached loaded => by
    obtain ⟨-, target, rfl⟩ := loadBinding_eq_ok.mp loaded
    exact attached.placeBinding target) afterRoots bindings

/-- A location that no workspace is bound to has no part in path decisions. -/
theorem Extends.authorityForPath (wider : Extends new state state') (attached : state.Attached)
    (absent : state.externalLocations[new.locationId]? = none) (workspaceId uri : String) :
    state'.authorityForPath workspaceId uri = state.authorityForPath workspaceId uri := by
  have candidates : ∀ path, state'.candidates workspaceId path = state.candidates workspaceId path := by
    intro path
    rw [candidates, wider.byWorkspace, wider.bound]
    refine List.foldl_ext _ _ _ fun found key member => ?_
    have other : key ≠ authorityBindingKey (pathAuthorityForExternalLocation new) := by
      rintro rfl
      cases isBound : state.bindingsByWorkspace[workspaceId]? with
      | none => simp [isBound] at member
      | some bound =>
        have there := attached workspaceId bound _ isBound (by simpa [isBound] using member) rfl
        rw [show state.externalLocations[(authorityBindingKey (pathAuthorityForExternalLocation new)).2]? =
          none from absent] at there
        cases there
    rw [wider.byObject, if_neg other]
  simp only [StorageGovernanceState.authorityForPath, candidates]

end StorageGovernanceState

end Arco.Governance
