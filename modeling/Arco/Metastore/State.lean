import Mathlib.Data.String.Basic
import Arco.Catalog.Paths
import Arco.Data.Sorted

/-! The metastore: its records, its events, and the state that a ledger of events is replayed into. -/

namespace Arco.Metastore

abbrev BTreeMap (V : Type) : Type := Std.TreeMap String V

inductive LifecycleState where
  | active
  | deleted
  | disabled
  deriving DecidableEq

inductive PrincipalKind where
  | user
  | servicePrincipal
  | workload
  | group
  | externalSubject
  deriving DecidableEq

structure PrincipalRecord where
  principalId : String
  name : String
  principalKind : PrincipalKind
  owner : String
  lifecycleState : LifecycleState
  updatedAtMs : Int
  deriving DecidableEq

structure GrantRecord where
  grantId : String
  objectId : String
  objectType : String
  principalId : String
  privilege : String
  owner : String
  lifecycleState : LifecycleState
  updatedAtMs : Int
  properties : BTreeMap String := {}

structure StorageCredentialRecord where
  credentialId : String
  name : String
  cloud : String
  owner : String
  lifecycleState : LifecycleState
  updatedAtMs : Int
  secretMaterialRef : Option String
  encryptedPayload : Option String
  deriving DecidableEq

structure ExternalLocationRecord where
  locationId : String
  name : String
  url : String
  credentialId : String
  owner : String
  lifecycleState : LifecycleState
  updatedAtMs : Int
  deriving DecidableEq

structure ManagedRootRecord where
  rootId : String
  name : String
  workspaceId : String
  url : String
  owner : String
  lifecycleState : LifecycleState
  updatedAtMs : Int
  deriving DecidableEq

structure WorkspaceBindingRecord where
  bindingId : String
  workspaceId : String
  objectId : String
  objectType : String
  owner : String
  lifecycleState : LifecycleState
  updatedAtMs : Int
  deriving DecidableEq

structure CatalogObjectRecord where
  objectId : String
  objectType : String
  qualifiedName : String
  owner : String
  lifecycleState : LifecycleState
  updatedAtMs : Int
  deriving DecidableEq

structure MetastoreEventScope where
  tenantId : String
  workspaceId : String
  metastoreId : String
  deriving DecidableEq

inductive MetastoreMutation where
  | catalogObjectUpserted (record : CatalogObjectRecord)
  | principalUpserted (record : PrincipalRecord)
  | grantUpserted (record : GrantRecord)
  | storageCredentialUpserted (record : StorageCredentialRecord)
  | externalLocationUpserted (record : ExternalLocationRecord)
  | managedRootUpserted (record : ManagedRootRecord)
  | workspaceBindingUpserted (record : WorkspaceBindingRecord)

structure MetastoreEvent where
  scope : Option MetastoreEventScope
  eventId : String
  sequence : Nat
  mutation : MetastoreMutation

structure MetastoreState where
  eventScopes : BTreeMap MetastoreEventScope := {}
  catalogObjects : BTreeMap CatalogObjectRecord := {}
  catalogObjectNames : BTreeMap String := {}
  principals : BTreeMap PrincipalRecord := {}
  principalNames : BTreeMap String := {}
  grants : BTreeMap GrantRecord := {}
  storageCredentials : BTreeMap StorageCredentialRecord := {}
  externalLocations : BTreeMap ExternalLocationRecord := {}
  managedRoots : BTreeMap ManagedRootRecord := {}
  workspaceBindings : BTreeMap WorkspaceBindingRecord := {}
  ledgerWatermark : Option String := none

/-- Names are separated by a character that does not occur in them. -/
def catalogObjectNameKey (tenantId metastoreId objectType qualifiedName : String) : String :=
  s!"{tenantId}\x1f{metastoreId}\x1f{objectType}\x1f{qualifiedName}"

namespace MetastoreState

/-- The index of names keeps one entry for an active object, and none for others. -/
def indexCatalogObject (scope : MetastoreEventScope) (record : CatalogObjectRecord) (names : BTreeMap String) :
    BTreeMap String :=
  let others := names.filter fun _ objectId => objectId ≠ record.objectId
  if record.lifecycleState = .active then
    others.insert (catalogObjectNameKey scope.tenantId scope.metastoreId record.objectType record.qualifiedName)
      record.objectId
  else others

def applyMutation (state : MetastoreState) (scope : Option MetastoreEventScope) : MetastoreMutation → MetastoreState
  | .catalogObjectUpserted record => { state with
      catalogObjectNames := match scope with
        | some scope => indexCatalogObject scope record state.catalogObjectNames
        | none => state.catalogObjectNames
      catalogObjects := state.catalogObjects.insert record.objectId record }
  | .principalUpserted record => { state with
      principalNames := state.principalNames.insert record.name record.principalId
      principals := state.principals.insert record.principalId record }
  | .grantUpserted record => { state with grants := state.grants.insert record.grantId record }
  | .storageCredentialUpserted record => { state with
      storageCredentials := state.storageCredentials.insert record.credentialId record }
  | .externalLocationUpserted record => { state with
      externalLocations := state.externalLocations.insert record.locationId record }
  | .managedRootUpserted record => { state with managedRoots := state.managedRoots.insert record.rootId record }
  | .workspaceBindingUpserted record => { state with
      workspaceBindings := state.workspaceBindings.insert record.bindingId record }

def applyEvent (state : MetastoreState) (event : MetastoreEvent) : MetastoreState :=
  let scopes := match event.scope with
    | some scope => state.eventScopes.insert event.eventId scope
    | none => state.eventScopes
  { ({ state with eventScopes := scopes }.applyMutation event.scope event.mutation) with
    ledgerWatermark := some event.eventId }

end MetastoreState

/-- Events are applied by sequence; those with the same sequence in the order in which they are given. -/
def replayEvents (events : List MetastoreEvent) : MetastoreState :=
  (events.insertionSort fun left right => left.sequence ≤ right.sequence).foldl MetastoreState.applyEvent {}

structure MetastoreState.Keyed (state : MetastoreState) : Prop where
  credentials : ∀ (key : String) record, state.storageCredentials[key]? = some record → record.credentialId = key
  locations : ∀ (key : String) record, state.externalLocations[key]? = some record → record.locationId = key
  roots : ∀ (key : String) record, state.managedRoots[key]? = some record → record.rootId = key
  bindings : ∀ (key : String) record, state.workspaceBindings[key]? = some record → record.bindingId = key

theorem keyed_insert {V : Type} {map : BTreeMap V} {id : V → String}
    (keyed : ∀ (key : String) value, map[key]? = some value → id value = key) (new : V) :
    ∀ (key : String) value, (map.insert (id new) new)[key]? = some value → id value = key := by
  intro key value found
  rw [Std.TreeMap.getElem?_insert] at found
  split at found
  · rename_i same
    obtain rfl := Option.some.inj found
    exact Std.LawfulEqCmp.eq_of_compare same
  · exact keyed key value found

theorem MetastoreState.Keyed.applyEvent {state : MetastoreState} (keyed : state.Keyed) (event : MetastoreEvent) :
    (state.applyEvent event).Keyed := by
  obtain ⟨_, _, _, mutation⟩ := event
  cases mutation with
  | catalogObjectUpserted record | principalUpserted record | grantUpserted record =>
    exact ⟨keyed.credentials, keyed.locations, keyed.roots, keyed.bindings⟩
  | storageCredentialUpserted record =>
    exact ⟨keyed_insert keyed.credentials record, keyed.locations, keyed.roots, keyed.bindings⟩
  | externalLocationUpserted record =>
    exact ⟨keyed.credentials, keyed_insert keyed.locations record, keyed.roots, keyed.bindings⟩
  | managedRootUpserted record =>
    exact ⟨keyed.credentials, keyed.locations, keyed_insert keyed.roots record, keyed.bindings⟩
  | workspaceBindingUpserted record =>
    exact ⟨keyed.credentials, keyed.locations, keyed.roots, keyed_insert keyed.bindings record⟩

theorem keyed_replayEvents (events : List MetastoreEvent) : (replayEvents events).Keyed := by
  refine List.foldlRecOn _ _ ?_ fun state keyed event _ => keyed.applyEvent event
  constructor <;> simp

/-! ## The replay of a ledger with one external location more.

The event of the new location can be anywhere among the others. As no other event is about the location, the replay differs
in this location only.
-/

open Sorted (Inserted)
open List MetastoreState

structure Extended (record : ExternalLocationRecord) (state state' : MetastoreState) : Prop where
  credentials : state'.storageCredentials = state.storageCredentials
  roots : state'.managedRoots = state.managedRoots
  bindings : state'.workspaceBindings = state.workspaceBindings
  locations : ∀ key : String, state'.externalLocations[key]? =
    if key = record.locationId then some record else state.externalLocations[key]?

def MetastoreMutation.location : MetastoreMutation → Option ExternalLocationRecord
  | .externalLocationUpserted record => some record
  | _ => none

variable {state state' : MetastoreState} {record : ExternalLocationRecord} {event : MetastoreEvent}

theorem getElem?_insert {K V : Type} [DecidableEq K] {cmp : K → K → Ordering} [Std.TransCmp cmp] [Std.LawfulEqCmp cmp]
    (map : Std.TreeMap K V cmp) (key key' : K) (value : V) :
    (map.insert key value)[key']? = if key' = key then some value else map[key']? := by
  rw [Std.TreeMap.getElem?_insert]
  by_cases same : key' = key
  · rw [if_pos same, if_pos (same ▸ Std.ReflCmp.compare_self)]
  · rw [if_neg same, if_neg fun equal => same (Std.LawfulEqCmp.eq_of_compare equal).symm]

theorem externalLocations_applyEvent (key : String) :
    (state.applyEvent event).externalLocations[key]? =
      match event.mutation.location with
      | some record => if key = record.locationId then some record else state.externalLocations[key]?
      | none => state.externalLocations[key]? := by
  obtain ⟨_, _, _, mutation⟩ := event
  cases mutation with
  | externalLocationUpserted record => exact getElem?_insert _ _ _ _
  | _ => rfl

theorem extended_applyEvent (isEvent : event.mutation = .externalLocationUpserted record) :
    Extended record state (state.applyEvent event) := by
  obtain ⟨_, _, _, mutation⟩ := event
  obtain rfl : mutation = .externalLocationUpserted record := isEvent
  exact ⟨rfl, rfl, rfl, fun key => getElem?_insert _ _ _ _⟩

theorem Extended.applyEvent (extended : Extended record state state')
    (other : ∀ record', event.mutation.location = some record' → record'.locationId ≠ record.locationId) :
    Extended record (state.applyEvent event) (state'.applyEvent event) := by
  have locations : ∀ key : String, (state'.applyEvent event).externalLocations[key]? =
      if key = record.locationId then some record else (state.applyEvent event).externalLocations[key]? := by
    intro key
    rw [externalLocations_applyEvent, externalLocations_applyEvent]
    cases isLocation : event.mutation.location with
    | none => exact extended.locations key
    | some record' =>
      have differs := other record' isLocation
      simp only [extended.locations key]
      split_ifs with isOther isNew
      · exact absurd (isOther.symm.trans isNew) differs
      · rfl
      · rfl
      · rfl
  obtain ⟨_, _, _, mutation⟩ := event
  refine ⟨?_, ?_, ?_, locations⟩
  · cases mutation with
    | storageCredentialUpserted credential => simp only [applyEvent, applyMutation, extended.credentials]
    | _ => exact extended.credentials
  · cases mutation with
    | managedRootUpserted root => simp only [applyEvent, applyMutation, extended.roots]
    | _ => exact extended.roots
  · cases mutation with
    | workspaceBindingUpserted binding => simp only [applyEvent, applyMutation, extended.bindings]
    | _ => exact extended.bindings

variable {events : List MetastoreEvent}

theorem isSome_foldl_applyEvent {key : String} (there : (state.externalLocations[key]?).isSome = true) :
    ((events.foldl applyEvent state).externalLocations[key]?).isSome = true := by
  induction events generalizing state with
  | nil => exact there
  | cons event rest ih =>
    apply ih
    rw [externalLocations_applyEvent]
    cases event.mutation.location with
    | none => exact there
    | some record =>
      simp only
      split
      · rfl
      · exact there

theorem isSome_of_mem (member : event ∈ events) (isLocation : event.mutation.location = some record) :
    ((events.foldl applyEvent state).externalLocations[record.locationId]?).isSome = true := by
  obtain ⟨_, _, rfl⟩ := append_of_mem member
  rw [foldl_append, foldl_cons]
  apply isSome_foldl_applyEvent
  rw [externalLocations_applyEvent, isLocation]
  simp

theorem Extended.foldl (extended : Extended record state state')
    (absent : (events.foldl MetastoreState.applyEvent state).externalLocations[record.locationId]? = none) :
    Extended record (events.foldl MetastoreState.applyEvent state) (events.foldl MetastoreState.applyEvent state') := by
  induction events generalizing state state' with
  | nil => exact extended
  | cons event rest ih =>
    apply ih _ absent
    apply extended.applyEvent
    intro record' isLocation same
    have there : (((event :: rest).foldl MetastoreState.applyEvent state).externalLocations[record'.locationId]?).isSome =
      true := isSome_of_mem mem_cons_self isLocation
    rw [same, absent] at there
    cases there

theorem isSome_replayEvents (member : event ∈ events) (isLocation : event.mutation.location = some record) :
    ((replayEvents events).externalLocations[record.locationId]?).isSome = true :=
  isSome_of_mem ((mem_insertionSort _).mpr member) isLocation

theorem extended_replayEvents {events' : List MetastoreEvent} (inserted : Inserted event events events')
    (isEvent : event.mutation = .externalLocationUpserted record)
    (absent : (replayEvents events).externalLocations[record.locationId]? = none) :
    Extended record (replayEvents events) (replayEvents events') := by
  obtain ⟨_, _, isBefore, isAfter⟩ := inserted.insertionSort (r := fun left right => left.sequence ≤ right.sequence)
  rw [replayEvents, isBefore, foldl_append] at absent
  rw [replayEvents, replayEvents, isBefore, isAfter, foldl_append, foldl_append, foldl_cons]
  exact (extended_applyEvent isEvent).foldl absent

end Arco.Metastore
