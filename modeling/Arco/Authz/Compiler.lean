import Arco.Authz.Membership
import Arco.Metastore.State

/-! Permissions compiled from grants and ownership.

A grant on an object applies to the object and to everything below it. The rows of the compiled view
come from the owners of the objects and from the grants, one for each effective member of the grantee.
-/

namespace Arco.Authz

open Arco.Catalog (CatalogError)
open Arco.Metastore Rounds Relation.TransGen Relation

/-- In the order in which rows are sorted. -/
inductive Privilege where
  | select
  | modify
  | manage
  | useCatalog
  | useSchema
  | createTable
  | createVolume
  | createFunction
  | createModel
  | credentialMint
  | readFiles
  | writeFiles
  deriving DecidableEq

namespace Privilege

def parse (value : String) : Except String Privilege :=
  match value.toUpper with
  | "SELECT" => .ok .select
  | "MODIFY" => .ok .modify
  | "MANAGE" => .ok .manage
  | "USE_CATALOG" | "USE CATALOG" => .ok .useCatalog
  | "USE_SCHEMA" | "USE SCHEMA" => .ok .useSchema
  | "CREATE_TABLE" | "CREATE TABLE" => .ok .createTable
  | "CREATE_VOLUME" | "CREATE VOLUME" => .ok .createVolume
  | "CREATE_FUNCTION" | "CREATE FUNCTION" => .ok .createFunction
  | "CREATE_MODEL" | "CREATE MODEL" => .ok .createModel
  | "CREDENTIAL_MINT" | "CREDENTIAL MINT" => .ok .credentialMint
  | "READ_FILES" | "READ FILES" => .ok .readFiles
  | "WRITE_FILES" | "WRITE FILES" => .ok .writeFiles
  | other => .error s!"unknown privilege '{other}'"

def implies (granted requested : Privilege) : Bool := granted = .manage || granted = requested

theorem implies_trans {first second third : Privilege} (left : first.implies second = true)
    (right : second.implies third = true) : first.implies third = true := by
  simp only [implies] at left right ⊢
  grind

@[simp] theorem implies_self (privilege : Privilege) : privilege.implies privilege = true := by
  simp [implies]

end Privilege

structure ActiveGrant where
  grantId : String
  objectId : String
  objectType : String
  principalId : String
  privilege : Privilege
  grantOption : Bool

def ActiveGrant.fromRecord (record : GrantRecord) : Option ActiveGrant :=
  if record.lifecycleState ≠ .active then none
  else do
    let privilege ← (Privilege.parse record.privilege).toOption
    some {
      grantId := record.grantId
      objectId := record.objectId
      objectType := record.objectType
      principalId := record.principalId
      privilege
      grantOption := (record.properties["grant_option"]?).any fun value => Text.eqIgnoreAsciiCase value "true" }

structure SecurableObject where
  objectId : String
  objectType : String
  parentObjectId : Option String
  ownerPrincipalId : String

abbrev Objects : Type := BTreeMap SecurableObject

/-- The last of several objects with one id counts. -/
def objectsById (securables : List SecurableObject) : Objects :=
  securables.foldl (fun objects object => objects.insert object.objectId object) {}

def parentOf (objects : Objects) (objectId : String) : Option String :=
  objects[objectId]?.bind SecurableObject.parentObjectId

def Parent (objects : Objects) (child parent : String) : Prop := parentOf objects child = some parent

/-- The chain of parents of an object ends. -/
def Rooted (objects : Objects) (objectId : String) : Prop := Acc (fun parent child => Parent objects child parent) objectId

def missingParent (objects : Objects) (object : SecurableObject) : Option CatalogError :=
  match object.parentObjectId with
  | some parentId =>
    if objects.contains parentId then none
    else some (.validation s!"securable '{object.objectId}' references missing parent '{parentId}'")
  | none => none

def validateHierarchy (objects : Objects) : Except CatalogError Unit :=
  match objects.values.findSome? (missingParent objects) with
  | some error => .error error
  | none => .ok ()

def collectAncestor (objects : Objects) : Option String × List String → (Option String × List String) ⊕ List String
  | (none, ancestorIds) => .inr ancestorIds
  | (some parentId, ancestorIds) => .inl (parentOf objects parentId, ancestorIds ++ [parentId])

def ancestors (objectId : String) (objects : Objects) : Rounds (List String) :=
  .loop (collectAncestor objects) (parentOf objects objectId, [])

def extendPath (objects : Objects) (sourceObjectId : String) :
    Option String × List String → (Option String × List String) ⊕ List String
  | (none, path) => .inr path
  | (some parentId, path) =>
    if parentId = sourceObjectId then .inr (path ++ [parentId])
    else .inl (parentOf objects parentId, path ++ [parentId])

def inheritancePath (sourceObjectId targetObjectId : String) (objects : Objects) : Rounds String := do
  let path ← .loop (extendPath objects sourceObjectId) (parentOf objects targetObjectId, [targetObjectId])
  pure ("/".intercalate path.reverse)

def grantAppliesToObject (grant : ActiveGrant) (object : SecurableObject) (objects : Objects) : Rounds Bool :=
  if grant.objectId = object.objectId then pure true
  else do
    let ancestorIds ← ancestors object.objectId objects
    pure (ancestorIds.contains grant.objectId)

structure PermissionCompileInput where
  metastore : MetastoreState
  identity : IdentitySnapshot
  securables : List SecurableObject
  ledgerWatermark : String

inductive PermissionSource where
  | grant
  | owner

def PermissionSource.text : PermissionSource → String
  | .grant => "grant"
  | .owner => "owner"

structure CompiledPermissionRow where
  principalId : String
  objectId : String
  objectType : String
  privilege : Privilege
  source : PermissionSource
  sourceGrantId : Option String
  sourcePrincipalId : String
  sourceObjectId : String
  inheritancePath : String
  grantOption : Bool
  groupSnapshotVersion : String

structure CompiledPermissionSet where
  ledgerWatermark : String
  groupSnapshotVersion : String
  fresh : Bool
  rows : List CompiledPermissionRow

def principalIsActive (state : MetastoreState) (principalId : String) : Bool :=
  state.principals[principalId]?.any fun principal =>
    principal.lifecycleState = .active && principal.principalKind ≠ .externalSubject

def ownerRow (object : SecurableObject) (groupSnapshotVersion : String) : CompiledPermissionRow where
  principalId := object.ownerPrincipalId
  objectId := object.objectId
  objectType := object.objectType
  privilege := .manage
  source := .owner
  sourceGrantId := none
  sourcePrincipalId := object.ownerPrincipalId
  sourceObjectId := object.objectId
  inheritancePath := object.objectId
  grantOption := true
  groupSnapshotVersion

def grantRow (grant : ActiveGrant) (object : SecurableObject) (inheritancePath groupSnapshotVersion : String)
    (effectivePrincipal : String) : CompiledPermissionRow where
  principalId := effectivePrincipal
  objectId := object.objectId
  objectType := object.objectType
  privilege := grant.privilege
  source := .grant
  sourceGrantId := some grant.grantId
  sourcePrincipalId := grant.principalId
  sourceObjectId := grant.objectId
  inheritancePath
  grantOption := grant.grantOption
  groupSnapshotVersion

namespace PermissionCompileInput

variable (input : PermissionCompileInput)

def objects : Objects := objectsById input.securables

def isActive (principalId : String) : Bool := principalIsActive input.metastore principalId

def ownerRows : List CompiledPermissionRow :=
  (input.securables.filter fun object => input.isActive object.ownerPrincipalId).map
    fun object => ownerRow object input.identity.snapshotVersion

def activeGrants : List ActiveGrant :=
  (input.metastore.grants.values.filterMap ActiveGrant.fromRecord).filter fun grant => input.isActive grant.principalId

def objectRows (grant : ActiveGrant) (object : SecurableObject) : Rounds (List CompiledPermissionRow) := do
  if ← grantAppliesToObject grant object input.objects then
    let path ← inheritancePath grant.objectId object.objectId input.objects
    let members ← input.identity.effectiveMembers grant.principalId
    pure ((members.filter input.isActive).map (grantRow grant object path input.identity.snapshotVersion))
  else pure []

def grantRows (grant : ActiveGrant) : Rounds (List CompiledPermissionRow) := do
  let rows ← input.securables.mapM (input.objectRows grant)
  pure rows.flatten

end PermissionCompileInput

def rowOrder (left right : CompiledPermissionRow) : Ordering :=
  (compare left.principalId right.principalId).then <|
  (compare left.objectId right.objectId).then <|
  (compare left.privilege.ctorIdx right.privilege.ctorIdx).then (compare left.source.text right.source.text)

def PermissionCompileInput.compiledSet (input : PermissionCompileInput) (granted : List (List CompiledPermissionRow)) :
    CompiledPermissionSet where
  ledgerWatermark := input.ledgerWatermark
  groupSnapshotVersion := input.identity.snapshotVersion
  fresh := true
  rows := (input.ownerRows ++ granted.flatten).insertionSort fun left right => (rowOrder left right).isLE

def compilePermissions (input : PermissionCompileInput) : Rounds (Except CatalogError CompiledPermissionSet) :=
  match validateHierarchy input.objects with
  | .error error => pure (.error error)
  | .ok () => do
    let granted ← input.activeGrants.mapM input.grantRows
    pure (.ok (input.compiledSet granted))

section Walks

variable {objects : Objects} {objectId sourceId parentId : String}

theorem rooted_of_parent (isParent : parentOf objects objectId = some parentId) (rooted : Rooted objects parentId) :
    Rooted objects objectId := by
  refine Acc.intro objectId fun other isOther => ?_
  obtain rfl : parentId = other := Option.some.inj (isParent.symm.trans isOther)
  exact rooted

theorem rooted_of_root (isRoot : parentOf objects objectId = none) : Rooted objects objectId :=
  Acc.intro objectId fun other isOther => by simp [Parent, isRoot] at isOther

/-- An object has one parent, so a chain of parents goes through it. -/
theorem ancestor_iff (isParent : parentOf objects objectId = some parentId) {ancestorId : String} :
    TransGen (Parent objects) objectId ancestorId ↔
      ancestorId = parentId ∨ TransGen (Parent objects) parentId ancestorId := by
  rw [head'_iff]
  constructor
  · rintro ⟨between, first, rest⟩
    obtain rfl : parentId = between := Option.some.inj (isParent.symm.trans first)
    exact reflTransGen_iff_eq_or_transGen.mp rest
  · intro found
    exact ⟨parentId, isParent, reflTransGen_iff_eq_or_transGen.mpr found⟩

theorem not_ancestor_of_root (isRoot : parentOf objects objectId = none) {ancestorId : String} :
    ¬ TransGen (Parent objects) objectId ancestorId := by
  rw [head'_iff]
  rintro ⟨_, first, _⟩
  simp [Parent, isRoot] at first

theorem rooted_of_ancestors (halts : (ancestors objectId objects).Halts) : Rooted objects objectId := by
  have walk : ∀ (n : Nat) (objectId : String) (passed found : List String),
      loopWithin (collectAncestor objects) n (parentOf objects objectId, passed) = some found →
        Rooted objects objectId := by
    intro n
    induction n with
    | zero => exact nofun
    | succ n ih =>
      intro objectId passed ids found
      cases next : parentOf objects objectId with
      | none => exact rooted_of_root next
      | some parentId =>
        rw [next] at found
        exact rooted_of_parent next (ih parentId _ ids found)
  obtain ⟨found, n, within⟩ := halts
  exact walk n objectId [] found within

theorem ancestors_returns (rooted : Rooted objects objectId) :
    ∃ ids, (ancestors objectId objects).Returns ids ∧
      ∀ id, id ∈ ids ↔ TransGen (Parent objects) objectId id := by
  suffices ∀ passed, ∃ ids, (loop (collectAncestor objects) (parentOf objects objectId, passed)).Returns ids ∧
      ∀ id, id ∈ ids ↔ id ∈ passed ∨ TransGen (Parent objects) objectId id by
    simpa [ancestors] using this []
  -- Induction on the distance from the root.
  induction rooted with
  | intro objectId _ ih =>
    intro passed
    cases next : parentOf objects objectId with
    | none =>
      refine ⟨passed, returns_loop_of_inr rfl, fun id => ?_⟩
      simp [not_ancestor_of_root next]
    | some parentId =>
      obtain ⟨ids, returns, members⟩ := ih parentId next (passed ++ [parentId])
      have goesOn : collectAncestor objects (some parentId, passed) =
          .inl (parentOf objects parentId, passed ++ [parentId]) := rfl
      refine ⟨ids, (returns_loop_of_inl goesOn).mpr returns, fun id => ?_⟩
      rw [members, ancestor_iff next]
      simp [or_assoc]

theorem rooted_or_ancestor_of_extendPath {n : Nat} {passed path : List String}
    (found : loopWithin (extendPath objects sourceId) n (parentOf objects objectId, passed) = some path) :
    Rooted objects objectId ∨ TransGen (Parent objects) objectId sourceId := by
  induction n generalizing objectId passed with
  | zero => cases found
  | succ n ih =>
    cases next : parentOf objects objectId with
    | none => exact .inl (rooted_of_root next)
    | some parentId =>
      by_cases isSource : parentId = sourceId
      · exact .inr ((ancestor_iff next).mpr (.inl isSource.symm))
      · simp only [next, loopWithin, extendPath, if_neg isSource] at found
        refine (ih found).imp (rooted_of_parent next) fun above => ?_
        exact (ancestor_iff next).mpr (.inr above)

theorem extendPath_halts_of_parent (isParent : parentOf objects objectId = some parentId)
    (further : ∀ passed, (loop (extendPath objects sourceId) (parentOf objects parentId, passed)).Halts)
    (passed : List String) : (loop (extendPath objects sourceId) (parentOf objects objectId, passed)).Halts := by
  rw [isParent]
  by_cases isSource : parentId = sourceId
  · have ends : extendPath objects sourceId (some parentId, passed) = .inr (passed ++ [parentId]) := by
      simp only [extendPath, if_pos isSource]
    exact ⟨_, returns_loop_of_inr ends⟩
  · have goesOn : extendPath objects sourceId (some parentId, passed) =
        .inl (parentOf objects parentId, passed ++ [parentId]) := by
      simp only [extendPath, if_neg isSource]
    exact (halts_loop_of_inl goesOn).mpr (further _)

theorem extendPath_halts_of_rooted (rooted : Rooted objects objectId) (passed : List String) :
    (loop (extendPath objects sourceId) (parentOf objects objectId, passed)).Halts := by
  induction rooted generalizing passed with
  | intro objectId _ ih =>
    cases next : parentOf objects objectId with
    | none => exact ⟨passed, returns_loop_of_inr rfl⟩
    | some parentId =>
      rw [← next]
      exact extendPath_halts_of_parent next (ih parentId next) passed

theorem extendPath_halts_of_ancestor (above : TransGen (Parent objects) objectId sourceId)
    (passed : List String) : (loop (extendPath objects sourceId) (parentOf objects objectId, passed)).Halts := by
  induction above using head_induction_on generalizing passed with
  | single isParent =>
    have ends : extendPath objects sourceId (some sourceId, passed) = .inr (passed ++ [sourceId]) := by
      simp only [extendPath, if_true]
    rw [isParent]
    exact ⟨_, returns_loop_of_inr ends⟩
  | head isParent _ ih => exact extendPath_halts_of_parent isParent ih passed

theorem inheritancePath_halts_iff : (inheritancePath sourceId objectId objects).Halts ↔
    Rooted objects objectId ∨ TransGen (Parent objects) objectId sourceId := by
  rw [inheritancePath, halts_bind]
  simp only [halts_pure, and_true]
  constructor
  · rintro ⟨_, n, found⟩
    exact rooted_or_ancestor_of_extendPath found
  · rintro (rooted | above)
    · exact extendPath_halts_of_rooted rooted _
    · exact extendPath_halts_of_ancestor above _

end Walks

/-- The walks from an object for a grant end: its chain of parents ends, or the grant is on the object
itself and the chain comes back to it. -/
def WalksEnd (objects : Objects) (grant : ActiveGrant) (object : SecurableObject) : Prop :=
  Rooted objects object.objectId ∨
    grant.objectId = object.objectId ∧ TransGen (Parent objects) object.objectId object.objectId

variable {input : PermissionCompileInput} {grant : ActiveGrant}

theorem objectRows_halts_iff {object : SecurableObject} :
    (input.objectRows grant object).Halts ↔ WalksEnd input.objects grant object := by
  obtain ⟨members, returnsMembers, _⟩ := effectiveMembers_returns input.identity grant.principalId
  have rest : ∀ path, (do
      let members ← input.identity.effectiveMembers grant.principalId
      pure ((members.filter input.isActive).map (grantRow grant object path input.identity.snapshotVersion)) :
        Rounds (List CompiledPermissionRow)).Halts := by
    intro path
    exact halts_bind.mpr ⟨members, returnsMembers, halts_pure _⟩
  unfold PermissionCompileInput.objectRows WalksEnd
  by_cases same : grant.objectId = object.objectId
  · rw [grantAppliesToObject, if_pos same, pure_bind, if_pos rfl, same, halts_bind]
    simp only [rest, and_true, true_and]
    exact inheritancePath_halts_iff
  · simp only [same, false_and, or_false]
    constructor
    · intro halts
      obtain ⟨_, returns, _⟩ := halts_bind.mp halts
      rw [grantAppliesToObject, if_neg same] at returns
      obtain ⟨ids, found, _⟩ := returns_bind.mp returns
      exact rooted_of_ancestors ⟨ids, found⟩
    · intro rooted
      obtain ⟨ids, found, _⟩ := ancestors_returns rooted
      have returns : (grantAppliesToObject grant object input.objects).Returns (ids.contains grant.objectId) := by
        rw [grantAppliesToObject, if_neg same]
        exact returns_bind.mpr ⟨ids, found, returns_pure.mpr rfl⟩
      refine halts_bind.mpr ⟨_, returns, ?_⟩
      cases ids.contains grant.objectId
      · exact halts_pure _
      · obtain ⟨path, returnsPath⟩ := inheritancePath_halts_iff.mpr (.inl rooted)
        exact halts_bind.mpr ⟨path, returnsPath, rest path⟩

theorem grantRows_halts_iff :
    (input.grantRows grant).Halts ↔ ∀ object ∈ input.securables, WalksEnd input.objects grant object := by
  simp only [PermissionCompileInput.grantRows, halts_bind, halts_pure, and_true]
  rw [← Halts, halts_mapM]
  simp only [objectRows_halts_iff]

theorem grantRows_halts_of_compilePermissions (accepted : validateHierarchy input.objects = .ok ())
    (halts : (compilePermissions input).Halts) (isGrant : grant ∈ input.activeGrants) : (input.grantRows grant).Halts := by
  simp only [compilePermissions, accepted] at halts
  obtain ⟨granted, returns, _⟩ := halts_bind.mp halts
  exact halts_mapM.mp ⟨granted, returns⟩ grant isGrant

/-- Compilation of an accepted hierarchy ends if and only if every grant that is looked at has walks
that end. Memberships may have cycles. -/
theorem compilePermissions_halts_iff (input : PermissionCompileInput) (accepted : validateHierarchy input.objects = .ok ()) :
    (compilePermissions input).Halts ↔
      ∀ grant ∈ input.activeGrants, ∀ object ∈ input.securables, WalksEnd input.objects grant object := by
  constructor
  · intro halts grant isGrant
    exact grantRows_halts_iff.mp (grantRows_halts_of_compilePermissions accepted halts isGrant)
  · intro walksEnd
    obtain ⟨granted, returns⟩ := halts_mapM.mpr fun grant isGrant => grantRows_halts_iff.mpr (walksEnd grant isGrant)
    simp only [compilePermissions, accepted]
    exact halts_bind.mpr ⟨granted, returns, halts_pure _⟩

theorem not_rooted_of_cycle {objects : Objects} {objectId : String}
    (cycle : TransGen (Parent objects) objectId objectId) : ¬ Rooted objects objectId := by
  intro rooted
  induction rooted with
  | intro objectId _ ih =>
    obtain ⟨parentId, isParent, back⟩ := head'_iff.mp cycle
    exact ih parentId isParent (.tail' back isParent)

def activePrincipal (principalId : String) (principalKind : PrincipalKind) : PrincipalRecord where
  principalId
  name := principalId
  principalKind
  owner := "admin"
  lifecycleState := .active
  updatedAtMs := 0

def analystsGrant : GrantRecord where
  grantId := "grant"
  objectId := "catalog"
  objectType := "CATALOG"
  principalId := "analysts"
  privilege := "SELECT"
  owner := "admin"
  lifecycleState := .active
  updatedAtMs := 0

/-- The group of those who write reports is disabled. -/
def analystsMetastore : MetastoreState where
  principals := ((({} : BTreeMap PrincipalRecord).insert "analysts" (activePrincipal "analysts" .group)).insert "alice"
    (activePrincipal "alice" .user)).insert "reporting"
    { activePrincipal "reporting" .group with lifecycleState := .disabled }
  grants := ({} : BTreeMap GrantRecord).insert "grant" analystsGrant

/-- The two groups are members of each other. -/
def reportingMemberships : List GroupMembership :=
  [⟨"alice", "reporting"⟩, ⟨"reporting", "analysts"⟩, ⟨"analysts", "reporting"⟩]

def schemaOf (objectId parentId : String) : SecurableObject where
  objectId
  objectType := "SCHEMA"
  parentObjectId := some parentId
  ownerPrincipalId := "admin"

def catalogObject : SecurableObject where
  objectId := "catalog"
  objectType := "CATALOG"
  parentObjectId := none
  ownerPrincipalId := "admin"

def analystsInput (securables : List SecurableObject) (memberships : List GroupMembership := reportingMemberships) :
    PermissionCompileInput where
  metastore := analystsMetastore
  identity := .new "1" memberships
  securables
  ledgerWatermark := "watermark"

theorem compilePermissions_halts_iff_analysts :
    (compilePermissions (analystsInput [catalogObject, schemaOf "schema" "catalog"])).Halts := by
  refine (compilePermissions_halts_iff (analystsInput [catalogObject, schemaOf "schema" "catalog"]) rfl).mpr ?_
  have isRoot : Rooted (analystsInput [catalogObject, schemaOf "schema" "catalog"]).objects "catalog" :=
    rooted_of_root (by decide +kernel)
  intro grant _ object isObject
  obtain rfl | rfl : object = catalogObject ∨ object = schemaOf "schema" "catalog" := by simpa [analystsInput] using isObject
  · exact .inl isRoot
  · exact .inl (rooted_of_parent (by decide +kernel) isRoot)

/-- Two schemas that are each the parent of the other are accepted, and the walk from them to the
catalog does not end. -/
theorem compilePermissions_runs_forever :
    ∃ input : PermissionCompileInput, validateHierarchy input.objects = .ok () ∧ ¬ (compilePermissions input).Halts := by
  have accepted : validateHierarchy (analystsInput [schemaOf "a" "b", schemaOf "b" "a"]).objects = .ok () := rfl
  refine ⟨_, accepted, fun halts => ?_⟩
  obtain ⟨grant, isGrant, onCatalog⟩ : ∃ grant ∈ (analystsInput [schemaOf "a" "b", schemaOf "b" "a"]).activeGrants,
      grant.objectId = "catalog" := by
    have ids : (analystsInput [schemaOf "a" "b", schemaOf "b" "a"]).activeGrants.map ActiveGrant.objectId =
        ["catalog"] := by decide +kernel
    exact List.mem_map.mp (ids ▸ List.mem_singleton_self "catalog")
  have ends := grantRows_halts_iff.mp (grantRows_halts_of_compilePermissions accepted halts isGrant) (schemaOf "a" "b")
    (by simp [analystsInput])
  have cycle : TransGen (Parent (analystsInput [schemaOf "a" "b", schemaOf "b" "a"]).objects) "a" "a" :=
    .tail (b := "b") (.single (by unfold Parent; decide +kernel)) (by unfold Parent; decide +kernel)
  obtain rooted | itself := ends
  · exact not_rooted_of_cycle cycle rooted
  · exact absurd (onCatalog.symm.trans itself.1) (by decide)

end Arco.Authz
