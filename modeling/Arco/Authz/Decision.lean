import Mathlib.Order.WellFoundedSet
import Arco.Authz.Compiler

/-! Decisions over compiled permissions.

A request is allowed if a compiled row matches it. The compiler looks at the principal of a request and
at the grantee, but not at the groups between them, so a decision is only as good as the activity of
these groups.
-/

namespace Arco.Authz

open Arco.Catalog (CatalogError)
open Metastore List Rounds PermissionCompileInput Relation

inductive DecisionOutcome where
  | allow
  | deny
  deriving DecidableEq

structure AuthzRequest where
  principalId : String
  objectId : String
  objectType : String
  privilege : Privilege
  requestId : String := ""

structure AuthzEvidence where
  grantIds : List String := []
  sourceObjectIds : List String := []
  sourcePrincipalIds : List String := []

structure AuthzDecision where
  outcome : DecisionOutcome
  reasonCode : String
  reasonMessageSafe : String
  evidence : AuthzEvidence
  groupSnapshotVersion : Option String

def knownObjectType (objectType : String) : Bool :=
  objectType.toUpper ∈ ["METASTORE", "CATALOG", "SCHEMA", "TABLE", "VIEW", "VOLUME", "STORAGE_CREDENTIAL",
    "EXTERNAL_LOCATION", "MANAGED_ROOT", "FUNCTION", "REGISTERED_MODEL", "MODEL_VERSION", "SYSTEM_TABLE"]

structure PermissionIndexKey where
  principalId : String
  objectId : String
  objectType : String
  deriving DecidableEq

/-- Types are compared without regard to case. -/
def PermissionIndexKey.new (principalId objectId objectType : String) : PermissionIndexKey :=
  { principalId, objectId, objectType := objectType.toUpper }

namespace CompiledPermissionSet

variable (compiled : CompiledPermissionSet)

def byPrincipalObject (key : PermissionIndexKey) : List Nat :=
  compiled.rows.zipIdx.filterMap fun (row, index) =>
    if PermissionIndexKey.new row.principalId row.objectId row.objectType = key then some index else none

def rowsForPrincipalObjectPrivilege (principalId objectId objectType : String) (privilege : Privilege) :
    List CompiledPermissionRow :=
  ((compiled.byPrincipalObject (.new principalId objectId objectType)).filterMap (compiled.rows[·]?)).filter fun row =>
    row.principalId = principalId && row.objectId = objectId && Text.eqIgnoreAsciiCase row.objectType objectType &&
      row.privilege.implies privilege

theorem mem_rowsFor {principalId objectId objectType : String} {privilege : Privilege} {row : CompiledPermissionRow} :
    row ∈ compiled.rowsForPrincipalObjectPrivilege principalId objectId objectType privilege ↔
      row ∈ compiled.rows ∧ row.principalId = principalId ∧ row.objectId = objectId ∧
        row.objectType.toUpper = objectType.toUpper ∧ Text.eqIgnoreAsciiCase row.objectType objectType = true ∧
        row.privilege.implies privilege = true := by
  have indexed : ∀ key, row ∈ (compiled.byPrincipalObject key).filterMap (compiled.rows[·]?) ↔
      row ∈ compiled.rows ∧ PermissionIndexKey.new row.principalId row.objectId row.objectType = key := by
    intro key
    rw [mem_filterMap]
    constructor
    · rintro ⟨index, isIndex, found⟩
      obtain ⟨⟨row', index'⟩, isEntry, selected⟩ := mem_filterMap.mp isIndex
      obtain ⟨isKey, same⟩ := Option.ite_none_right_eq_some.mp selected
      obtain rfl : index' = index := Option.some.inj same
      obtain rfl : row' = row := Option.some.inj ((mem_zipIdx_iff_getElem?.mp isEntry).symm.trans found)
      exact ⟨mem_of_getElem? found, isKey⟩
    · rintro ⟨member, isKey⟩
      obtain ⟨index, found⟩ := mem_iff_getElem?.mp member
      refine ⟨index, mem_filterMap.mpr ⟨(row, index), mem_zipIdx_iff_getElem?.mpr found, ?_⟩, found⟩
      exact Option.ite_none_right_eq_some.mpr ⟨isKey, rfl⟩
  simp only [rowsForPrincipalObjectPrivilege, mem_filter, indexed, PermissionIndexKey.new,
    PermissionIndexKey.mk.injEq, Bool.and_eq_true, decide_eq_true_eq]
  tauto

end CompiledPermissionSet

def denied (reasonCode reasonMessageSafe : String) (compiled : CompiledPermissionSet) : AuthzDecision where
  outcome := .deny
  reasonCode
  reasonMessageSafe
  evidence := {}
  groupSnapshotVersion := some compiled.groupSnapshotVersion

def sortedDistinct (texts : List String) : List String := (texts.insertionSort (· ≤ ·)).dedup

def AuthzDecision.evaluate (request : AuthzRequest) (compiled : CompiledPermissionSet) : AuthzDecision :=
  if !compiled.fresh then denied "stale_projection" "compiled permissions are stale or unavailable" compiled
  else if !knownObjectType request.objectType then denied "unknown_object_type" "object type is not supported" compiled
  else
    let matchingRows := compiled.rowsForPrincipalObjectPrivilege request.principalId request.objectId request.objectType
      request.privilege
    if matchingRows.isEmpty then denied "absence_of_allow" "no compiled allow matched the request" compiled
    else {
      outcome := .allow
      reasonCode := "direct_or_inherited_grant"
      reasonMessageSafe := "compiled allow matched the request"
      evidence := {
        grantIds := sortedDistinct (matchingRows.filterMap CompiledPermissionRow.sourceGrantId)
        sourceObjectIds := sortedDistinct (matchingRows.map CompiledPermissionRow.sourceObjectId)
        sourcePrincipalIds := sortedDistinct (matchingRows.map CompiledPermissionRow.sourcePrincipalId) }
      groupSnapshotVersion := some compiled.groupSnapshotVersion }

theorem evaluate_allow_iff {request : AuthzRequest} {compiled : CompiledPermissionSet} :
    (AuthzDecision.evaluate request compiled).outcome = .allow ↔
      compiled.fresh = true ∧ knownObjectType request.objectType = true ∧
        ∃ row, row ∈ compiled.rowsForPrincipalObjectPrivilege request.principalId request.objectId request.objectType
          request.privilege := by
  unfold AuthzDecision.evaluate
  cases compiled.fresh
  · simp [denied]
  · cases knownObjectType request.objectType
    · simp [denied]
    · cases matching : compiled.rowsForPrincipalObjectPrivilege request.principalId request.objectId request.objectType
        request.privilege with
      | nil => simp [denied]
      | cons row rows => simp

/-- The grant is on the object or on something above it. -/
def Applies (objects : Objects) (grant : ActiveGrant) (objectId : String) : Prop :=
  grant.objectId = objectId ∨ TransGen (Parent objects) objectId grant.objectId

namespace PermissionCompileInput

variable (input : PermissionCompileInput)

def grants : List ActiveGrant := input.metastore.grants.values.filterMap ActiveGrant.fromRecord

def ActiveChain (member group : String) : Prop :=
  input.isActive member = true ∧
    ReflTransGen (fun left right => Member input.identity.memberToGroups left right ∧
      input.isActive right = true) member group

/-- The principal is active and owns the object, or a chain of active principals leads from it to the
grantee of a grant that applies. -/
def Justified (principalId objectId objectType : String) (privilege : Privilege) : Prop :=
  ∃ object ∈ input.securables, object.objectId = objectId ∧ Text.eqIgnoreAsciiCase object.objectType objectType = true ∧
    (object.ownerPrincipalId = principalId ∧ input.isActive principalId = true ∨
      ∃ grant ∈ input.grants, grant.privilege.implies privilege = true ∧ Applies input.objects grant objectId ∧
        input.ActiveChain principalId grant.principalId)

/-- Whoever belongs to the grantee of a grant has another claim to what it gives, if the way to the
grantee is through principals that are not active. -/
def MembersJustified : Prop :=
  ∀ grant ∈ input.activeGrants, ∀ object ∈ input.securables, knownObjectType object.objectType = true →
    Applies input.objects grant object.objectId → ∀ member, input.isActive member = true →
    ReflTransGen (Member input.identity.memberToGroups) member grant.principalId →
    input.Justified member object.objectId object.objectType grant.privilege

end PermissionCompileInput

section Rows

variable {input : PermissionCompileInput} {object : SecurableObject}

section

variable (grant : ActiveGrant) (rooted : Rooted input.objects object.objectId)
include grant rooted

theorem grantAppliesToObject_returns :
    ∃ applies, (grantAppliesToObject grant object input.objects).Returns applies ∧
      (applies = true ↔ Applies input.objects grant object.objectId) := by
  by_cases same : grant.objectId = object.objectId
  · refine ⟨true, ?_, by simp [Applies, same]⟩
    rw [grantAppliesToObject, if_pos same]
    exact returns_pure.mpr rfl
  · obtain ⟨ids, returns, members⟩ := ancestors_returns rooted
    refine ⟨ids.contains grant.objectId, ?_, ?_⟩
    · rw [grantAppliesToObject, if_neg same]
      exact returns_bind.mpr ⟨ids, returns, returns_pure.mpr rfl⟩
    · simp [Applies, same, members]

theorem objectRows_returns : ∃ path rows, (input.objectRows grant object).Returns rows ∧ ∀ row, row ∈ rows ↔
      Applies input.objects grant object.objectId ∧ ∃ member, input.isActive member = true ∧
        ReflTransGen (Member input.identity.memberToGroups) member grant.principalId ∧
        row = grantRow grant object path input.identity.snapshotVersion member := by
  obtain ⟨applies, returnsApplies, isApplies⟩ := grantAppliesToObject_returns grant rooted
  obtain ⟨path, returnsPath⟩ := inheritancePath_halts_iff.mpr (.inl rooted : Rooted input.objects object.objectId ∨
    TransGen (Parent input.objects) object.objectId grant.objectId)
  obtain ⟨members, returnsMembers, isMember⟩ := effectiveMembers_returns input.identity grant.principalId
  cases applies with
  | false =>
    refine ⟨path, [], returns_bind.mpr ⟨false, returnsApplies, by simp⟩, fun row => ?_⟩
    simp [← isApplies]
  | true =>
    refine ⟨path, _, returns_bind.mpr ⟨true, returnsApplies, returns_bind.mpr ⟨path, returnsPath,
      returns_bind.mpr ⟨members, returnsMembers, returns_pure.mpr rfl⟩⟩⟩, fun row => ?_⟩
    simp only [mem_map, mem_filter, isMember, ← isApplies, true_and]
    exact exists_congr fun member => by tauto

end

theorem compilePermissions_returns (accepted : validateHierarchy input.objects = .ok ())
    (rooted : ∀ objectId, Rooted input.objects objectId) :
    ∃ compiled, (compilePermissions input).Returns (.ok compiled) ∧ compiled.fresh = true ∧ ∀ row, row ∈ compiled.rows ↔
      (∃ object ∈ input.securables, input.isActive object.ownerPrincipalId = true ∧
        row = ownerRow object input.identity.snapshotVersion) ∨
      ∃ grant ∈ input.activeGrants, ∃ object ∈ input.securables, ∃ rows, (input.objectRows grant object).Returns rows ∧
        row ∈ rows := by
  have halts : (input.activeGrants.mapM input.grantRows).Halts := halts_mapM.mpr fun grant _ =>
    grantRows_halts_iff.mpr fun object _ => .inl (rooted object.objectId)
  obtain ⟨granted, returns⟩ := halts
  refine ⟨input.compiledSet granted, ?_, rfl, fun row => ?_⟩
  · simp only [compilePermissions, accepted]
    exact returns_bind.mpr ⟨granted, returns, returns_pure.mpr rfl⟩
  · rw [compiledSet, mem_insertionSort, mem_append]
    refine or_congr ?_ ?_
    · simp only [ownerRows, mem_map, mem_filter, and_assoc, eq_comm]
    · have grantRows : ∀ grant rows, (input.grantRows grant).Returns rows ↔
          ∃ parts, (input.securables.mapM (input.objectRows grant)).Returns parts ∧ parts.flatten = rows := by
        intro grant rows
        simp only [grantRows, returns_bind, returns_pure]
      simp only [mem_flatten, mem_of_returns_mapM returns, grantRows]
      constructor
      · rintro ⟨_, ⟨grant, isGrant, parts, returnsParts, rfl⟩, member⟩
        obtain ⟨part, isPart, inPart⟩ := mem_flatten.mp member
        obtain ⟨object, isObject, returnsPart⟩ := (mem_of_returns_mapM returnsParts part).mp isPart
        exact ⟨grant, isGrant, object, isObject, part, returnsPart, inPart⟩
      · rintro ⟨grant, isGrant, object, isObject, part, returnsPart, inPart⟩
        have partsHalt : (input.securables.mapM (input.objectRows grant)).Halts := halts_mapM.mpr
          fun object _ => objectRows_halts_iff.mpr (.inl (rooted object.objectId))
        obtain ⟨parts, returnsParts⟩ := partsHalt
        have isPart := (mem_of_returns_mapM returnsParts part).mpr ⟨object, isObject, returnsPart⟩
        exact ⟨parts.flatten, ⟨grant, isGrant, parts, returnsParts, rfl⟩, mem_flatten.mpr ⟨part, isPart, inPart⟩⟩

theorem rooted_of_acyclic {objects : Objects}
    (acyclic : ∀ objectId, ¬ TransGen (Parent objects) objectId objectId) (objectId : String) :
    Rooted objects objectId := by
  let Above (parent child : String) : Prop := TransGen (Parent objects) child parent
  have strict : IsStrictOrder String Above :=
    { irrefl := acyclic
      trans := fun _ _ _ first second => second.trans first }
  have finite : {objectId : String | objectId ∈ objects.keys}.Finite := finite_toSet objects.keys
  have wellFounded : {objectId : String | objectId ∈ objects.keys}.WellFoundedOn Above := finite.wellFoundedOn
  have isRoot : ∀ objectId, objectId ∉ objects.keys → Rooted objects objectId := by
    intro objectId absent
    refine rooted_of_root ?_
    have missing : objects[objectId]? = none :=
      Std.TreeMap.getElem?_eq_none fun isKey => absent (Std.TreeMap.mem_keys.mpr isKey)
    simp [parentOf, missing]
  by_cases isKey : objectId ∈ objects.keys
  · refine wellFounded.induction isKey fun objectId _ ih => Acc.intro objectId fun parentId isParent => ?_
    by_cases parentIsKey : parentId ∈ objects.keys
    · exact ih parentId parentIsKey (.single isParent)
    · exact isRoot parentId parentIsKey
  · exact isRoot objectId isKey

/-- What the compiled view allows: everything to the owner of an object, and what a grant implies to whoever belongs to its
grantee. -/
theorem evaluate_compiled_iff (accepted : validateHierarchy input.objects = .ok ())
    (rooted : ∀ objectId, Rooted input.objects objectId) :
    ∃ compiled, (compilePermissions input).Returns (.ok compiled) ∧ ∀ request : AuthzRequest,
      (AuthzDecision.evaluate request compiled).outcome = .allow ↔ knownObjectType request.objectType = true ∧
        ∃ object ∈ input.securables, object.objectId = request.objectId ∧
          object.objectType.toUpper = request.objectType.toUpper ∧
          Text.eqIgnoreAsciiCase object.objectType request.objectType = true ∧ input.isActive request.principalId = true ∧
          (object.ownerPrincipalId = request.principalId ∨
            ∃ grant ∈ input.activeGrants, grant.privilege.implies request.privilege = true ∧
              Applies input.objects grant object.objectId ∧
              ReflTransGen (Member input.identity.memberToGroups) request.principalId grant.principalId) := by
  obtain ⟨compiled, returns, fresh, isRow⟩ := compilePermissions_returns accepted rooted
  refine ⟨compiled, returns, fun request => ?_⟩
  simp only [evaluate_allow_iff, compiled.mem_rowsFor, isRow, fresh, true_and]
  refine and_congr_right fun _ => ?_
  constructor
  · rintro ⟨row, ⟨object, isObject, active, rfl⟩ | ⟨grant, isGrant, object, isObject, rows, returnsRows, isMember⟩,
      samePrincipal, sameObject, sameKey, sameType, implied⟩
    · exact ⟨object, isObject, sameObject, sameKey, sameType, samePrincipal ▸ active, .inl samePrincipal⟩
    · obtain ⟨path, _, returnsRows', inRows'⟩ := objectRows_returns grant (rooted object.objectId)
      obtain rfl := returnsRows.unique returnsRows'
      obtain ⟨applies, member, active, chain, rfl⟩ := (inRows' row).mp isMember
      obtain rfl : member = request.principalId := samePrincipal
      exact ⟨object, isObject, sameObject, sameKey, sameType, active, .inr ⟨grant, isGrant, implied, applies, chain⟩⟩
  · rintro ⟨object, isObject, sameObject, sameKey, sameType, active, isOwner | ⟨grant, isGrant, implied, applies, chain⟩⟩
    · exact ⟨_, .inl ⟨object, isObject, isOwner ▸ active, rfl⟩, isOwner, sameObject, sameKey, sameType, rfl⟩
    · obtain ⟨_, rows, returnsRows, inRows⟩ := objectRows_returns grant (rooted object.objectId)
      have row := (inRows _).mpr ⟨applies, request.principalId, active, chain, rfl⟩
      exact ⟨_, .inr ⟨grant, isGrant, object, isObject, rows, returnsRows, row⟩, rfl, sameObject, sameKey, sameType, implied⟩

end Rows

/-- A compiled view allows only what is justified, if and only if each member of a grantee is justified
in what the grant gives. -/
theorem allowed_justified_iff (input : PermissionCompileInput) (accepted : validateHierarchy input.objects = .ok ())
    (acyclic : ∀ objectId, ¬ TransGen (Parent input.objects) objectId objectId) :
    ∃ compiled, (compilePermissions input).Returns (.ok compiled) ∧
      ((∀ request, (AuthzDecision.evaluate request compiled).outcome = .allow →
        input.Justified request.principalId request.objectId request.objectType request.privilege) ↔
        input.MembersJustified) := by
  obtain ⟨compiled, returns, isAllowed⟩ := evaluate_compiled_iff accepted (rooted_of_acyclic acyclic)
  refine ⟨compiled, returns, ?_, ?_⟩
  · intro justified grant isGrant object isObject known applies member active chain
    -- The member asks for the privilege of the grant.
    refine justified ⟨member, object.objectId, object.objectType, grant.privilege, ""⟩ ((isAllowed _).mpr
      ⟨known, object, isObject, rfl, rfl, by simp [Text.eqIgnoreAsciiCase], active, .inr ⟨grant, isGrant, ?_, applies, chain⟩⟩)
    exact Privilege.implies_self _
  · intro membersJustified request allowed
    obtain ⟨known, object, isObject, same, sameKey, sameType, active, isOwner | ⟨grant, isGrant, implied, applies, chain⟩⟩ :=
      (isAllowed request).mp allowed
    · exact ⟨object, isObject, same, sameType, .inl ⟨isOwner, active⟩⟩
    · have knownType : knownObjectType object.objectType = true := by simpa only [knownObjectType, sameKey] using known
      obtain ⟨object', isObject', sameId, sameType', claim⟩ :=
        membersJustified grant isGrant object isObject knownType applies _ active chain
      refine ⟨object', isObject', sameId.trans same, ?_, claim.imp_right ?_⟩
      · simp only [Text.eqIgnoreAsciiCase, decide_eq_true_eq] at sameType sameType' ⊢
        exact sameType'.trans sameType
      · rintro ⟨grant', isGrant', implies, applies', chain'⟩
        exact ⟨grant', isGrant', Privilege.implies_trans implies implied, same ▸ applies', chain'⟩

theorem membersJustified_of_active {input : PermissionCompileInput}
    (active : ∀ member group, Member input.identity.memberToGroups member group → input.isActive group = true) :
    input.MembersJustified := by
  intro grant isGrant object isObject _ applies member isActive chain
  have activeChain : input.ActiveChain member grant.principalId :=
    ⟨isActive, ReflTransGen.mono (fun left right isMember => ⟨isMember, active left right isMember⟩) _ _ chain⟩
  refine ⟨object, isObject, rfl, by simp [Text.eqIgnoreAsciiCase], .inr ⟨grant, ?_, Privilege.implies_self _, applies,
    activeChain⟩⟩
  exact (mem_filter.mp isGrant).1

theorem acyclic_catalogObject (objectId : String) :
    ¬ TransGen (Parent (objectsById [catalogObject])) objectId objectId := by
  refine not_ancestor_of_root ?_
  by_cases same : "catalog" = objectId <;> simp [parentOf, objectsById, catalogObject, same]

/-- Alice is a member of the analysts, who are active. -/
theorem allowed_justified_iff_analysts :
    ∃ compiled, (compilePermissions (analystsInput [catalogObject] [⟨"alice", "analysts"⟩])).Returns (.ok compiled) ∧
      ∀ request, (AuthzDecision.evaluate request compiled).outcome = .allow →
        (analystsInput [catalogObject] [⟨"alice", "analysts"⟩]).Justified request.principalId request.objectId
          request.objectType request.privilege := by
  obtain ⟨compiled, returns, justified⟩ :=
    allowed_justified_iff (analystsInput [catalogObject] [⟨"alice", "analysts"⟩]) rfl acyclic_catalogObject
  refine ⟨compiled, returns, justified.mpr (membersJustified_of_active fun member group isMember => ?_)⟩
  obtain ⟨_, rfl⟩ : member = "alice" ∧ group = "analysts" := by simpa using member_new.mp isMember
  decide +kernel

/-- Alice is a member of the analysts only through a disabled group, and may still read the catalog. -/
theorem allowed_through_disabled_group :
    ∃ input : PermissionCompileInput, validateHierarchy input.objects = .ok () ∧
      (∀ objectId, ¬ TransGen (Parent input.objects) objectId objectId) ∧
      ∃ compiled, (compilePermissions input).Returns (.ok compiled) ∧ ∃ request,
        (AuthzDecision.evaluate request compiled).outcome = .allow ∧
        ¬ input.Justified request.principalId request.objectId request.objectType request.privilege := by
  refine ⟨analystsInput [catalogObject], rfl, acyclic_catalogObject, ?_⟩
  let request : AuthzRequest := ⟨"alice", "catalog", "CATALOG", .select, ""⟩
  have allows : ((compilePermissions (analystsInput [catalogObject])).within 10).any (fun
      | .ok compiled => (AuthzDecision.evaluate request compiled).outcome = .allow
      | .error _ => false) = true := by decide +kernel
  cases within : (compilePermissions (analystsInput [catalogObject])).within 10 with
  | none => simp [within] at allows
  | some result =>
    cases result with
    | error error => simp [within] at allows
    | ok compiled =>
      refine ⟨compiled, ⟨10, within⟩, request, by simpa [within] using allows, ?_⟩
      rintro ⟨object, isObject, _, _, owner | ⟨grant, isGrant, _, _, _, chain⟩⟩
      · obtain rfl : object = catalogObject := by simpa [analystsInput] using isObject
        exact absurd owner.1 (by decide)
      · have toAnalysts : ∀ grant ∈ (analystsInput [catalogObject]).grants,
            grant.principalId = "analysts" := by decide +kernel
        rw [toAnalysts grant isGrant] at chain
        -- The only way out of Alice leads to the disabled group.
        obtain same | ⟨group, ⟨isMember, isActive⟩, _⟩ := ReflTransGen.cases_head chain
        · exact absurd same (by decide)
        · obtain rfl : group = "reporting" := by
            simpa [reportingMemberships, request] using member_new.mp isMember
          exact absurd isActive (by decide +kernel)

section Exactness

def ActivePrincipal (metastore : MetastoreState) (principalId : String) : Prop :=
  ∃ principal, metastore.principals[principalId]? = some principal ∧ principal.lifecycleState = .active ∧
    principal.principalKind ≠ .externalSubject

def IsParent (securables : List SecurableObject) (childId parentId : String) : Prop :=
  ∃ object ∈ securables, object.objectId = childId ∧ object.parentObjectId = some parentId

def IsMember (memberships : List GroupMembership) (memberId groupId : String) : Prop := ⟨memberId, groupId⟩ ∈ memberships

variable {securables : List SecurableObject}

theorem principalIsActive_iff {metastore : MetastoreState} {principalId : String} :
    principalIsActive metastore principalId = true ↔ ActivePrincipal metastore principalId := by
  simp [principalIsActive, ActivePrincipal, Option.any_eq_true]

theorem fromRecord_eq_some {record : GrantRecord} {grant : ActiveGrant} :
    ActiveGrant.fromRecord record = some grant ↔ record.lifecycleState = .active ∧ ∃ privilege,
      Privilege.parse record.privilege = .ok privilege ∧ ({
        grantId := record.grantId
        objectId := record.objectId
        objectType := record.objectType
        principalId := record.principalId
        privilege
        grantOption := (record.properties["grant_option"]?).any fun value => Text.eqIgnoreAsciiCase value "true" } :
        ActiveGrant) = grant := by
  unfold ActiveGrant.fromRecord
  cases Privilege.parse record.privilege <;> simp [Except.toOption]

theorem mem_values {V : Type} {map : BTreeMap V} {value : V} :
    value ∈ map.values ↔ ∃ key : String, map[key]? = some value := by
  have isMap : map.values = map.toList.map Prod.snd := by
    change map.inner.inner.values = (Std.DTreeMap.Internal.Impl.Const.toList map.inner.inner).map Prod.snd
    rw [Std.DTreeMap.Internal.Impl.values_eq_map_snd, Std.DTreeMap.Internal.Impl.Const.toList_eq_toListModel_map]
    simp
  simp [isMap]

theorem getElem?_objectsById (distinct : (securables.map SecurableObject.objectId).Nodup) {objectId : String}
    {object : SecurableObject} :
    (objectsById securables)[objectId]? = some object ↔ object ∈ securables ∧ object.objectId = objectId := by
  -- The objects are entered from the left, so the last one is peeled off.
  induction securables using reverseRecOn with
  | nil => simp [objectsById]
  | append_singleton rest last ih =>
    simp only [map_append, nodup_append, map_cons, map_nil, mem_map, mem_singleton] at distinct
    obtain ⟨distinct, -, apart⟩ := distinct
    have isLast : objectsById (rest ++ [last]) = (objectsById rest).insert last.objectId last := by simp [objectsById]
    rw [isLast, Std.TreeMap.getElem?_insert, mem_append, mem_singleton, or_and_right]
    by_cases same : last.objectId = objectId
    · have others : ¬ (object ∈ rest ∧ object.objectId = objectId) := fun ⟨isObject, isId⟩ =>
        apart _ ⟨object, isObject, rfl⟩ _ rfl (isId.trans same.symm)
      simp [same, others]
      grind
    · simp [same, ih distinct]
      grind

variable (distinct : (securables.map SecurableObject.objectId).Nodup)
include distinct

theorem parent_iff : Parent (objectsById securables) = IsParent securables := by
  funext childId parentId
  simp [Parent, IsParent, parentOf, Option.bind_eq_some_iff, getElem?_objectsById distinct, and_assoc]

theorem validateHierarchy_eq_ok (parents : ∀ object ∈ securables, ∀ parentId, object.parentObjectId = some parentId →
    ∃ parent ∈ securables, parent.objectId = parentId) : validateHierarchy (objectsById securables) = .ok () := by
  have found : (objectsById securables).values.findSome? (missingParent (objectsById securables)) = none := by
    refine findSome?_eq_none_iff.mpr fun object isObject => ?_
    obtain ⟨_, isObject⟩ := mem_values.mp isObject
    obtain ⟨isObject, -⟩ := (getElem?_objectsById distinct).mp isObject
    unfold missingParent
    split
    · rename_i parentId isParent
      obtain ⟨parent, isSecurable, isId⟩ := parents object isObject parentId isParent
      have known := Std.TreeMap.mem_iff_isSome_getElem?.mpr
        (Option.isSome_of_eq_some ((getElem?_objectsById distinct).mpr ⟨isSecurable, isId⟩))
      simp [Std.TreeMap.contains_iff_mem.mpr known]
    · rfl
  simp [validateHierarchy, found]

end Exactness

/-- A request for one of the securables is allowed to its owner, and to those who belong to the grantee of an active grant
on it or above it. -/
theorem evaluate_exact (metastore : MetastoreState) (snapshotVersion : String) (memberships : List GroupMembership)
    (securables : List SecurableObject) (ledgerWatermark : String)
    (distinct : (securables.map SecurableObject.objectId).Nodup)
    (parents : ∀ object ∈ securables, ∀ parentId, object.parentObjectId = some parentId →
      ∃ parent ∈ securables, parent.objectId = parentId)
    (acyclic : ∀ objectId, ¬ TransGen (IsParent securables) objectId objectId) :
    ∃ compiled, (compilePermissions
        { metastore, identity := .new snapshotVersion memberships, securables, ledgerWatermark }).Returns (.ok compiled) ∧
      ∀ object ∈ securables, knownObjectType object.objectType = true → ∀ request : AuthzRequest,
        request.objectId = object.objectId → request.objectType = object.objectType →
        ((AuthzDecision.evaluate request compiled).outcome = .allow ↔
          ActivePrincipal metastore request.principalId ∧ object.ownerPrincipalId = request.principalId ∧
              Privilege.manage.implies request.privilege = true ∨
            ∃ record ∈ metastore.grants.values, record.lifecycleState = .active ∧ ∃ privilege,
              Privilege.parse record.privilege = .ok privilege ∧ privilege.implies request.privilege = true ∧
              ReflTransGen (IsParent securables) object.objectId record.objectId ∧
              ActivePrincipal metastore record.principalId ∧
              ReflTransGen (IsMember memberships) request.principalId record.principalId ∧
              ActivePrincipal metastore request.principalId) := by
  let input : PermissionCompileInput :=
    { metastore, identity := .new snapshotVersion memberships, securables, ledgerWatermark }
  have isParent : Parent input.objects = IsParent securables := parent_iff distinct
  have isMember : Member input.identity.memberToGroups = IsMember memberships := by
    funext memberId groupId
    exact propext member_new
  have valid : validateHierarchy input.objects = .ok () := validateHierarchy_eq_ok distinct parents
  obtain ⟨compiled, returns, isAllowed⟩ := evaluate_compiled_iff valid
    (rooted_of_acyclic (isParent ▸ acyclic))
  refine ⟨compiled, returns, fun object isObject known request sameId sameType => ?_⟩
  have applies (grant : ActiveGrant) : Applies input.objects grant object.objectId ↔
      ReflTransGen (IsParent securables) object.objectId grant.objectId := by
    rw [Applies, isParent, reflTransGen_iff_eq_or_transGen]
  rw [isAllowed, sameId, sameType, isMember]
  simp only [isActive, principalIsActive_iff, activeGrants, mem_filter, mem_filterMap, fromRecord_eq_some]
  constructor
  · rintro ⟨-, other, isOther, same, -, -, active, isOwner | ⟨_, ⟨⟨record, isRecord, isActive, privilege, parses, rfl⟩,
      activeGrantee⟩, implied, above, chain⟩⟩
    · obtain rfl := inj_on_of_nodup_map distinct isOther isObject same
      exact .inl ⟨active, isOwner, rfl⟩
    · exact .inr ⟨record, isRecord, isActive, privilege, parses, implied, (applies _).mp (same ▸ above), activeGrantee,
        chain, active⟩
  · intro claim
    refine ⟨known, object, isObject, rfl, rfl, by simp [Text.eqIgnoreAsciiCase], ?_⟩
    obtain ⟨active, isOwner, -⟩ | ⟨record, isRecord, isActive, privilege, parses, implied, above, activeGrantee, chain,
      active⟩ := claim
    · exact ⟨active, .inl isOwner⟩
    · exact ⟨active, .inr ⟨_, ⟨⟨record, isRecord, isActive, privilege, parses, rfl⟩, activeGrantee⟩, implied,
        (applies _).mpr above, chain⟩⟩

/-- The grant is on the catalog of the schema. Alice reaches the analysts through the group of those who write reports,
which is disabled itself. -/
theorem evaluate_exact_reporting :
    ∃ compiled, (compilePermissions
        (analystsInput [catalogObject, schemaOf "schema" "catalog"])).Returns (.ok compiled) ∧
      (AuthzDecision.evaluate ⟨"alice", "schema", "SCHEMA", .select, ""⟩ compiled).outcome = .allow ∧
      (AuthzDecision.evaluate ⟨"reporting", "schema", "SCHEMA", .select, ""⟩ compiled).outcome ≠ .allow := by
  have isParent (childId parentId : String) : IsParent [catalogObject, schemaOf "schema" "catalog"] childId parentId ↔
      "schema" = childId ∧ "catalog" = parentId := by simp [IsParent, catalogObject, schemaOf]
  have active (principalId : String) : ActivePrincipal analystsMetastore principalId ↔
      principalIsActive analystsMetastore principalId = true := principalIsActive_iff.symm
  obtain ⟨compiled, returns, isAllowed⟩ :=
    evaluate_exact analystsMetastore "1" reportingMemberships [catalogObject, schemaOf "schema" "catalog"] "watermark"
      (by decide) (by simp [catalogObject, schemaOf]) fun objectId cycle => by
        obtain ⟨_, first, _⟩ := TransGen.head'_iff.mp cycle
        obtain ⟨_, _, last⟩ := TransGen.tail'_iff.mp cycle
        obtain rfl := ((isParent _ _).mp first).1
        exact absurd ((isParent _ _).mp last).2 (by decide)
  have onSchema := isAllowed (schemaOf "schema" "catalog") (by simp) (by decide +kernel)
  refine ⟨compiled, returns, (onSchema ⟨"alice", _, _, _, _⟩ rfl rfl).mpr (.inr ⟨analystsGrant, ?_, rfl, .select,
    by decide +kernel, rfl, .single ((isParent _ _).mpr ⟨rfl, rfl⟩), (active _).mpr (by decide +kernel), ?_,
    (active _).mpr (by decide +kernel)⟩), fun allowed => ?_⟩
  · exact mem_values.mpr ⟨"grant", by simp [analystsMetastore]⟩
  · exact .tail (.single (by simp [IsMember, reportingMemberships])) (b := "reporting")
      (by simp [IsMember, reportingMemberships, analystsGrant])
  · obtain ⟨isActive, -⟩ | ⟨_, _, _, _, _, _, _, _, _, isActive⟩ := (onSchema _ rfl rfl).mp allowed
    · exact absurd ((active _).mp isActive) (by decide +kernel)
    · exact absurd ((active _).mp isActive) (by decide +kernel)

end Arco.Authz
