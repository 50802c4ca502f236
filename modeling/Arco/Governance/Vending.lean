import Arco.Authz.Compiler
import Arco.Governance.Authority

/-! Credential vending: which storage prefixes a request for temporary credentials is granted.

The request is authorized by the canonical form of its path, and the prefix that is granted is the path as it was
written. The two agree if the path is written in its canonical form, up to slashes at its end.
-/

namespace Arco.Governance

open Arco.Authz (Privilege)
open Arco.Catalog (CatalogError)
open Arco.Metastore (LifecycleState)
open Results (bind_eq_ok)
open Segments List Option StorageGovernanceState Address GovernedPath

inductive CredentialOperation where
  | read
  | write
  | list
  | manage
  | delete

inductive CredentialDecision where
  | allow
  | deny

structure CredentialVendingAuthorization where
  principalId : String
  objectId : String
  objectType : String
  privilege : Privilege
  permissionLedgerWatermark : String
  pathAuthorityObjectId : String
  pathAuthorityObjectType : String

/-- Durations are numbers of nanoseconds. -/
structure CredentialVendingRequest where
  principalId : String
  workspaceId : String
  operation : CredentialOperation
  requestedPath : String
  requestedTtl : Nat
  catalogSnapshotVersion : String
  authorization : Option CredentialVendingAuthorization

structure CredentialVendingDecision where
  decision : CredentialDecision
  reasonCode : String
  provider : Option String
  credentialKind : Option String
  authorizedObjectId : Option String
  authorizedPathPrefixes : List String
  maxTtl : Nat
  expiresAt : Int
  auditEventId : String

structure CredentialVendingEngine where
  maxTtl : Nat := 3600 * 10 ^ 9

def supportsOperation : CredentialOperation → Bool
  | .read | .write | .list => true
  | .manage | .delete => false

def supportedAuthorizationObjectType (objectType : String) : Bool :=
  let objectType := Text.toAsciiUppercase objectType
  objectType = "TABLE" ∨ objectType = "EXTERNAL_LOCATION" ∨ objectType = "MANAGED_ROOT"

def requiredPrivilege (isTable : Bool) : CredentialOperation → Privilege
  | .read | .list => if isTable then .select else .readFiles
  | .write => if isTable then .modify else .writeFiles
  | .manage | .delete => .manage

def authorizationPrivilegeMatches (authorization : CredentialVendingAuthorization) (operation : CredentialOperation) : Bool :=
  authorization.privilege.implies (requiredPrivilege (Text.eqIgnoreAsciiCase authorization.objectType "TABLE") operation)

def normalizePrefix (path : String) : String :=
  if path.toList.getLast? = some '/' then path else path ++ "/"

structure Stamp where
  now : Int
  auditEventId : String

def expiresAtMs (now : Int) (ttl : Nat) : Int :=
  min (now + min (ttl / 10 ^ 6 : Nat) (2 ^ 63 - 1)) (2 ^ 63 - 1)

def deny (stamp : Stamp) (reasonCode : String) (maxTtl : Nat) : CredentialVendingDecision where
  decision := .deny
  reasonCode
  provider := none
  credentialKind := none
  authorizedObjectId := none
  authorizedPathPrefixes := []
  maxTtl
  expiresAt := expiresAtMs stamp.now maxTtl
  auditEventId := stamp.auditEventId

def providerOf (state : StorageGovernanceState) (named : PathDecision) : Except String (Option String) :=
  match named.authorityKind with
  | .externalLocation =>
    match state.externalLocations[named.objectId]? with
    | none => .error "path_not_governed"
    | some location =>
      match state.credentials[location.credentialId]? with
      | none => .error "storage_credential_not_found"
      | some credential =>
        if credential.lifecycleState ≠ .active then .error "storage_credential_not_active" else .ok (some credential.cloud)
  | .managedRoot => .ok none

namespace CredentialVendingEngine

def refusal (request : CredentialVendingRequest) : Except String CredentialVendingAuthorization :=
  if ¬ supportsOperation request.operation then .error "unsupported_operation"
  else match request.authorization with
  | none => .error "authorization_required"
  | some authorization =>
    if authorization.principalId ≠ request.principalId then .error "authorization_principal_mismatch"
    else if authorization.permissionLedgerWatermark ≠ request.catalogSnapshotVersion then .error "stale_projection"
    else if ¬ supportedAuthorizationObjectType authorization.objectType then
      .error "authorization_unsupported_object_type"
    else if ¬ authorizationPrivilegeMatches authorization request.operation then
      .error "authorization_insufficient_privilege"
    else .ok authorization

def scope (state : StorageGovernanceState) (request : CredentialVendingRequest) :
    Except String (PathDecision × Option String) := do
  let authorization ← refusal request
  match state.authorityForPath request.workspaceId request.requestedPath with
  | .error _ => .error "path_not_governed"
  | .ok named =>
    if authorization.pathAuthorityObjectId ≠ named.objectId ∨
        ¬ Text.eqIgnoreAsciiCase authorization.pathAuthorityObjectType (authorityObjectType named.authorityKind) then
      .error "authorization_scope_mismatch"
    else do
      let provider ← providerOf state named
      .ok (named, provider)

def decidePath (engine : CredentialVendingEngine) (stamp : Stamp) (state : StorageGovernanceState)
    (request : CredentialVendingRequest) : CredentialVendingDecision :=
  match scope state request with
  | .error reasonCode => deny stamp reasonCode request.requestedTtl
  | .ok (named, provider) => {
      decision := .allow
      reasonCode := "allowed"
      provider
      credentialKind := some "scoped_bearer"
      authorizedObjectId := some named.objectId
      authorizedPathPrefixes := [normalizePrefix request.requestedPath]
      maxTtl := min request.requestedTtl engine.maxTtl
      expiresAt := expiresAtMs stamp.now (min request.requestedTtl engine.maxTtl)
      auditEventId := stamp.auditEventId }

end CredentialVendingEngine

namespace Address

/-- A URI in which canonicalization changes nothing but slashes at the end. -/
structure Literal (address : Address) : Prop where
  scheme : address.scheme.map Char.toLower = address.scheme
  authority : address.authority.map (List.map Char.toLower) = address.authority
  rooted : address.authority = none → address.tail.head? = some '/'
  percent : '%' ∉ address.tail
  gapless : Gapless '/' address.tail.tail

def endedTail (address : Address) : List Char :=
  match address.tail with
  | [] => if address.authority = none then [] else ['/']
  | first :: rest => if (first :: rest).getLast? = some '/' then first :: rest else first :: rest ++ ['/']

theorem getLast?_chars_of_tail (address : Address) (some : address.tail ≠ []) :
    address.chars.getLast? = address.tail.getLast? := by
  rw [chars, getLast?_append_of_ne_nil _ (by simp [some]), getLast?_append_of_ne_nil _ some]

theorem normalizePrefix_chars {address : Address} (valid : address.Valid) {raw : String} (isRaw : raw.toList = address.chars) :
    (normalizePrefix raw).toList =
      address.scheme ++ "://".toList ++ (address.authority.getD [] ++ address.endedTail) := by
  have normalized : (normalizePrefix raw).toList =
      if address.chars.getLast? = some '/' then address.chars else address.chars ++ ['/'] := by
    rw [normalizePrefix, isRaw, apply_ite String.toList, String.toList_append, isRaw]
    rfl
  rw [normalized]
  cases isTail : address.tail with
  | cons first rest =>
    rw [getLast?_chars_of_tail address (by simp [isTail]), endedTail, isTail]
    simp only
    split
    · rw [chars, isTail]
    · rw [chars, isTail]
      simp
  | nil =>
    cases valid with
    | @cloud scheme authority tail _ some free _ =>
      obtain rfl : tail = [] := isTail
      have notEnded : ¬ (mk scheme (.some authority) []).chars.getLast? = .some '/' := by
        rw [chars, append_nil, getD_some, getLast?_append_of_ne_nil _ some]
        exact fun last => free (mem_of_getLast? last)
      rw [if_neg notEnded, chars, endedTail]
      simp
    | @file scheme tail _ =>
      obtain rfl : tail = [] := isTail
      simp [chars, endedTail]

theorem prefix_append_iff {front front' back back' : List Char} (sameLength : front.length = front'.length) :
    front ++ back <+: front' ++ back' ↔ front = front' ∧ back <+: back' := by
  constructor
  · rintro ⟨rest, same⟩
    rw [append_assoc] at same
    obtain ⟨fronts, backs⟩ := append_inj same sameLength
    exact ⟨fronts, rest, backs⟩
  · rintro ⟨rfl, inside⟩
    exact (prefix_append_right_inj _).mpr inside

end Address

variable {segments : List (List Char)}

theorem closed_prefix_ended_iff {chars : List Char} (decodes : Decodes (parts '/' chars) segments) :
    closed '/' segments <+: ended '/' chars ↔ '%' ∉ chars ∧ Gapless '/' chars := by
  have areSegments := decodes.isSegment
  constructor
  · rintro ⟨rest, same⟩
    -- There are as many segments as were written, so that they are the same ones.
    have written := congrArg (parts '/') same
    rw [parts_closed (fun _ member => (areSegments _ member).noSlash) (fun _ member => (areSegments _ member).filled),
      parts_ended] at written
    have lengths := decodes.length_eq
    rw [← written, length_append] at lengths
    have none : parts '/' rest = [] := eq_nil_of_length_eq_zero (by omega)
    rw [none, append_nil] at written
    refine ⟨fun member => ?_, closed_parts_prefix_iff.mp ⟨rest, written ▸ same⟩⟩
    obtain ⟨segment, isSegment, inside⟩ := mem_parts_of_mem member (by decide : '%' ≠ '/')
    have free := (decodes_self_iff areSegments).mp (written ▸ decodes)
    rw [← written] at isSegment
    exact free (mem_cons_of_mem _ (mem_flatMap.mpr ⟨segment, isSegment, mem_append_left _ inside⟩))
  · rintro ⟨absent, gapless⟩
    have written := decodes.eq_of_not_mem fun segment isSegment inside =>
      absent (mem_of_mem_parts isSegment inside (by decide))
    exact written ▸ closed_parts_prefix_iff.mpr gapless

theorem Address.path_prefix_iff {address : Address} (valid : address.Valid)
    (decodes : Decodes (parts '/' address.tail) segments) :
    '/' :: closed '/' segments <+: address.endedTail ↔
      (address.authority = none → address.tail.head? = some '/') ∧ '%' ∉ address.tail ∧ Gapless '/' address.tail.tail := by
  cases isTail : address.tail with
  | nil =>
    rw [isTail] at decodes
    obtain rfl : segments = [] := forall₂_nil_left_iff.mp decodes
    have gapless : Gapless '/' [] := by decide
    unfold endedTail
    by_cases isFile : address.authority = none
    · simp [isTail, isFile]
    · simp [isTail, isFile, gapless]
  | cons first rest =>
    by_cases isSlash : first = '/'
    · subst isSlash
      rw [isTail, ← parts_tail (.inr rfl), tail_cons] at decodes
      have isEnded : address.endedTail = '/' :: ended '/' rest := by
        unfold endedTail ended
        rw [isTail]
        cases rest with
        | nil => simp
        | cons next rest => simp only [getLast?_cons_cons, reduceCtorEq, false_or, cons_append, apply_ite (cons '/')]
      rw [isEnded, cons_prefix_cons, closed_prefix_ended_iff decodes]
      simp
    · -- A file URI that does not start with a slash is not where it is authorized.
      have starts : address.endedTail.head? = some first := by
        rw [endedTail, isTail]
        simp only
        split <;> rfl
      have notStart : ¬ '/' :: closed '/' segments <+: address.endedTail := by
        rintro ⟨rest, same⟩
        rw [← same] at starts
        exact isSlash (some.inj starts).symm
      have noAuthority : address.authority = none := by
        cases valid with
        | @cloud _ _ tail _ _ _ behind =>
          obtain rfl : tail = first :: rest := isTail
          obtain empty | slash := behind
          · cases empty
          · exact absurd (some.inj slash) isSlash
        | file => rfl
      simp [notStart, noAuthority, isSlash]

theorem canonicalUri_starts_iff {raw : String} {path : GovernedPath} (parsed : GovernedPath.parse raw = .ok path) :
    path.canonicalUri.toList <+: (normalizePrefix raw).toList ↔
      ∀ address, Address.read raw.toList = some address → address.Literal := by
  obtain ⟨address, isRead, _, decodes, rfl⟩ := parse_eq_ok.mp parsed
  obtain ⟨valid, isRaw⟩ := of_read isRead
  rw [canonicalUri_chars, address_governed, normalizePrefix_chars valid isRaw, isRead,
    chars, prefix_append_iff (by simp), append_left_inj,
    prefix_append_iff (by cases address.authority <;> simp), path_prefix_iff valid decodes]
  have authorities : (address.authority.map (map Char.toLower)).getD [] = address.authority.getD [] ↔
      address.authority.map (map Char.toLower) = address.authority := by
    cases address.authority <;> simp
  simp only [authorities, some.injEq, forall_eq']
  constructor
  · rintro ⟨scheme, authority, rooted, percent, gapless⟩
    exact ⟨scheme, authority, rooted, percent, gapless⟩
  · rintro ⟨scheme, authority, rooted, percent, gapless⟩
    exact ⟨scheme, authority, rooted, percent, gapless⟩

/-- The granted prefixes start with the canonical URI of the object that the decision names. -/
def InsideAuthority (state : StorageGovernanceState) (request : CredentialVendingRequest)
    (decision : CredentialVendingDecision) : Prop :=
  ∃ named path, state.authorityForPath request.workspaceId request.requestedPath = .ok named ∧
    decision.authorizedObjectId = some named.objectId ∧ state.authorityPath named = some path ∧
      ∀ granted ∈ decision.authorizedPathPrefixes, path.canonicalUri.toList <+: granted.toList

namespace CredentialVendingEngine

variable {state : StorageGovernanceState} {request : CredentialVendingRequest} {engine : CredentialVendingEngine}

theorem scope_eq_ok {named : PathDecision} {provider : Option String}
    (found : scope state request = .ok (named, provider)) :
    state.authorityForPath request.workspaceId request.requestedPath = .ok named := by
  simp only [scope, bind_eq_ok] at found
  obtain ⟨_, -, found⟩ := found
  split at found
  · cases found
  · rename_i decided isDecided
    split at found
    · cases found
    · obtain ⟨_, -, found⟩ := bind_eq_ok.mp found
      obtain ⟨rfl, -⟩ := Prod.mk.inj (Except.ok.inj found)
      exact isDecided

theorem decidePath_of_allow {stamp : Stamp} (allowed : (engine.decidePath stamp state request).decision = .allow) :
    ∃ named, state.authorityForPath request.workspaceId request.requestedPath = .ok named ∧
      (engine.decidePath stamp state request).authorizedObjectId = some named.objectId ∧
        (engine.decidePath stamp state request).authorizedPathPrefixes = [normalizePrefix request.requestedPath] := by
  unfold decidePath at allowed ⊢
  cases isScope : scope state request with
  | error reasonCode =>
    rw [isScope] at allowed
    cases allowed
  | ok found => exact ⟨found.1, scope_eq_ok isScope, rfl, rfl⟩

theorem insideAuthority_of_prefix {stamp : Stamp} (built : state.Built)
    (allowed : (engine.decidePath stamp state request).decision = .allow)
    (literal : ∀ path, GovernedPath.parse request.requestedPath = .ok path →
      path.canonicalUri.toList <+: (normalizePrefix request.requestedPath).toList) :
    InsideAuthority state request (engine.decidePath stamp state request) := by
  obtain ⟨named, decided, isObject, isGranted⟩ := decidePath_of_allow allowed
  obtain ⟨path, authorityPath, parsed, isPath, inside⟩ := built.authorityForPath_spec decided
  refine ⟨named, authorityPath, decided, isObject, isPath, ?_⟩
  rw [isGranted]
  intro granted member
  rw [mem_singleton.mp member]
  exact (canonicalUri_starts inside).trans (literal path parsed)

end CredentialVendingEngine

section Root

def rootAt (path : GovernedPath) : StorageGovernanceState :=
  StorageGovernanceState.placeRoot {} {
    rootId := "root"
    name := "root"
    workspaceId := "workspace"
    path
    owner := "owner"
    lifecycleState := .active }

def readRequest (raw : String) : CredentialVendingRequest where
  principalId := "reader"
  workspaceId := "workspace"
  operation := .read
  requestedPath := raw
  requestedTtl := 0
  catalogSnapshotVersion := "1"
  authorization := some {
    principalId := "reader"
    objectId := "root"
    objectType := "MANAGED_ROOT"
    privilege := .readFiles
    permissionLedgerWatermark := "1"
    pathAuthorityObjectId := "root"
    pathAuthorityObjectType := "MANAGED_ROOT" }

variable {raw : String} {path : GovernedPath}

section

variable (parsed : GovernedPath.parse raw = .ok path)
include parsed

theorem built_rootAt : (rootAt path).Built := by
  refine .root .empty ⟨raw, parsed⟩ (createManagedRoot_eq_ok.mpr ⟨⟨by simp, ?_⟩, rfl⟩)
  intro authority member
  simp [mem_activeAuthorities] at member

theorem authorityForPath_rootAt :
    (rootAt path).authorityForPath "workspace" raw = .ok ⟨"root", .managedRoot⟩ := by
  have own : (rootAt path).authoritiesByWorkspace["workspace"]? =
      some [⟨"root", .managedRoot, path, some "workspace", .active⟩] := by
    simp [rootAt, placeRoot, indexAuthority_eq, pathAuthorityForManagedRoot]
  have bound : (rootAt path).bindingsByWorkspace["workspace"]? = none := by
    simp [rootAt, placeRoot, indexAuthority_eq, pathAuthorityForManagedRoot]
  have candidates : ((rootAt path).candidates "workspace" path).toList.map Prod.snd =
      [⟨"root", .managedRoot, path, some "workspace", .active⟩] := by
    simp only [candidates, own, bound, getD_some, getD_none, filter_cons,
      contains_self, if_true, filter_nil, foldl_cons, foldl_nil]
    rfl
  unfold authorityForPath
  simp only [parsed, candidates, bind, Except.bind]
  rfl

theorem allowed_rootAt (engine : CredentialVendingEngine) (stamp : Stamp) :
    (engine.decidePath stamp (rootAt path) (readRequest raw)).decision = .allow := by
  have scope : CredentialVendingEngine.scope (rootAt path) (readRequest raw) = .ok (⟨"root", .managedRoot⟩, none) := by
    unfold CredentialVendingEngine.scope
    have decided : (rootAt path).authorityForPath (readRequest raw).workspaceId (readRequest raw).requestedPath =
      .ok ⟨"root", .managedRoot⟩ := authorityForPath_rootAt parsed
    simp only [decided]
    rfl
  rw [CredentialVendingEngine.decidePath, scope]

end

theorem authorityPath_rootAt (path : GovernedPath) :
    (rootAt path).authorityPath ⟨"root", .managedRoot⟩ = some path := by
  simp [rootAt, placeRoot, authorityPath]

theorem prefix_of_insideAuthority (parsed : GovernedPath.parse raw = .ok path) {engine : CredentialVendingEngine}
    {stamp : Stamp}
    (inside : InsideAuthority (rootAt path) (readRequest raw) (engine.decidePath stamp (rootAt path) (readRequest raw))) :
    path.canonicalUri.toList <+: (normalizePrefix raw).toList := by
  obtain ⟨_, _, decided, _, isPath, starts⟩ := inside
  obtain rfl := Except.ok.inj ((authorityForPath_rootAt parsed).symm.trans decided)
  obtain rfl := some.inj ((authorityPath_rootAt path).symm.trans isPath)
  obtain ⟨_, -, -, isGranted⟩ := CredentialVendingEngine.decidePath_of_allow (allowed_rootAt parsed engine stamp)
  exact starts _ (isGranted ▸ mem_singleton_self _)

end Root

/-- The granted prefixes lie inside the authority in every state and for every request that asks for the path, if and only
if the path, when it can be parsed at all, is written in its canonical form up to slashes at its end. -/
theorem granted_insideAuthority_iff (raw : String) :
    (∀ (engine : CredentialVendingEngine) (stamp : Stamp) (state : StorageGovernanceState)
        (request : CredentialVendingRequest), state.Built → request.requestedPath = raw →
        (engine.decidePath stamp state request).decision = .allow →
        InsideAuthority state request (engine.decidePath stamp state request)) ↔
      (∀ path, GovernedPath.parse raw = .ok path → ∀ address, Address.read raw.toList = some address → address.Literal) := by
  constructor
  · intro inside path parsed
    rw [← canonicalUri_starts_iff parsed]
    exact prefix_of_insideAuthority parsed (inside {} ⟨0, ""⟩ _ _ (built_rootAt parsed) rfl (allowed_rootAt parsed {} ⟨0, ""⟩))
  · rintro literal _ _ _ _ built rfl allowed
    refine CredentialVendingEngine.insideAuthority_of_prefix built allowed fun path parsed => ?_
    exact (canonicalUri_starts_iff parsed).mpr (literal path parsed)

theorem granted_insideAuthority_iff_data :
    InsideAuthority (rootAt ⟨"s3", some "bucket", "/data/"⟩) (readRequest "s3://bucket/data")
      (CredentialVendingEngine.decidePath {} ⟨0, ""⟩ (rootAt ⟨"s3", some "bucket", "/data/"⟩)
        (readRequest "s3://bucket/data")) := by
  have parsed : parse "s3://bucket/data" = .ok ⟨"s3", some "bucket", "/data/"⟩ := by decide +kernel
  refine (granted_insideAuthority_iff "s3://bucket/data").mpr (fun _ _ address isRead => ?_) _ _ _ _ (built_rootAt parsed) rfl
    (allowed_rootAt parsed _ _)
  have isAddress : read "s3://bucket/data".toList =
    some ⟨"s3".toList, some "bucket".toList, "/data".toList⟩ := by decide +kernel
  obtain rfl := some.inj (isAddress.symm.trans isRead)
  exact ⟨by decide, by decide, by simp, by decide, by decide⟩

/-- A path that is written with capital letters is authorized in small ones. -/
theorem granted_outsideAuthority :
    ¬ ∀ (engine : CredentialVendingEngine) (stamp : Stamp) (state : StorageGovernanceState)
      (request : CredentialVendingRequest), state.Built → (engine.decidePath stamp state request).decision = .allow →
      InsideAuthority state request (engine.decidePath stamp state request) := by
  intro inside
  have parsed : parse "S3://Bucket/data" = .ok ⟨"s3", some "bucket", "/data/"⟩ := by decide +kernel
  have starts := prefix_of_insideAuthority parsed
    (inside {} ⟨0, ""⟩ _ _ (built_rootAt parsed) (allowed_rootAt parsed _ _))
  revert starts
  decide +kernel

end Arco.Governance
