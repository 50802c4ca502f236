import Arco.Governance.Loading

/-! Who answers for a path.

The indexes hold the active objects and the active bindings, and nothing else. As the paths of active objects do not
overlap, at most one of them contains a given path.
-/

namespace Arco.Governance

open Arco.Metastore Results Option

theorem exists_insert_of_absent {V : Type} {map : BTreeMap V} {new : String} (absent : map[new]? = none) (value : V)
    (p : V → Prop) : (∃ (id : String) (v : V), (map.insert new value)[id]? = some v ∧ p v) ↔
      (∃ (id : String) (v : V), map[id]? = some v ∧ p v) ∨ p value := by
  constructor
  · rintro ⟨id, v, found, holds⟩
    rw [getElem?_insert] at found
    split at found
    · exact .inr (some.inj found ▸ holds)
    · exact .inl ⟨id, v, found, holds⟩
  · rintro (⟨id, v, found, holds⟩ | holds)
    · exact ⟨id, v, getElem?_insert_of_absent found absent _, holds⟩
    · exact ⟨new, value, Std.TreeMap.getElem?_insert_self, holds⟩

theorem GovernedPath.overlaps_of_contains {path first second : GovernedPath} (inFirst : first.contains path = true)
    (inSecond : second.contains path = true) : first.overlaps second = true := by
  simp only [contains, overlaps, decide_eq_true_eq] at inFirst inSecond ⊢
  refine ⟨inFirst.1.trans inSecond.1.symm, inFirst.2.1.trans inSecond.2.1.symm, ?_⟩
  exact List.prefix_or_prefix_of_prefix inSecond.2.2 inFirst.2.2

theorem authorityBindingKey_inj {first second : PathAuthority} :
    authorityBindingKey first = authorityBindingKey second ↔ first.kind = second.kind ∧ first.objectId = second.objectId := by
  rw [authorityBindingKey, authorityBindingKey, Prod.mk.injEq]
  cases first.kind <;> cases second.kind <;> simp [authorityObjectType]

namespace StorageGovernanceState

variable {state : StorageGovernanceState} {workspaceId : String} {path : GovernedPath}

/-- An active binding of the workspace names the object. -/
def Bound (state : StorageGovernanceState) (workspaceId : String) (object : String × String) : Prop :=
  ∃ (id : String) (binding : WorkspaceBinding), state.workspaceBindings[id]? = some binding ∧
    binding.lifecycleState = .active ∧ binding.workspaceId = workspaceId ∧
      (Text.toAsciiUppercase binding.objectType, binding.objectId) = object

structure Located (locations : BTreeMap ExternalLocation) (roots : BTreeMap ManagedRoot) : Prop where
  locations : ∀ (id : String) location, locations[id]? = some location → location.locationId = id
  roots : ∀ (id : String) root, roots[id]? = some root → root.rootId = id

theorem Located.authorityPath_eq (located : Located state.externalLocations state.managedRoots) {authority : PathAuthority}
    (member : authority ∈ state.activeAuthorities) :
    state.authorityPath ⟨authority.objectId, authority.kind⟩ = some authority.path := by
  obtain ⟨-, ⟨id, location, found, rfl⟩ | ⟨id, root, found, rfl⟩⟩ := mem_activeAuthorities.mp member
  · obtain rfl := located.locations id location found
    exact map_eq_some_iff.mpr ⟨location, found, rfl⟩
  · obtain rfl := located.roots id root found
    exact map_eq_some_iff.mpr ⟨root, found, rfl⟩

structure Exact (state : StorageGovernanceState) : Prop where
  located : Located state.externalLocations state.managedRoots
  apart : ∀ first ∈ state.activeAuthorities, ∀ second ∈ state.activeAuthorities,
    first.path.overlaps second.path = true → first = second
  byObject : ∀ (key : String × String) authority, state.authoritiesByObject[key]? = some authority ↔
    authority ∈ state.activeAuthorities ∧ authorityBindingKey authority = key
  byWorkspace : ∀ (workspaceId : String) authority, authority ∈ state.authoritiesByWorkspace[workspaceId]?.getD [] ↔
    authority ∈ state.activeAuthorities ∧ authority.workspaceId = some workspaceId
  bound : ∀ (workspaceId : String) object, object ∈ state.bindingsByWorkspace[workspaceId]?.getD {} ↔
    state.Bound workspaceId object

section Keeping

variable (exact : state.Exact)
include exact

theorem Exact.index {wider : StorageGovernanceState} {new : PathAuthority}
    (members : ∀ authority, authority ∈ wider.activeAuthorities ↔
      authority ∈ state.activeAuthorities ∨ new.lifecycleState = .active ∧ authority = new)
    (objects : wider.authoritiesByObject = state.authoritiesByObject)
    (workspaces : wider.authoritiesByWorkspace = state.authoritiesByWorkspace)
    (bound : ∀ (workspaceId : String) object, object ∈ wider.bindingsByWorkspace[workspaceId]?.getD {} ↔
      wider.Bound workspaceId object)
    (absent : state.authorityPath ⟨new.objectId, new.kind⟩ = none)
    (unclaimed : new.lifecycleState = .active → state.Unclaimed new.objectId new.kind new.path)
    (located : Located wider.externalLocations wider.managedRoots) : (wider.indexAuthority new).Exact := by
  have fresh : ∀ authority ∈ state.activeAuthorities, authorityBindingKey authority ≠ authorityBindingKey new := by
    intro authority member same
    have there := exact.located.authorityPath_eq member
    rw [authorityBindingKey_inj] at same
    rw [same.1, same.2, absent] at there
    cases there
  by_cases active : new.lifecycleState = .active
  · have free : ∀ authority ∈ state.activeAuthorities, authority.path.overlaps new.path = false := by
      intro authority member
      refine unclaimed active authority member fun same => fresh authority member ?_
      exact authorityBindingKey_inj.mpr same.symm
    rw [indexAuthority_eq, if_pos active]
    refine ⟨located, ?_, ?_, ?_, bound⟩
    · intro first isFirst second isSecond overlaps
      obtain old | ⟨-, rfl⟩ := (members first).mp isFirst <;> obtain old' | ⟨-, rfl⟩ := (members second).mp isSecond
      · exact exact.apart first old second old' overlaps
      · rw [free first old] at overlaps
        cases overlaps
      · rw [GovernedPath.overlaps_comm, free second old'] at overlaps
        cases overlaps
      · rfl
    · intro key authority
      refine Iff.trans ?_ (and_congr_left fun _ => (members authority).symm)
      simp only [getElem?_insert, objects]
      split
      · rename_i same
        constructor
        · rintro ⟨⟩
          exact ⟨.inr ⟨active, rfl⟩, same.symm⟩
        · rintro ⟨old | ⟨-, rfl⟩, isKey⟩
          · exact absurd (isKey.trans same) (fresh authority old)
          · rfl
      · rw [exact.byObject]
        grind
    · intro workspaceId authority
      refine Iff.trans ?_ (and_congr_left fun _ => (members authority).symm)
      have before := exact.byWorkspace workspaceId authority
      cases isWorkspace : new.workspaceId with
      | none =>
        simp only [workspaces, before]
        grind
      | some own =>
        simp only [getElem?_insert, workspaces]
        split
        · rename_i same
          subst same
          simp only [getD_some, List.mem_append, List.mem_singleton, before]
          grind
        · rw [before]
          grind
  · rw [indexAuthority_of_inactive active]
    have same : ∀ authority, authority ∈ wider.activeAuthorities ↔ authority ∈ state.activeAuthorities := by
      simp [members, active]
    refine ⟨located, ?_, ?_, ?_, bound⟩
    · simpa only [same] using exact.apart
    · simpa only [same, objects] using exact.byObject
    · simpa only [same, workspaces] using exact.byWorkspace

theorem Exact.placeLocation {location : ExternalLocation} (absent : state.externalLocations[location.locationId]? = none)
    (unclaimed : location.lifecycleState = .active → state.Unclaimed location.locationId .externalLocation location.path) :
    (state.placeLocation location).Exact := by
  refine exact.index ?_ rfl rfl exact.bound (map_eq_none_iff.mpr absent) unclaimed
    ⟨keyed_insert exact.located.locations location, exact.located.roots⟩
  intro authority
  rw [mem_activeAuthorities, mem_activeAuthorities, exists_insert_of_absent absent]
  grind [pathAuthorityForExternalLocation]

theorem Exact.placeRoot {root : ManagedRoot} (absent : state.managedRoots[root.rootId]? = none)
    (unclaimed : root.lifecycleState = .active → state.Unclaimed root.rootId .managedRoot root.path) :
    (state.placeRoot root).Exact := by
  refine exact.index ?_ rfl rfl exact.bound (map_eq_none_iff.mpr absent) unclaimed
    ⟨exact.located.locations, keyed_insert exact.located.roots root⟩
  intro authority
  rw [mem_activeAuthorities, mem_activeAuthorities, exists_insert_of_absent absent]
  grind [pathAuthorityForManagedRoot]

theorem Exact.placeBinding {binding : WorkspaceBinding} (absent : state.workspaceBindings[binding.bindingId]? = none) :
    (state.placeBinding binding).Exact := by
  unfold StorageGovernanceState.placeBinding bindingIndexEntry
  by_cases active : binding.lifecycleState = .active
  · rw [if_pos active]
    refine ⟨exact.located, exact.apart, exact.byObject, exact.byWorkspace, ?_⟩
    intro workspaceId object
    rw [Bound, exists_insert_of_absent absent, ← Bound, ← exact.bound, getElem?_insert]
    split
    · rename_i same
      subst same
      simp [active, Std.TreeSet.mem_insert, or_comm]
    · simp [active, Ne.symm ‹_›]
  · rw [if_neg active]
    refine ⟨exact.located, exact.apart, exact.byObject, exact.byWorkspace, ?_⟩
    intro workspaceId object
    rw [Bound, exists_insert_of_absent absent, ← Bound, ← exact.bound]
    simp [active]

theorem Exact.credential (credentials : BTreeMap StorageCredentialMetadata) : { state with credentials }.Exact :=
  ⟨exact.located, exact.apart, exact.byObject, exact.byWorkspace, exact.bound⟩

end Keeping

theorem exact_empty : ({} : StorageGovernanceState).Exact where
  located := ⟨by simp, by simp⟩
  apart := by simp [activeAuthorities, values]
  byObject := by simp [activeAuthorities, values]
  byWorkspace := by simp [activeAuthorities, values]
  bound := by simp [Bound]

theorem exact_fromMetastoreState {metastore : MetastoreState} (keyed : metastore.Keyed)
    (loaded : fromMetastoreState metastore = .ok state) : state.Exact := by
  obtain ⟨_, _, _, stages⟩ := fromMetastoreState_eq_ok.mp loaded
  have start := foldlM_invariant (fun _ state => state.Exact) (fun exact loaded => by
    obtain ⟨-, rfl⟩ := createStorageCredential_eq_ok.mp loaded
    exact exact.credential _) exact_empty stages.credentials
  have placed := foldlM_invariant (fun records state => Underway records (values metastore.managedRoots) state ∧ state.Exact)
    (fun ⟨underway, exact⟩ loaded => ⟨underway.location loaded, by
      obtain ⟨path, -, accepts, rfl⟩ := loadLocation_eq_ok.mp loaded
      exact exact.placeLocation (underway.locations.1 _ List.mem_cons_self) fun active => (accepts active).unclaimed⟩)
    ⟨stages.underway keyed, start⟩ stages.locations
  have rooted := foldlM_invariant (fun records state => Underway [] records state ∧ state.Exact)
    (fun ⟨underway, exact⟩ loaded => ⟨underway.root loaded, by
      obtain ⟨_, -, accepts, rfl⟩ := loadRoot_eq_ok.mp loaded
      exact exact.placeRoot (underway.roots.1 _ List.mem_cons_self) fun active => (accepts active).unclaimed⟩)
    placed stages.roots
  refine foldlM_invariant (fun _ state => state.Exact) (fun exact loaded => ?_) rooted.2 stages.bindings
  obtain ⟨absent, -, rfl⟩ := loadBinding_eq_ok.mp loaded
  exact exact.placeBinding absent

theorem Built.exact (built : state.Built) : state.Exact := by
  induction built with
  | empty => exact exact_empty
  | loaded loads => exact exact_fromMetastoreState (keyed_replayEvents _) loads
  | credential _ created exact =>
    obtain ⟨-, rfl⟩ := createStorageCredential_eq_ok.mp created
    exact exact.credential _
  | location _ _ created exact =>
    obtain ⟨accepts, rfl⟩ := createExternalLocation_eq_ok.mp created
    exact exact.placeLocation accepts.absent fun _ => accepts.unclaimed
  | root _ _ created exact =>
    obtain ⟨accepts, rfl⟩ := createManagedRoot_eq_ok.mp created
    exact exact.placeRoot accepts.absent fun _ => accepts.unclaimed
  | locationRow _ absent loads exact =>
    obtain ⟨_, -, accepts, rfl⟩ := loadLocation_eq_ok.mp loads
    exact exact.placeLocation absent fun active => (accepts active).unclaimed
  | rootRow _ absent loads exact =>
    obtain ⟨_, -, accepts, rfl⟩ := loadRoot_eq_ok.mp loads
    exact exact.placeRoot absent fun active => (accepts active).unclaimed
  | binding _ bound exact =>
    obtain ⟨absent, -, rfl⟩ := bindWorkspace_eq_ok.mp bound
    exact exact.placeBinding absent

/-- The authority is active, its path contains the path, and it is a root of the workspace or bound to it. -/
structure Answers (state : StorageGovernanceState) (workspaceId : String) (path : GovernedPath) (authority : PathAuthority) :
    Prop where
  active : authority ∈ state.activeAuthorities
  inside : authority.path.contains path = true
  serves : authority.workspaceId = some workspaceId ∨ state.Bound workspaceId (authorityBindingKey authority)

theorem mem_foldl {α : Type} {step : ObjectMap PathAuthority → α → ObjectMap PathAuthority} {key : String × String}
    {x : α} {list : List α} {start : ObjectMap PathAuthority} (member : x ∈ list) (hit : ∀ found, key ∈ step found x)
    (grows : ∀ found y, key ∈ found → key ∈ step found y) : key ∈ list.foldl step start := by
  obtain ⟨_, back, rfl⟩ := List.append_of_mem member
  rw [List.foldl_append, List.foldl_cons]
  exact List.foldlRecOn (motive := (key ∈ ·)) back _ (hit _) fun found there y _ => grows found y there

section Candidates

variable (exact : state.Exact)
include exact

variable {authority : PathAuthority}

theorem Exact.answers_of_candidate {key : String × String}
    (found : (state.candidates workspaceId path)[key]? = some authority) :
    authorityBindingKey authority = key ∧ state.Answers workspaceId path authority := by
  let Sound (found : ObjectMap PathAuthority) : Prop := ∀ key authority, found[key]? = some authority →
    authorityBindingKey authority = key ∧ state.Answers workspaceId path authority
  refine List.foldlRecOn (motive := Sound) _ _ (List.foldlRecOn (motive := Sound) _ _ (by simp [Sound]) ?_) ?_ key authority found
  · intro found sound own member key authority isFound
    obtain ⟨member, inside⟩ := List.mem_filter.mp member
    obtain ⟨active, serves⟩ := (exact.byWorkspace workspaceId own).mp member
    rw [getElem?_insert] at isFound
    split at isFound
    · obtain rfl := some.inj isFound
      exact ⟨Eq.symm ‹_›, active, inside, .inl serves⟩
    · exact sound key authority isFound
  · intro found sound binding member key authority isFound
    have bound := (exact.bound workspaceId binding).mp (Std.TreeSet.mem_toList.mp member)
    split at isFound
    · rename_i other isObject
      obtain ⟨active, rfl⟩ := (exact.byObject binding other).mp isObject
      split at isFound
      · rename_i inside
        rw [getElem?_insert] at isFound
        split at isFound
        · obtain rfl := some.inj isFound
          exact ⟨Eq.symm ‹_›, active, inside, .inr bound⟩
        · exact sound key authority isFound
      · exact sound key authority isFound
    · exact sound key authority isFound

theorem Exact.candidate_of_answers (answers : state.Answers workspaceId path authority) :
    authorityBindingKey authority ∈ state.candidates workspaceId path := by
  obtain own | bound := answers.serves
  · refine List.foldlRecOn (motive := (authorityBindingKey authority ∈ ·)) _ _ ?_ ?_
    · refine mem_foldl (List.mem_filter.mpr ⟨(exact.byWorkspace _ _).mpr ⟨answers.active, own⟩, answers.inside⟩) ?_ ?_
      · exact fun found => Std.TreeMap.mem_insert_self
      · exact fun found other member => Std.TreeMap.mem_insert.mpr (.inr member)
    · intro found member binding _
      grind
  · refine mem_foldl (Std.TreeSet.mem_toList.mpr ((exact.bound _ _).mpr bound)) ?_ ?_
    · simp [(exact.byObject _ _).mpr ⟨answers.active, rfl⟩, answers.inside]
    · intro found binding member
      grind

theorem Exact.only {other : PathAuthority} (answers : state.Answers workspaceId path authority)
    (active : other ∈ state.activeAuthorities) (inside : other.path.contains path = true) : authority = other :=
  exact.apart authority answers.active other active (GovernedPath.overlaps_of_contains answers.inside inside)

/-- There is one candidate at most, and it is the answer. -/
theorem Exact.authorityForPath_cases {uri : String} (parsed : GovernedPath.parse uri = .ok path) (workspaceId : String) :
    (∀ authority, ¬ state.Answers workspaceId path authority) ∧
        state.authorityForPath workspaceId uri = .error (.notFound "path_authority" path.canonicalUri) ∨
      ∃ authority, state.Answers workspaceId path authority ∧
        state.authorityForPath workspaceId uri = .ok ⟨authority.objectId, authority.kind⟩ := by
  have spec : ∀ entry ∈ (state.candidates workspaceId path).toList,
      authorityBindingKey entry.2 = entry.1 ∧ state.Answers workspaceId path entry.2 :=
    fun entry member => exact.answers_of_candidate (Std.TreeMap.mem_toList_iff_getElem?_eq_some.mp member)
  have distinct := (state.candidates workspaceId path).distinct_keys_toList
  simp only [authorityForPath, parsed, bind, Except.bind]
  cases isList : (state.candidates workspaceId path).toList with
  | nil =>
    refine .inl ⟨fun authority answers => ?_, rfl⟩
    have member := exact.candidate_of_answers answers
    rw [Std.TreeMap.mem_iff_isSome_getElem?, isSome_iff_exists] at member
    obtain ⟨other, found⟩ := member
    have listed := Std.TreeMap.mem_toList_iff_getElem?_eq_some.mpr found
    rw [isList] at listed
    cases listed
  | cons entry rest =>
    rw [isList] at spec distinct
    obtain ⟨isKey, answers⟩ := spec entry List.mem_cons_self
    obtain rfl : rest = [] := by
      refine List.eq_nil_iff_forall_not_mem.mpr fun other member => ?_
      obtain ⟨isOther, answers'⟩ := spec other (List.mem_cons_of_mem _ member)
      refine (List.pairwise_cons.mp distinct).1 other member ?_
      rw [← isKey, ← isOther, exact.only answers answers'.active answers'.inside]
      exact Std.ReflCmp.compare_self
    exact .inr ⟨entry.2, answers, rfl⟩

end Candidates

/-- A path decision names an object whose path contains the path that was asked for. -/
theorem Built.authorityForPath_spec (built : state.Built) {workspaceId uri : String} {named : PathDecision}
    (decided : state.authorityForPath workspaceId uri = .ok named) :
    ∃ path authorityPath, GovernedPath.parse uri = .ok path ∧ state.authorityPath named = some authorityPath ∧
      authorityPath.contains path = true := by
  obtain ⟨path, parsed, -⟩ := bind_eq_ok.mp decided
  obtain ⟨-, isError⟩ | ⟨_, answers, isOk⟩ := built.exact.authorityForPath_cases parsed workspaceId
  · cases isError.symm.trans decided
  · obtain rfl := Except.ok.inj (isOk.symm.trans decided)
    exact ⟨path, _, parsed, built.exact.located.authorityPath_eq answers.active, answers.inside⟩

/-- The one active authority that contains the path answers for it, to the workspaces that it serves. -/
theorem authorityForPath_exact {uri : String} (built : state.Built) (parsed : GovernedPath.parse uri = .ok path)
    (workspaceId : String) (decision : PathDecision) :
    state.authorityForPath workspaceId uri ≠ .error (.preconditionFailed "ambiguous path authority") ∧
      (state.authorityForPath workspaceId uri = .ok decision ↔
        ∃ authority : PathAuthority, decision = ⟨authority.objectId, authority.kind⟩ ∧
          (∀ other, other ∈ state.activeAuthorities ∧ other.path.contains path = true ↔ other = authority) ∧
          (authority.workspaceId = some workspaceId ∨ state.Bound workspaceId (authorityBindingKey authority))) := by
  have exact := built.exact
  obtain ⟨none, isError⟩ | ⟨authority, answers, isOk⟩ := exact.authorityForPath_cases parsed workspaceId
  · rw [isError]
    refine ⟨by simp, by simp, ?_⟩
    rintro ⟨authority, -, one, serves⟩
    obtain ⟨active, inside⟩ := (one authority).mpr rfl
    exact absurd ⟨active, inside, serves⟩ (none authority)
  · rw [isOk, Except.ok.injEq]
    refine ⟨by simp, ?_⟩
    constructor
    · rintro rfl
      refine ⟨authority, rfl, fun other => ⟨fun ⟨active, inside⟩ => ?_, ?_⟩, answers.serves⟩
      · exact (exact.only answers active inside).symm
      · rintro rfl
        exact ⟨answers.active, answers.inside⟩
    · rintro ⟨_, rfl, one, -⟩
      rw [(one authority).mp ⟨answers.active, answers.inside⟩]

def rootNamed (id path : String) : ManagedRoot := ⟨id, id, "w", ⟨"gs", some "b", path⟩, "o", .active⟩

/-- The path lies in the first one of two roots. -/
theorem authorityForPath_exact_root : ∃ (state : StorageGovernanceState) (path : GovernedPath), state.Built ∧
    state.managedRoots.size = 2 ∧ GovernedPath.parse "gs://b/a/x" = .ok path ∧
      ∃ authority : PathAuthority, authority.objectId = "r" ∧ ∀ other, other ∈ state.activeAuthorities ∧
        other.path.contains path = true ↔ other = authority := by
  have parsed : GovernedPath.parse "gs://b/a/x" = .ok ⟨"gs", some "b", "/a/x/"⟩ := by decide +kernel
  have first : Built (placeRoot {} (rootNamed "r" "/a/")) := .root .empty ⟨"gs://b/a", by decide +kernel⟩ rfl
  have built : Built (placeRoot (placeRoot {} (rootNamed "r" "/a/")) (rootNamed "s" "/c/")) :=
    @Built.root _ _ (rootNamed "s" "/c/") first ⟨"gs://b/c", by decide +kernel⟩ rfl
  obtain ⟨authority, isAuthority, one, -⟩ :=
    (authorityForPath_exact built parsed "w" ⟨"r", .managedRoot⟩).2.mp (by decide +kernel)
  exact ⟨_, _, built, by decide +kernel, parsed, authority, (congrArg PathDecision.objectId isAuthority).symm, one⟩

end StorageGovernanceState

end Arco.Governance
