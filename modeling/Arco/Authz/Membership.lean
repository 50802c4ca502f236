import Mathlib.Data.String.Basic
import Mathlib.Data.Finset.Card
import Arco.Data.Rounds
import Arco.Data.Worklist

/-! Group membership: who belongs to a group, directly or through other groups. -/

namespace Arco.Authz

open List Std.TreeMap Rounds Worklist Relation

structure GroupMembership where
  memberPrincipalId : String
  groupPrincipalId : String

abbrev PrincipalSet : Type := Std.TreeSet String

abbrev MemberToGroups : Type := Std.TreeMap String PrincipalSet

structure IdentitySnapshot where
  snapshotVersion : String
  memberToGroups : MemberToGroups

def groupsOf (memberToGroups : MemberToGroups) (principalId : String) : List String :=
  ((memberToGroups[principalId]?).map Std.TreeSet.toList).getD []

def Member (memberToGroups : MemberToGroups) (member group : String) : Prop := group ∈ groupsOf memberToGroups member

def addMembership (memberToGroups : MemberToGroups) (membership : GroupMembership) : MemberToGroups :=
  memberToGroups.insert membership.memberPrincipalId
    ((memberToGroups[membership.memberPrincipalId]?.getD {}).insert membership.groupPrincipalId)

def IdentitySnapshot.new (snapshotVersion : String) (memberships : List GroupMembership) : IdentitySnapshot :=
  { snapshotVersion, memberToGroups := memberships.foldl addMembership {} }

theorem member_addMembership {memberToGroups : MemberToGroups} {membership : GroupMembership} {member group : String} :
    Member (addMembership memberToGroups membership) member group ↔
      Member memberToGroups member group ∨ ⟨member, group⟩ = membership := by
  obtain ⟨member', group'⟩ := membership
  by_cases same : member' = member
  · subst same
    cases found : memberToGroups[member']? <;>
      simp [Member, groupsOf, addMembership, found, @eq_comm _ group', or_comm]
  · simp [Member, groupsOf, addMembership, Std.TreeMap.getElem?_insert, same, Ne.symm same]

theorem member_new {snapshotVersion : String} {memberships : List GroupMembership} {member group : String} :
    Member (IdentitySnapshot.new snapshotVersion memberships).memberToGroups member group ↔
      ⟨member, group⟩ ∈ memberships := by
  have added : ∀ start : MemberToGroups, Member (memberships.foldl addMembership start) member group ↔
      Member start member group ∨ ⟨member, group⟩ ∈ memberships := by
    induction memberships with
    | nil => simp
    | cons membership memberships ih =>
      intro start
      rw [foldl_cons, ih, member_addMembership, mem_cons, or_assoc]
  rw [IdentitySnapshot.new, added]
  simp [Member, groupsOf]

/-- A round of the search: the last group of the stack is taken from it. -/
def searchGroup (memberToGroups : MemberToGroups) (target : String) :
    List String × List String → (List String × List String) ⊕ Bool
  | (_, []) => .inr false
  | (visited, current :: stack) =>
    if current = target then .inr true
    else if current ∈ visited then .inl (visited, stack)
    -- The groups of the member are pushed in order, so the last one is on top.
    else .inl (current :: visited, (groupsOf memberToGroups current).reverse ++ stack)

def groupReaches (startGroupId targetGroupId : String) (memberToGroups : MemberToGroups) : Rounds Bool :=
  .loop (searchGroup memberToGroups targetGroupId) ([], [startGroupId])

section Search

variable {memberToGroups : MemberToGroups} {start target : String}

def unvisited (memberToGroups : MemberToGroups) (visited : List String) : Finset String :=
  memberToGroups.keys.toFinset.filter (· ∉ visited)

theorem unvisited_subset (current : String) (visited : List String) :
    unvisited memberToGroups (current :: visited) ⊆ unvisited memberToGroups visited := by
  refine Finset.monotone_filter_right _ fun member _ outside inside => ?_
  exact outside (mem_cons_of_mem _ inside)

theorem unvisited_ssubset {current : String} {visited : List String} (new : current ∉ visited)
    (known : current ∈ memberToGroups.keys) :
    unvisited memberToGroups (current :: visited) ⊂ unvisited memberToGroups visited := by
  refine ⟨unvisited_subset current visited, fun back => ?_⟩
  have stays := back (Finset.mem_filter.mpr ⟨mem_toFinset.mpr known, new⟩)
  exact (Finset.mem_filter.mp stays).2 mem_cons_self

theorem groupReaches_halts (start target : String) : (groupReaches start target memberToGroups).Halts := by
  refine halts_loop (Prod.lex Nat.lt_wfRel Nat.lt_wfRel).wf
    (fun s => ((unvisited memberToGroups s.1).card, s.2.length)) ?_
  rintro ⟨visited, stack⟩ _ goesOn
  cases stack with
  | nil => cases goesOn
  | cons current stack =>
    simp only [searchGroup] at goesOn
    split at goesOn
    · cases goesOn
    · split at goesOn
      · obtain rfl := Sum.inl.inj goesOn
        exact Prod.Lex.right _ (Nat.lt_succ_self _)
      · rename_i _ new
        obtain rfl := Sum.inl.inj goesOn
        by_cases known : current ∈ memberToGroups.keys
        · exact Prod.Lex.left _ _ (Finset.card_lt_card (unvisited_ssubset new known))
        · -- A group that is a member of nothing pushes nothing.
          have none : groupsOf memberToGroups current = [] := by
            have absent : memberToGroups[current]? = none := by
              exact getElem?_eq_none fun isKey => known (mem_keys.mpr isKey)
            simp [groupsOf, absent]
          obtain less | same := (Finset.card_le_card (unvisited_subset current visited)).lt_or_eq
          · exact Prod.Lex.left _ _ less
          · simp only [none, same]
            exact Prod.Lex.right _ (Nat.lt_succ_self _)

theorem searched_round {s s' : List String × List String} (goesOn : searchGroup memberToGroups target s = .inl s')
    (searched : Searched (Member memberToGroups) start s.1 s.2 ∧ target ∉ s.1) :
    Searched (Member memberToGroups) start s'.1 s'.2 ∧ target ∉ s'.1 := by
  obtain ⟨_, stack⟩ := s
  obtain ⟨searched, missed⟩ := searched
  cases stack with
  | nil => cases goesOn
  | cons current stack =>
    simp only [searchGroup] at goesOn
    split at goesOn
    · cases goesOn
    · rename_i other
      split at goesOn
      · rename_i old
        obtain rfl := Sum.inl.inj goesOn
        exact ⟨searched.skip old, missed⟩
      · obtain rfl := Sum.inl.inj goesOn
        refine ⟨searched.take (fun _ => mem_cons) (subset_append_right _ _) (fun group onStack => ?_)
          fun group isGroup => .inr (mem_append_left _ (mem_reverse.mpr isGroup)), ?_⟩
        · exact (mem_append.mp onStack).symm.imp_right mem_reverse.mp
        · simp only [mem_cons, not_or]
          exact ⟨Ne.symm other, missed⟩

open Classical in
theorem groupReaches_returns (start target : String) : (groupReaches start target memberToGroups).Returns
    (decide (ReflTransGen (Member memberToGroups) start target)) := by
  obtain ⟨found, returns⟩ : (groupReaches start target memberToGroups).Halts := groupReaches_halts start target
  obtain ⟨⟨_, stack⟩, ⟨searched, missed⟩, ends⟩ := returns.of_loop ⟨searched_start start, not_mem_nil⟩
    fun _ _ searched goesOn => searched_round goesOn searched
  suffices found = decide (ReflTransGen (Member memberToGroups) start target) from this ▸ returns
  cases stack with
  | nil =>
    obtain rfl : false = found := Sum.inr.inj ends
    exact (decide_eq_false fun path => missed (searched.mem_iff.mpr path)).symm
  | cons current stack =>
    simp only [searchGroup] at ends
    split at ends
    · rename_i same
      obtain rfl : true = found := Sum.inr.inj ends
      exact (decide_eq_true (same ▸ searched.reached current (.inr mem_cons_self))).symm
    · split at ends <;> cases ends

end Search

def belongs (memberToGroups : MemberToGroups) (principalId : String) (entry : String × PrincipalSet) : Rounds Bool :=
  if entry.2.contains principalId then pure true
  else any (fun groupId => groupReaches groupId principalId memberToGroups) entry.2.toList

def IdentitySnapshot.effectiveMembers (identity : IdentitySnapshot) (principalId : String) : Rounds (List String) := do
  let members ← filter (belongs identity.memberToGroups principalId) identity.memberToGroups.toList
  let itself : PrincipalSet := {principalId}
  pure (members.foldl (fun effective entry => effective.insert entry.1) itself).toList

section Effective

variable {identity : IdentitySnapshot} {principalId : String}

open Classical in
theorem belongs_returns {entry : String × PrincipalSet} (isEntry : entry ∈ identity.memberToGroups.toList) :
    (belongs identity.memberToGroups principalId entry).Returns
      (decide (TransGen (Member identity.memberToGroups) entry.1 principalId)) := by
  obtain ⟨member, groups⟩ := entry
  have groupsOf_member : groupsOf identity.memberToGroups member = groups.toList := by
    simp [groupsOf, mem_toList_iff_getElem?_eq_some.mp isEntry]
  have through : TransGen (Member identity.memberToGroups) member principalId ↔
      ∃ group ∈ groups.toList, ReflTransGen (Member identity.memberToGroups) group principalId := by
    rw [TransGen.head'_iff]
    simp [Member, groupsOf_member]
  simp only [belongs]
  split
  · rename_i direct
    have chain := through.mpr ⟨principalId, Std.TreeSet.mem_toList.mpr direct, .refl⟩
    exact returns_pure.mpr (decide_eq_true chain).symm
  · have searched : (any (fun groupId => groupReaches groupId principalId identity.memberToGroups)
        groups.toList).Returns
        (groups.toList.any fun group => ReflTransGen (Member identity.memberToGroups) group principalId) :=
      returns_any fun group _ => groupReaches_returns group principalId
    convert searched using 1
    rw [Bool.eq_iff_iff]
    simp [through]

/-- The effective members of a principal are those with a chain of memberships to it. -/
theorem effectiveMembers_returns (identity : IdentitySnapshot) (principalId : String) :
    ∃ members, (identity.effectiveMembers principalId).Returns members ∧
      ∀ member, member ∈ members ↔ ReflTransGen (Member identity.memberToGroups) member principalId := by
  classical
  refine ⟨_, returns_bind.mpr ⟨_, returns_filter fun _ => belongs_returns, returns_pure.mpr rfl⟩,
    fun member => ?_⟩
  have inserted : ∀ (entries : List (String × PrincipalSet)) (start : PrincipalSet),
      member ∈ entries.foldl (fun effective entry => effective.insert entry.1) start ↔
        member ∈ start ∨ member ∈ entries.map Prod.fst := by
    intro entries
    induction entries with
    | nil => simp
    | cons entry entries ih =>
      intro start
      simp only [foldl_cons, ih, Std.TreeSet.mem_insert, map_cons, mem_cons, compare_eq_iff_eq]
      tauto
  rw [Std.TreeSet.mem_toList, inserted]
  constructor
  · rintro (itself | belonging)
    · obtain rfl : principalId = member := by simpa using itself
      exact .refl
    · obtain ⟨entry, passed, rfl⟩ := mem_map.mp belonging
      exact (of_decide_eq_true (mem_filter.mp passed).2).to_reflTransGen
  · intro path
    obtain rfl | chain := reflTransGen_iff_eq_or_transGen.mp path
    · exact .inl (by simp)
    · -- Who is a member of something has an entry.
      obtain ⟨_, isGroup, _⟩ := TransGen.head'_iff.mp chain
      cases found : identity.memberToGroups[member]? with
      | none => simp [Member, groupsOf, found] at isGroup
      | some groups =>
        have isEntry := mem_toList_iff_getElem?_eq_some.mpr found
        exact .inr (mem_map.mpr ⟨(member, groups), mem_filter.mpr ⟨isEntry, decide_eq_true chain⟩, rfl⟩)

end Effective

end Arco.Authz
