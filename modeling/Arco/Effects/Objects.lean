import Arco.Effects.Program
import Arco.Storage.Program

/-! An object store with conditional writes, deletion and listing, as operations of programs.

Each object is the list of what was done to it, the newest first: the values that were written, and a gap for each
deletion. Its version counts these, so that a token is never handed out twice.
-/

namespace Effects

open Storage

variable {K L : Type} {V : K → Type}

structure Objects {K : Type} (V : K → Type) where
  revisions : (k : K) → List (Option (V k)) := fun _ => []
  known : List K := []
  complete : ∀ k, revisions k ≠ [] → k ∈ known := by simp
  distinct : known.Nodup := by simp

namespace Objects

def current (s : Objects V) (k : K) : Option (V k) := (s.revisions k).head?.join

def version (s : Objects V) (k : K) : Nat := (s.revisions k).length

def head (s : Objects V) (k : K) : Option Nat := (s.current k).map fun _ => s.version k

def Held (s : Objects V) (k : K) (value : V k) : Prop := some value ∈ s.revisions k

def allows (s : Objects V) (k : K) : WritePrecondition → Bool
  | .doesNotExist => (s.current k).isNone
  | .matchesVersion version => (s.current k).isSome ∧ s.version k = version
  | .none => true

section Update

variable [DecidableEq K]

def revise (s : Objects V) (k : K) (revision : Option (V k)) : Objects V where
  revisions := Function.update s.revisions k (revision :: s.revisions k)
  known := if k ∈ s.known then s.known else s.known ++ [k]
  complete := by
    intro k' some
    by_cases same : k' = k
    · subst same
      split
      · assumption
      · simp
    · rw [Function.update_of_ne same] at some
      split
      · exact s.complete k' some
      · exact List.mem_append_left _ (s.complete k' some)
  distinct := by
    split
    · exact s.distinct
    · rename_i unknown
      refine List.nodup_append.mpr ⟨s.distinct, by simp, fun k' isKnown k'' isNew same => ?_⟩
      rw [same, List.mem_singleton.mp isNew] at isKnown
      exact unknown isKnown

def put (s : Objects V) (k : K) (value : V k) : Objects V := s.revise k (some value)

def delete (s : Objects V) (k : K) : Objects V := if (s.current k).isSome then s.revise k none else s

end Update

def list (listed : L → K → Bool) (s : Objects V) (l : L) : List K :=
  s.known.filter fun k => listed l k ∧ (s.current k).isSome

variable {s : Objects V} {k : K} {value : V k} {listed : L → K → Bool}

theorem mem_list {l : L} : k ∈ s.list listed l ↔ listed l k = true ∧ (s.current k).isSome = true := by
  simp only [list, List.mem_filter, decide_eq_true_eq, and_iff_right_iff_imp]
  rintro ⟨-, there⟩
  refine s.complete k fun empty => ?_
  simp [current, empty] at there

theorem nodup_list {l : L} : (s.list listed l).Nodup := s.distinct.filter _

theorem held_of_current (there : s.current k = some value) : s.Held k value := by
  unfold current at there
  cases revisions : s.revisions k with
  | nil => simp [revisions] at there
  | cons newest older =>
    rw [revisions, List.head?_cons, Option.join_some] at there
    rw [Held, revisions, there]
    exact List.mem_cons_self

section Update

variable [DecidableEq K]

@[simp] theorem revisions_revise_self (revision : Option (V k)) :
    (s.revise k revision).revisions k = revision :: s.revisions k := by
  simp [revise]

variable {k' : K}

theorem revisions_revise_of_ne (other : k' ≠ k) (revision : Option (V k)) :
    (s.revise k revision).revisions k' = s.revisions k' := by
  simp [revise, Function.update_of_ne other]

@[simp] theorem current_put_self : (s.put k value).current k = some value := by
  simp [put, current]

theorem current_put_of_ne (other : k' ≠ k) : (s.put k value).current k' = s.current k' := by
  rw [current, put, revisions_revise_of_ne other, current]

@[simp] theorem current_delete_self : (s.delete k).current k = none := by
  unfold delete
  split
  · simp [current]
  · simpa using ‹¬ (s.current k).isSome = true›

theorem current_delete_of_ne (other : k' ≠ k) : (s.delete k).current k' = s.current k' := by
  unfold delete
  split
  · rw [current, revisions_revise_of_ne other, current]
  · rfl

theorem held_put_self {value' : V k} : (s.put k value).Held k value' ↔ value' = value ∨ s.Held k value' := by
  simp [Held, put]

theorem held_put_of_ne (other : k' ≠ k) {value' : V k'} : (s.put k value).Held k' value' ↔ s.Held k' value' := by
  rw [Held, put, revisions_revise_of_ne other, Held]

theorem held_delete {value' : V k'} : (s.delete k).Held k' value' ↔ s.Held k' value' := by
  unfold delete Held
  split
  · by_cases same : k' = k
    · subst same
      simp
    · rw [revisions_revise_of_ne same]
  · rfl

theorem grows_revise (revision : Option (V k)) (k' : K) : s.revisions k' <:+ (s.revise k revision).revisions k' := by
  by_cases same : k' = k
  · subst same
    rw [revisions_revise_self]
    exact List.suffix_cons _ _
  · rw [revisions_revise_of_ne same]

theorem grows_delete (k' : K) : s.revisions k' <:+ (s.delete k).revisions k' := by
  unfold delete
  split
  · exact grows_revise none k'
  · exact List.suffix_rfl

end Update

theorem current_of_allows {s' : Objects V} {version : Nat} (grows : s.revisions k <:+ s'.revisions k)
    (isCurrent : s.current k = some value) (older : version ≤ s.version k)
    (allowed : s'.allows k (.matchesVersion version) = true) : s'.current k = some value := by
  have unchanged : s'.version k = version := by
    simp only [allows, decide_eq_true_eq] at allowed
    exact allowed.2
  have same : s.revisions k = s'.revisions k := grows.eq_of_length_le (unchanged.trans_le older)
  rwa [current, ← same]

end Objects

inductive ObjectOp {K : Type} (V : K → Type) (L : Type) where
  | head (k : K)
  | get (k : K)
  | put (k : K) (value : V k) (precondition : WritePrecondition)
  | delete (k : K)
  | list (l : L)

def ObjectRes (V : K → Type) (L : Type) : ObjectOp V L → Type
  | .head _ => Reply (Option Nat)
  | .get k => Reply (Option (V k))
  | .put _ _ _ => Reply WriteResult
  | .delete _ => Reply Unit
  | .list _ => Reply (List K)

def replied {β : Type} (service : Service) (answer : β) : Reply β := if service = .answered then .ok answer else .fault

variable [DecidableEq K]

def conditionalPut (s : Objects V) (k : K) (value : V k) (precondition : WritePrecondition) : WriteResult × Objects V :=
  if s.allows k precondition then (.success (s.version k + 1), s.put k value) else (.preconditionFailed (s.version k), s)

/-- An operation is answered, is lost without an effect, or takes effect and its answer is lost. -/
def serveObjects (listed : L → K → Bool) : Serve (ObjectRes V L) (Objects V) Service
  | service, .head k, s => (replied service (s.head k), s)
  | service, .get k, s => (replied service (s.current k), s)
  | service, .put k value precondition, s =>
    (replied service (conditionalPut s k value precondition).1,
      if service = .lost then s else (conditionalPut s k value precondition).2)
  | service, .delete k, s => (replied service (), if service = .lost then s else s.delete k)
  | service, .list l, s => (replied service (s.list listed l), s)

end Effects
