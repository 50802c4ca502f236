import Mathlib.Data.List.Infix

/-! An object store with conditional writes, together with its history.

Each object is the list of what was ever written to it, oldest first, with the writer of each value.
The version of an object counts its writes: the token that a store hands out is only ever compared
with other tokens of the same object, and no write reuses one. A read sees the last value. Objects
are not deleted.
-/

namespace Storage

inductive WritePrecondition where
  | doesNotExist
  | matchesVersion (version : Nat)
  | none

/-- The answer to a conditional write. An object that does not exist has version zero. -/
inductive WriteResult where
  | success (version : Nat)
  | preconditionFailed (currentVersion : Nat)

variable {K : Type} {V : K → Type} {W : Type}

@[ext] structure Store {K : Type} (V : K → Type) (W : Type) where
  writes : (k : K) → List (W × V k) := fun _ => []

namespace Store

def version (s : Store V W) (k : K) : Nat := (s.writes k).length

def head (s : Store V W) (k : K) : Option Nat := if s.version k = 0 then none else some (s.version k)

def get (s : Store V W) (k : K) : Option (V k) := (s.writes k).getLast?.map Prod.snd

def allows (s : Store V W) (k : K) : WritePrecondition → Bool
  | .doesNotExist => s.version k = 0
  | .matchesVersion version => s.version k = version ∧ version ≠ 0
  | .none => true

def write [DecidableEq K] (s : Store V W) (k : K) (writer : W) (value : V k) : Store V W where
  writes := Function.update s.writes k (s.writes k ++ [(writer, value)])

def At (s : Store V W) (k : K) (version : Nat) (writer : W) (value : V k) : Prop :=
  0 < version ∧ (s.writes k)[version - 1]? = some (writer, value)

instance : Preorder (Store V W) where
  le s s' := ∀ k, s.writes k <+: s'.writes k
  le_refl _ _ := List.prefix_rfl
  le_trans _ _ _ first second k := (first k).trans (second k)

variable {s s' : Store V W} {k : K} {version : Nat} {writer : W} {value : V k}

theorem version_mono (later : s ≤ s') (k : K) : s.version k ≤ s'.version k := (later k).length_le

theorem At.le (at_ : s.At k version writer value) : version ≤ s.version k := by
  have inside := (List.getElem?_eq_some_iff.mp at_.2).1
  unfold Store.version
  omega

theorem At.mono (at_ : s.At k version writer value) (later : s ≤ s') : s'.At k version writer value := by
  obtain ⟨_, extended⟩ := later k
  refine ⟨at_.1, ?_⟩
  rw [← extended, List.getElem?_append_left (List.getElem?_eq_some_iff.mp at_.2).1]
  exact at_.2

theorem At.unique {writer' : W} {value' : V k} (left : s.At k version writer value)
    (right : s.At k version writer' value') : writer = writer' ∧ value = value' := by
  simpa using left.2.symm.trans right.2

theorem At.current (known : s.At k version writer value) (later : s ≤ s') (unchanged : s'.version k ≤ version) :
    s'.version k = version ∧ s'.At k (s'.version k) writer value := by
  have now := known.mono later
  have same : s'.version k = version := Nat.le_antisymm unchanged now.le
  exact ⟨same, same.symm ▸ now⟩

theorem At.once (current : s.At k (s.version k) writer value) (bound : s.version k ≤ 1) : s.At k 1 writer value := by
  have positive := current.1
  rwa [show s.version k = 1 by omega] at current

theorem at_of_le {version : Nat} (positive : 0 < version) (inside : version ≤ s.version k) :
    ∃ writer value, s.At k version writer value := by
  have bound : version - 1 < (s.writes k).length := by unfold Store.version at inside; omega
  exact ⟨_, _, positive, List.getElem?_eq_getElem bound⟩

theorem head_eq_some : s.head k = some version ↔ s.version k = version ∧ 0 < version := by
  unfold head
  split <;> simp <;> omega

theorem head_eq_none : s.head k = none ↔ s.version k = 0 := by
  unfold head
  split <;> simp_all

theorem get_eq_none : s.get k = none ↔ s.version k = 0 := by
  simp [get, Store.version]

theorem get_eq_some : s.get k = some value ↔ ∃ writer, s.At k (s.version k) writer value := by
  unfold get Store.version
  rw [List.getLast?_eq_getElem?]
  constructor
  · intro read
    obtain ⟨⟨writer, _⟩, found, same⟩ := Option.map_eq_some_iff.mp read
    have inside := (List.getElem?_eq_some_iff.mp found).1
    cases same
    exact ⟨writer, by omega, found⟩
  · rintro ⟨_, _, found⟩
    rw [found]
    rfl

theorem At.of_get (read : s.get k = some value) : ∃ writer, s.At k (s.version k) writer value := get_eq_some.mp read

theorem At.get (current : s.At k (s.version k) writer value) : s.get k = some value := get_eq_some.mpr ⟨writer, current⟩

theorem At.get_of_le (found : s.At k version writer value) (last : s.version k ≤ version) : s.get k = some value :=
  (found.current le_rfl last).2.get

@[simp] theorem allows_doesNotExist : s.allows k .doesNotExist = true ↔ s.version k = 0 := by
  simp [allows]

@[simp] theorem allows_matchesVersion :
    s.allows k (.matchesVersion version) = true ↔ s.version k = version ∧ version ≠ 0 := by
  simp [allows]

section Write

variable [DecidableEq K]

@[simp] theorem writes_write_self :
    (s.write k writer value).writes k = s.writes k ++ [(writer, value)] := by
  simp [write]

theorem writes_write_ne (s : Store V W) {k k' : K} (writer : W) (value : V k) (other : k' ≠ k) :
    (s.write k writer value).writes k' = s.writes k' := by
  simp [write, Function.update_of_ne other]

theorem version_write_self (s : Store V W) (k : K) (writer : W) (value : V k) :
    (s.write k writer value).version k = s.version k + 1 := by
  simp [version]

theorem version_write_ne (s : Store V W) {k k' : K} (writer : W) (value : V k) (other : k' ≠ k) :
    (s.write k writer value).version k' = s.version k' := by
  simp [version, writes_write_ne s writer value other]

/-- A key that is written only while it is absent has one version. -/
theorem version_write_le {s : Store V W} {k k' : K} {writer : W} {value : V k} (once : s.version k' ≤ 1)
    (fresh : k' = k → s.version k' = 0) : (s.write k writer value).version k' ≤ 1 := by
  by_cases here : k' = k
  · subst here
    rw [version_write_self, fresh rfl]
  · rwa [version_write_ne s writer value here]

theorem get_write_self (s : Store V W) (k : K) (writer : W) (value : V k) :
    (s.write k writer value).get k = some value := by
  simp [get]

theorem get_write_ne (s : Store V W) {k k' : K} (writer : W) (value : V k) (other : k' ≠ k) :
    (s.write k writer value).get k' = s.get k' := by
  simp [get, writes_write_ne s writer value other]

theorem le_write (s : Store V W) (k : K) (writer : W) (value : V k) : s ≤ s.write k writer value := by
  intro k'
  by_cases same : k' = k
  · subst same
    rw [writes_write_self]
    exact List.prefix_append _ _
  · rw [writes_write_ne s writer value same]

theorem at_write_self (s : Store V W) (k : K) (writer : W) (value : V k) :
    (s.write k writer value).At k (s.version k + 1) writer value := by
  simp [At, version]

theorem at_write_same {writer' : W} {value' : V k} : (s.write k writer value).At k version writer' value' ↔
      s.At k version writer' value' ∨ (version = s.version k + 1 ∧ writer' = writer ∧ value' = value) := by
  constructor
  · intro found
    have bound := found.le
    rw [version_write_self] at bound
    by_cases new : version = s.version k + 1
    · subst new
      exact .inr ⟨rfl, found.unique (at_write_self s k writer value)⟩
    · obtain ⟨_, _, old⟩ := at_of_le found.1 (show version ≤ s.version k by omega)
      obtain ⟨rfl, rfl⟩ := found.unique (old.mono (le_write s k writer value))
      exact .inl old
  · rintro (old | ⟨rfl, rfl, rfl⟩)
    · exact old.mono (le_write s k writer value)
    · exact at_write_self s k _ _

theorem at_write_ne {k' : K} {writer' : W} {value' : V k'} (other : k' ≠ k) :
    (s.write k writer value).At k' version writer' value' ↔ s.At k' version writer' value' := by
  simp [At, writes_write_ne s writer value other]

end Write

end Store

end Storage
