import Arco.Data.Table

/-! Differences between two versions of a table, and merging them back.

`changed base current` holds the rows of `current` that `base` does not hold in the
same form; it says nothing about rows that were removed. `merge pick base delta`
writes the rows of `delta` into `base`, where `pick` decides between two rows with
the same key. `merge_changed` is the condition under which the merge of a difference
gives the current table back.
-/

namespace Keyed

open List

variable {K V : Type} [DecidableEq K] {key : V → K}

namespace Table

def changed [DecidableEq V] (base current : Table key) : Table key :=
  current.filter fun row => base.find (key row) ≠ some row

def resolve (pick : V → V → V) (t : Table key) (row : V) : V :=
  match t.find (key row) with
  | some existing => pick existing row
  | none => row

def merge (pick : V → V → V) (base delta : Table key) : Table key :=
  delta.rows.foldl (fun t row => t.upsert (t.resolve pick row)) base

section Merge

variable {pick : V → V → V} {base current delta : Table key}

def Selects (pick : V → V → V) : Prop := ∀ a b, pick a b = a ∨ pick a b = b

theorem key_resolve (selects : Selects pick) (t : Table key) (row : V) : key (t.resolve pick row) = key row := by
  unfold resolve
  cases found : t.find (key row) with
  | none => rfl
  | some existing =>
    rcases selects existing row with h | h
    · simp only [h]
      exact key_of_find found
    · simp only [h]

theorem resolve_congr {t t' : Table key} {row : V} (same : t'.find (key row) = t.find (key row)) :
    t'.resolve pick row = t.resolve pick row := by
  unfold resolve
  rw [same]

theorem find_merge_aux (selects : Selects pick) (rows : List V) (distinct : (rows.map key).Nodup)
    (t : Table key) (k : K) :
    (rows.foldl (fun t row => t.upsert (t.resolve pick row)) t).find k =
      match rows.find? (fun row => key row = k) with
      | some row => some (t.resolve pick row)
      | none => t.find k := by
  induction rows generalizing t with
  | nil => simp
  | cons row rest ih =>
    simp only [map_cons, nodup_cons] at distinct
    rw [foldl_cons, ih distinct.2, find?_cons]
    by_cases here : key row = k
    · have absent : rest.find? (fun r => key r = k) = none := by
        rw [find?_eq_none]
        intro other member
        have : key other ≠ key row := fun same => distinct.1 (mem_map.mpr ⟨other, member, same⟩)
        simpa [← here] using this
      simp only [absent, here, decide_true]
      rw [find_upsert_of_key ((key_resolve selects t row).trans here)]
    · simp only [here]
      have other : key (t.resolve pick row) ≠ k := by rwa [key_resolve selects t row]
      cases found : rest.find? (fun r => key r = k) with
      | none => exact find_upsert_of_ne other
      | some later =>
        have laterKey : key later = k := by simpa using find?_some found
        exact congrArg some (resolve_congr (laterKey ▸ find_upsert_of_ne other))

theorem find_merge (selects : Selects pick) (k : K) : (merge pick base delta).find k =
      match delta.find k with
      | some row => some (base.resolve pick row)
      | none => base.find k :=
  find_merge_aux selects delta.rows delta.distinct base k

theorem keys_merge_aux (selects : Selects pick) (rows : List V) (distinct : (rows.map key).Nodup) (t : Table key) :
    (rows.foldl (fun t row => t.upsert (t.resolve pick row)) t).keys =
      t.keys ++ (rows.map key).filter fun k => k ∉ t.keys := by
  induction rows generalizing t with
  | nil => simp
  | cons row rest ih =>
    simp only [map_cons, nodup_cons] at distinct
    rw [foldl_cons, ih distinct.2, keys_upsert, key_resolve selects t row, map_cons]
    by_cases present : key row ∈ t.keys
    · simp [present]
    · have later : (rest.map key).filter (fun k => k ∉ t.keys ++ [key row]) =
          (rest.map key).filter (fun k => k ∉ t.keys) := by
        apply filter_congr
        intro k member
        have : k ≠ key row := fun same => distinct.1 (same ▸ member)
        simp [this]
      simp only [if_neg present, later, append_assoc, singleton_append]
      rw [filter_cons_of_pos (by simpa using present)]

variable [DecidableEq V]

theorem find_changed (k : K) : (changed base current).find k =
      match current.find k with
      | some row => if base.find k = some row then none else some row
      | none => none := by
  cases found : current.find k with
  | none => exact find_filter_of_none found
  | some row =>
    rw [changed, find_filter_of_find found, key_of_find found]
    by_cases same : base.find k = some row <;> simp

/-- The merge of a difference restores the current row of a key, unless the merge prefers a row
that the current table has replaced or has removed. -/
theorem find_merge_changed (selects : Selects pick) (k : K) :
    (merge pick base (changed base current)).find k =
      match base.find k, current.find k with
      | some old, some row => if old = row then some row else some (pick old row)
      | none, some row => some row
      | old, none => old := by
  rw [find_merge selects, find_changed]
  cases foundOld : base.find k with
  | none =>
    cases found : current.find k with
    | none => simp
    | some row => simp [resolve, key_of_find found, foundOld]
  | some old =>
    cases found : current.find k with
    | none => simp
    | some row =>
      by_cases same : old = row
      · simp [same]
      · simp [same, resolve, key_of_find found, foundOld]

end Merge

/-- The later table keeps the keys of the earlier one in place, and each row moves up in `le`. -/
structure Grows (le : V → V → Prop) (base current : Table key) : Prop where
  keys : base.keys <+: current.keys
  rows : ∀ k old row, base.find k = some old → current.find k = some row → le old row

namespace Grows

variable {le : V → V → Prop} {base current next : Table key}

theorem refl (reflexive : ∀ a, le a a) (t : Table key) : Grows le t t where
  keys := prefix_rfl
  rows k old row foundOld found := by
    cases foundOld.symm.trans found
    exact reflexive old

theorem find_some (grows : Grows le base current) {k : K} {old : V} (found : base.find k = some old) :
    ∃ row, current.find k = some row ∧ le old row := by
  have member := grows.keys.subset (mem_keys_of_find found)
  obtain ⟨row, hit⟩ := Option.isSome_iff_exists.mp (isSome_find_iff.mpr member)
  exact ⟨row, hit, grows.rows k old row found hit⟩

theorem trans (transitive : ∀ a b c, le a b → le b c → le a c) (first : Grows le base current)
    (second : Grows le current next) : Grows le base next where
  keys := first.keys.trans second.keys
  rows k old row foundOld found := by
    obtain ⟨middle, foundMiddle, below⟩ := first.find_some foundOld
    exact transitive old middle row below (second.rows k middle row foundMiddle found)

theorem upsert (reflexive : ∀ a, le a a) (t : Table key) (row : V)
    (above : ∀ old, t.find (key row) = some old → le old row) : Grows le t (t.upsert row) where
  keys := keys_upsert_prefix t row
  rows k old new foundOld found := by
    rw [find_upsert] at found
    split at found
    · rename_i same
      cases found
      exact above old (same ▸ foundOld)
    · cases foundOld.symm.trans found
      exact reflexive old

end Grows

section Restore

variable [DecidableEq V] {pick : V → V → V} {base current : Table key}

section

variable (selects : Selects pick)
include selects

theorem keys_merge_changed (kept : base.keys <+: current.keys) :
    (merge pick base (changed base current)).keys = current.keys := by
  obtain ⟨added, split⟩ := kept
  have fresh : added.filter (fun k => k ∉ base.keys) = added := by
    rw [List.filter_eq_self]
    intro k member
    have nodup := current.keys_nodup
    rw [← split] at nodup
    simpa using fun present => (nodup_append.mp nodup).2.2 k present k member rfl
  have onlyAdded : (changed base current).keys.filter (fun k => k ∉ base.keys) = added := by
    have sub : (changed base current).keys.filter (fun k => k ∉ base.keys) =
        current.keys.filter fun k => k ∉ base.keys := by
      unfold changed filter keys
      simp only [filter_map, filter_filter, Function.comp_def]
      congr 1
      apply filter_congr
      intro row member
      by_cases absent : key row ∈ base.rows.map key
      · simp [absent]
      · have := (find_eq_none_iff (t := base)).mpr absent
        simp [this]
    rw [sub, ← split, filter_append, fresh]
    simp
  rw [← split, merge, keys_merge_aux selects _ (changed base current).distinct]
  exact congrArg _ onlyAdded

/-- The merge of a difference restores the current table exactly when it prefers every row that has
changed to the one it replaces. -/
theorem merge_changed_iff (kept : base.keys <+: current.keys) :
    merge pick base (changed base current) = current ↔
      ∀ k old row, base.find k = some old → current.find k = some row → old = row ∨ pick old row = row := by
  constructor
  · intro restored k old row foundOld found
    have here : (merge pick base (changed base current)).find k = _ := find_merge_changed selects k
    rw [restored, foundOld, found] at here
    by_cases same : old = row
    · exact .inl same
    · simp only [same, if_false, Option.some.injEq] at here
      exact .inr here.symm
  · intro prefers
    apply ext_find (keys_merge_changed selects kept)
    intro k
    rw [find_merge_changed selects]
    cases foundOld : base.find k with
    | none => cases current.find k <;> rfl
    | some old =>
      have member := kept.subset (mem_keys_of_find foundOld)
      obtain ⟨row, found⟩ := Option.isSome_iff_exists.mp (isSome_find_iff.mpr member)
      simp only [found]
      rcases prefers k old row foundOld found with same | picked
      · simp [same]
      · simp [picked]

/-- The same for the rows of the table, where `le` says which rows the merge prefers. -/
theorem same_merge_changed_iff {le : V → V → Prop}
    (decides : ∀ a b, a = b ∨ pick a b = b ↔ le a b) (kept : base.keys <+: current.keys) :
    (merge pick base (changed base current)).Same current ↔
      ∀ k old row, base.find k = some old → current.find k = some row → le old row := by
  rw [same_iff_eq (keys_merge_changed selects kept), merge_changed_iff selects kept]
  simp only [decides]

/-- If the merge prefers the later of two rows that are ordered, it restores the current table. -/
theorem merge_changed {le : V → V → Prop} (prefers : ∀ a b, le a b → pick a b = b)
    (grows : Grows le base current) : merge pick base (changed base current) = current := by
  refine (merge_changed_iff selects grows.keys).mpr fun k old row foundOld found => .inr ?_
  exact prefers old row (grows.rows k old row foundOld found)

end

end Restore

section Stamps

variable {O : Type} {version : V → O} {stamp : O} {writes : V → Prop} {base current : Table key}

/-- The later table holds the keys of the earlier one in place. The rows that were written or added carry
the stamp, the others are the same. -/
structure Stamps (version : V → O) (stamp : O) (writes : V → Prop) (base current : Table key) : Prop where
  keys : base.keys <+: current.keys
  written : ∀ k old row, base.find k = some old → current.find k = some row → writes old → version row = stamp
  kept : ∀ k old row, base.find k = some old → current.find k = some row → ¬ writes old → row = old
  added : ∀ k row, base.find k = none → current.find k = some row → version row = stamp

namespace Stamps

theorem congr {writes' : V → Prop} (stamps : Stamps version stamp writes base current)
    (same : ∀ row ∈ base.rows, writes row ↔ writes' row) : Stamps version stamp writes' base current where
  keys := stamps.keys
  written k old row foundOld found written :=
    stamps.written k old row foundOld found ((same old (mem_of_find foundOld)).mpr written)
  kept k old row foundOld found notWritten :=
    stamps.kept k old row foundOld found fun written => notWritten ((same old (mem_of_find foundOld)).mp written)
  added := stamps.added

theorem refl (version : V → O) (stamp : O) (t : Table key) : Stamps version stamp (fun _ => False) t t where
  keys := prefix_rfl
  written _ _ _ _ _ written := written.elim
  kept _ _ _ foundOld found _ := Option.some.inj (found.symm.trans foundOld)
  added _ _ missing found := by cases missing.symm.trans found

theorem modify {f : V → V} (keeps : ∀ row, key (f row) = key row) (stamps : ∀ row, version (f row) = stamp)
    (t : Table key) (k : K) : Stamps version stamp (fun row => key row = k) t (t.modify k f) where
  keys := keys_modify keeps t k ▸ prefix_rfl
  written k' old row foundOld found written := by
    have here : k' = k := (key_of_find foundOld).symm.trans written
    rw [find_modify keeps, if_pos here, ← here, foundOld] at found
    cases found
    exact stamps old
  kept k' old row foundOld found notWritten := by
    have other : k' ≠ k := fun same => notWritten ((key_of_find foundOld).trans same)
    rw [find_modify_of_ne keeps t other, foundOld] at found
    exact (Option.some.inj found).symm
  added k' row missing found := by
    have present := mem_keys_of_find found
    rw [keys_modify keeps] at present
    exact absurd present (find_eq_none_iff.mp missing)

theorem upsertAll {rows : List V} (stamps : ∀ row ∈ rows, version row = stamp) (t : Table key) :
    Stamps version stamp (fun row => key row ∈ rows.map key) t (t.upsertAll rows) where
  keys := keys_upsertAll_prefix t rows
  written k old row foundOld found written := by
    rw [key_of_find foundOld] at written
    rcases find_upsertAll_cases t rows k with ⟨new, member, _, hit⟩ | ⟨foreign, _⟩
    · rw [← Option.some.inj (hit.symm.trans found)]
      exact stamps new member
    · obtain ⟨new, member, same⟩ := mem_map.mp written
      exact absurd same (foreign new member)
  kept k old row foundOld found notWritten := by
    rw [key_of_find foundOld] at notWritten
    rw [find_upsertAll_of_not_mem fun other member same => notWritten (mem_map.mpr ⟨other, member, same⟩),
      foundOld] at found
    exact (Option.some.inj found).symm
  added k row missing found := by
    rcases find_upsertAll_cases t rows k with ⟨new, member, _, hit⟩ | ⟨_, same⟩
    · rw [← Option.some.inj (hit.symm.trans found)]
      exact stamps new member
    · cases (same.trans missing).symm.trans found

theorem upsert_new {row : V} {t : Table key} (missing : t.find (key row) = none) (stamps : version row = stamp) :
    Stamps version stamp (fun _ => False) t (t.upsert row) where
  keys := keys_upsert_prefix t row
  written _ _ _ _ _ written := written.elim
  kept k old new foundOld found _ := by
    have other : key row ≠ k := by
      rintro rfl
      cases missing.symm.trans foundOld
    rw [find_upsert_of_ne other, foundOld] at found
    exact (Option.some.inj found).symm
  added k new missing' found := by
    rw [find_upsert] at found
    split at found
    · cases found
      exact stamps
    · cases missing'.symm.trans found

theorem grows {le : V → V → Prop} (stamps : Stamps version stamp writes base current) (reflexive : ∀ a, le a a)
    (above : ∀ old row, old ∈ base.rows → writes old → version row = stamp → le old row) :
    Grows le base current where
  keys := stamps.keys
  rows k old row foundOld found := by
    by_cases written : writes old
    · exact above old row (mem_of_find foundOld) written (stamps.written k old row foundOld found written)
    · rw [stamps.kept k old row foundOld found written]
      exact reflexive old

theorem version_cases (stamps : Stamps version stamp writes base current) {row : V} (member : row ∈ current.rows) :
    version row = stamp ∨ ∃ old ∈ base.rows, version row = version old := by
  have found := find_of_mem member
  cases foundOld : base.find (key row) with
  | none => exact .inl (stamps.added _ row foundOld found)
  | some old =>
    by_cases written : writes old
    · exact .inl (stamps.written _ old row foundOld found written)
    · rw [stamps.kept _ old row foundOld found written]
      exact .inr ⟨old, mem_of_find foundOld, rfl⟩

end Stamps

end Stamps

end Table

end Keyed
