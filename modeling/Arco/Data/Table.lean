import Mathlib.Data.List.Nodup

/-! Finite tables whose rows carry their own key.

A table is the list of its rows in the order in which their keys first appeared,
together with the fact that no key appears twice. A row is looked up by its key,
and writing a row replaces the one with the same key in place or appends it.
-/

namespace Keyed

open List

variable {K V : Type} [DecidableEq K] {key : V → K}

def put (key : V → K) (row : V) : List V → List V
  | [] => [row]
  | head :: tail => if key head = key row then row :: tail else head :: put key row tail

theorem put_keys (key : V → K) (row : V) (rows : List V) : (put key row rows).map key =
      if key row ∈ rows.map key then rows.map key else rows.map key ++ [key row] := by
  induction rows with
  | nil => simp [put]
  | cons head tail ih =>
    by_cases same : key head = key row
    · simp [put, same]
    · have other : key row ≠ key head := fun h => same h.symm
      simp only [put, if_neg same, map_cons, ih, mem_cons, other, false_or]
      split <;> simp

theorem put_nodup (row : V) {rows : List V} (distinct : (rows.map key).Nodup) :
    ((put key row rows).map key).Nodup := by
  rw [put_keys]
  split
  · exact distinct
  · rename_i absent
    exact Nodup.append distinct (by simp) (by simpa using absent)

theorem find?_put (key : V → K) (row : V) (rows : List V) (k : K) :
    (put key row rows).find? (fun r => key r = k) =
      if key row = k then some row else rows.find? (fun r => key r = k) := by
  induction rows with
  | nil => by_cases same : key row = k <;> simp [put]
  | cons head tail ih =>
    by_cases same : key head = key row
    · by_cases hit : key row = k <;> simp [put, same, hit]
    · by_cases hit : key row = k
      · have miss : key head ≠ k := fun h => same (h.trans hit.symm)
        simp [put, miss, ih, hit]
      · by_cases here : key head = k
        · rw [put, if_neg same, if_neg hit, find?_cons_of_pos (by simpa using here),
            find?_cons_of_pos (by simpa using here)]
        · simp [put, same, here, ih]

/-- The first row that is selected is rewritten in place. -/
theorem find?_put_of_find? {p : V → Bool} {row row' : V} {rows : List V} (distinct : (rows.map key).Nodup)
    (found : rows.find? p = some row) (same : key row' = key row) (selected : p row' = true) :
    (put key row' rows).find? p = some row' := by
  induction rows with
  | nil => cases found
  | cons head tail ih =>
    obtain ⟨fresh, distinct⟩ := nodup_cons.mp distinct
    rw [find?_cons] at found
    split at found
    · cases found
      simp [put, same, selected]
    · rename_i passed
      have other : key head ≠ key row' := fun here =>
        fresh (here.trans same ▸ mem_map_of_mem (mem_of_find?_eq_some found))
      rw [put, if_neg other, find?_cons, passed]
      exact ih distinct found

theorem countP_put (key : V → K) (p : V → Bool) (row : V) (rows : List V) :
    (put key row rows).countP p + ((rows.find? (fun r => key r = key row)).elim 0 (fun r => (p r).toNat)) =
      rows.countP p + (p row).toNat := by
  induction rows with
  | nil => cases h : p row <;> simp [put, h]
  | cons head tail ih =>
    by_cases same : key head = key row
    · cases h : p row <;> cases g : p head <;> simp [put, same, h, g]
    · rw [put, if_neg same, countP_cons, countP_cons, find?_cons_of_neg (by simpa using same)]
      omega

theorem put_of_not_mem {row : V} {rows : List V} (absent : key row ∉ rows.map key) :
    put key row rows = rows ++ [row] := by
  induction rows with
  | nil => rfl
  | cons head tail ih =>
    rw [map_cons, mem_cons, not_or] at absent
    rw [put, if_neg (Ne.symm absent.1), ih absent.2, cons_append]

/-- Rows with pairwise distinct keys. -/
structure Table (key : V → K) where
  rows : List V
  distinct : (rows.map key).Nodup

namespace Table

instance [DecidableEq V] : DecidableEq (Table key) := fun left right =>
  decidable_of_iff (left.rows = right.rows) <| by
    cases left
    cases right
    simp

def empty : Table key := ⟨[], by simp⟩

instance : Inhabited (Table key) := ⟨empty⟩

def keys (t : Table key) : List K := t.rows.map key

def find (t : Table key) (k : K) : Option V := t.rows.find? fun row => key row = k

def contains (t : Table key) (k : K) : Bool := (t.find k).isSome

def upsert (t : Table key) (row : V) : Table key := ⟨put key row t.rows, put_nodup row t.distinct⟩

def filter (t : Table key) (p : V → Bool) : Table key :=
  ⟨t.rows.filter p, (t.distinct.sublist (filter_sublist.map key))⟩

def erase (t : Table key) (k : K) : Table key := t.filter fun row => key row ≠ k

def upsertAll (t : Table key) (rows : List V) : Table key := rows.foldl upsert t

def modify (t : Table key) (k : K) (f : V → V) : Table key :=
  match t.find k with
  | some row => t.upsert (f row)
  | none => t

/-- Rewrite every row in place. A function that would change the key of a row leaves it alone. -/
def mapRows (t : Table key) (f : V → V) : Table key :=
  ⟨t.rows.map fun row => if key (f row) = key row then f row else row, by
    have same : key ∘ (fun row => if key (f row) = key row then f row else row) = key := by
      funext row
      dsimp only [Function.comp_apply]
      split
      · assumption
      · rfl
    rw [map_map, same]
    exact t.distinct⟩

variable {t : Table key} {k : K} {row : V}

omit [DecidableEq K] in
@[simp] theorem rows_empty : (empty : Table key).rows = [] := rfl

omit [DecidableEq K] in
@[simp] theorem keys_empty : (empty : Table key).keys = [] := rfl

omit [DecidableEq K] in
theorem keys_nodup (t : Table key) : t.keys.Nodup := t.distinct

@[simp] theorem find_empty : (empty : Table key).find k = none := rfl

theorem key_of_find (found : t.find k = some row) : key row = k := by
  simpa using find?_some found

theorem mem_of_find (found : t.find k = some row) : row ∈ t.rows := mem_of_find?_eq_some found

theorem find_of_mem (member : row ∈ t.rows) : t.find (key row) = some row := by
  cases found : t.find (key row) with
  | none => simpa using find?_eq_none.mp found row member
  | some other =>
    have same := key_of_find found
    rw [inj_on_of_nodup_map t.distinct (mem_of_find found) member same]

theorem find_eq_some_iff : t.find k = some row ↔ row ∈ t.rows ∧ key row = k := by
  constructor
  · intro found
    exact ⟨mem_of_find found, key_of_find found⟩
  · rintro ⟨member, rfl⟩
    exact find_of_mem member

theorem find_eq_none_iff : t.find k = none ↔ k ∉ t.keys := by
  simp [find, keys]

theorem isSome_find_iff : (t.find k).isSome ↔ k ∈ t.keys := by
  rw [Option.isSome_iff_ne_none, ne_eq, find_eq_none_iff, not_not]

theorem contains_iff : t.contains k = true ↔ k ∈ t.keys := isSome_find_iff

theorem mem_keys_of_find (found : t.find k = some row) : k ∈ t.keys := by
  rw [← isSome_find_iff, found]
  rfl

theorem find_upsert (t : Table key) (row : V) (k : K) :
    (t.upsert row).find k = if key row = k then some row else t.find k :=
  find?_put key row t.rows k

@[simp] theorem find_upsert_self (t : Table key) (row : V) : (t.upsert row).find (key row) = some row := by
  simp [find_upsert]

theorem find_upsert_of_key (h : key row = k) : (t.upsert row).find k = some row := by
  simp [find_upsert, h]

theorem find_upsert_of_ne (h : key row ≠ k) : (t.upsert row).find k = t.find k := by
  simp [find_upsert, h]

theorem contains_upsert (t : Table key) (row : V) (k : K) :
    (t.upsert row).contains k = (decide (key row = k) || t.contains k) := by
  rw [contains, find_upsert]
  split <;> simp_all [contains]

theorem keys_upsert (t : Table key) (row : V) :
    (t.upsert row).keys = if key row ∈ t.keys then t.keys else t.keys ++ [key row] :=
  put_keys key row t.rows

theorem keys_upsert_of_mem (h : key row ∈ t.keys) : (t.upsert row).keys = t.keys := by
  rw [keys_upsert, if_pos h]

theorem mem_keys_upsert {k : K} : k ∈ (t.upsert row).keys ↔ k ∈ t.keys ∨ k = key row := by
  rw [keys_upsert]
  split
  · rename_i present
    exact ⟨.inl, fun h => h.elim id fun same => same ▸ present⟩
  · simp

theorem mem_rows_upsert {other : V} :
    other ∈ (t.upsert row).rows ↔ other = row ∨ (other ∈ t.rows ∧ key other ≠ key row) := by
  constructor
  · intro member
    have found := find_of_mem member
    rw [find_upsert] at found
    split at found
    · exact .inl (Option.some.inj found).symm
    · rename_i different
      exact .inr ⟨mem_of_find found, fun same => different same.symm⟩
  · rintro (rfl | ⟨member, different⟩)
    · exact mem_of_find (find_upsert_self t other)
    · apply mem_of_find (k := key other)
      rw [find_upsert_of_ne fun same => different same.symm]
      exact find_of_mem member

variable {left right : Table key} {p : V → Bool} {rows : List V}

theorem ext_find (sameKeys : left.keys = right.keys) (sameRows : ∀ k, left.find k = right.find k) : left = right := by
  have lookup : ∀ t : Table key, t.rows.map some = t.keys.map t.find := by
    intro t
    rw [keys, map_map]
    exact map_congr_left fun row member => (find_of_mem member).symm
  have rows : left.rows.map some = right.rows.map some := by
    rw [lookup, lookup, sameKeys]
    exact map_congr_left fun k _ => sameRows k
  have same := map_injective_iff.mpr (fun _ _ => Option.some.inj) rows
  cases left
  cases right
  simpa using same

/-- Both tables hold the same rows, in whatever order. -/
def Same (left right : Table key) : Prop := ∀ k, left.find k = right.find k

theorem same_iff_eq (sameKeys : left.keys = right.keys) : left.Same right ↔ left = right := by
  constructor
  · exact ext_find sameKeys
  · rintro rfl k
    rfl

theorem upsert_of_find (found : t.find (key row) = some row) : t.upsert row = t := by
  apply ext_find
  · exact keys_upsert_of_mem (mem_keys_of_find found)
  · intro k
    by_cases same : key row = k
    · rw [find_upsert_of_key same, ← same, found]
    · exact find_upsert_of_ne same

theorem find_filter_of_find (found : t.find k = some row) :
    (t.filter p).find k = if p row then some row else none := by
  split
  · rename_i kept
    obtain ⟨member, same⟩ := find_eq_some_iff.mp found
    exact find_eq_some_iff.mpr ⟨mem_filter.mpr ⟨member, kept⟩, same⟩
  · rename_i dropped
    rw [find_eq_none_iff]
    intro present
    obtain ⟨_, member, same⟩ := mem_map.mp present
    obtain ⟨member, kept⟩ := mem_filter.mp member
    have := find_eq_some_iff.mpr ⟨member, same⟩
    cases found.symm.trans this
    exact dropped kept

theorem find_filter_of_none (missing : t.find k = none) : (t.filter p).find k = none := by
  rw [find_eq_none_iff] at missing ⊢
  intro present
  obtain ⟨other, member, same⟩ := mem_map.mp present
  exact missing (mem_map.mpr ⟨other, (mem_filter.mp member).1, same⟩)

omit [DecidableEq K] in
theorem filter_eq_self (all : ∀ row ∈ t.rows, p row = true) : t.filter p = t := by
  have rows : t.rows.filter p = t.rows := List.filter_eq_self.mpr all
  cases t
  simp only [filter, rows]

theorem find_erase (t : Table key) (gone k : K) :
    (t.erase gone).find k = if k = gone then none else t.find k := by
  cases found : t.find k with
  | none => rw [erase, find_filter_of_none found, ite_self]
  | some row =>
    rw [erase, find_filter_of_find found, key_of_find found]
    by_cases same : k = gone <;> simp

theorem erase_eq_self (missing : t.find k = none) : t.erase k = t := filter_eq_self fun row member => by
    rw [find_eq_none_iff] at missing
    simpa using fun same => missing (mem_map.mpr ⟨row, member, same⟩)

theorem upsert_upsert {first : V} (same : key first = key row) : (t.upsert first).upsert row = t.upsert row := by
  apply ext_find
  · simp only [keys_upsert, same]
    split <;> simp
  · intro k
    simp only [find_upsert, same]
    split <;> rfl

theorem countP_upsert_of_find (p : V → Bool) {old : V} (found : t.find (key row) = some old) :
    (t.upsert row).rows.countP p + (p old).toNat = t.rows.countP p + (p row).toNat := by
  have balance := countP_put key p row t.rows
  rwa [show t.rows.find? (fun r => key r = key row) = some old from found] at balance

theorem countP_upsert_of_none (p : V → Bool) (missing : t.find (key row) = none) :
    (t.upsert row).rows.countP p = t.rows.countP p + (p row).toNat := by
  have balance := countP_put key p row t.rows
  rwa [show t.rows.find? (fun r => key r = key row) = none from missing] at balance

theorem countP_pos_of_find (found : t.find k = some row) (holds : p row = true) : 0 < t.rows.countP p :=
  countP_pos_iff.mpr ⟨row, mem_of_find found, holds⟩

theorem upsertAll_cons (rest : List V) :
    t.upsertAll (row :: rest) = (t.upsert row).upsertAll rest := rfl

theorem keys_upsert_prefix (t : Table key) (row : V) : t.keys <+: (t.upsert row).keys := by
  rw [keys_upsert]
  split
  · exact prefix_rfl
  · exact prefix_append _ _

theorem keys_upsertAll_prefix (t : Table key) (rows : List V) : t.keys <+: (t.upsertAll rows).keys := by
  induction rows generalizing t with
  | nil => exact prefix_rfl
  | cons row rest ih => exact ( keys_upsert_prefix t row).trans (ih (t.upsert row))

theorem find_upsertAll :
    (t.upsertAll rows).find k = (rows.reverse.find? fun row => key row = k).or (t.find k) := by
  induction rows generalizing t with
  | nil => simp [upsertAll]
  | cons row rest ih =>
    rw [upsertAll_cons, ih, find_upsert, reverse_cons, find?_append, Option.or_assoc]
    by_cases same : key row = k <;> simp [same]

theorem find_upsertAll_cases (t : Table key) (rows : List V) (k : K) :
    (∃ row ∈ rows, key row = k ∧ (t.upsertAll rows).find k = some row) ∨
      ((∀ row ∈ rows, key row ≠ k) ∧ (t.upsertAll rows).find k = t.find k) := by
  rw [find_upsertAll]
  cases found : rows.reverse.find? fun row => key row = k with
  | none =>
    rw [find?_eq_none] at found
    exact .inr ⟨fun row member => by simpa using found row (mem_reverse.mpr member), rfl⟩
  | some row =>
    refine .inl ⟨row, mem_reverse.mp (mem_of_find?_eq_some found), ?_, rfl⟩
    simpa using find?_some found

theorem find_upsertAll_of_mem (member : row ∈ rows) (only : ∀ other ∈ rows, key other = key row → other = row) :
    (t.upsertAll rows).find (key row) = some row := by
  rcases find_upsertAll_cases t rows (key row) with ⟨other, listed, same, now⟩ | ⟨absent, _⟩
  · rw [now, only other listed same]
  · exact absurd rfl (absent row member)

theorem find_upsertAll_of_not_mem (foreign : ∀ other ∈ rows, key other ≠ k) :
    (t.upsertAll rows).find k = t.find k := by
  rcases find_upsertAll_cases t rows k with ⟨other, listed, same, _⟩ | ⟨_, now⟩
  · exact absurd same (foreign other listed)
  · exact now

theorem mem_keys_upsertAll : k ∈ (t.upsertAll rows).keys ↔ k ∈ t.keys ∨ k ∈ rows.map key := by
  induction rows generalizing t with
  | nil => simp [upsertAll]
  | cons row rest ih =>
    rw [upsertAll_cons, ih, mem_keys_upsert, map_cons, mem_cons, or_assoc]

theorem keys_upsertAll_of_mem (held : ∀ row ∈ rows, key row ∈ t.keys) : (t.upsertAll rows).keys = t.keys := by
  induction rows generalizing t with
  | nil => rfl
  | cons row rest ih =>
    have first : (t.upsert row).keys = t.keys := keys_upsert_of_mem (held row (by simp))
    rw [upsertAll_cons, ih, first]
    intro other member
    rw [first]
    exact held other (by simp [member])

/-- Writing the same rows over rows that are there, in another order and possibly more than once. -/
theorem upsertAll_congr {rows' : List V} (same : ∀ row, row ∈ rows ↔ row ∈ rows')
    (functional : ∀ a ∈ rows, ∀ b ∈ rows, key a = key b → a = b) (held : ∀ row ∈ rows, key row ∈ t.keys) :
    t.upsertAll rows = t.upsertAll rows' := by
  have held' : ∀ row ∈ rows', key row ∈ t.keys := fun row member => held row ((same row).mpr member)
  apply ext_find
  · rw [keys_upsertAll_of_mem held, keys_upsertAll_of_mem held']
  · intro k
    rcases find_upsertAll_cases t rows k with ⟨a, member, aKey, found⟩ | ⟨foreign, found⟩
    · have only : ∀ b ∈ rows', key b = key a → b = a := fun b member' sameKey =>
        functional b ((same b).mpr member') a member sameKey
      rw [found, ← aKey, find_upsertAll_of_mem ((same a).mp member) only]
    · rw [found, find_upsertAll_of_not_mem fun row member => foreign row ((same row).mpr member)]

section MapRows

variable {f : V → V}

theorem rows_mapRows (keeps : ∀ row, key (f row) = key row) : (t.mapRows f).rows = t.rows.map f := by
  simp [mapRows, keeps]

theorem keys_mapRows (t : Table key) (f : V → V) : (t.mapRows f).keys = t.keys := by
  simp only [keys, mapRows, map_map]
  apply map_congr_left
  intro row _
  dsimp only [Function.comp_apply]
  split
  · assumption
  · rfl

theorem find_mapRows (keeps : ∀ row, key (f row) = key row) (t : Table key) (k : K) :
    (t.mapRows f).find k = (t.find k).map f := by
  simp only [find, rows_mapRows keeps, find?_map, Function.comp_def, keeps]

theorem mapRows_congr {g : V → V} (same : ∀ row ∈ t.rows, f row = g row) : t.mapRows f = t.mapRows g := by
  unfold mapRows
  congr 1
  apply map_congr_left
  intro row member
  rw [same row member]

theorem mapRows_eq_self (fixed : ∀ row ∈ t.rows, f row = row) : t.mapRows f = t := by
  apply ext_find (keys_mapRows t f)
  intro k
  have rows : (t.mapRows f).rows = t.rows := by
    have same : ∀ row ∈ t.rows, (if key (f row) = key row then f row else row) = row := by
      intro row member
      simp [fixed row member]
    exact (map_congr_left same).trans (map_id' t.rows)
  rw [find, rows, find]

end MapRows

section Modify

variable {f g : V → V}

theorem find_modify (keeps : ∀ row, key (f row) = key row) (t : Table key) (k k' : K) :
    (t.modify k f).find k' = if k' = k then (t.find k).map f else t.find k' := by
  unfold modify
  cases found : t.find k with
  | none =>
    by_cases same : k' = k
    · simp [same, found]
    · simp [same]
  | some row =>
    have newKey : key (f row) = k := (keeps row).trans (key_of_find found)
    simp only [find_upsert, newKey, Option.map_some, eq_comm (a := k)]

theorem find_modify_of_ne (keeps : ∀ row, key (f row) = key row) (t : Table key) {k k' : K} (other : k' ≠ k) :
    (t.modify k f).find k' = t.find k' := by
  rw [find_modify keeps, if_neg other]

theorem keys_modify (keeps : ∀ row, key (f row) = key row) (t : Table key) (k : K) :
    (t.modify k f).keys = t.keys := by
  unfold modify
  cases found : t.find k with
  | none => rfl
  | some row =>
    apply keys_upsert_of_mem
    rw [keeps row, key_of_find found]
    exact mem_keys_of_find found

theorem modify_modify (keepsF : ∀ row, key (f row) = key row) (keepsG : ∀ row, key (g row) = key row)
    : (t.modify k f).modify k g = t.modify k (g ∘ f) := by
  have keeps : ∀ row, key ((g ∘ f) row) = key row := fun row => (keepsG (f row)).trans (keepsF row)
  apply ext_find
  · rw [keys_modify keepsG, keys_modify keepsF, keys_modify keeps]
  · intro k'
    rw [find_modify keepsG, find_modify keepsF, find_modify keepsF, find_modify keeps]
    split
    · rw [if_pos rfl, Option.map_map]
    · rfl

theorem modify_id (t : Table key) (k : K) : t.modify k id = t := by
  unfold modify
  cases found : t.find k with
  | none => rfl
  | some row => exact upsert_of_find (by rw [id, key_of_find found, found])

theorem modify_mapRows (keepsF : ∀ row, key (f row) = key row) (keepsG : ∀ row, key (g row) = key row)
    {t : Table key} {k : K} :
    (t.mapRows f).modify k g = t.mapRows fun row => if key row = k then g (f row) else f row := by
  have keeps : ∀ row, key (if key row = k then g (f row) else f row) = key row := by
    intro row
    split <;> simp [keepsF, keepsG]
  apply ext_find
  · rw [keys_modify keepsG, keys_mapRows, keys_mapRows]
  · intro k'
    rw [find_modify keepsG, find_mapRows keepsF, find_mapRows keepsF, find_mapRows keeps]
    by_cases same : k' = k
    · subst same
      cases found : t.find k' with
      | none => simp
      | some row => simp [key_of_find found]
    · cases found : t.find k' with
      | none => simp [same]
      | some row => simp [same, key_of_find found]

theorem foldl_modify (keeps : ∀ row, key (f row) = key row) (idempotent : ∀ row, f (f row) = f row)
    (ks : List K) :
    ks.foldl (fun t k => t.modify k f) t = t.mapRows fun row => if key row ∈ ks then f row else row := by
  have keepsIn : ∀ (done : List K) (row : V), key (if key row ∈ done then f row else row) = key row := by
    intro done row
    split
    · exact keeps row
    · rfl
  have loop : ∀ ks done : List K,
      ks.foldl (fun t k => t.modify k f) (t.mapRows fun row => if key row ∈ done then f row else row) =
        t.mapRows fun row => if key row ∈ done ++ ks then f row else row := by
    intro ks
    induction ks with
    | nil => simp
    | cons k rest ih =>
      intro done
      have step : (t.mapRows fun row => if key row ∈ done then f row else row).modify k f =
          t.mapRows fun row => if key row ∈ done ++ [k] then f row else row := by
        rw [modify_mapRows (keepsIn done) keeps]
        refine mapRows_congr fun row _ => ?_
        by_cases here : key row = k <;> by_cases old : key row ∈ done <;> simp_all
      rw [foldl_cons, step, ih, append_assoc, singleton_append]
  have whole := loop ks []
  rwa [mapRows_eq_self fun row _ => by simp, nil_append] at whole

end Modify

theorem upsertAll_append (front back : List V) :
    t.upsertAll (front ++ back) = (t.upsertAll front).upsertAll back := foldl_append

/-- Distinct keys that a table holds are the keys of as many rows. -/
theorem countP_key_mem (t : Table key) {ks : List K} (nodup : ks.Nodup) (held : ∀ k ∈ ks, k ∈ t.keys) :
    t.rows.countP (fun row => key row ∈ ks) = ks.length := by
  have selected : (t.keys.filter fun k => k ∈ ks).Perm ks := by
    apply (perm_ext_iff_of_nodup (Nodup.filter _ t.keys_nodup) nodup).mpr
    intro k
    simpa using held k
  rw [← selected.length_eq, keys, filter_map, length_map, countP_eq_length_filter]
  rfl

/-- Rewriting the selected rows moves a count by as many as there are of them, if the counted
property has one value before and one after at all of them. -/
theorem countP_map_selected (rows : List V) (p selected : V → Bool) (f : V → V) (before after : Bool)
    (off : ∀ row ∈ rows, selected row = false → p (f row) = p row)
    (on : ∀ row ∈ rows, selected row = true → p row = before ∧ p (f row) = after) :
    (rows.map f).countP p + before.toNat * rows.countP selected =
      rows.countP p + after.toNat * rows.countP selected := by
  induction rows with
  | nil => simp
  | cons row rest ih =>
    have rest := ih (fun r member => off r (by simp [member])) (fun r member => on r (by simp [member]))
    cases mine : selected row with
    | true =>
      obtain ⟨old, new⟩ := on row (by simp) mine
      simp only [map_cons, countP_cons, old, new, mine]
      cases before <;> cases after <;> simp <;> simp at rest <;> omega
    | false =>
      have same := off row (by simp) mine
      simp only [map_cons, countP_cons, same, mine, Bool.false_eq_true, if_false, Nat.add_zero]
      omega

theorem countP_upsertAll_le (t : Table key) (p : V → Bool) (rows : List V) :
    (t.upsertAll rows).rows.countP p ≤ t.rows.countP p + rows.countP p := by
  induction rows generalizing t with
  | nil => exact Nat.le_refl _
  | cons row rest ih =>
    have step : (t.upsert row).rows.countP p ≤ t.rows.countP p + (p row).toNat := by
      cases found : t.find (key row) with
      | none => exact Nat.le_of_eq (countP_upsert_of_none p found)
      | some old =>
        have balance := countP_upsert_of_find p found
        omega
    have rest := ih (t.upsert row)
    rw [countP_cons]
    have gain : (p row).toNat = if p row = true then 1 else 0 := by cases p row <;> rfl
    exact Nat.le_trans rest (by omega)

/-- Rows that are not counted, written over rows that are not counted. -/
theorem countP_upsertAll_of_false (t : Table key) (off : ∀ row ∈ rows, p row = false)
    (foreign : ∀ old ∈ t.rows, p old = true → key old ∉ rows.map key) :
    (t.upsertAll rows).rows.countP p = t.rows.countP p := by
  induction rows generalizing t with
  | nil => rfl
  | cons row rest ih =>
    have step : (t.upsert row).rows.countP p = t.rows.countP p := by
      cases found : t.find (key row) with
      | none => rw [countP_upsert_of_none p found, off row (by simp), Bool.toNat_false, Nat.add_zero]
      | some old =>
        have uncounted : p old = false := by
          by_contra counted
          refine foreign old (mem_of_find found) (by simpa using counted) ?_
          rw [key_of_find found]
          simp
        have balance := countP_upsert_of_find p found
        rwa [uncounted, off row (by simp)] at balance
    rw [upsertAll_cons, ih (t.upsert row) (fun other member => off other (by simp [member])), step]
    intro old member counted
    rcases mem_rows_upsert.mp member with same | ⟨before, _⟩
    · rw [same, off row (by simp)] at counted
      cases counted
    · exact fun inRest => foreign old before counted (mem_cons_of_mem _ inRest)

theorem rows_upsertAll_of_fresh (t : Table key) (nodup : (rows.map key).Nodup)
    (fresh : ∀ row ∈ rows, key row ∉ t.keys) : (t.upsertAll rows).rows = t.rows ++ rows := by
  induction rows generalizing t with
  | nil => exact (append_nil _).symm
  | cons row rest ih =>
    rw [map_cons, nodup_cons] at nodup
    have appended : (t.upsert row).rows = t.rows ++ [row] := put_of_not_mem (fresh row (by simp))
    rw [upsertAll_cons, ih (t.upsert row) nodup.2, appended, append_assoc, singleton_append]
    intro other member inKeys
    rcases mem_keys_upsert.mp inKeys with old | same
    · exact fresh other (by simp [member]) old
    · exact nodup.1 (same ▸ mem_map_of_mem member)

end Table

abbrev Map (K V : Type) [DecidableEq K] := Table (Prod.fst : K × V → K)

namespace Map

variable {A : Type}

def get (m : Map K A) (k : K) : Option A := (m.find k).map Prod.snd

def insert (m : Map K A) (k : K) (v : A) : Map K A := m.upsert (k, v)

theorem get_insert (m : Map K A) (k k' : K) (v : A) :
    (m.insert k v).get k' = if k = k' then some v else m.get k' := by
  unfold get insert
  rw [Table.find_upsert]
  split <;> simp_all

@[simp] theorem get_empty (k : K) : get (Table.empty : Map K A) k = none := rfl

end Map

end Keyed
