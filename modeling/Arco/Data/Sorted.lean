import Mathlib.Data.List.Sort

/-! Sorted lists with one element more. -/

namespace Sorted

open List

variable {α β : Type}

def Inserted (new : α) (before after : List α) : Prop := ∃ front back, before = front ++ back ∧ after = front ++ new :: back

variable {new : α} {before after : List α}

section

variable (inserted : Inserted new before after)
include inserted

theorem Inserted.cons (a : α) : Inserted new (a :: before) (a :: after) := by
  obtain ⟨front, back, rfl, rfl⟩ := inserted
  exact ⟨a :: front, back, rfl, rfl⟩

theorem Inserted.map (f : α → β) : Inserted (f new) (before.map f) (after.map f) := by
  obtain ⟨front, back, rfl, rfl⟩ := inserted
  exact ⟨front.map f, back.map f, by simp, by simp⟩

theorem Inserted.filterMap {f : α → Option β} {value : β}
    (found : f new = some value) : Inserted value (before.filterMap f) (after.filterMap f) := by
  obtain ⟨front, back, rfl, rfl⟩ := inserted
  exact ⟨front.filterMap f, back.filterMap f, by simp, by simp [found]⟩

end

section Sorting

variable {r : α → α → Prop} [DecidableRel r]

/-- The place of an element does not depend on one that is not before it. -/
theorem Inserted.orderedInsert [IsTrans α r] {new : α} (inserted : Inserted new before after)
    (sorted : after.Pairwise r) (a : α) : Inserted new (before.orderedInsert r a) (after.orderedInsert r a) := by
  obtain ⟨front, back, rfl, rfl⟩ := inserted
  induction front with
  | nil =>
    simp only [nil_append, orderedInsert_cons]
    split
    · rename_i first
      refine ⟨[a], back, ?_, rfl⟩
      cases back with
      | nil => rfl
      | cons next rest =>
        have after := (pairwise_cons.mp sorted).1 next mem_cons_self
        rw [orderedInsert_cons, if_pos (Trans.trans first after)]
        rfl
    · exact ⟨[], _, rfl, rfl⟩
  | cons b front ih =>
    simp only [cons_append, orderedInsert_cons]
    split
    · exact ⟨a :: b :: front, back, rfl, rfl⟩
    · exact (ih (pairwise_cons.mp sorted).2).cons b

theorem Inserted.insertionSort [IsTrans α r] [Std.Total r] {new : α} (inserted : Inserted new before after) :
    Inserted new (before.insertionSort r) (after.insertionSort r) := by
  obtain ⟨front, _, rfl, rfl⟩ := inserted
  induction front with
  | nil =>
    exact ⟨_, _, (takeWhile_append_dropWhile).symm, orderedInsert_eq_take_drop r new _⟩
  | cons a front ih =>
    exact ih.orderedInsert (pairwise_insertionSort r _) a

end Sorting

/-- A list that is sorted and has one element more. -/
theorem inserted_of_mem {r : α → α → Prop} (antisymm : ∀ a b, r a b → r b a → a = b) (sorted : before.Pairwise r)
    (sorted' : after.Pairwise r) (distinct : before.Nodup) (distinct' : after.Nodup) (fresh : new ∉ before)
    (members : ∀ a, a ∈ after ↔ a = new ∨ a ∈ before) : Inserted new before after := by
  obtain ⟨front, back, rfl⟩ := append_of_mem ((members new).mpr (.inl rfl))
  refine ⟨front, back, ?_, rfl⟩
  have shorter : (front ++ back).Sublist (front ++ new :: back) :=
    Sublist.append_left (sublist_cons_self new back) front
  have isNew : new ∉ front ++ back := by
    rw [nodup_middle] at distinct'
    exact (nodup_cons.mp distinct').1
  refine Perm.eq_of_pairwise (fun a b _ _ => antisymm a b) sorted (sorted'.sublist shorter) ?_
  refine (perm_ext_iff_of_nodup distinct (distinct'.sublist shorter)).mpr fun a => ?_
  constructor
  · intro member
    have other : a ≠ new := fun same => fresh (same ▸ member)
    simpa [other] using (members a).mpr (.inr member)
  · intro member
    obtain rfl | known := (members a).mp (shorter.subset member)
    · exact absurd member isNew
    · exact known

end Sorted
