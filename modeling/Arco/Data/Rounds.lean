import Mathlib.Order.WellFounded
import Mathlib.Data.List.Forall2

/-! Computations with loops that need not end.

Such a computation is run with a bound on the rounds of each of its loops. It has a result once the
bound is large enough, and a larger bound does not change the result; whether there is such a bound at
all is a question about the computation.
-/

/-- The result within a number of rounds, if there is one by then. -/
@[ext] structure Rounds (α : Type) where
  within : Nat → Option α
  steady : ∀ {n m : Nat} {a : α}, n ≤ m → within n = some a → within m = some a

namespace Rounds

variable {α β σ : Type}

instance : Monad Rounds where
  pure a := ⟨fun _ => some a, fun _ h => h⟩
  bind x f :=
    { within n := (x.within n).bind fun a => (f a).within n
      steady := by
        intro n m b le found
        obtain ⟨a, first, second⟩ := Option.bind_eq_some_iff.mp found
        rw [x.steady le first]
        exact (f a).steady le second }

@[simp] theorem within_pure (a : α) (n : Nat) : (pure a : Rounds α).within n = some a := rfl

@[simp] theorem within_bind (x : Rounds α) (f : α → Rounds β) (n : Nat) :
    (x >>= f).within n = (x.within n).bind fun a => (f a).within n := rfl

instance : LawfulMonad Rounds := .mk' _
  (fun x => by
    refine Rounds.ext (funext fun n => ?_)
    change (x.within n).bind (fun a => some (id a)) = x.within n
    cases x.within n <;> rfl)
  (fun _ _ => rfl)
  (fun x f g => Rounds.ext (funext fun n => by simp [Option.bind_assoc]))

def Returns (x : Rounds α) (a : α) : Prop := ∃ n, x.within n = some a

def Halts (x : Rounds α) : Prop := ∃ a, x.Returns a

variable {x : Rounds α} {f : α → Rounds β} {as : List α} {test : α → Rounds Bool}

theorem Returns.unique {a b : α} (left : x.Returns a) (right : x.Returns b) : a = b := by
  obtain ⟨n, left⟩ := left
  obtain ⟨m, right⟩ := right
  have left' := x.steady (Nat.le_max_left n m) left
  have right' := x.steady (Nat.le_max_right n m) right
  exact Option.some.inj (left'.symm.trans right')

@[simp] theorem returns_pure {a b : α} : (pure a : Rounds α).Returns b ↔ a = b := by
  simp [Returns]

@[simp] theorem returns_bind {b : β} : (x >>= f).Returns b ↔ ∃ a, x.Returns a ∧ (f a).Returns b := by
  constructor
  · rintro ⟨n, found⟩
    obtain ⟨a, first, second⟩ := Option.bind_eq_some_iff.mp found
    exact ⟨a, ⟨n, first⟩, n, second⟩
  · rintro ⟨a, ⟨n, first⟩, m, second⟩
    refine ⟨max n m, ?_⟩
    rw [within_bind, x.steady (Nat.le_max_left n m) first]
    exact (f a).steady (Nat.le_max_right n m) second

@[simp] theorem halts_pure (a : α) : (pure a : Rounds α).Halts := ⟨a, returns_pure.mpr rfl⟩

theorem halts_bind : (x >>= f).Halts ↔ ∃ a, x.Returns a ∧ (f a).Halts := by
  simp only [Halts, returns_bind]
  exact ⟨fun ⟨b, a, first, second⟩ => ⟨a, first, b, second⟩, fun ⟨a, first, b, second⟩ => ⟨b, a, first, second⟩⟩

theorem returns_mapM {bs : List β} :
    (as.mapM f).Returns bs ↔ List.Forall₂ (fun a b => (f a).Returns b) as bs := by
  induction as generalizing bs with
  | nil =>
    rw [List.mapM_nil, returns_pure, List.forall₂_nil_left_iff]
    exact eq_comm
  | cons a as ih =>
    simp only [List.mapM_cons, returns_bind, returns_pure, ih, List.forall₂_cons_left_iff]
    exact ⟨fun ⟨b, first, bs', rest, same⟩ => ⟨b, bs', first, rest, same.symm⟩,
      fun ⟨b, bs', first, rest, same⟩ => ⟨b, first, bs', rest, same.symm⟩⟩

theorem halts_mapM : (as.mapM f).Halts ↔ ∀ a ∈ as, (f a).Halts := by
  simp only [Halts, returns_mapM]
  induction as with
  | nil => simp
  | cons a as ih =>
    simp only [List.forall₂_cons_left_iff, List.forall_mem_cons, ← ih]
    exact ⟨fun ⟨_, b, bs, first, rest, _⟩ => ⟨⟨b, first⟩, bs, rest⟩,
      fun ⟨⟨b, first⟩, bs, rest⟩ => ⟨_, b, bs, first, rest, rfl⟩⟩

/-- A result for each member of the list comes from a member, and each member has one. -/
theorem mem_of_returns_mapM {bs : List β} (returns : (as.mapM f).Returns bs) (b : β) :
    b ∈ bs ↔ ∃ a ∈ as, (f a).Returns b := by
  rw [returns_mapM] at returns
  induction returns with
  | nil => simp
  | cons first _ ih =>
    rw [List.mem_cons, ih, List.exists_mem_cons_iff]
    exact or_congr_left ⟨fun same => same ▸ first, fun found => found.unique first⟩

def any (test : α → Rounds Bool) : List α → Rounds Bool
  | [] => pure false
  | a :: as => do if ← test a then pure true else any test as

def filter (test : α → Rounds Bool) : List α → Rounds (List α)
  | [] => pure []
  | a :: as => do
    let passed ← test a
    let rest ← filter test as
    pure (if passed then a :: rest else rest)

theorem returns_any {p : α → Bool} (decides : ∀ a ∈ as, (test a).Returns (p a)) : (any test as).Returns (as.any p) := by
  induction as with
  | nil => exact returns_pure.mpr rfl
  | cons a as ih =>
    obtain ⟨first, rest⟩ := List.forall_mem_cons.mp decides
    refine returns_bind.mpr ⟨p a, first, ?_⟩
    cases passed : p a
    · simpa [passed] using ih rest
    · simp [passed]

theorem returns_filter {p : α → Bool} (decides : ∀ a ∈ as, (test a).Returns (p a)) : (filter test as).Returns (as.filter p) := by
  induction as with
  | nil => exact returns_pure.mpr rfl
  | cons a as ih =>
    obtain ⟨first, rest⟩ := List.forall_mem_cons.mp decides
    refine returns_bind.mpr ⟨p a, first, returns_bind.mpr ⟨as.filter p, ih rest, ?_⟩⟩
    rw [returns_pure, List.filter_cons]

def loopWithin (body : σ → σ ⊕ β) : Nat → σ → Option β
  | 0, _ => none
  | n + 1, s =>
    match body s with
    | .inl s' => loopWithin body n s'
    | .inr b => some b

theorem loopWithin_succ {body : σ → σ ⊕ β} {n : Nat} {s : σ} {b : β} (found : loopWithin body n s = some b) :
    loopWithin body (n + 1) s = some b := by
  induction n generalizing s with
  | zero => cases found
  | succ n ih =>
    rw [loopWithin] at found ⊢
    cases next : body s with
    | inl s' =>
      rw [next] at found
      exact ih found
    | inr b' =>
      rwa [next] at found

def loop (body : σ → σ ⊕ β) (s : σ) : Rounds β where
  within n := loopWithin body n s
  steady le found := by
    induction le with
    | refl => exact found
    | step _ ih => exact loopWithin_succ ih

section Loops

variable {body : σ → σ ⊕ β} {s s' : σ} {b : β}

theorem returns_loop_of_inr (ends : body s = .inr b) : (loop body s).Returns b := ⟨1, by simp [loop, loopWithin, ends]⟩

theorem returns_loop_of_inl (goesOn : body s = .inl s') : (loop body s).Returns b ↔ (loop body s').Returns b := by
  constructor
  · rintro ⟨n, found⟩
    cases n with
    | zero => cases found
    | succ n => exact ⟨n, by simpa [loop, loopWithin, goesOn] using found⟩
  · rintro ⟨n, found⟩
    exact ⟨n + 1, by simpa [loop, loopWithin, goesOn] using found⟩

theorem halts_loop_of_inl (goesOn : body s = .inl s') : (loop body s).Halts ↔ (loop body s').Halts :=
  exists_congr fun _ => returns_loop_of_inl goesOn

/-- What holds after the last round, from an invariant of the rounds. -/
theorem Returns.of_loop (returns : (loop body s).Returns b) {inv : σ → Prop} (start : inv s)
    (keeps : ∀ s s', inv s → body s = .inl s' → inv s') : ∃ s', inv s' ∧ body s' = .inr b := by
  obtain ⟨n, found⟩ := returns
  induction n generalizing s with
  | zero => cases found
  | succ n ih =>
    cases next : body s with
    | inl s' => exact ih (keeps s s' start next) (by simpa [loop, loopWithin, next] using found)
    | inr b' =>
      obtain rfl : b' = b := by simpa [loop, loopWithin, next] using found
      exact ⟨s, start, next⟩

/-- A loop ends if each round makes a measure smaller. -/
theorem halts_loop {δ : Type} {lt : δ → δ → Prop} (wellFounded : WellFounded lt) (measure : σ → δ)
    (decreases : ∀ s s', body s = .inl s' → lt (measure s') (measure s)) : (loop body s).Halts := by
  induction s using (InvImage.wf measure wellFounded).induction with
  | h s ih =>
    cases next : body s with
    | inl s' => exact (halts_loop_of_inl next).mpr (ih s' (decreases s s' next))
    | inr b => exact ⟨b, returns_loop_of_inr next⟩

end Loops

end Rounds
