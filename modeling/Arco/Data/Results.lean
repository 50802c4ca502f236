import Mathlib.Data.List.Forall2

/-! Results of checks that were run one after the other. -/

namespace Results

variable {ε α β : Type}

theorem isOk_iff {x : Except ε α} : x.isOk = true ↔ ∃ a, x = .ok a := by
  cases x with
  | ok a | error e => simp [Except.toBool]

theorem bind_eq_ok {x : Except ε α} {f : α → Except ε β} {b : β} :
    x >>= f = .ok b ↔ ∃ a, x = .ok a ∧ f a = .ok b := by
  cases x with
  | error error | ok a => simp [bind, Except.bind]

def refuse (condition : Bool) (error : ε) : Except ε Unit := if condition then .error error else .ok ()

theorem refuse_eq_ok {condition : Bool} {error : ε} {u : Unit} :
    refuse condition error = .ok u ↔ condition = false := by
  cases condition with
  | false | true => simp [refuse]

/-- A step that is checked only if it is `active`. -/
theorem ite_eq_ok {active accepts : Prop} [Decidable active] {checked : Except ε α} {a b c : α}
    (isChecked : checked = .ok b ↔ accepts ∧ b = c) (unchecked : ¬ active → a = c) :
    (if active then checked else .ok a) = .ok b ↔ (active → accepts) ∧ b = c := by
  by_cases isActive : active
  · simp [isActive, isChecked]
  · simp [isActive, unchecked isActive, eq_comm]

theorem mapM_eq_ok {f : α → Except ε β} {xs : List α} {ys : List β} :
    xs.mapM f = .ok ys ↔ List.Forall₂ (fun x y => f x = .ok y) xs ys := by
  induction xs generalizing ys with
  | nil => simp [pure, Except.pure]
  | cons x xs ih =>
    simp only [List.mapM_cons, bind_eq_ok, ih, List.forall₂_cons_left_iff]
    simp [pure, Except.pure, eq_comm]

/-- A statement about what is left of the list and the state, kept by each round that does not fail. -/
theorem foldlM_invariant {σ : Type} {f : σ → α → Except ε σ} (Invariant : List α → σ → Prop)
    (round : ∀ {x xs s s'}, Invariant (x :: xs) s → f s x = .ok s' → Invariant xs s') {xs : List α} {s s' : σ}
    (start : Invariant xs s) (ends : xs.foldlM f s = .ok s') : Invariant [] s' := by
  induction xs generalizing s with
  | nil =>
    obtain rfl := Except.ok.inj ends
    exact start
  | cons x xs ih =>
    rw [List.foldlM_cons, bind_eq_ok] at ends
    obtain ⟨_, first, ends⟩ := ends
    exact ih (round start first) ends

end Results
