import Mathlib.Data.Option.Basic

/-! Runs that are written down as schedules.

A schedule says what is done next and how far, rather than listing every action. It is played action by
action, each of which is checked before it is taken, so that a schedule that was played to its end is a
run all of whose actions have passed the check.
-/

namespace Schedules

variable {W A : Type}

/-- One move of a schedule: an action, or the actions that are chosen until there is none to choose. -/
inductive Move (W A : Type) where
  | act (action : A)
  | goOn (choose : W → Option A)

variable (next : W → A → Option W) (check : W → A → Bool)

def checked (w : W) (action : A) : Option W := if check w action then next w action else none

def goOn (choose : W → Option A) : (fuel : Nat) → W → Option W
  | 0, _ => none
  | fuel + 1, w =>
    match choose w with
    | none => some w
    | some action => (checked next check w action).bind (goOn choose fuel)

def move (fuel : Nat) (w : W) : Move W A → Option W
  | .act action => checked next check w action
  | .goOn choose => goOn next check choose fuel w

def play (fuel : Nat) (w : W) (schedule : List (Move W A)) : Option W := schedule.foldlM (move next check fuel) w

variable {next check} {P : W → Prop} (keeps : ∀ w action w', P w → next w action = some w' → check w action = true → P w')
  {w w' : W}

include keeps

theorem holds_checked {action : A} (holds : P w) (took : checked next check w action = some w') : P w' := by
  unfold checked at took
  split at took
  · exact keeps w action w' holds took ‹_›
  · cases took

theorem holds_goOn {choose : W → Option A} {fuel : Nat} (holds : P w) (gone : goOn next check choose fuel w = some w') :
    P w' := by
  induction fuel generalizing w with
  | zero => cases gone
  | succ fuel ih =>
    unfold goOn at gone
    split at gone
    · exact Option.some.inj gone ▸ holds
    · obtain ⟨_, first, rest⟩ := Option.bind_eq_some_iff.mp gone
      exact ih (holds_checked keeps holds first) rest

theorem holds_play {fuel : Nat} {schedule : List (Move W A)} (holds : P w)
    (played : play next check fuel w schedule = some w') : P w' := by
  induction schedule generalizing w with
  | nil => exact Option.some.inj played ▸ holds
  | cons first rest ih =>
    obtain ⟨_, moved, played⟩ := Option.bind_eq_some_iff.mp played
    refine ih ?_ played
    cases first with
    | act action => exact holds_checked keeps holds moved
    | goOn choose => exact holds_goOn keeps holds moved

theorem exists_of_play {fuel : Nat} {schedule : List (Move W A)} {test : W → Bool} (holds : P w)
    (passed : (play next check fuel w schedule).any test = true) : ∃ w', P w' ∧ test w' = true := by
  obtain ⟨w', played, passed⟩ := (Option.any_eq_true _ _).mp passed
  exact ⟨w', holds_play keeps holds played, passed⟩

end Schedules
