import Arco.Data.Schedules
import Arco.Storage.Store

/-! Programs over an object store, and parties that run them at the same time.

A program asks its surroundings (for the time, for a fresh identifier) and issues one storage
operation after the other. Between two operations of one party any number of operations of other
parties can take effect, a party can crash at any point, and an operation can fail with or without
having taken effect.
-/

namespace Storage

open Function

variable {K : Type} {V : K → Type} {Q : Type} {Ans : Q → Type} {α β C P W : Type}

inductive Reply (β : Type) where
  | ok (answer : β)
  | fault

inductive Program {K : Type} (V : K → Type) {Q : Type} (Ans : Q → Type) (α : Type) where
  | done (result : α)
  | ask (question : Q) (next : Ans question → Program V Ans α)
  | head (k : K) (next : Reply (Option Nat) → Program V Ans α)
  | get (k : K) (next : Reply (Option (V k)) → Program V Ans α)
  | put (k : K) (value : V k) (precondition : WritePrecondition) (next : Reply WriteResult → Program V Ans α)

/-- How an operation is served: it is answered, it fails without an effect, or it takes effect and
its answer is lost. -/
inductive Service where
  | answered
  | lost
  | landed
  deriving DecidableEq

/-- The answers to the first question of a run, to the second one and so on. -/
abbrev Answers (Ans : Q → Type) : Type := Nat → (q : Q) → Ans q

namespace Program

def bind : Program V Ans α → (α → Program V Ans β) → Program V Ans β
  | .done result, f => f result
  | .ask question next, f => .ask question fun answer => (next answer).bind f
  | .head k next, f => .head k fun reply => (next reply).bind f
  | .get k next, f => .get k fun reply => (next reply).bind f
  | .put k value precondition next, f => .put k value precondition fun reply => (next reply).bind f

instance : Monad (Program V Ans) where
  pure := .done
  bind := .bind

section Step

variable [DecidableEq K]

def conditionalWrite (s : Store V W) (writer : W) (k : K) (value : V k) (precondition : WritePrecondition) :
    WriteResult × Store V W :=
  if s.allows k precondition then (.success (s.version k + 1), s.write k writer value)
  else (.preconditionFailed (s.version k), s)

def step (writer : W) (service : Service) (answers : (q : Q) → Ans q) :
    Program V Ans α → Store V W → Program V Ans α × Store V W
  | .done result, s => (.done result, s)
  | .ask question next, s => (next (answers question), s)
  | .head k next, s => (next (if service = .answered then .ok (s.head k) else .fault), s)
  | .get k next, s => (next (if service = .answered then .ok (s.get k) else .fault), s)
  | .put k value precondition next, s =>
    let (result, after) := conditionalWrite s writer k value precondition
    match service with
    | .answered => (next (.ok result), after)
    | .lost => (next .fault, s)
    | .landed => (next .fault, after)

/-- A run without interference and without faults. The answers are used up in order. -/
def run (writer : W) (answers : Answers Ans) :
    Program V Ans α → Nat → Store V W → α × Nat × Store V W
  | .done result, asked, s => (result, asked, s)
  | .ask question next, asked, s => run writer answers (next (answers asked question)) (asked + 1) s
  | .head k next, asked, s => run writer answers (next (.ok (s.head k))) asked s
  | .get k next, asked, s => run writer answers (next (.ok (s.get k))) asked s
  | .put k value precondition next, asked, s =>
    let (result, after) := conditionalWrite s writer k value precondition
    run writer answers (next (.ok result)) asked after

theorem run_bind (writer : W) (answers : Answers Ans) (p : Program V Ans α)
    (f : α → Program V Ans β) (asked : Nat) (s : Store V W) :
    (p.bind f).run writer answers asked s =
      (f (p.run writer answers asked s).1).run writer answers (p.run writer answers asked s).2.1
        (p.run writer answers asked s).2.2 := by
  induction p generalizing asked s with
  | done result => rfl
  | ask question next ih | head k next ih | get k next ih | put k value precondition next ih => exact ih _ _ _

end Step

end Program

structure Label (C : Type) where
  id : Nat
  call : C
  deriving DecidableEq

inductive Party {K : Type} (V : K → Type) {Q : Type} (Ans : Q → Type) (α C : Type) where
  | idle (last : Option (Label C × α))
  | running (label : Label C) (rest : Program V Ans α)

/-- The program of each call, and the calls a party may make after a call that returned. -/
structure Protocol {K : Type} (V : K → Type) {Q : Type} (Ans : Q → Type) (α C : Type) where
  program : C → Program V Ans α
  follows : Option α → C → Bool

structure World {K : Type} (V : K → Type) {Q : Type} (Ans : Q → Type) (α C P : Type) where
  store : Store V (Label C)
  party : P → Party V Ans α C := fun _ => .idle none
  calls : Nat := 0
  returned : List (Label C × α) := []

inductive Action {Q : Type} (Ans : Q → Type) (C P : Type) where
  | start (party : P) (call : C)
  | step (party : P) (service : Service) (answers : (q : Q) → Ans q)
  | crash (party : P)

def Action.party : Action Ans C P → P
  | .start p _ => p
  | .step p _ _ => p
  | .crash p => p

namespace Protocol

variable [DecidableEq K] [DecidableEq P]

def next (protocol : Protocol V Ans α C) (w : World V Ans α C P) : Action Ans C P → Option (World V Ans α C P)
  | .start p call =>
    match w.party p with
    | .running _ _ => none
    | .idle last =>
      if protocol.follows (last.map Prod.snd) call then
        some { w with
          party := update w.party p (.running ⟨w.calls, call⟩ (protocol.program call))
          calls := w.calls + 1 }
      else none
  | .step p service answers =>
    match w.party p with
    | .idle _ => none
    | .running label (.done result) =>
      some { w with
        party := update w.party p (.idle (some (label, result)))
        returned := w.returned ++ [(label, result)] }
    | .running label rest =>
      let (rest', store) := rest.step label service answers w.store
      some { w with party := update w.party p (.running label rest'), store }
  | .crash p => some { w with party := update w.party p (.idle none) }

def run (protocol : Protocol V Ans α C) (w : World V Ans α C P) (actions : List (Action Ans C P)) :
    Option (World V Ans α C P) :=
  actions.foldlM protocol.next w

/-- The worlds that a run reaches whose steps are all as `allowed` says. -/
inductive Reaches (protocol : Protocol V Ans α C)
    (allowed : World V Ans α C P → Action Ans C P → World V Ans α C P → Prop) (w : World V Ans α C P) :
    World V Ans α C P → Prop where
  | refl : Reaches protocol allowed w w
  | step {w' w'' : World V Ans α C P} {action : Action Ans C P} : Reaches protocol allowed w w' →
      protocol.next w' action = some w'' → allowed w' action w'' → Reaches protocol allowed w w''

variable {protocol : Protocol V Ans α C} {allowed : World V Ans α C P → Action Ans C P → World V Ans α C P → Prop}
  {w w' : World V Ans α C P} {actions : List (Action Ans C P)} {last : Option (Label C × α)}

theorem Reaches.trans {w'' : World V Ans α C P} (first : Reaches protocol allowed w w')
    (second : Reaches protocol allowed w' w'') :
    Reaches protocol allowed w w'' := by
  induction second with
  | refl => exact first
  | step _ next ok ih => exact ih.step next ok

theorem Reaches.mono {allowed' : World V Ans α C P → Action Ans C P → World V Ans α C P → Prop}
    (reaches : Reaches protocol allowed w w')
    (weaker : ∀ w action w', allowed w action w' → allowed' w action w') : Reaches protocol allowed' w w' := by
  induction reaches with
  | refl => exact .refl
  | step _ next ok ih => exact ih.step next (weaker _ _ _ ok)

def Allows (protocol : Protocol V Ans α C)
    (allowed : World V Ans α C P → Action Ans C P → World V Ans α C P → Prop) :
    World V Ans α C P → List (Action Ans C P) → Prop
  | _, [] => True
  | w, action :: actions =>
    match protocol.next w action with
    | some w' => allowed w action w' ∧ Allows protocol allowed w' actions
    | none => False

theorem reaches_of_allows (allows : Allows protocol allowed w actions) (ran : protocol.run w actions = some w') :
    Reaches protocol allowed w w' := by
  induction actions generalizing w with
  | nil =>
    cases ran
    exact .refl
  | cons action actions ih =>
    obtain ⟨_, first, rest⟩ := Option.bind_eq_some_iff.mp ran
    simp only [Allows, first] at allows
    exact (Reaches.refl.step first allows.1).trans (ih allows.2 rest)

theorem reaches_of_run (each : ∀ action ∈ actions, ∀ w w', allowed w action w')
    (ran : protocol.run w actions = some w') : Reaches protocol allowed w w' := by
  induction actions generalizing w with
  | nil =>
    cases ran
    exact .refl
  | cons action actions ih =>
    obtain ⟨_, first, rest⟩ := Option.bind_eq_some_iff.mp ran
    exact (Reaches.refl.step first (each action List.mem_cons_self _ _)).trans
      (ih (fun action member => each action (List.mem_cons_of_mem _ member)) rest)

def finished (w : World V Ans α C P) (p : P) (label : Label C) (answers : Answers Ans) (asked : Nat)
    (rest : Program V Ans α) : World V Ans α C P :=
  let (result, _, store) := rest.run label answers asked w.store
  { w with store, party := update w.party p (.idle (some (label, result)))
           returned := w.returned ++ [(label, result)] }

theorem reaches_finished (protocol : Protocol V Ans α C) {p : P}
    (each : ∀ w answers w', allowed w (.step p .answered answers) w') {label : Label C}
    (answers : Answers Ans) (asked : Nat) {rest : Program V Ans α}
    (running : w.party p = .running label rest) :
    Reaches protocol allowed w (finished w p label answers asked rest) := by
  have first : ∀ w₁ w₂ w₃ asked, protocol.next w₁ (.step p .answered (answers asked)) = some w₂ →
      Reaches protocol allowed w₂ w₃ → Reaches protocol allowed w₁ w₃ :=
    fun w₁ w₂ w₃ asked next => (Reaches.refl.step next (each _ _ _)).trans
  have goesOn : ∀ (w : World V Ans α C P) store rest,
      ({ w with store, party := update w.party p (.running label rest) } : World V Ans α C P).party p =
        .running label rest := by simp
  -- Each operation of the program is one step of the run, after which the rest is at hand.
  induction rest generalizing asked w with
  | done result =>
    refine first w _ _ asked ?_ .refl
    simp [Protocol.next, running, finished, Program.run]
  | ask question next ih =>
    refine first w _ _ asked (by simp [Protocol.next, running, Program.step]; rfl) ?_
    simpa [finished, Program.run] using ih _ (asked + 1) (goesOn w _ _)
  | head k next ih | get k next ih | put k value precondition next ih =>
    refine first w _ _ asked (by simp [Protocol.next, running, Program.step]; rfl) ?_
    simpa [finished, Program.run] using ih _ asked (goesOn w _ _)

theorem reaches_call (protocol : Protocol V Ans α C) {p : P} {call : C}
    (starts : ∀ w w', allowed w (.start p call) w')
    (each : ∀ w answers w', allowed w (.step p .answered answers) w') (answers : Answers Ans)
    (idle : w.party p = .idle last) (follows : protocol.follows (last.map Prod.snd) call = true) :
    Reaches protocol allowed w
      (finished { w with calls := w.calls + 1 } p ⟨w.calls, call⟩ answers 0 (protocol.program call)) := by
  let w₁ : World V Ans α C P := { w with
    party := update w.party p (.running ⟨w.calls, call⟩ (protocol.program call))
    calls := w.calls + 1 }
  have started : protocol.next w (.start p call) = some w₁ := by simp [Protocol.next, idle, follows, w₁]
  have running : w₁.party p = .running ⟨w.calls, call⟩ (protocol.program call) := by simp [w₁]
  refine (Reaches.refl.step started (starts _ _)).trans ?_
  simpa [finished, w₁] using reaches_finished protocol each answers 0 running

def alone (protocol : Protocol V Ans α C) (p : P) (w : World V Ans α C P) (calls : List (C × Answers Ans)) :
    World V Ans α C P :=
  calls.foldl (fun w (call, answers) =>
    finished { w with calls := w.calls + 1 } p ⟨w.calls, call⟩ answers 0 (protocol.program call)) w

theorem reaches_alone (protocol : Protocol V Ans α C) (p : P)
    (follows : ∀ last call, protocol.follows last call = true)
    (each : ∀ w action w', action.party = p → allowed w action w') (calls : List (C × Answers Ans))
    (idle : w.party p = .idle last) :
    Reaches protocol allowed w (alone protocol p w calls) := by
  induction calls generalizing w last with
  | nil => exact .refl
  | cons call calls ih =>
    have called : Reaches protocol allowed w
        (finished { w with calls := w.calls + 1 } p ⟨w.calls, call.1⟩ call.2 0 (protocol.program call.1)) :=
      reaches_call protocol (fun _ _ => each _ _ _ rfl) (fun _ _ _ => each _ _ _ rfl) call.2 idle (follows _ call.1)
    exact called.trans (ih (update_self p _ w.party))

end Protocol

namespace Protocol

variable [DecidableEq K] [DecidableEq P] {protocol : Protocol V Ans α C} {w w' : World V Ans α C P}

/-- The party goes on until its call has returned. -/
def goOn (p : P) (answers : (q : Q) → Ans q) : Schedules.Move (World V Ans α C P) (Action Ans C P) :=
  .goOn fun w => match w.party p with
    | .idle _ => none
    | .running _ _ => some (.step p .answered answers)

theorem exists_of_play (protocol : Protocol V Ans α C) (check : World V Ans α C P → Action Ans C P → Bool) (fuel : Nat)
    (w : World V Ans α C P) (schedule : List (Schedules.Move (World V Ans α C P) (Action Ans C P)))
    (test : World V Ans α C P → Bool) (passed : (Schedules.play protocol.next check fuel w schedule).any test = true) :
    ∃ w', protocol.Reaches (fun w action _ => check w action = true) w w' ∧ test w' = true :=
  Schedules.exists_of_play (fun _ _ _ reached next ok => reached.step next ok) .refl passed

/-- What the checked steps keep holds before each of them. -/
theorem Reaches.invariant {allowed : World V Ans α C P → Action Ans C P → World V Ans α C P → Prop}
    {inv : World V Ans α C P → Prop} (reached : protocol.Reaches allowed w w')
    (keeps : ∀ w action w', inv w → protocol.next w action = some w' → allowed w action w' → inv w') (holds : inv w) :
    protocol.Reaches (fun w action w' => allowed w action w' ∧ inv w) w w' ∧ inv w' := by
  induction reached with
  | refl => exact ⟨.refl, holds⟩
  | step _ next ok ih => exact ⟨ih.1.step next ⟨ok, ih.2⟩, keeps _ _ _ ih.2 next ok⟩

end Protocol

end Storage
