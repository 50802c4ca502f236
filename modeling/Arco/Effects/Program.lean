import Mathlib.Logic.Relation
import Arco.Data.Schedules

/-! Programs of operations on a shared state, and parties that run them at the same time.

What the operations are and how they are served is a parameter. Between two operations of one party any number of
operations of other parties can be served, and a party can crash at any point.
-/

namespace Effects

open Function

variable {Op : Type} {Res : Op → Type} {α β C P S X : Type}

/-- The continuation of each operation receives its result. -/
inductive Program (Res : Op → Type) (α : Type) where
  | done (result : α)
  | call (op : Op) (next : Res op → Program Res α)

namespace Program

def bind : Program Res α → (α → Program Res β) → Program Res β
  | .done result, f => f result
  | .call op next, f => .call op fun result => (next result).bind f

instance : Monad (Program Res) where
  pure := .done
  bind := .bind

def perform (op : Op) : Program Res (Res op) := .call op .done

end Program

/-- How an operation is served: the choice stands for what the surroundings decide. -/
abbrev Serve (Res : Op → Type) (S X : Type) : Type := X → (op : Op) → S → Res op × S

inductive Program.Runs (serve : Serve Res S X) : Program Res α → S → α → S → Prop where
  | done {result : α} {s : S} : Runs serve (.done result) s result s
  | call {op : Op} {next : Res op → Program Res α} {s s' : S} {result : α} (choice : X)
      (rest : Runs serve (next (serve choice op s).1) (serve choice op s).2 result s') :
      Runs serve (.call op next) s result s'

structure Label (C : Type) where
  id : Nat
  call : C

inductive Party (Res : Op → Type) (α C : Type) where
  | idle
  | running (label : Label C) (rest : Program Res α)

/-- The program of each call, and the calls that can be made once others have returned. -/
structure Protocol (Res : Op → Type) (α C : Type) where
  program : C → Program Res α
  admits : List (Label C × α) → C → Bool := fun _ _ => true

/-- The states in which the calls were started are kept, in the order of their numbers. -/
structure World (Res : Op → Type) (α C P S : Type) where
  state : S
  party : P → Party Res α C := fun _ => .idle
  starts : List S := []
  returned : List (Label C × α) := []

inductive Action (C P X : Type) where
  | start (party : P) (call : C)
  | step (party : P) (choice : X)
  | crash (party : P)

namespace Protocol

variable [DecidableEq P] (serve : Serve Res S X)

def next (protocol : Protocol Res α C) (w : World Res α C P S) : Action C P X → Option (World Res α C P S)
  | .start p call =>
    match w.party p with
    | .running _ _ => none
    | .idle =>
      if protocol.admits w.returned call then
        some { w with
          party := update w.party p (.running ⟨w.starts.length, call⟩ (protocol.program call))
          starts := w.starts ++ [w.state] }
      else none
  | .step p choice =>
    match w.party p with
    | .idle => none
    | .running label (.done result) =>
      some { w with
        party := update w.party p .idle
        returned := w.returned ++ [(label, result)] }
    | .running label (.call op rest) =>
      some { w with
        party := update w.party p (.running label (rest (serve choice op w.state).1))
        state := (serve choice op w.state).2 }
  | .crash p => some { w with party := update w.party p .idle }

/-- The worlds that a run reaches whose actions are all as `allowed` says. -/
inductive Reaches (protocol : Protocol Res α C) (allowed : World Res α C P S → Action C P X → Prop)
    (w : World Res α C P S) : World Res α C P S → Prop where
  | refl : Reaches protocol allowed w w
  | step {w' w'' : World Res α C P S} {action : Action C P X} : Reaches protocol allowed w w' →
      protocol.next serve w' action = some w'' → allowed w' action → Reaches protocol allowed w w''

variable {serve} {protocol : Protocol Res α C} {allowed : World Res α C P S → Action C P X → Prop}
  {w w' : World Res α C P S}

theorem Reaches.mono {allowed' : World Res α C P S → Action C P X → Prop}
    (reaches : protocol.Reaches serve allowed w w') (weaker : ∀ w action, allowed w action → allowed' w action) :
    protocol.Reaches serve allowed' w w' := by
  induction reaches with
  | refl => exact .refl
  | step _ next ok ih => exact ih.step next (weaker _ _ ok)

inductive Moves (serve : Serve Res S X) (protocol : Protocol Res α C) (w : World Res α C P S) :
    Action C P X → World Res α C P S → Prop where
  | start {p : P} {call : C} (idle : w.party p = .idle) (admitted : protocol.admits w.returned call = true) :
      Moves serve protocol w (.start p call) { w with
        party := update w.party p (.running ⟨w.starts.length, call⟩ (protocol.program call))
        starts := w.starts ++ [w.state] }
  | ends {p : P} {choice : X} {label : Label C} {result : α} (running : w.party p = .running label (.done result)) :
      Moves serve protocol w (.step p choice) { w with
        party := update w.party p .idle
        returned := w.returned ++ [(label, result)] }
  | serves {p : P} {choice : X} {label : Label C} {op : Op} {rest : Res op → Program Res α}
      (running : w.party p = .running label (.call op rest)) :
      Moves serve protocol w (.step p choice) { w with
        party := update w.party p (.running label (rest (serve choice op w.state).1))
        state := (serve choice op w.state).2 }
  | crash {p : P} : Moves serve protocol w (.crash p) { w with party := update w.party p .idle }

theorem moves_of_next {action : Action C P X} (next : protocol.next serve w action = some w') :
    Moves serve protocol w action w' := by
  cases action with
  | start p call =>
    cases now : w.party p with
    | running label rest => simp [Protocol.next, now] at next
    | idle =>
      simp only [Protocol.next, now] at next
      split at next
      · rename_i admitted
        obtain rfl := Option.some.inj next
        exact .start now admitted
      · cases next
  | step p choice =>
    cases now : w.party p with
    | idle => simp [Protocol.next, now] at next
    | running label rest =>
      cases rest with
      | done result =>
        simp only [Protocol.next, now] at next
        obtain rfl := Option.some.inj next
        exact .ends now
      | call op rest =>
        simp only [Protocol.next, now] at next
        obtain rfl := Option.some.inj next
        exact .serves now
  | crash p =>
    obtain rfl := Option.some.inj next
    exact .crash

/-- The party goes on until its call has returned. -/
def goOn (p : P) (choice : X) : Schedules.Move (World Res α C P S) (Action C P X) :=
  .goOn fun w => match w.party p with
    | .idle => none
    | .running _ _ => some (.step p choice)

theorem exists_of_play (serve : Serve Res S X) (protocol : Protocol Res α C)
    (check : World Res α C P S → Action C P X → Bool) (fuel : Nat) (w : World Res α C P S)
    (schedule : List (Schedules.Move (World Res α C P S) (Action C P X))) (test : World Res α C P S → Bool)
    (passed : (Schedules.play (protocol.next serve) check fuel w schedule).any test = true) :
    ∃ w', protocol.Reaches serve (fun w action => check w action = true) w w' ∧ test w' = true :=
  Schedules.exists_of_play (fun _ _ _ reached next ok => reached.step next ok) .refl passed

end Protocol

/-! ## Programs that keep a contract, one by one and together

A contract is an invariant of the state, together with what an operation may do to the state. A program keeps it if
each of its operations does, whatever other parties that keep it have made of the state by then.
-/

open List

variable {ε : Type}

/-- The runs that a contract speaks about are those in which each operation finds the state as `may` says. -/
structure Contract (Op S C : Type) where
  inv : S → Prop
  guarantee : S → S → Prop
  may : C → Op → S → Prop
  refl : ∀ s, guarantee s s

/-- A state that others can have brought about. -/
def Contract.Grown (contract : Contract Op S C) : S → S → Prop :=
  Relation.ReflTransGen fun s s' => contract.inv s' ∧ contract.guarantee s s'

variable {contract : Contract Op S C} {s s' : S}

theorem Contract.Grown.keeps {Known : S → Prop} (grown : contract.Grown s s')
    (step : ∀ {s s'}, contract.inv s → contract.inv s' → contract.guarantee s s' → Known s → Known s')
    (holds : contract.inv s) (known : Known s) : Known s' := by
  have both : contract.inv s' ∧ Known s' := by
    induction grown with
    | refl => exact ⟨holds, known⟩
    | tail _ last ih => exact ⟨last.1, step ih.1 last.1 last.2 ih.2⟩
  exact both.2

namespace Program

/-- The program keeps the contract and ends as `post` says, also if others go on once it has ended. -/
def Safe (serve : Serve Res S X) (contract : Contract Op S C) (call : C) (post : α → S → Prop) : Program Res α → S → Prop
  | .done result, s => ∀ s', contract.Grown s s' → contract.inv s' → post result s'
  | .call op next, s => ∀ s', contract.Grown s s' → contract.inv s' → contract.may call op s' → ∀ choice,
      contract.inv (serve choice op s').2 ∧ contract.guarantee s' (serve choice op s').2 ∧
        Safe serve contract call post (next (serve choice op s').1) (serve choice op s').2

variable {serve : Serve Res S X} {call : C} {post : α → S → Prop} {p : Program Res α}

theorem Safe.mono {post' : α → S → Prop} (weaker : ∀ a s, contract.inv s → post a s → post' a s)
    (safe : p.Safe serve contract call post s) : p.Safe serve contract call post' s := by
  induction p generalizing s with
  | done result => exact fun s' grown holds => weaker _ _ holds (safe s' grown holds)
  | call op next ih =>
    intro s' grown holds may choice
    obtain ⟨kept, guaranteed, rest⟩ := safe s' grown holds may choice
    exact ⟨kept, guaranteed, ih _ rest⟩

theorem Safe.stable {s' : S} (safe : p.Safe serve contract call post s) (grown : contract.Grown s s') :
    p.Safe serve contract call post s' := by
  cases p with
  | done result | call op next => exact fun s'' further => safe s'' (grown.trans further)

theorem Safe.bind {post : β → S → Prop} {f : α → Program Res β} (holds : contract.inv s)
    (safe : p.Safe serve contract call (fun a s' => (f a).Safe serve contract call post s') s) :
    (p.bind f).Safe serve contract call post s := by
  induction p generalizing s with
  | done result => exact safe s .refl holds
  | call op next ih =>
    intro s' grown holds may choice
    obtain ⟨kept, guaranteed, rest⟩ := safe s' grown holds may choice
    exact ⟨kept, guaranteed, ih _ kept rest⟩

/-- A program knows at its end that the state has grown, and what it knows lasts. -/
theorem Safe.remember (safe : p.Safe serve contract call post s) :
    p.Safe serve contract call (fun a s' => contract.Grown s s' ∧
      ∀ s'', contract.Grown s' s'' → contract.inv s'' → post a s'') s := by
  induction p generalizing s with
  | done result => exact fun s' grown _ => ⟨grown, fun s'' further => safe s'' (grown.trans further)⟩
  | call op next ih =>
    intro s' grown holds may choice
    obtain ⟨kept, guaranteed, rest⟩ := safe s' grown holds may choice
    refine ⟨kept, guaranteed, (ih _ rest).mono ?_⟩
    intro a s'' _ known
    exact ⟨(grown.tail ⟨kept, guaranteed⟩).trans known.1, known.2⟩

theorem safe_attempt {x : ExceptT ε (Program Res) α} {f : α → ExceptT ε (Program Res) β}
    {post : Except ε β → S → Prop} (holds : contract.inv s)
    (safe : Safe serve contract call (fun result s' => match result with
      | .ok a => Safe serve contract call post (f a).run s'
      | .error error => ∀ s'', contract.Grown s' s'' → contract.inv s'' → post (.error error) s'') x.run s) :
    Safe serve contract call post (x >>= f).run s := by
  refine Safe.bind holds (safe.mono ?_)
  intro result s' _ known
  cases result with
  | ok a | error error => exact known

end Program

/-- Each call is safe, if the calls that have returned ended as `post` says. The state in which the call is started is
known to its end. -/
structure Contract.Verified (contract : Contract Op S C) (serve : Serve Res S X) (protocol : Protocol Res α C)
    (post : C → S → α → S → Prop) : Prop where
  calls : ∀ returned call s, protocol.admits returned call = true → contract.inv s →
    (∀ x ∈ returned, ∃ start, post x.1.call start x.2 s) →
    (protocol.program call).Safe serve contract call (post call s) s

structure World.Sound (serve : Serve Res S X) (contract : Contract Op S C) (post : C → S → α → S → Prop)
    (w : World Res α C P S) : Prop where
  holds : contract.inv w.state
  safe : ∀ p label rest, w.party p = .running label rest → ∃ start, w.starts[label.id]? = some start ∧
    rest.Safe serve contract label.call (post label.call start) w.state
  returned : ∀ x ∈ w.returned, ∃ start, w.starts[x.1.id]? = some start ∧
    ∀ s, contract.Grown w.state s → contract.inv s → post x.1.call start x.2 s

def Contract.Meets (contract : Contract Op S C) (w : World Res α C P S) (action : Action C P X) : Prop :=
  ∀ p choice label op rest, action = .step p choice → w.party p = .running label (.call op rest) →
    contract.may label.call op w.state

theorem getElem?_append_of_eq_some {front back : List S} {i : Nat} (found : front[i]? = some s) :
    (front ++ back)[i]? = some s := by
  rwa [getElem?_append_left (List.getElem?_eq_some_iff.mp found).1]

namespace Contract.Verified

variable [DecidableEq P] {serve : Serve Res S X} {protocol : Protocol Res α C} {post : C → S → α → S → Prop}
  {w w' : World Res α C P S}

theorem next (verified : contract.Verified serve protocol post) (sound : w.Sound serve contract post)
    {action : Action C P X} (next : protocol.next serve w action = some w') (meets : contract.Meets w action) :
    w'.Sound serve contract post ∧ contract.Grown w.state w'.state := by
  cases Protocol.moves_of_next next with
  | @start p call idle admitted =>
    refine ⟨⟨sound.holds, fun q label rest running => ?_, fun x member => ?_⟩, .refl⟩
    · simp only [update_apply] at running
      split at running
      · cases running
        refine ⟨w.state, by simp, verified.calls w.returned call w.state admitted sound.holds fun x member => ?_⟩
        obtain ⟨start, _, ended⟩ := sound.returned x member
        exact ⟨start, ended w.state .refl sound.holds⟩
      · obtain ⟨start, isStart, safe⟩ := sound.safe q label rest running
        exact ⟨start, getElem?_append_of_eq_some isStart, safe⟩
    · obtain ⟨start, isStart, ended⟩ := sound.returned x member
      exact ⟨start, getElem?_append_of_eq_some isStart, ended⟩
  | @ends p choice label result running =>
    refine ⟨⟨sound.holds, fun q label' rest isRunning => ?_, fun x member => ?_⟩, .refl⟩
    · simp only [update_apply] at isRunning
      split at isRunning
      · cases isRunning
      · exact sound.safe q label' rest isRunning
    · obtain earlier | last := mem_append.mp member
      · exact sound.returned x earlier
      · obtain rfl := mem_singleton.mp last
        exact sound.safe p label _ running
  | @serves p choice label op rest running =>
    obtain ⟨start, isStart, safe⟩ := sound.safe p label _ running
    obtain ⟨kept, guaranteed, safe⟩ := safe w.state .refl sound.holds (meets p choice label op rest rfl running) choice
    have grown : contract.Grown w.state (serve choice op w.state).2 := .single ⟨kept, guaranteed⟩
    refine ⟨⟨kept, fun q label' rest' isRunning => ?_, fun x member => ?_⟩, grown⟩
    · simp only [update_apply] at isRunning
      split at isRunning
      · cases isRunning
        exact ⟨start, isStart, safe⟩
      · obtain ⟨start', isStart', safe'⟩ := sound.safe q label' rest' isRunning
        exact ⟨start', isStart', safe'.stable grown⟩
    · obtain ⟨start', isStart', ended⟩ := sound.returned x member
      exact ⟨start', isStart', fun s further => ended s (grown.trans further)⟩
  | @crash p =>
    refine ⟨⟨sound.holds, fun q label rest running => ?_, sound.returned⟩, .refl⟩
    simp only [update_apply] at running
    split at running
    · cases running
    · exact sound.safe q label rest running

def StartsAfter (contract : Contract Op S C) (w w' : World Res α C P S) : Prop :=
  ∀ id start, w.starts.length ≤ id → w'.starts[id]? = some start → contract.Grown w.state start

theorem reaches (verified : contract.Verified serve protocol post) (sound : w.Sound serve contract post)
    (reaches : protocol.Reaches serve contract.Meets w w') :
    w'.Sound serve contract post ∧ contract.Grown w.state w'.state ∧ StartsAfter contract w w' := by
  induction reaches with
  | refl =>
    refine ⟨sound, .refl, fun id start late found => ?_⟩
    exact absurd (List.getElem?_eq_some_iff.mp found).1 (by omega)
  | @step between after action _ next meets ih =>
    obtain ⟨sound, grown, starts⟩ := ih
    obtain ⟨sound', further⟩ := verified.next sound next meets
    refine ⟨sound', grown.trans further, ?_⟩
    cases Protocol.moves_of_next next with
    | start idle admitted =>
      intro id start late found
      rw [getElem?_append] at found
      split at found
      · exact starts id start late found
      · obtain rfl : start = between.state := by
          have single := mem_of_getElem? found
          exact mem_singleton.mp single
        exact grown
    | ends running | serves running | crash => exact starts

end Contract.Verified

theorem World.sound_initial {serve : Serve Res S X} {post : C → S → α → S → Prop} (holds : contract.inv s) :
    ({ state := s } : World Res α C P S).Sound serve contract post where
  holds := holds
  safe _ _ _ running := by cases running
  returned _ member := by cases member

end Effects
