import Arco.Effects.Objects

/-! Programs on an object store that can fail, and how they keep a contract. -/

namespace Effects

open Storage Program

variable {K L ε α β C X : Type} {V : K → Type}

abbrev Attempt (V : K → Type) (L ε α : Type) : Type := ExceptT ε (Program (ObjectRes V L)) α

namespace Attempt

variable (fault : ε)

def answered : Reply α → Attempt V L ε α
  | .ok answer => pure answer
  | .fault => throw fault

def operate (op : ObjectOp V L) : Attempt V L ε (ObjectRes V L op) := ExceptT.lift (perform op)

def headRaw (k : K) : Attempt V L ε (Option Nat) := do
  let reply : Reply (Option Nat) ← operate (.head k : ObjectOp V L)
  answered fault reply

def getRaw (k : K) : Attempt V L ε (Option (V k)) := do
  let reply : Reply (Option (V k)) ← operate (.get k : ObjectOp V L)
  answered fault reply

def tryPut (k : K) (value : V k) (precondition : WritePrecondition) : Attempt V L ε (Reply WriteResult) :=
  operate (.put k value precondition : ObjectOp V L)

def putRaw (k : K) (value : V k) (precondition : WritePrecondition) : Attempt V L ε WriteResult := do
  let reply : Reply WriteResult ← tryPut k value precondition
  answered fault reply

def deleteRaw (k : K) : Attempt V L ε Unit := do
  let reply : Reply Unit ← operate (.delete k : ObjectOp V L)
  answered fault reply

def listRaw (l : L) : Attempt V L ε (List K) := do
  let reply : Reply (List K) ← operate (.list l : ObjectOp V L)
  answered fault reply

end Attempt

section Rules

variable [DecidableEq K] {services : X → Service} {listed : L → K → Bool}
  {contract : Contract (ObjectOp V L) (Objects V) C} {call : C}
  {Q : α → Objects V → Prop} {s : Objects V} {fault : ε}

/-- The program keeps the contract, and ends as `Q` says unless it fails, if its operations are served in the ways that
there are services for. -/
def Attempts (services : X → Service) (listed : L → K → Bool) (contract : Contract (ObjectOp V L) (Objects V) C) (call : C)
    (Q : α → Objects V → Prop) (x : Attempt V L ε α) (s : Objects V) : Prop :=
  Safe (fun x => serveObjects listed (services x)) contract call
    (fun result s' => match result with
      | .ok a => Q a s'
      | .error _ => True) x.run s

variable {f : β → Attempt V L ε α} {k : K} {precondition : WritePrecondition}

theorem attempts_bind {x : Attempt V L ε β} (holds : contract.inv s)
    (attempts : Attempts services listed contract call (fun b s' => Attempts services listed contract call Q (f b) s') x s) :
    Attempts services listed contract call Q (x >>= f) s := by
  refine safe_attempt holds (Safe.mono ?_ attempts)
  intro result s' _ known
  cases result with
  | ok b => exact known
  | error error => exact fun _ _ _ => trivial

theorem attempts_pure {a : α} (ends : ∀ s', contract.Grown s s' → contract.inv s' → Q a s') :
    Attempts services listed contract call Q (pure a : Attempt V L ε α) s := ends

theorem attempts_throw {error : ε} : Attempts services listed contract call Q (throw error : Attempt V L ε α) s :=
  fun _ _ _ => trivial

theorem Attempts.mono {Q' : α → Objects V → Prop} (weaker : ∀ a s, contract.inv s → Q a s → Q' a s)
    {x : Attempt V L ε α} (attempts : Attempts services listed contract call Q x s) :
    Attempts services listed contract call Q' x s := by
  refine Safe.mono ?_ attempts
  intro result s' holds known
  cases result with
  | ok a => exact weaker a s' holds known
  | error error => exact trivial

theorem attempts_seq {x : Attempt V L ε β} {Q' : β → Objects V → Prop} (holds : contract.inv s)
    (first : Attempts services listed contract call Q' x s)
    (rest : ∀ b s', contract.Grown s s' → contract.inv s' → Q' b s' → Attempts services listed contract call Q (f b) s') :
    Attempts services listed contract call Q (x >>= f) s := by
  refine attempts_bind holds (Safe.mono ?_ (Safe.remember first))
  intro result s' holds' known
  cases result with
  | ok b => exact rest b s' known.1 holds' (known.2 s' .refl holds')
  | error error => exact trivial

theorem attempts_answered {service : Service} {answer : β} (rest : Attempts services listed contract call Q (f answer) s) :
    Attempts services listed contract call Q (Attempt.answered fault (replied service answer) >>= f) s := by
  cases service with
  | answered => exact rest
  | lost | landed => exact attempts_throw

theorem attempts_headRaw {f : Option Nat → Attempt V L ε α}
    (rest : ∀ s', contract.Grown s s' → contract.inv s' → contract.may call (.head k) s' →
      Attempts services listed contract call Q (f (s'.head k)) s') :
    Attempts services listed contract call Q (Attempt.headRaw fault k >>= f) s :=
  fun s' grown holds may _ => ⟨holds, contract.refl s', attempts_answered (rest s' grown holds may)⟩

theorem attempts_getRaw {f : Option (V k) → Attempt V L ε α}
    (rest : ∀ s', contract.Grown s s' → contract.inv s' → contract.may call (.get k) s' →
      Attempts services listed contract call Q (f (s'.current k)) s') :
    Attempts services listed contract call Q (Attempt.getRaw fault k >>= f) s :=
  fun s' grown holds may _ => ⟨holds, contract.refl s', attempts_answered (rest s' grown holds may)⟩

theorem attempts_listRaw {l : L} {f : List K → Attempt V L ε α}
    (rest : ∀ s', contract.Grown s s' → contract.inv s' → contract.may call (.list l) s' →
      Attempts services listed contract call Q (f (s'.list listed l)) s') :
    Attempts services listed contract call Q (Attempt.listRaw fault l >>= f) s :=
  fun s' grown holds may _ => ⟨holds, contract.refl s', attempts_answered (rest s' grown holds may)⟩

theorem attempts_tryPut {value : V k} {f : Reply WriteResult → Attempt V L ε α}
    (refused : ∀ s', contract.Grown s s' → contract.inv s' → contract.may call (.put k value precondition) s' →
      s'.allows k precondition = false →
      Attempts services listed contract call Q (f (.ok (.preconditionFailed (s'.version k)))) s')
    (written : ∀ s', contract.Grown s s' → contract.inv s' → contract.may call (.put k value precondition) s' →
      s'.allows k precondition = true → contract.inv (s'.put k value) ∧ contract.guarantee s' (s'.put k value) ∧
      Attempts services listed contract call Q (f (.ok (.success (s'.version k + 1)))) (s'.put k value))
    (lost : ∀ choice s', services choice ≠ .answered → contract.Grown s s' → contract.inv s' →
      Attempts services listed contract call Q (f .fault) s') :
    Attempts services listed contract call Q (Attempt.tryPut k value precondition >>= f) s := by
  intro s' grown holds may choice
  cases allowed : s'.allows k precondition with
  | false =>
    have same : conditionalPut s' k value precondition = (.preconditionFailed (s'.version k), s') := by
      rw [conditionalPut, if_neg (by simp [allowed])]
    simp only [serveObjects, same, ite_self]
    refine ⟨holds, contract.refl s', ?_⟩
    cases served : services choice with
    | answered => exact refused s' grown holds may allowed
    | lost | landed => exact lost choice s' (by simp [served]) grown holds
  | true =>
    have changed : conditionalPut s' k value precondition = (.success (s'.version k + 1), s'.put k value) := by
      rw [conditionalPut, if_pos allowed]
    simp only [serveObjects, changed]
    obtain ⟨kept, guaranteed, rest⟩ := written s' grown holds may allowed
    cases served : services choice with
    | answered => exact ⟨kept, guaranteed, rest⟩
    | lost => exact ⟨holds, contract.refl s', lost choice s' (by simp [served]) grown holds⟩
    | landed => exact ⟨kept, guaranteed, lost choice _ (by simp [served]) (grown.tail ⟨kept, guaranteed⟩) kept⟩

theorem attempts_putRaw {value : V k} {f : WriteResult → Attempt V L ε α}
    (refused : ∀ s', contract.Grown s s' → contract.inv s' → contract.may call (.put k value precondition) s' →
      s'.allows k precondition = false →
      Attempts services listed contract call Q (f (.preconditionFailed (s'.version k))) s')
    (written : ∀ s', contract.Grown s s' → contract.inv s' → contract.may call (.put k value precondition) s' →
      s'.allows k precondition = true → contract.inv (s'.put k value) ∧ contract.guarantee s' (s'.put k value) ∧
      Attempts services listed contract call Q (f (.success (s'.version k + 1))) (s'.put k value)) :
    Attempts services listed contract call Q (Attempt.putRaw fault k value precondition >>= f) s :=
  attempts_tryPut (f := fun reply => Attempt.answered fault reply >>= f) refused written
    fun _ _ _ _ _ => attempts_throw

theorem attempts_deleteRaw {f : Unit → Attempt V L ε α}
    (deleted : ∀ s', contract.Grown s s' → contract.inv s' → contract.may call (.delete k) s' →
      contract.inv (s'.delete k) ∧ contract.guarantee s' (s'.delete k) ∧
      Attempts services listed contract call Q (f ()) (s'.delete k)) :
    Attempts services listed contract call Q (Attempt.deleteRaw fault k >>= f) s := by
  intro s' grown holds may choice
  obtain ⟨kept, guaranteed, rest⟩ := deleted s' grown holds may
  simp only [serveObjects]
  cases services choice with
  | answered => exact ⟨kept, guaranteed, rest⟩
  | lost => exact ⟨holds, contract.refl s', attempts_throw⟩
  | landed => exact ⟨kept, guaranteed, attempts_throw⟩

end Rules

/-! ## Programs by the operations that they can perform, and runs that nothing interferes with -/

namespace Program

variable {Op : Type} {Res : Op → Type} {S : Type} {Q Q' : Op → Prop}

def Only (Q : Op → Prop) : Program Res α → Prop
  | .done _ => True
  | .call op next => Q op ∧ ∀ result, (next result).Only Q

variable {p : Program Res α}

theorem Only.mono (only : p.Only Q) (weaker : ∀ op, Q op → Q' op) : p.Only Q' := by
  induction p with
  | done result => trivial
  | call op next ih => exact ⟨weaker op only.1, fun result => ih result (only.2 result)⟩

theorem only_bind {f : α → Program Res β} (first : p.Only Q) (rest : ∀ a, (f a).Only Q) :
    (p >>= f).Only Q := by
  induction p with
  | done result => exact rest result
  | call op next ih => exact ⟨first.1, fun result => ih result (first.2 result)⟩

theorem Only.safe {serve : Serve Res S X} {contract : Contract Op S C} {call : C} (only : p.Only Q)
    (keeps : ∀ op s choice, Q op → contract.inv s → contract.may call op s →
      contract.inv (serve choice op s).2 ∧ contract.guarantee s (serve choice op s).2)
    (s : S) :
    p.Safe serve contract call (fun _ _ => True) s := by
  induction p generalizing s with
  | done result => exact fun _ _ _ => trivial
  | call op next ih =>
    intro s' _ holds may choice
    obtain ⟨kept, guaranteed⟩ := keeps op s' choice only.1 holds may
    exact ⟨kept, guaranteed, ih _ (only.2 _) _⟩

section Runs

variable {serve : Serve Res S X} {s s' : S} {a : α}

theorem runs_done {result : α} : (done result : Program Res α).Runs serve s a s' ↔ a = result ∧ s' = s := by
  constructor
  · rintro ⟨⟩
    exact ⟨rfl, rfl⟩
  · rintro ⟨rfl, rfl⟩
    exact .done

theorem runs_call {op : Op} {next : Res op → Program Res α} : (call op next).Runs serve s a s' ↔
    ∃ choice, (next (serve choice op s).1).Runs serve (serve choice op s).2 a s' := by
  constructor
  · rintro (_ | ⟨choice, rest⟩)
    exact ⟨choice, rest⟩
  · rintro ⟨choice, rest⟩
    exact .call choice rest

theorem runs_bind {f : α → Program Res β} {b : β} : (p >>= f).Runs serve s b s' ↔
    ∃ a between, p.Runs serve s a between ∧ (f a).Runs serve between b s' := by
  change (p.bind f).Runs serve s b s' ↔ _
  induction p generalizing s with
  | done result =>
    simp only [runs_done]
    constructor
    · exact fun run => ⟨result, s, ⟨rfl, rfl⟩, run⟩
    · rintro ⟨_, _, ⟨rfl, rfl⟩, run⟩
      exact run
  | call op next ih =>
    simp only [bind, runs_call, ih]
    constructor
    · rintro ⟨choice, a, between, first, rest⟩
      exact ⟨a, between, ⟨choice, first⟩, rest⟩
    · rintro ⟨a, between, ⟨choice, first⟩, rest⟩
      exact ⟨choice, a, between, first, rest⟩

theorem Only.runs (only : p.Only Q) {R : S → S → Prop} (refl : ∀ s, R s s)
    (trans : ∀ s s' s'', R s s' → R s' s'' → R s s'') (keeps : ∀ op s choice, Q op → R s (serve choice op s).2)
    (run : p.Runs serve s a s') : R s s' := by
  induction run with
  | done => exact refl _
  | call choice rest ih => exact trans _ _ _ (keeps _ _ choice only.1) (ih (only.2 _))

def execute (serve : Serve Res S X) (choice : X) : (fuel : Nat) → Program Res α → S → Option (α × S)
  | _, .done result, s => some (result, s)
  | 0, .call _ _, _ => none
  | fuel + 1, .call op next, s => execute serve choice fuel (next (serve choice op s).1) (serve choice op s).2

theorem runs_of_execute {choice : X} {fuel : Nat} (executed : execute serve choice fuel p s = some (a, s')) :
    p.Runs serve s a s' := by
  induction fuel generalizing p s with
  | zero =>
    cases p with
    | done result =>
      obtain ⟨rfl, rfl⟩ := Prod.mk.inj (Option.some.inj executed)
      exact .done
    | call op next => cases executed
  | succ fuel ih =>
    cases p with
    | done result =>
      obtain ⟨rfl, rfl⟩ := Prod.mk.inj (Option.some.inj executed)
      exact .done
    | call op next => exact .call choice (ih executed)

end Runs

end Program

variable {Q : ObjectOp V L → Prop}

namespace Attempt

def Only (Q : ObjectOp V L → Prop) (x : Attempt V L ε α) : Prop := Program.Only Q x.run

theorem Only.inl {Q' : ObjectOp V L → Prop} {x : Attempt V L ε α} (only : x.Only Q) : x.Only fun op => Q op ∨ Q' op :=
  Program.Only.mono only fun _ => .inl

section Only

variable {fault : ε}

theorem only_pure {a : α} : Only Q (pure a : Attempt V L ε α) := trivial

theorem only_throw {error : ε} : Only Q (throw error : Attempt V L ε α) := trivial

theorem only_bind {x : Attempt V L ε β} {f : β → Attempt V L ε α} (first : x.Only Q) (rest : ∀ b, (f b).Only Q) :
    Only Q (x >>= f) := by
  refine Program.only_bind first fun result => ?_
  cases result with
  | ok b => exact rest b
  | error error => exact trivial

theorem only_answered {γ : Type} (reply : Reply γ) : Only Q (answered fault reply : Attempt V L ε γ) := by
  cases reply <;> exact trivial

theorem only_operate {op : ObjectOp V L} (ok : Q op) : Only Q (operate op : Attempt V L ε (ObjectRes V L op)) :=
  ⟨ok, fun _ => trivial⟩

variable {k : K} {precondition : WritePrecondition}

theorem only_headRaw (ok : Q (.head k)) : Only Q (headRaw fault k : Attempt V L ε (Option Nat)) :=
  only_bind (only_operate ok) only_answered

theorem only_getRaw (ok : Q (.get k)) : Only Q (getRaw fault k : Attempt V L ε (Option (V k))) :=
  only_bind (only_operate ok) only_answered

theorem only_listRaw {l : L} (ok : Q (.list l)) : Only Q (listRaw fault l : Attempt V L ε (List K)) :=
  only_bind (only_operate ok) only_answered

theorem only_tryPut {value : V k} (ok : Q (.put k value precondition)) :
    Only Q (tryPut k value precondition : Attempt V L ε (Reply WriteResult)) := only_operate ok

theorem only_putRaw {value : V k} (ok : Q (.put k value precondition)) :
    Only Q (putRaw fault k value precondition : Attempt V L ε WriteResult) :=
  only_bind (only_tryPut ok) only_answered

theorem only_deleteRaw (ok : Q (.delete k)) : Only Q (deleteRaw fault k : Attempt V L ε Unit) :=
  only_bind (only_operate ok) only_answered

end Only

end Attempt

section Returns

variable [DecidableEq K] {listed : L → K → Bool} {s s' : Objects V} {fault : ε}

def Returns (listed : L → K → Bool) (x : Attempt V L ε α) (s : Objects V) (a : α) (s' : Objects V) : Prop :=
  Runs (serveObjects listed) x.run s (.ok a) s'

theorem returns_pure {a b : α} : Returns listed (pure a : Attempt V L ε α) s b s' ↔ b = a ∧ s' = s := by
  refine runs_done.trans ?_
  simp

theorem not_returns_throw {error : ε} {b : α} : ¬ Returns listed (throw error : Attempt V L ε α) s b s' := by
  rintro ⟨⟩

theorem returns_bind {x : Attempt V L ε β} {f : β → Attempt V L ε α} {a : α} :
    Returns listed (x >>= f) s a s' ↔ ∃ b between, Returns listed x s b between ∧ Returns listed (f b) between a s' := by
  refine runs_bind.trans ?_
  constructor
  · rintro ⟨result, between, first, rest⟩
    cases result with
    | ok b => exact ⟨b, between, first, rest⟩
    | error error => cases rest
  · rintro ⟨b, between, first, rest⟩
    exact ⟨.ok b, between, first, rest⟩

theorem returns_replied {service : Service} {a b : α}
    (returns : Returns listed (Attempt.answered fault (replied service a)) s b s') : b = a ∧ s' = s := by
  cases service with
  | answered => exact returns_pure.mp returns
  | lost | landed => exact absurd returns not_returns_throw

theorem returns_headRaw {k : K} {head : Option Nat} (returns : Returns listed (Attempt.headRaw fault k) s head s') :
    head = s.head k ∧ s' = s := by
  obtain ⟨_, run⟩ := runs_call.mp returns
  exact returns_replied run

theorem returns_getRaw {k : K} {value : Option (V k)} (returns : Returns listed (Attempt.getRaw fault k) s value s') :
    value = s.current k ∧ s' = s := by
  obtain ⟨_, run⟩ := runs_call.mp returns
  exact returns_replied run

theorem returns_found {k : K} {error : ε} {f : Option (V k) → Attempt V L ε α} {a : α}
    (returns : Returns listed (Attempt.getRaw fault k >>= f) s a s') (throws : f none = throw error) :
    ∃ value, s.current k = some value ∧ Returns listed (f (some value)) s a s' := by
  obtain ⟨found, _, first, returns⟩ := returns_bind.mp returns
  obtain ⟨isFound, rfl⟩ := returns_getRaw first
  cases found with
  | none => exact absurd (throws ▸ returns) not_returns_throw
  | some value => exact ⟨value, isFound.symm, returns⟩

theorem returns_listRaw {l : L} {keys : List K} (returns : Returns listed (Attempt.listRaw fault l) s keys s') :
    keys = s.list listed l ∧ s' = s := by
  obtain ⟨_, run⟩ := runs_call.mp returns
  exact returns_replied run

theorem returns_tryPut {k : K} {value : V k} {precondition : WritePrecondition} {reply : Reply WriteResult}
    (returns : Returns listed (Attempt.tryPut k value precondition : Attempt V L ε (Reply WriteResult)) s reply s') :
    reply = .fault ∨
      (reply = .ok (.preconditionFailed (s.version k)) ∧ s.allows k precondition = false ∧ s' = s) ∨
      (reply = .ok (.success (s.version k + 1)) ∧ s.allows k precondition = true ∧ s' = s.put k value) := by
  obtain ⟨service, run⟩ := runs_call.mp returns
  obtain ⟨isReply, rfl⟩ := runs_done.mp run
  obtain rfl := Except.ok.inj isReply
  cases service with
  | lost | landed => exact .inl rfl
  | answered =>
    cases allowed : s.allows k precondition with
    | false =>
      have same : conditionalPut s k value precondition = (.preconditionFailed (s.version k), s) := by
        rw [conditionalPut, if_neg (by simp [allowed])]
      simp [serveObjects, replied, same]
    | true =>
      have changed : conditionalPut s k value precondition = (.success (s.version k + 1), s.put k value) := by
        rw [conditionalPut, if_pos allowed]
      simp [serveObjects, replied, changed]

end Returns

end Effects
