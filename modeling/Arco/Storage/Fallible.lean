import Arco.Storage.Safety

/-! Programs that return early with an error. -/

namespace Storage

open Program.Safe Program

variable {K : Type} {V : K → Type} {Q : Type} {Ans : Q → Type} {ε α β W : Type}

abbrev Fallible {K : Type} (V : K → Type) {Q : Type} (Ans : Q → Type) (ε : Type) : Type → Type :=
  ExceptT ε (Program V Ans)

class Faulty (ε : Type) (K : outParam Type) where
  fault : ε
  notFound : K → ε

abbrev Onward (inv : Store V W → Prop) (writer : W) (s s' : Store V W) : Prop :=
  Later inv (fun _ _ => True) writer s s'

theorem Later.onward {inv : Store V W → Prop} {rely : Store V W → Store V W → Prop} {writer : W} {s s' : Store V W}
    (later : Later inv rely writer s s') : Onward inv writer s s' := ⟨later.le, later.inv, later.own, trivial⟩

namespace Fallible

def ask (question : Q) : Fallible V Ans ε (Ans question) := Program.ask question fun answer => .done (.ok answer)

def ofExcept (result : Except ε α) : Fallible V Ans ε α := done result

def handle (x : Fallible V Ans ε α) (handler : ε → Fallible V Ans ε α) : Fallible V Ans ε α :=
  x.run.bind fun
    | .ok result => .done (.ok result)
    | .error error => (handler error).run

def mapError {ε' : Type} (report : ε → ε') (x : Fallible V Ans ε α) : Fallible V Ans ε' α :=
  x.run.bind fun result => .done (result.mapError report)

def attempt {ε' : Type} (x : Fallible V Ans ε α) : Fallible V Ans ε' (Except ε α) := x.run.bind fun result => .done (.ok result)

section Operations

variable [Faulty ε K]

def head (k : K) : Fallible V Ans ε (Option Nat) :=
  Program.head k fun
    | .ok version => .done (.ok version)
    | .fault => .done (.error Faulty.fault)

def find (k : K) : Fallible V Ans ε (Option (V k)) :=
  get k fun
    | .ok value => .done (.ok value)
    | .fault => .done (.error Faulty.fault)

def get (k : K) : Fallible V Ans ε (V k) :=
  Program.get k fun
    | .ok (some value) => .done (.ok value)
    | .ok none => .done (.error (Faulty.notFound k))
    | .fault => .done (.error Faulty.fault)

def put (k : K) (value : V k) (precondition : WritePrecondition) : Fallible V Ans ε WriteResult :=
  Program.put k value precondition fun
    | .ok result => .done (.ok result)
    | .fault => .done (.error Faulty.fault)

end Operations

def ensures (post : α → Store V W → Prop) : Except ε α → Store V W → Prop
  | .ok result, s => post result s
  | .error _, _ => True

variable [DecidableEq K]

def Safe (inv : Store V W → Prop) (conduct : Conduct V Ans (Except ε α) W) (writer : W)
    (post : α → Store V W → Prop) (x : Fallible V Ans ε α) (s : Store V W) : Prop :=
  x.run.Safe inv conduct writer (ensures post) s

/-- It keeps the invariant, whatever it returns. -/
abbrev Keeps (inv : Store V W → Prop) (conduct : Conduct V Ans (Except ε α) W) (writer : W) (x : Fallible V Ans ε α)
    (s : Store V W) : Prop := Safe inv conduct writer (fun _ _ => True) x s

variable {inv : Store V W → Prop} {writer : W} {s : Store V W}
  {conduct : Conduct V Ans (Except ε α) W} {post middle : α → Store V W → Prop} {x : Fallible V Ans ε α}
  {f : α → Fallible V Ans ε β} {k : K} {precondition : WritePrecondition}

theorem Safe.mono {post' : α → Store V W → Prop} (safe : Safe inv conduct writer post x s)
    (weaker : ∀ a s', post a s' → post' a s') :
    Safe inv conduct writer post' x s := by
  refine Program.Safe.mono (fun result s' known => ?_) safe
  cases result with
  | ok a => exact weaker a s' known
  | error error => trivial

theorem Safe.remember (holds : inv s) (safe : Safe inv conduct writer post x s) :
    Safe inv conduct writer (fun a s' => s ≤ s' ∧ inv s' ∧ post a s') x s := by
  refine Program.Safe.mono (fun result s' known => ?_) (Program.Safe.remember holds safe)
  cases result with
  | ok a => exact known
  | error error => trivial

theorem safe_pure {result : α} (holds : post result s) :
    Safe inv conduct writer post (pure result : Fallible V Ans ε α) s := holds

theorem safe_pure_bind {conduct : Conduct V Ans (Except ε β) W} {post : β → Store V W → Prop} {a : α}
    (safe : Safe inv conduct writer post (f a) s) :
    Safe inv conduct writer post (pure a >>= f) s := safe

theorem safe_throw (error : ε) : Safe inv conduct writer post (throw error : Fallible V Ans ε α) s := trivial

theorem safe_ofExcept {result : Except ε α} (holds : ∀ a, result = .ok a → post a s) :
    Safe inv conduct writer post (ofExcept result : Fallible V Ans ε α) s := by
  cases result with
  | ok a => exact holds a rfl
  | error error => trivial

theorem safe_ofExcept_bind {conduct : Conduct V Ans (Except ε β) W} {post : β → Store V W → Prop}
    {result : Except ε α} (safe : ∀ a, result = .ok a → Safe inv conduct writer post (f a) s) :
    Safe inv conduct writer post (ofExcept result >>= f) s := by
  cases result with
  | ok a => exact safe a rfl
  | error error => trivial

theorem safe_bind {conduct : Conduct V Ans (Except ε β) W} {post : β → Store V W → Prop}
    (first : Safe inv (conduct.under (ExceptT.bindCont f)) writer middle x s)
    (second : ∀ a s', middle a s' → Safe inv conduct writer post (f a) s') :
    Safe inv conduct writer post (x >>= f) s := by
  refine bind (mono (fun result s' known => ?_) first)
  cases result with
  | ok a => exact second a s' known
  | error error => trivial

theorem safe_seq {conduct : Conduct V Ans (Except ε β) W} {post : β → Store V W → Prop} (holds : inv s)
    (first : Safe inv (conduct.under (ExceptT.bindCont f)) writer middle x s)
    (second : ∀ a s', s ≤ s' → inv s' → middle a s' → Safe inv conduct writer post (f a) s') :
    Safe inv conduct writer post (x >>= f) s := by
  exact safe_bind (first.remember holds) fun a s' ⟨later, kept, known⟩ => second a s' later kept known

/-- What comes after an error starts where the invariant holds. -/
theorem safe_handle {handler : ε → Fallible V Ans ε α} (holds : inv s)
    (first : ∀ f : Except ε α → Program V Ans (Except ε α), Safe inv (conduct.under f) writer post x s)
    (error : ∀ e s', s ≤ s' → inv s' → Safe inv conduct writer post (handler e) s') :
    Safe inv conduct writer post (handle x handler) s := by
  refine bind (mono (fun result s' known => ?_) (remember holds (first _)))
  obtain ⟨later, kept, known⟩ := known
  cases result with
  | ok a => exact known
  | error e => exact error e s' later kept

theorem safe_mapError {ε' : Type} {report : ε → ε'} {conduct : Conduct V Ans (Except ε' α) W}
    (safe : Safe inv (conduct.under fun result => .done (result.mapError report)) writer post x s) :
    Safe inv conduct writer post (mapError report x) s := by
  refine bind (mono (fun result s' known => ?_) safe)
  cases result with
  | ok a => exact known
  | error e => trivial

theorem safe_attempt {ε' : Type} {conduct : Conduct V Ans (Except ε' (Except ε α)) W}
    {post : Except ε α → Store V W → Prop}
    (safe : x.run.Safe inv (conduct.under fun result => .done (.ok result)) writer post s) :
    Safe inv conduct writer post (attempt x) s := Safe.bind safe

theorem safe_ask {q : Q} {conduct : Conduct V Ans (Except ε (Ans q)) W} :
    Safe inv conduct writer (fun _ s' => Onward inv writer s s') (ask q : Fallible V Ans ε (Ans q)) s :=
  fun _ later _ _ => later.onward

variable [Faulty ε K]

theorem safe_head {conduct : Conduct V Ans (Except ε (Option Nat)) W} :
    Safe inv conduct writer (fun version s' => Onward inv writer s s' ∧ s'.head k = version)
      (head k : Fallible V Ans ε (Option Nat)) s :=
  fun _ later _ => ⟨⟨later.onward, rfl⟩, trivial⟩

theorem safe_find {conduct : Conduct V Ans (Except ε (Option (V k))) W} :
    Safe inv conduct writer (fun value s' => Onward inv writer s s' ∧ s'.get k = value)
      (find k : Fallible V Ans ε (Option (V k))) s :=
  fun _ later _ => ⟨⟨later.onward, rfl⟩, trivial⟩

theorem safe_get {conduct : Conduct V Ans (Except ε (V k)) W} :
    Safe inv conduct writer (fun value s' => Onward inv writer s s' ∧ ∃ author, s'.At k (s'.version k) author value)
      (get k : Fallible V Ans ε (V k)) s :=
  Program.safe_get fun _ later _ => ⟨fun author _ current => ⟨later.onward, author, current⟩, fun _ => trivial, trivial⟩

theorem safe_put {value : V k} {conduct : Conduct V Ans (Except ε WriteResult) W}
    {post : WriteResult → Store V W → Prop}
    (written : ∀ s', Onward inv writer s s' → s'.allows k precondition = true → inv (s'.write k writer value) ∧
      post (.success (s'.version k + 1)) (s'.write k writer value))
    (refused : ∀ s', Onward inv writer s s' → s'.allows k precondition = false → post (.preconditionFailed (s'.version k)) s') :
    Safe inv conduct writer post (put k value precondition : Fallible V Ans ε WriteResult) s :=
  fun s' later _ => ⟨trivial, fun allowed => ⟨(written s' later.onward allowed).1, (written s' later.onward allowed).2,
    trivial⟩, fun refusal => refused s' later.onward refusal⟩

theorem safe_put_keeps {value : V k} {conduct : Conduct V Ans (Except ε WriteResult) W}
    (kept : ∀ s', Onward inv writer s s' → s'.allows k precondition = true → inv (s'.write k writer value)) :
    Keeps inv conduct writer (put k value precondition : Fallible V Ans ε WriteResult) s :=
  safe_put (fun s' later allowed => ⟨kept s' later allowed, trivial⟩) fun _ _ _ => trivial

theorem safe_put_may {value : V k} {conduct : Conduct V Ans (Except ε WriteResult) W}
    {post : WriteResult → Store V W → Prop}
    (written : ∀ s' next, Onward inv writer s s' → conduct.may (.put k value precondition next) s' →
      s'.allows k precondition = true →
      inv (s'.write k writer value) ∧ post (.success (s'.version k + 1)) (s'.write k writer value))
    (refused : ∀ s' next, Onward inv writer s s' → conduct.may (.put k value precondition next) s' →
      s'.allows k precondition = false → post (.preconditionFailed (s'.version k)) s') :
    Safe inv conduct writer post (put k value precondition : Fallible V Ans ε WriteResult) s :=
  fun s' later may => ⟨trivial, fun allowed => ⟨(written s' _ later.onward may allowed).1,
    (written s' _ later.onward may allowed).2, trivial⟩, fun refusal => refused s' _ later.onward may refusal⟩

end Fallible

/-! ## Programs that run alone: nobody interferes with them and no operation fails -/

variable [DecidableEq K]

def Program.Alone (writer : W) (answers : Answers Ans) (post : α → Store V W → Prop) (p : Program V Ans α)
    (s : Store V W) : Prop :=
  ∀ asked, post (p.run writer answers asked s).1 (p.run writer answers asked s).2.2

namespace Program

variable {writer : W} {answers : Answers Ans} {s : Store V W}
  {post post' : α → Store V W → Prop} {p : Program V Ans α}

theorem Alone.mono (ends : p.Alone writer answers post s) (weaker : ∀ a s', post a s' → post' a s') :
    p.Alone writer answers post' s :=
  fun asked => weaker _ _ (ends asked)

theorem Alone.bind {post : β → Store V W → Prop} {f : α → Program V Ans β}
    (ends : p.Alone writer answers (fun a s' => (f a).Alone writer answers post s') s) :
    (p.bind f).Alone writer answers post s := by
  intro asked
  rw [run_bind]
  exact ends asked _

theorem Alone.and (left : p.Alone writer answers post s) (right : p.Alone writer answers post' s) :
    p.Alone writer answers (fun a s' => post a s' ∧ post' a s') s :=
  fun asked => ⟨left asked, right asked⟩

theorem alone_le (p : Program V Ans α) (s : Store V W) : p.Alone writer answers (fun _ s' => s ≤ s') s := by
  intro asked
  induction p generalizing s asked with
  | done result => exact le_rfl
  | ask question next ih => exact ih _ s (asked + 1)
  | head k next ih | get k next ih => exact ih _ s asked
  | put k value precondition next ih =>
    cases allowed : s.allows k precondition with
    | true =>
      simp only [run, conditionalWrite, allowed]
      exact (s.le_write k writer value).trans (ih _ _ asked)
    | false =>
      simp only [run, conditionalWrite, allowed]
      exact ih _ s asked

theorem Safe.run {inv : Store V W → Prop} {conduct : Conduct V Ans α W} (rely : ∀ p s, conduct.rely p s s)
    (may : ∀ p s, conduct.may p s) (safe : p.Safe inv conduct writer post s) (holds : inv s) :
    p.Alone writer answers (fun a s' => post a s' ∧ inv s') s := by
  have now : ∀ p s, inv s → Later inv (conduct.rely p) writer s s :=
    fun p s holds => ⟨le_rfl, holds, fun _ _ _ found => found, rely p s⟩
  intro asked
  induction p generalizing s asked with
  | done result => exact ⟨safe, holds⟩
  | ask question next ih => exact ih _ (safe s (now _ s holds) (may _ s) _) holds (asked + 1)
  | head k next ih | get k next ih => exact ih _ (safe s (now _ s holds) (may _ s)).1 holds asked
  | put k value precondition next ih =>
    obtain ⟨_, success, failure⟩ := safe s (now _ s holds) (may _ s)
    cases allowed : s.allows k precondition with
    | true => simpa [run, conditionalWrite, allowed] using ih _ (success allowed).2.1 (success allowed).1 asked
    | false => simpa [run, conditionalWrite, allowed] using ih _ (failure allowed) holds asked

end Program

namespace Fallible

variable {writer : W} {answers : Answers Ans} {s : Store V W}

def Alone (writer : W) (answers : Answers Ans) (post : Except ε α → Store V W → Prop)
    (x : Fallible V Ans ε α) (s : Store V W) : Prop :=
  x.run.Alone writer answers post s

variable {post : Except ε α → Store V W → Prop} {x : Fallible V Ans ε α} {f : α → Fallible V Ans ε β}

theorem Alone.mono {post' : Except ε α → Store V W → Prop} (ends : Alone writer answers post x s)
    (weaker : ∀ a s', post a s' → post' a s') : Alone writer answers post' x s :=
  Program.Alone.mono ends weaker

theorem alone_pure {a : α} (holds : post (.ok a) s) :
    Alone writer answers post (pure a : Fallible V Ans ε α) s := fun _ => holds

theorem alone_throw {error : ε} (holds : post (.error error) s) :
    Alone writer answers post (throw error : Fallible V Ans ε α) s := fun _ => holds

theorem alone_bind {post : Except ε β → Store V W → Prop} {middle : Except ε α → Store V W → Prop}
    (first : Alone writer answers middle x s) (ok : ∀ a s', middle (.ok a) s' → Alone writer answers post (f a) s')
    (error : ∀ e s', middle (.error e) s' → post (.error e) s') : Alone writer answers post (x >>= f) s := by
  refine Alone.bind (Alone.mono first fun result s' known => ?_)
  cases result with
  | ok a => exact ok a s' known
  | error e => exact fun _ => error e s' known

/-- It returns without an error and writes nothing. -/
abbrev Yields (writer : W) (answers : Answers Ans) (known : α → Prop) (x : Fallible V Ans ε α)
    (s : Store V W) : Prop := Alone writer answers (fun r s' => s' = s ∧ ∃ a, r = .ok a ∧ known a) x s

theorem yields_pure {known : α → Prop} {a : α} (holds : known a) :
    Yields writer answers known (pure a : Fallible V Ans ε α) s := alone_pure ⟨rfl, a, rfl, holds⟩

theorem alone_bind_ok {post : Except ε β → Store V W → Prop} {known : α → Prop} (first : Yields writer answers known x s)
    (ok : ∀ a, known a → Alone writer answers post (f a) s) : Alone writer answers post (x >>= f) s := by
  refine alone_bind first (fun a s' ⟨same, a', isResult, holds⟩ => ?_) fun e s' ⟨_, _, isResult, _⟩ => ?_
  · cases isResult
    exact same ▸ ok a holds
  · cases isResult

theorem alone_bind_eq {post : Except ε β → Store V W → Prop} {a : α} (first : Yields writer answers (· = a) x s)
    (rest : Alone writer answers post (f a) s) : Alone writer answers post (x >>= f) s :=
  alone_bind_ok first fun _ same => same ▸ rest

theorem yields_ask {q : Q} :
    Yields writer answers (fun a => ∃ asked, a = answers asked q) (ask q : Fallible V Ans ε (Ans q)) s :=
  fun asked => ⟨rfl, _, rfl, asked, rfl⟩

variable [Faulty ε K]

theorem yields_head {k : K} : Yields writer answers (· = s.head k) (head k : Fallible V Ans ε (Option Nat)) s :=
  fun _ => ⟨rfl, _, rfl, rfl⟩

theorem yields_find {k : K} : Yields writer answers (· = s.get k) (find k : Fallible V Ans ε (Option (V k))) s :=
  fun _ => ⟨rfl, _, rfl, rfl⟩

theorem yields_get {k : K} {value : V k} (found : s.get k = some value) :
    Yields writer answers (· = value) (get k : Fallible V Ans ε (V k)) s := by
  intro asked
  simp [get, ExceptT.run, Program.run, found]

theorem alone_put_bind {k : K} {value : V k} {precondition : WritePrecondition} {f : WriteResult → Fallible V Ans ε β}
    {post : Except ε β → Store V W → Prop}
    (written : s.allows k precondition = true →
      Alone writer answers post (f (.success (s.version k + 1))) (s.write k writer value))
    (refused : s.allows k precondition = false → Alone writer answers post (f (.preconditionFailed (s.version k))) s) :
    Alone writer answers post (put k value precondition >>= f) s := by
  refine Alone.bind fun asked => ?_
  cases allowed : s.allows k precondition with
  | true =>
    simp only [put, Program.run, Program.conditionalWrite, allowed]
    exact written allowed
  | false =>
    simp only [put, Program.run, Program.conditionalWrite, allowed]
    exact refused allowed

end Fallible

end Storage
