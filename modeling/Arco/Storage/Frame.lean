import Arco.Storage.Fallible

/-! Programs under fixed terms, and what a party keeps in mind while it runs.

The conduct of a party may depend on what it goes on with. Mostly it does not: the same is assumed
of other parties throughout, and of the stores in which an object is written. A program that is
checked under such terms can be used as a part of any program that is run under them.

A party may have to remember more than that the history has grown: that others have left alone what
it has read, or that there is something it has not written yet. Such a fact has to survive whatever
others do between two steps, and the party's own writes to the objects that it does not spare.
-/

namespace Storage

open Fallible

variable {K : Type} {V : K → Type} {Q : Type} {Ans : Q → Type} {ε α β W : Type}

/-- What is assumed about other parties, and about the stores in which an object is written or a
question is asked. -/
structure Terms {K : Type} (V : K → Type) (Q W : Type) where
  rely : Store V W → Store V W → Prop := fun _ _ => True
  puts : (k : K) → V k → Store V W → Prop := fun _ _ _ => True
  asks : Q → Store V W → Prop := fun _ _ => True

/-- A conduct that is on the given terms, whatever the party goes on with. -/
structure Conduct.Honors (conduct : Conduct V Ans α W) (terms : Terms V Q W) : Prop where
  rely : ∀ p s s', conduct.rely p s s' → terms.rely s s'
  puts : ∀ k value precondition next s, conduct.may (.put k value precondition next) s → terms.puts k value s
  asks : ∀ q next s, conduct.may (.ask q next) s → terms.asks q s

theorem Conduct.Honors.under {conduct : Conduct V Ans β W} {terms : Terms V Q W} (honors : conduct.Honors terms)
    (f : α → Program V Ans β) : (conduct.under f).Honors terms where
  rely p := honors.rely (p.bind f)
  puts k value precondition _ := honors.puts k value precondition _
  asks q _ := honors.asks q _

variable [DecidableEq K] {inv : Store V W → Prop} {terms : Terms V Q W} {writer : W} {s : Store V W}

namespace Fallible

/-- A program is safe under every conduct on the given terms. -/
structure Meets (inv : Store V W → Prop) (terms : Terms V Q W) (writer : W) (post : α → Store V W → Prop)
    (x : Fallible V Ans ε α) (s : Store V W) : Prop where
  safe : ∀ conduct : Conduct V Ans (Except ε α) W, conduct.Honors terms → Safe inv conduct writer post x s

section Rules

variable {post : α → Store V W → Prop} {x : Fallible V Ans ε α}

theorem Meets.mono {post' : α → Store V W → Prop} (meets : Meets inv terms writer post x s)
    (weaker : ∀ a s', post a s' → post' a s') : Meets inv terms writer post' x s :=
  ⟨fun conduct honors => (meets.safe conduct honors).mono weaker⟩

theorem Meets.remember (holds : inv s) (meets : Meets inv terms writer post x s) :
    Meets inv terms writer (fun a s' => s ≤ s' ∧ inv s' ∧ post a s') x s :=
  ⟨fun conduct honors => (meets.safe conduct honors).remember holds⟩

variable {post' : β → Store V W → Prop} {f : α → Fallible V Ans ε β}

theorem Meets.seq (holds : inv s) (first : Meets inv terms writer post x s)
    (second : ∀ a s', s ≤ s' → inv s' → post a s' → Meets inv terms writer post' (f a) s') :
    Meets inv terms writer post' (x >>= f) s :=
  ⟨fun conduct honors => safe_seq holds (first.safe _ (honors.under _)) fun a s' later kept known =>
    (second a s' later kept known).safe conduct honors⟩

theorem meets_pure {result : α} (holds : post result s) :
    Meets inv terms writer post (pure result : Fallible V Ans ε α) s := ⟨fun _ _ => safe_pure holds⟩

theorem meets_pure_bind {a : α} (second : Meets inv terms writer post' (f a) s) :
    Meets inv terms writer post' (pure a >>= f) s := ⟨second.safe⟩

theorem meets_throw (error : ε) : Meets inv terms writer post (throw error : Fallible V Ans ε α) s :=
  ⟨fun _ _ => safe_throw error⟩

theorem meets_ofExcept_bind {result : Except ε α}
    (second : ∀ a, result = .ok a → Meets inv terms writer post' (f a) s) :
    Meets inv terms writer post' (ofExcept result >>= f) s :=
  ⟨fun conduct honors => safe_ofExcept_bind fun a isOk => (second a isOk).safe conduct honors⟩

theorem Meets.mapError {ε' : Type} {report : ε → ε'} (meets : Meets inv terms writer post x s) :
    Meets inv terms writer post (mapError report x) s :=
  ⟨fun _ honors => safe_mapError (meets.safe _ (honors.under _))⟩

theorem Meets.attempt {ε' : Type} (meets : Meets inv terms writer post x s) :
    Meets inv terms writer (ensures post) (attempt x : Fallible V Ans ε' (Except ε α)) s :=
  ⟨fun _ honors => safe_attempt (meets.safe _ (honors.under _))⟩

theorem Meets.run {conduct : Conduct V Ans β W} (honors : conduct.Honors terms) {f : Except ε α → β}
    (meets : Meets inv terms writer post x s) (ends : ∀ result s', ensures post result s' → post' (f result) s') :
    (x.run.bind fun result => .done (f result)).Safe inv conduct writer post' s :=
  Program.Safe.bind (Program.Safe.mono ends (meets.safe _ (honors.under _)))

end Rules

end Fallible

/-- A fact that survives the steps of others and the party's own writes. -/
structure Frame (inv : Store V W → Prop) (rely : Store V W → Store V W → Prop) (writer : W) (spared : K → Prop)
    (kept : Store V W → Prop) : Prop where
  later : ∀ s s', kept s → Later inv rely writer s s' → kept s'
  write : ∀ s k value, ¬ spared k → kept s → kept (s.write k writer value)

/-- What has become of a write: it was made in some store that the party has come to, or it was refused. -/
def Written (inv : Store V W → Prop) (terms : Terms V Q W) (kept : Store V W → Prop) (s : Store V W) (writer : W)
    (k : K) (value : V k) (precondition : WritePrecondition) : WriteResult → Store V W → Prop
  | .success version, s' => ∃ s₀, s ≤ s₀ ∧ inv s₀ ∧ kept s₀ ∧ terms.puts k value s₀ ∧
      s₀.allows k precondition = true ∧ version = s₀.version k + 1 ∧ s' = s₀.write k writer value
  | .preconditionFailed _, s' => kept s' ∧ s'.allows k precondition = false

namespace Frame

variable {rely : Store V W → Store V W → Prop} {spared : K → Prop} {kept : Store V W → Prop}

theorem always : Frame inv rely writer spared fun _ => True where
  later _ _ _ _ := trivial
  write _ _ _ _ _ := trivial

variable (frame : Frame inv terms.rely writer spared kept)

include frame

theorem keep {conduct : Conduct V Ans α W} (honors : conduct.Honors terms) (holds : kept s) {p : Program V Ans α}
    {s' : Store V W} (later : Later inv (conduct.rely p) writer s s') : kept s' :=
  frame.later s s' holds ⟨later.le, later.inv, later.own, honors.rely p s s' later.rely⟩

theorem meets_ask {q : Q} (holds : kept s) :
    Meets inv terms writer (fun _ s' => kept s' ∧ terms.asks q s') (ask q : Fallible V Ans ε (Ans q)) s :=
  ⟨fun _ honors _ later may _ => ⟨frame.keep honors holds later, honors.asks q _ _ may⟩⟩

variable [Faulty ε K]

theorem meets_head {k : K} (holds : kept s) :
    Meets inv terms writer (fun version s' => kept s' ∧ s'.head k = version)
      (head k : Fallible V Ans ε (Option Nat)) s :=
  ⟨fun _ honors _ later _ => ⟨⟨frame.keep honors holds later, rfl⟩, trivial⟩⟩

theorem meets_find {k : K} (holds : kept s) :
    Meets inv terms writer (fun value s' => kept s' ∧ s'.get k = value)
      (find k : Fallible V Ans ε (Option (V k))) s :=
  ⟨fun _ honors _ later _ => ⟨⟨frame.keep honors holds later, rfl⟩, trivial⟩⟩

theorem meets_get {k : K} (holds : kept s) :
    Meets inv terms writer (fun value s' => kept s' ∧ ∃ author, s'.At k (s'.version k) author value)
      (get k : Fallible V Ans ε (V k)) s :=
  ⟨fun _ honors => Program.safe_get fun _ later _ =>
    ⟨fun author _ current => ⟨frame.keep honors holds later, author, current⟩, fun _ => trivial, trivial⟩⟩

theorem meets_put {k : K} {value : V k} {precondition : WritePrecondition} (holds : kept s)
    (written : ∀ s', s ≤ s' → inv s' → kept s' → terms.puts k value s' → s'.allows k precondition = true →
      inv (s'.write k writer value)) :
    Meets inv terms writer (Written inv terms kept s writer k value precondition)
      (put k value precondition : Fallible V Ans ε WriteResult) s := by
  refine ⟨fun conduct honors s' later may => ?_⟩
  have remembered := frame.keep honors holds later
  have puts := honors.puts k value precondition _ s' may
  refine ⟨trivial, fun allowed => ?_, fun refused => ⟨remembered, refused⟩⟩
  exact ⟨written s' later.le later.inv remembered puts allowed,
    ⟨s', later.le, later.inv, remembered, puts, allowed, rfl, rfl⟩, trivial⟩

end Frame

end Storage
