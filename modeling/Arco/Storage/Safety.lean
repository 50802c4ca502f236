import Arco.Storage.Program

/-! Safety of programs that run at the same time.

An invariant speaks about the whole history of a store. A program is safe if each of its writes
keeps the invariant, whatever other parties have added to the history by then, provided that they
keep it too. Programs that are safe one by one are safe together: what a party knows about the
history stays true, since a history only grows.
-/

namespace Storage

open Store Function

variable {K : Type} {V : K → Type} {Q : Type} {Ans : Q → Type} {α β C P W : Type}

/-- Assumptions on a run: what other parties do while a party is about to continue with a program,
and the stores in which it continues. -/
structure Conduct {K : Type} (V : K → Type) {Q : Type} (Ans : Q → Type) (α W : Type) where
  rely : Program V Ans α → Store V W → Store V W → Prop
  may : Program V Ans α → Store V W → Prop

def Conduct.free : Conduct V Ans α W where
  rely _ _ _ := True
  may _ _ := True

def Conduct.under (conduct : Conduct V Ans β W) (f : α → Program V Ans β) : Conduct V Ans α W where
  rely p := conduct.rely (p.bind f)
  may p := conduct.may (p.bind f)

/-- A store that a party can find when it continues. The entries that it has written itself are the
ones it knows of. -/
structure Later (inv : Store V W → Prop) (rely : Store V W → Store V W → Prop) (writer : W)
    (s s' : Store V W) : Prop where
  le : s ≤ s'
  inv : inv s'
  own : ∀ k version value, s'.At k version writer value → s.At k version writer value
  rely : rely s s'

theorem Later.trans {inv : Store V W → Prop} {rely : Store V W → Store V W → Prop} {writer : W}
    (relyTrans : ∀ s s' s'', rely s s' → rely s' s'' → rely s s'') {s s' s'' : Store V W}
    (first : Later inv rely writer s s') (second : Later inv rely writer s' s'') : Later inv rely writer s s'' where
  le := first.le.trans second.le
  inv := second.inv
  own k version value found := first.own k version value (second.own k version value found)
  rely := relyTrans _ _ _ first.rely second.rely

namespace Program

variable [DecidableEq K]

/-- Whatever the store has become when the program continues, it keeps the invariant and ends as
`post` says. -/
def Safe (inv : Store V W → Prop) (conduct : Conduct V Ans α W) (writer : W) (post : α → Store V W → Prop) :
    Program V Ans α → Store V W → Prop
  | .done result, s => post result s
  | .ask question next, s => ∀ s', Later inv (conduct.rely (.ask question next)) writer s s' →
      conduct.may (.ask question next) s' → ∀ answer, Safe inv conduct writer post (next answer) s'
  | .head k next, s => ∀ s', Later inv (conduct.rely (.head k next)) writer s s' → conduct.may (.head k next) s' →
      Safe inv conduct writer post (next (.ok (s'.head k))) s' ∧ Safe inv conduct writer post (next .fault) s'
  | .get k next, s => ∀ s', Later inv (conduct.rely (.get k next)) writer s s' → conduct.may (.get k next) s' →
      Safe inv conduct writer post (next (.ok (s'.get k))) s' ∧ Safe inv conduct writer post (next .fault) s'
  | .put k value precondition next, s =>
      ∀ s', Later inv (conduct.rely (.put k value precondition next)) writer s s' →
        conduct.may (.put k value precondition next) s' →
        Safe inv conduct writer post (next .fault) s' ∧
          (s'.allows k precondition = true → inv (s'.write k writer value) ∧
            Safe inv conduct writer post (next (.ok (.success (s'.version k + 1)))) (s'.write k writer value) ∧
            Safe inv conduct writer post (next .fault) (s'.write k writer value)) ∧
          (s'.allows k precondition = false →
            Safe inv conduct writer post (next (.ok (.preconditionFailed (s'.version k)))) s')

variable {inv : Store V W → Prop} {conduct : Conduct V Ans α W} {writer : W} {post : α → Store V W → Prop}
  {p : Program V Ans α} {s : Store V W}

theorem Safe.mono {post' : α → Store V W → Prop} (weaker : ∀ a s, post a s → post' a s)
    (safe : p.Safe inv conduct writer post s) : p.Safe inv conduct writer post' s := by
  induction p generalizing s with
  | done result => exact weaker _ _ safe
  | ask question next ih => exact fun s' later may answer => ih _ (safe s' later may answer)
  | head k next ih | get k next ih => exact fun s' later may => (safe s' later may).imp (ih _) (ih _)
  | put k value precondition next ih =>
    intro s' later may
    obtain ⟨fault, success, failure⟩ := safe s' later may
    exact ⟨ih _ fault, fun allowed => (success allowed).imp id (And.imp (ih _) (ih _)), fun no => ih _ (failure no)⟩

theorem Safe.since {s₀ s₁ : Store V W} (grown : s₀ ≤ s₁)
    (safe : p.Safe inv conduct writer (fun a s' => s₁ ≤ s' ∧ inv s' ∧ post a s') s₁) :
    p.Safe inv conduct writer (fun a s' => s₀ ≤ s' ∧ inv s' ∧ post a s') s₁ :=
  safe.mono fun _ _ known => ⟨grown.trans known.1, known.2⟩

/-- A program that starts where the invariant holds ends in a later store where it holds. -/
theorem Safe.remember (holds : inv s) (safe : p.Safe inv conduct writer post s) :
    p.Safe inv conduct writer (fun a s' => s ≤ s' ∧ inv s' ∧ post a s') s := by
  induction p generalizing s with
  | done result => exact ⟨le_rfl, holds, safe⟩
  | ask question next ih =>
    exact fun s' later may answer => (ih _ later.inv (safe s' later may answer)).since later.le
  | head k next ih | get k next ih =>
    intro s' later may
    obtain ⟨answered, fault⟩ := safe s' later may
    exact ⟨(ih _ later.inv answered).since later.le, (ih _ later.inv fault).since later.le⟩
  | put k value precondition next ih =>
    intro s' later may
    obtain ⟨fault, success, failure⟩ := safe s' later may
    refine ⟨(ih _ later.inv fault).since later.le, fun allowed => ?_,
      fun refused => (ih _ later.inv (failure refused)).since later.le⟩
    obtain ⟨kept, answered, landed⟩ := success allowed
    have grown := later.le.trans (s'.le_write k writer value)
    exact ⟨kept, (ih _ kept answered).since grown, (ih _ kept landed).since grown⟩

theorem Safe.stable (relyTrans : ∀ p s s' s'', conduct.rely p s s' → conduct.rely p s' s'' → conduct.rely p s s'')
    (postStable : ∀ a s s', post a s → s ≤ s' → inv s' → post a s') {s' : Store V W}
    (safe : p.Safe inv conduct writer post s) (later : Later inv (conduct.rely p) writer s s') :
    p.Safe inv conduct writer post s' := by
  cases p with
  | done result => exact postStable _ _ _ safe later.le later.inv
  | ask question next | head k next | get k next | put k value precondition next =>
    exact fun s'' further => safe s'' (later.trans (relyTrans _) further)

theorem Safe.bind {conduct : Conduct V Ans β W} {post : β → Store V W → Prop} {f : α → Program V Ans β}
    (safe : p.Safe inv (conduct.under f) writer (fun a s' => (f a).Safe inv conduct writer post s') s) :
    (p.bind f).Safe inv conduct writer post s := by
  induction p generalizing s with
  | done result => exact safe
  | ask question next ih => exact fun s' later may answer => ih _ (safe s' later may answer)
  | head k next ih | get k next ih => exact fun s' later may => (safe s' later may).imp (ih _) (ih _)
  | put k value precondition next ih =>
    intro s' later may
    obtain ⟨fault, success, failure⟩ := safe s' later may
    exact ⟨ih _ fault, fun allowed => (success allowed).imp id (And.imp (ih _) (ih _)), fun no => ih _ (failure no)⟩

theorem safe_head {k : K} {next : Reply (Option Nat) → Program V Ans α}
    (goesOn : ∀ s', Later inv (conduct.rely (.head k next)) writer s s' → conduct.may (.head k next) s' →
      (0 < s'.version k → (next (.ok (some (s'.version k)))).Safe inv conduct writer post s') ∧
      (s'.version k = 0 → (next (.ok none)).Safe inv conduct writer post s') ∧ (next .fault).Safe inv conduct writer post s') :
    (Program.head k next).Safe inv conduct writer post s := by
  intro s' later may
  obtain ⟨found, missing, fault⟩ := goesOn s' later may
  refine ⟨?_, fault⟩
  by_cases absent : s'.version k = 0
  · rw [head_eq_none.mpr absent]
    exact missing absent
  · rw [head_eq_some.mpr ⟨rfl, Nat.pos_of_ne_zero absent⟩]
    exact found (Nat.pos_of_ne_zero absent)

theorem safe_get {k : K} {next : Reply (Option (V k)) → Program V Ans α}
    (goesOn : ∀ s', Later inv (conduct.rely (.get k next)) writer s s' → conduct.may (.get k next) s' →
      (∀ author value, s'.At k (s'.version k) author value → (next (.ok (some value))).Safe inv conduct writer post s') ∧
      (s'.version k = 0 → (next (.ok none)).Safe inv conduct writer post s') ∧ (next .fault).Safe inv conduct writer post s') :
    (Program.get k next).Safe inv conduct writer post s := by
  intro s' later may
  obtain ⟨found, missing, fault⟩ := goesOn s' later may
  refine ⟨?_, fault⟩
  cases read : s'.get k with
  | none => exact missing (get_eq_none.mp read)
  | some value =>
    obtain ⟨author, current⟩ := get_eq_some.mp read
    exact found author value current

theorem Safe.step (service : Service) (answers : (q : Q) → Ans q) (safe : p.Safe inv conduct writer post s)
    (holds : inv s) (rely : conduct.rely p s s) (may : conduct.may p s) :
    (p.step writer service answers s).1.Safe inv conduct writer post (p.step writer service answers s).2 ∧
      inv (p.step writer service answers s).2 := by
  have now : Later inv (conduct.rely p) writer s s := ⟨le_rfl, holds, fun _ _ _ found => found, rely⟩
  cases p with
  | done result => exact ⟨safe, holds⟩
  | ask question next => exact ⟨safe s now may _, holds⟩
  | head k next | get k next =>
    obtain ⟨answered, fault⟩ := safe s now may
    refine ⟨?_, holds⟩
    dsimp only [step]
    split
    · exact answered
    · exact fault
  | put k value precondition next =>
    obtain ⟨fault, success, failure⟩ := safe s now may
    cases allowed : s.allows k precondition with
    | false =>
      cases service with
      | answered => simpa [step, conditionalWrite, allowed] using ⟨failure allowed, holds⟩
      | lost | landed => simpa [step, conditionalWrite, allowed] using ⟨fault, holds⟩
    | true =>
      obtain ⟨kept, answered, landed⟩ := success allowed
      cases service with
      | answered => simpa [step, conditionalWrite, allowed] using ⟨answered, kept⟩
      | lost => simpa using ⟨fault, holds⟩
      | landed => simpa [step, conditionalWrite, allowed] using ⟨landed, kept⟩

theorem step_store (writer : W) (service : Service) (answers : (q : Q) → Ans q) (p : Program V Ans α)
    (s : Store V W) :
    (p.step writer service answers s).2 = s ∨ ∃ k value precondition next, p = .put k value precondition next ∧
      s.allows k precondition = true ∧ (p.step writer service answers s).2 = s.write k writer value := by
  cases p with
  | done result | ask question next | head k next | get k next => exact .inl rfl
  | put k value precondition next =>
    cases allowed : s.allows k precondition with
    | false => cases service <;> simp [step, conditionalWrite, allowed]
    | true =>
      cases service with
      | lost => exact .inl rfl
      | answered | landed =>
        exact .inr ⟨k, value, precondition, next, rfl, allowed, by simp [step, conditionalWrite, allowed]⟩

theorem le_step (writer : W) (service : Service) (answers : (q : Q) → Ans q) (p : Program V Ans α)
    (s : Store V W) : s ≤ (p.step writer service answers s).2 := by
  obtain same | ⟨k, value, _, _, _, _, written⟩ := step_store writer service answers p s
  · rw [same]
  · rw [written]
    exact s.le_write k writer value

theorem at_step {writer : W} {service : Service} {answers : (q : Q) → Ans q} {k : K} {version : Nat} {other : W}
    {value : V k} (found : (p.step writer service answers s).2.At k version other value) :
    other = writer ∨ s.At k version other value := by
  obtain same | ⟨k', _, _, _, _, _, written⟩ := step_store writer service answers p s
  · exact .inr (same ▸ found)
  · rw [written] at found
    by_cases here : k = k'
    · subst here
      rcases at_write_same.mp found with old | ⟨_, isWriter, _⟩
      · exact .inr old
      · exact .inl isWriter
    · exact .inr ((at_write_ne here).mp found)

end Program

namespace Protocol

variable [DecidableEq K] [DecidableEq P] {protocol : Protocol V Ans α C} {w w' : World V Ans α C P}

theorem next_start {p : P} {call : C} (next : protocol.next w (.start p call) = some w') :
    ∃ last, w.party p = .idle last ∧ protocol.follows (last.map Prod.snd) call = true ∧ w' = { w with
        party := update w.party p (.running ⟨w.calls, call⟩ (protocol.program call))
        calls := w.calls + 1 } := by
  cases now : w.party p with
  | running label rest => simp [Protocol.next, now] at next
  | idle last =>
    simp only [Protocol.next, now] at next
    split at next
    · rename_i follows
      exact ⟨last, rfl, follows, (Option.some.inj next).symm⟩
    · cases next

theorem next_step {p : P} {service : Service} {answers : (q : Q) → Ans q}
    (next : protocol.next w (.step p service answers) = some w') :
    ∃ label rest, w.party p = .running label rest ∧ ((∃ result, rest = .done result ∧ w' = { w with
          party := update w.party p (.idle (some (label, result)))
          returned := w.returned ++ [(label, result)] }) ∨
        w' = { w with
          party := update w.party p (.running label (rest.step label service answers w.store).1)
          store := (rest.step label service answers w.store).2 }) := by
  cases now : w.party p with
  | idle last => simp [Protocol.next, now] at next
  | running label rest =>
    refine ⟨label, rest, rfl, ?_⟩
    cases rest with
    | done result =>
      simp only [Protocol.next, now] at next
      exact .inl ⟨result, rfl, (Option.some.inj next).symm⟩
    | ask question continue_ | head k continue_ | get k continue_ | put k value precondition continue_ =>
      simp only [Protocol.next, now] at next
      exact .inr (Option.some.inj next).symm

theorem next_store {action : Action Ans C P} (next : protocol.next w action = some w') :
    w'.store = w.store ∨ ∃ p service answers label k value precondition rest, action = .step p service answers ∧
      w.party p = .running label (.put k value precondition rest) ∧ w.store.allows k precondition = true ∧
      w'.store = w.store.write k label value := by
  cases action with
  | start p call =>
    obtain ⟨_, _, _, rfl⟩ := next_start next
    exact .inl rfl
  | crash p =>
    cases next
    exact .inl rfl
  | step p service answers =>
    obtain ⟨label, rest, running, ⟨_, _, rfl⟩ | rfl⟩ := next_step next
    · exact .inl rfl
    · obtain same | ⟨k, value, precondition, rest', rfl, allowed, written⟩ :=
        rest.step_store label service answers w.store
      · exact .inl same
      · exact .inr ⟨p, service, answers, label, k, value, precondition, rest', rfl, running, allowed, written⟩

structure Respects (conduct : Label C → Conduct V Ans α (Label C)) (w : World V Ans α C P)
    (action : Action Ans C P) (w' : World V Ans α C P) : Prop where
  rely : ∀ p label rest, p ≠ action.party → w.party p = .running label rest →
    (conduct label).rely rest w.store w'.store
  may : ∀ p service answers label rest, action = .step p service answers → w.party p = .running label rest →
    (conduct label).may rest w.store

omit [DecidableEq K] [DecidableEq P] in
theorem respects_free (w w' : World V Ans α C P) (action : Action Ans C P) :
    Respects (fun _ => Conduct.free) w action w' := ⟨fun _ _ _ _ _ => trivial, fun _ _ _ _ _ _ _ => trivial⟩

theorem Reaches.free (reaches : protocol.Reaches (fun _ _ _ => True) w w') :
    protocol.Reaches (Respects fun _ => Conduct.free) w w' :=
  reaches.mono fun w action w' _ => respects_free w w' action

structure Verified (protocol : Protocol V Ans α C) (conduct : Label C → Conduct V Ans α (Label C))
    (inv : Store V (Label C) → Prop) (post : Label C → α → Store V (Label C) → Prop) : Prop where
  relyRefl : ∀ label p s, (conduct label).rely p s s
  relyTrans : ∀ label p s s' s'', (conduct label).rely p s s' → (conduct label).rely p s' s'' →
    (conduct label).rely p s s''
  postStable : ∀ label a s s', post label a s → s ≤ s' → inv s' → post label a s'
  calls : ∀ (last : Option (Label C × α)) label s, protocol.follows (last.map Prod.snd) label.call = true →
    inv s → (∀ x, last = some x → post x.1 x.2 s) → (∀ k version value, ¬ s.At k version label value) →
    (protocol.program label.call).Safe inv (conduct label) label (post label) s

end Protocol

structure World.Sound (conduct : Label C → Conduct V Ans α (Label C)) (inv : Store V (Label C) → Prop)
    (post : Label C → α → Store V (Label C) → Prop) [DecidableEq K] (w : World V Ans α C P) : Prop where
  holds : inv w.store
  numbered : ∀ k version label value, w.store.At k version label value → label.id < w.calls
  started : ∀ p label rest, w.party p = .running label rest → label.id < w.calls
  distinct : ∀ p label rest q label' rest', w.party p = .running label rest → w.party q = .running label' rest' →
    label.id = label'.id → p = q
  safe : ∀ p label rest, w.party p = .running label rest →
    rest.Safe inv (conduct label) label (post label) w.store
  idle : ∀ p label result, w.party p = .idle (some (label, result)) → post label result w.store
  returned : ∀ x ∈ w.returned, post x.1 x.2 w.store

namespace Protocol

variable [DecidableEq K] [DecidableEq P] {protocol : Protocol V Ans α C}
  {conduct : Label C → Conduct V Ans α (Label C)} {inv : Store V (Label C) → Prop}
  {post : Label C → α → Store V (Label C) → Prop} {w w' : World V Ans α C P}

omit [DecidableEq K] in
theorem running_update {party : P → Party V Ans α C} {p q : P} {now : Party V Ans α C} {label : Label C}
    {rest : Program V Ans α} (running : update party p now q = .running label rest) :
    q = p ∧ now = .running label rest ∨ q ≠ p ∧ party q = .running label rest := by
  by_cases same : q = p
  · subst same
    exact .inl ⟨rfl, by simpa using running⟩
  · exact .inr ⟨same, by simpa [update_of_ne same] using running⟩

section

variable (verified : protocol.Verified conduct inv post) (sound : w.Sound conduct inv post)
include verified sound

/-- A world is sound after one party has moved if the party is, and if the others can go on in the new store. -/
theorem sound_update (p : P)
    {party : Party V Ans α C} {s : Store V (Label C)} {calls : Nat} (holds : inv s) (grows : w.store ≤ s)
    (more : w.calls ≤ calls)
    (numbered : ∀ k version label value, s.At k version label value → label.id < calls)
    (running : ∀ label rest, party = .running label rest → label.id < calls ∧
      (∀ q label' rest', q ≠ p → w.party q = .running label' rest' → label.id ≠ label'.id) ∧
      rest.Safe inv (conduct label) label (post label) s)
    (others : ∀ q label rest, q ≠ p → w.party q = .running label rest → Later inv ((conduct label).rely rest) label w.store s)
    (idle : ∀ label result, party = .idle (some (label, result)) → post label result s)
    (returned : List (Label C × α)) (posts : ∀ x ∈ returned, post x.1 x.2 s) :
    World.Sound conduct inv post { store := s, party := update w.party p party, calls, returned } where
  holds := holds
  numbered := numbered
  started q label rest isRunning := by
    obtain ⟨_, here⟩ | ⟨_, there⟩ := running_update isRunning
    · exact (running label rest here).1
    · exact (sound.started q label rest there).trans_le more
  distinct q label rest r label' rest' first second sameId := by
    obtain ⟨isFirst, here⟩ | ⟨other, there⟩ := running_update first <;>
      obtain ⟨isSecond, here'⟩ | ⟨other', there'⟩ := running_update second
    · exact isFirst.trans isSecond.symm
    · exact absurd sameId ((running label rest here).2.1 r label' rest' other' there')
    · exact absurd sameId.symm ((running label' rest' here').2.1 q label rest other there)
    · exact sound.distinct q label rest r label' rest' there there' sameId
  safe q label rest isRunning := by
    obtain ⟨_, here⟩ | ⟨other, there⟩ := running_update isRunning
    · exact (running label rest here).2.2
    · exact (sound.safe q label rest there).stable (verified.relyTrans _) (verified.postStable _)
        (others q label rest other there)
  idle q label result isIdle := by
    by_cases same : q = p
    · subst same
      exact idle label result (by simpa using isIdle)
    · simp only [update_of_ne same] at isIdle
      exact verified.postStable _ _ _ _ (sound.idle q label result isIdle) grows holds
  returned := posts

variable {last : Option (Label C × α)}

theorem sound_stop (p : P) (idle : ∀ x, last = some x → post x.1 x.2 w.store) (returned : List (Label C × α))
    (posts : ∀ x ∈ returned, post x.1 x.2 w.store) :
    World.Sound conduct inv post { w with party := update w.party p (.idle last), returned } := by
  refine sound_update verified sound p sound.holds le_rfl le_rfl sound.numbered (by simp)
    (fun q label rest _ _ => ⟨le_rfl, sound.holds, fun _ _ _ found => found, verified.relyRefl _ _ _⟩)
    (fun label result isIdle => ?_) returned posts
  obtain rfl := Party.idle.inj isIdle
  exact idle _ rfl

theorem sound_start {p : P} {call : C} (wasIdle : w.party p = .idle last)
    (follows : protocol.follows (last.map Prod.snd) call = true) :
    World.Sound conduct inv post { w with
      party := update w.party p (.running ⟨w.calls, call⟩ (protocol.program call))
      calls := w.calls + 1 } := by
  refine sound_update verified sound p sound.holds le_rfl (Nat.le_succ _)
    (fun k version label value found => Nat.lt_succ_of_lt (sound.numbered k version label value found)) ?_
    (fun q label rest _ _ => ⟨le_rfl, sound.holds, fun _ _ _ found => found, verified.relyRefl _ _ _⟩) (by simp) _
    sound.returned
  rintro label _ ⟨⟩
  refine ⟨Nat.lt_succ_self _, fun q label' rest' _ isRunning => (sound.started q label' rest' isRunning).ne', ?_⟩
  refine verified.calls last _ _ follows sound.holds ?_ fun k version value found => ?_
  · rintro ⟨label, result⟩ isLast
    exact sound.idle p label result (isLast ▸ wasIdle)
  · exact Nat.lt_irrefl _ (sound.numbered k version _ value found)

theorem sound_step {p : P}
    {label : Label C} {rest : Program V Ans α} (running : w.party p = .running label rest) (service : Service)
    (answers : (q : Q) → Ans q) (may : (conduct label).may rest w.store)
    (rely : ∀ q label' rest', q ≠ p → w.party q = .running label' rest' →
      (conduct label').rely rest' w.store (rest.step label service answers w.store).2) :
    World.Sound conduct inv post { w with
      party := update w.party p (.running label (rest.step label service answers w.store).1)
      store := (rest.step label service answers w.store).2 } := by
  obtain ⟨safe, holds⟩ := (sound.safe p label rest running).step service answers sound.holds
    (verified.relyRefl _ _ _) may
  have grows := rest.le_step label service answers w.store
  have apart : ∀ q label' rest', q ≠ p → w.party q = .running label' rest' → label.id ≠ label'.id :=
    fun q label' rest' other isRunning sameId => other (sound.distinct p _ _ q _ _ running isRunning sameId).symm
  refine sound_update verified sound p holds grows le_rfl (fun k version writer value found => ?_) ?_
    (fun q label' rest' other isRunning => ⟨grows, holds, fun k version value found => ?_, rely q label' rest' other isRunning⟩)
    (by simp) _ fun x member => verified.postStable _ _ _ _ (sound.returned x member) grows holds
  · rcases Program.at_step found with rfl | old
    · exact sound.started p _ rest running
    · exact sound.numbered k version writer value old
  · rintro _ _ ⟨⟩
    exact ⟨sound.started p label rest running, apart, safe⟩
  · rcases Program.at_step found with rfl | old
    · exact absurd rfl (apart q _ rest' other isRunning)
    · exact old

theorem Verified.next
    {action : Action Ans C P} (next : protocol.next w action = some w') (respects : Respects conduct w action w') :
    w'.Sound conduct inv post ∧ w.store ≤ w'.store := by
  cases action with
  | start p call =>
    obtain ⟨_, idle, follows, rfl⟩ := next_start next
    exact ⟨sound_start verified sound idle follows, le_rfl⟩
  | crash p =>
    cases next
    exact ⟨sound_stop verified sound p (by simp) w.returned sound.returned, le_rfl⟩
  | step p service answers =>
    obtain ⟨label, rest, running, ⟨result, rfl, rfl⟩ | rfl⟩ := next_step next
    · have ended : post label result w.store := sound.safe p label _ running
      refine ⟨sound_stop verified sound p ?_ _ fun x member => ?_, le_rfl⟩
      · rintro _ ⟨⟩
        exact ended
      · rcases List.mem_append.mp member with old | new
        · exact sound.returned x old
        · obtain rfl := List.mem_singleton.mp new
          exact ended
    · refine ⟨sound_step verified sound running service answers (respects.may p service answers label rest rfl running)
        fun q label' rest' other isRunning => respects.rely q label' rest' other isRunning, ?_⟩
      exact rest.le_step label service answers w.store

theorem Verified.reaches
    (reaches : protocol.Reaches (Respects conduct) w w') : w'.Sound conduct inv post ∧ w.store ≤ w'.store := by
  induction reaches with
  | refl => exact ⟨sound, le_rfl⟩
  | step _ next respects ih =>
    obtain ⟨kept, grows⟩ := ih
    obtain ⟨kept', grows'⟩ := verified.next kept next respects
    exact ⟨kept', grows.trans grows'⟩

end

omit [DecidableEq P] in
theorem sound_initial {s : Store V (Label C)} {calls : Nat} (holds : inv s)
    (numbered : ∀ k version label value, s.At k version label value → label.id < calls) :
    ({ store := s, calls } : World V Ans α C P).Sound conduct inv post where
  holds := holds
  numbered := numbered
  started _ _ _ running := by cases running
  distinct _ _ _ _ _ _ running := by cases running
  safe _ _ _ running := by cases running
  idle _ _ _ idle := by cases idle
  returned _ member := by cases member

omit [DecidableEq P] in
theorem sound_empty (holds : inv {}) : ({ store := {} } : World V Ans α C P).Sound conduct inv post :=
  sound_initial holds fun _ _ _ _ found => by simpa using found.2

end Protocol

end Storage
