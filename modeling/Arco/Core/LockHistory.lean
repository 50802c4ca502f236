import Arco.Core.Lock

/-! The history of a lock.

What each write does to the record is decided by the call that makes it: an acquisition increments
the sequence number, a release replaces exactly the record that its guard was given, and an extension
keeps the holder and the sequence number of the record it has read. The last is only the record that
it replaces if nobody has written the lock between the two reads of the extension.
-/

namespace Arco.Core

open Storage Store Program.Safe Program

def LockCall.Succeeds (call : LockCall) (version : Nat) (previous info : LockInfo) : Prop :=
  match call with
  | .acquire holderId _ _ _ =>
    info.holderId = holderId ∧ info.sequenceNumber = saturatingSucc previous.sequenceNumber
  | .release guard | .drop guard =>
    version = guard.version ∧ info.holderId = previous.holderId ∧ info.sequenceNumber = previous.sequenceNumber
  | .extend _ _ => info.holderId = previous.holderId ∧ info.sequenceNumber = previous.sequenceNumber

def LockCall.Creates (call : LockCall) (info : LockInfo) : Prop :=
  match call with
  | .acquire holderId _ _ _ => info.holderId = holderId ∧ info.sequenceNumber = 1
  | _ => False

abbrev LockStore : Type := Store LockObject (Label LockCall)

structure Lawful (s : LockStore) : Prop where
  first : ∀ label info, s.At () 1 label info → label.call.Creates info
  next : ∀ version author previous label info, s.At () version author previous → s.At () (version + 1) label info →
    label.call.Succeeds version previous info

theorem lawful_empty : Lawful {} where
  first _ _ found := by simp [At] at found
  next _ _ _ _ _ found := by simp [At] at found

variable {s : LockStore} {label author : Label LockCall} {info : LockInfo}

theorem Lawful.create (lawful : Lawful s) (absent : s.version () = 0) (creates : label.call.Creates info) :
    Lawful (s.write () label info) where
  first label' info' found := by
    rcases at_write_same.mp found with old | ⟨_, rfl, rfl⟩
    · exact lawful.first label' info' old
    · exact creates
  next version author previous label' info' found found' := by
    have := found.1
    have := found'.le
    rw [version_write_self] at this
    omega

theorem Lawful.replace {previous : LockInfo} (lawful : Lawful s) (current : s.At () (s.version ()) author previous)
    (succeeds : label.call.Succeeds (s.version ()) previous info) : Lawful (s.write () label info) where
  first label' info' found := by
    rcases at_write_same.mp found with old | ⟨one, _⟩
    · exact lawful.first label' info' old
    · have := current.1
      omega
  next version author' previous' label' info' found found' := by
    have bound := found'.le
    rw [version_write_self] at bound
    -- The earlier record is an old one in any case; the later one may be the new record.
    rcases at_write_same.mp found with old | ⟨_, _⟩
    · rcases at_write_same.mp found' with old' | ⟨_, rfl, rfl⟩
      · exact lawful.next version author' previous' label' info' old old'
      · obtain rfl : version = s.version () := by omega
        obtain ⟨rfl, rfl⟩ := current.unique old
        exact succeeds
    · omega

def LockCall.isAcquire : LockCall → Bool
  | .acquire _ _ _ _ => true
  | _ => false

def LockCall.isExtend : LockCall → Bool
  | .extend _ _ => true
  | _ => false

/-- Records without an acquisition in between have one holder and one sequence number. -/
theorem Lawful.unacquired (lawful : Lawful s) {version later : Nat} {info' : LockInfo} (order : version ≤ later)
    (start : s.At () version author info) (stop : s.At () later label info')
    (none : ∀ n l i, version < n → n ≤ later → s.At () n l i → l.call.isAcquire = false) :
    info'.holderId = info.holderId ∧ info'.sequenceNumber = info.sequenceNumber := by
  induction later, order using Nat.le_induction generalizing label info' with
  | base =>
    obtain ⟨_, rfl⟩ := start.unique stop
    exact ⟨rfl, rfl⟩
  | succ later order ih =>
    have positive := start.1
    have bound := stop.le
    obtain ⟨author', previous, before⟩ := at_of_le (by omega) (show later ≤ s.version () by omega)
    obtain ⟨holder, sequenceNumber⟩ := ih before fun n l i above below => none n l i above (by omega)
    have succeeds := lawful.next later author' previous label info' before stop
    have notAcquired := none (later + 1) label info' (by omega) le_rfl stop
    cases call : label.call with
    | acquire => simp [call, LockCall.isAcquire] at notAcquired
    | release | drop =>
      simp only [call] at succeeds
      exact ⟨succeeds.2.1.trans holder, succeeds.2.2.trans sequenceNumber⟩
    | extend =>
      simp only [call] at succeeds
      exact ⟨succeeds.1.trans holder, succeeds.2.trans sequenceNumber⟩

def LockGuard.Known (guard : LockGuard) (s : LockStore) : Prop :=
  0 < guard.version ∧ guard.version ≤ s.version ()

def LockGuard.Granted (guard : LockGuard) (label : Label LockCall) (s : LockStore) : Prop :=
  ∃ info, s.At () guard.version label info ∧ info.sequenceNumber = guard.fencingToken ∧
    info.holderId = guard.holderId

theorem LockGuard.Granted.known {guard : LockGuard} (granted : guard.Granted label s) : guard.Known s := by
  obtain ⟨_, at_, _⟩ := granted
  exact ⟨at_.1, at_.le⟩

section Calls

variable {ttl ttl' maxRetries : Nat} {operation operation' : Option String} {guard : LockGuard}
  {conduct : Conduct LockObject Answer (Except Error Unit) (Label LockCall)}

theorem safe_tryAcquire {conduct}
    {holderId : String} (isAcquire : label.call = .acquire holderId ttl' maxRetries operation')
    (s : LockStore) :
    (tryAcquire holderId ttl operation).Safe Lawful conduct label
      (fun result s' => ∀ guard, result = .ok guard → guard.Granted label s') s := by
  have unacquired : ∀ {s' error} (guard : LockGuard), (.error error : Except LockError LockGuard) = .ok guard →
      guard.Granted label s' := by simp
  intro s₁ _ _ now s₂ later₂ _
  refine ⟨unacquired, fun absent => ⟨?_, ?_, unacquired⟩, fun _ => ?_⟩
  · refine later₂.inv.create (allows_doesNotExist.mp absent) ?_
    simp [isAcquire, LockCall.Creates, LockInfo.new]
  · rintro guard ⟨⟩
    exact ⟨_, at_write_self _ _ _ _, rfl, rfl⟩
  refine safe_head fun s₃ later₃ _ => ⟨fun positive => ?_, fun _ => unacquired, unacquired⟩
  refine safe_get fun s₄ later₄ _ => ⟨fun author info read => ?_, fun _ => unacquired, unacquired⟩
  intro s₅ later₅ _ now'
  dsimp only
  split
  · intro s₆ later₆ _ now'' s₇ later₇ _
    refine ⟨unacquired, fun unchanged => ⟨?_, ?_, unacquired⟩, fun _ => unacquired⟩
    · -- The version is the one of the head, so the record that was read after it is the one replaced.
      have known := read.mono (later₅.le.trans later₆.le)
      have version := (allows_matchesVersion.mp unchanged).1
      have order := version_mono later₄.le ()
      obtain ⟨_, current⟩ := known.current later₇.le (by omega)
      refine later₇.inv.replace current ?_
      simp [isAcquire, LockCall.Succeeds, LockInfo.new]
    · rintro _ ⟨⟩
      exact ⟨_, at_write_self _ _ _ _, rfl, rfl⟩
  · exact unacquired

theorem safe_acquireAttempts {conduct}
    {holderId : String} {maxRetries' : Nat} (isAcquire : label.call = .acquire holderId ttl' maxRetries' operation')
    (attempts : Nat) (s : LockStore) :
    (acquireAttempts holderId ttl maxRetries operation attempts).Safe Lawful conduct label
      (fun result s' => ∀ guard, result = .ok guard → guard.Granted label s') s := by
  induction attempts generalizing s with
  | zero =>
    refine bind ((safe_tryAcquire isAcquire s).mono fun result s' granted => ?_)
    match result with
    | .ok guard =>
      rintro _ ⟨⟩
      exact granted guard rfl
    | .error (.alreadyHeld holder) | .error .storage => exact nofun
  | succ attempts ih =>
    refine bind ((safe_tryAcquire isAcquire s).mono fun result s' granted => ?_)
    match result with
    | .ok guard =>
      rintro _ ⟨⟩
      exact granted guard rfl
    | .error (.alreadyHeld holder) => exact ih s'
    | .error .storage => exact nofun

section

variable (isRelease : label.call = .release guard ∨ label.call = .drop guard) (known : guard.Known s)
include isRelease known

/-- The write of a release replaces the record of its guard. -/
theorem Lawful.expire {s' : LockStore} {info : LockInfo} {author : Label LockCall} {now : Timestamp}
    (read : s.At () (s.version ()) author info) (owned : info.holderId = guard.holderId) (later : s ≤ s')
    (lawful : Lawful s') (unchanged : s'.allows () (.matchesVersion guard.version) = true) :
    Lawful (s'.write () label (info.expired now guard.holderId)) := by
  have version := (allows_matchesVersion.mp unchanged).1
  have order := known.2
  obtain ⟨_, current⟩ := read.current later (by omega)
  refine lawful.replace current ?_
  rcases isRelease with isRelease | isRelease <;>
    simp [isRelease, LockCall.Succeeds, LockInfo.expired, version, owned]

theorem safe_doRelease : (doRelease guard).Safe Lawful conduct label (fun _ s' => guard.Known s') s := by
  have later : ∀ s', s ≤ s' → guard.Known s' := fun s' le => ⟨known.1, known.2.trans (version_mono le ())⟩
  refine safe_get fun s₁ later₁ _ => ⟨fun author info read => ?_, fun _ => later s₁ later₁.le, later s₁ later₁.le⟩
  dsimp only
  split
  · rename_i owned
    intro s₂ later₂ _ now s₃ later₃ _
    have known₃ := later s₃ (later₁.le.trans (later₂.le.trans later₃.le))
    have written := version_mono (s₃.le_write () label (info.expired now guard.holderId)) ()
    refine ⟨known₃, fun unchanged => ⟨?_, ⟨known₃.1, known₃.2.trans written⟩, ⟨known₃.1, known₃.2.trans written⟩⟩,
      fun _ => known₃⟩
    exact Lawful.expire isRelease (later s₁ later₁.le) read owned (later₂.le.trans later₃.le) later₃.inv unchanged
  · exact later s₁ later₁.le

theorem safe_dropGuard {conduct} : (dropGuard guard).Safe Lawful conduct label (fun _ _ => True) s := by
  refine safe_head fun s₁ later₁ _ => ⟨fun positive => ?_, fun _ => trivial, trivial⟩
  dsimp only
  split
  · refine safe_get fun s₂ later₂ _ => ⟨fun author info read => ?_, fun _ => trivial, trivial⟩
    dsimp only
    split
    · rename_i owned
      intro s₃ later₃ _ now s₄ later₄ _
      refine ⟨trivial, fun unchanged => ⟨?_, trivial, trivial⟩, fun _ => trivial⟩
      have known₂ : guard.Known s₂ := ⟨known.1, known.2.trans (version_mono (later₁.le.trans later₂.le) ())⟩
      exact Lawful.expire isRelease known₂ read owned (later₃.le.trans later₄.le) later₄.inv unchanged
    · trivial
  · trivial

end

theorem safe_release (isRelease : label.call = .release guard) (known : guard.Known s) :
    (release guard).Safe Lawful conduct label (fun _ _ => True) s := by
  refine bind ((safe_doRelease (.inl isRelease) known).mono fun result s' known' => ?_)
  match result with
  | .ok () => trivial
  | .error error =>
    exact bind ((safe_dropGuard (.inl isRelease) known').mono fun _ _ _ => trivial)

/-- While an extension stands between its two reads, no acquisition is written. -/
def calm (label : Label LockCall) : Conduct LockObject Answer LockOutcome (Label LockCall) where
  rely rest s s' :=
    match label.call, rest with
    | .extend _ _, .ask _ _ | .extend _ _, .head _ _ =>
      ∀ version author info, s'.At () version author info → author.call.isAcquire = true →
        s.At () version author info
    | _, _ => True
  may _ _ := True

theorem safe_extend (isExtend : label.call = .extend guard ttl) (known : guard.Known s) :
    (extend guard ttl).Safe Lawful
      ((calm label).under fun (guard, result) => .done (.extended guard result)) label
      (fun (guard', result) s' => guard'.Known s' ∧
        (result = .ok () → ∃ info, s'.At () guard'.version label info)) s := by
  have later : ∀ s', s ≤ s' → guard.Known s' := fun s' le => ⟨known.1, known.2.trans (version_mono le ())⟩
  have unextended : ∀ {s' : LockStore} {version error}, (.error error : Except Error Unit) = .ok () →
      ∃ info, s'.At () version label info := by simp
  refine safe_get fun s₁ later₁ _ =>
    ⟨fun author info read => ?_, fun _ => ⟨later s₁ later₁.le, unextended⟩, later s₁ later₁.le, unextended⟩
  dsimp only
  split
  case isFalse => exact ⟨later s₁ later₁.le, unextended⟩
  intro s₂ later₂ _ now
  have le₂ := later₁.le.trans later₂.le
  refine safe_head fun s₃ later₃ _ => ⟨fun positive => ?_, fun _ => ⟨later s₃ (le₂.trans later₃.le), unextended⟩,
    later s₃ (le₂.trans later₃.le), unextended⟩
  intro s₄ later₄ _
  have known₄ := later s₄ (le₂.trans (later₃.le.trans later₄.le))
  refine ⟨⟨known₄, unextended⟩, fun unchanged => ⟨?_, ⟨⟨Nat.succ_pos _, ?_⟩, fun _ => ⟨_, at_write_self _ _ _ _⟩⟩,
    ⟨⟨known₄.1, known₄.2.trans (version_mono (s₄.le_write () label _) ())⟩, unextended⟩⟩,
    fun _ => ⟨known₄, unextended⟩⟩
  · have version := (allows_matchesVersion.mp unchanged).1
    obtain ⟨holder, _, found⟩ := at_of_le positive (le_refl (s₃.version ()))
    obtain ⟨_, current⟩ := found.current later₄.le (by omega)
    -- Both reads see the same holder, since the lock was not acquired between them.
    have rely₂ : ∀ version author info, s₂.At () version author info → author.call.isAcquire = true →
        s₁.At () version author info := by simpa [Conduct.under, calm, isExtend, Program.bind] using later₂.rely
    have rely₃ : ∀ version author info, s₃.At () version author info → author.call.isAcquire = true →
        s₂.At () version author info := by simpa [Conduct.under, calm, isExtend, Program.bind] using later₃.rely
    have order := version_mono (later₂.le.trans later₃.le) ()
    have same := later₃.inv.unacquired order (read.mono (later₂.le.trans later₃.le)) found
      fun n l i above _ at_ => by
        by_contra acquires
        have := (rely₂ n l i (rely₃ n l i at_ (by simpa using acquires)) (by simpa using acquires)).le
        omega
    refine later₄.inv.replace current ?_
    simp [isExtend, LockCall.Succeeds, same]
  · rw [version_write_self]

end Calls

def Held (label : Label LockCall) (outcome : LockOutcome) (s : LockStore) : Prop :=
  match outcome with
  | .acquired result => label.call.isAcquire = true ∧ ∀ guard, result = .ok guard → guard.Granted label s
  | .extended guard result => label.call.isExtend = true ∧ guard.Known s ∧
    (result = .ok () → ∃ info, s.At () guard.version label info)
  | _ => True

theorem Held.mono {outcome : LockOutcome} {s' : LockStore} (held : Held label outcome s)
    (later : s ≤ s') : Held label outcome s' := by
  match outcome with
  | .acquired result =>
    refine ⟨held.1, fun guard granted => ?_⟩
    obtain ⟨info, found, same⟩ := held.2 guard granted
    exact ⟨info, found.mono later, same⟩
  | .extended guard result =>
    obtain ⟨isExtend, ⟨positive, inside⟩, written⟩ := held
    refine ⟨isExtend, ⟨positive, inside.trans (version_mono later ())⟩, fun ok => ?_⟩
    obtain ⟨info, found⟩ := written ok
    exact ⟨info, found.mono later⟩
  | .released _ | .dropped => trivial

theorem Held.known {last : Option (Label LockCall × LockOutcome)} {guard : LockGuard}
    (held : ∀ x, last = some x → Held x.1 x.2 s)
    (has : (last.map Prod.snd).bind LockOutcome.guard = some guard) : guard.Known s := by
  match last with
  | some (label, .acquired (.ok granted)) =>
    cases has
    exact ((held _ rfl).2 _ rfl).known
  | some (label, .extended extended _) =>
    cases has
    exact (held _ rfl).2.1

theorem lockProtocol_verified : lockProtocol.Verified calm Lawful Held where
  relyRefl label p s := by
    dsimp only [calm]
    split
    · exact fun _ _ _ found _ => found
    · exact fun _ _ _ found _ => found
    · trivial
  relyTrans label p s s' s'' := by
    dsimp only [calm]
    split
    · exact fun first second version author info found acquires =>
        first _ _ _ (second _ _ _ found acquires) acquires
    · exact fun first second version author info found acquires =>
        first _ _ _ (second _ _ _ found acquires) acquires
    · exact fun _ _ => trivial
  postStable label outcome s s' held later _ := held.mono later
  calls last label s follows lawful held _ := by
    cases call : label.call with
    | acquire holderId ttl maxRetries operation =>
      exact bind ((safe_acquireAttempts call _ s).mono fun result s' granted => ⟨by rw [call]; rfl, granted⟩)
    | release guard =>
      simp only [call, lockProtocol, decide_eq_true_eq] at follows
      exact bind ((safe_release call (Held.known held follows)).mono fun _ _ _ => trivial)
    | drop guard =>
      simp only [call, lockProtocol, decide_eq_true_eq] at follows
      exact bind ((safe_dropGuard (.inr call) (Held.known held follows)).mono fun _ _ _ => trivial)
    | extend guard ttl =>
      simp only [call, lockProtocol, decide_eq_true_eq] at follows
      exact bind ((safe_extend call (Held.known held follows)).mono fun _ _ extended =>
        ⟨by rw [call]; rfl, extended⟩)

end Arco.Core
