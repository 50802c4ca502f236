import Arco.Core.LockHistory

/-! What the fencing tokens of a lock guarantee, over every run of its holders. -/

namespace Arco.Core

open Storage Protocol Store LockCall

abbrev LockWorld (P : Type) : Type := World LockObject Answer LockOutcome LockCall P

variable {s : LockStore} {version later : Nat} {label author : Label LockCall}
  {info previous : LockInfo}

theorem Lawful.sequenceNumber_le (lawful : Lawful s) (found : s.At () version label info) : info.sequenceNumber ≤ maxU64 := by
  induction version generalizing label info with
  | zero => exact absurd found.1 (Nat.lt_irrefl 0)
  | succ version ih =>
    rcases Nat.eq_zero_or_pos version with rfl | positive
    · have creates := lawful.first label info found
      cases call : label.call <;> simp only [call, Creates] at creates
      simp [creates.2, maxU64]
    · have bound := found.le
      obtain ⟨author, previous, before⟩ := at_of_le positive (show version ≤ s.version () by omega)
      have known := ih before
      have succeeds := lawful.next version author previous label info before found
      cases call : label.call <;> simp only [call, Succeeds] at succeeds
      · rw [succeeds.2]
        exact min_le_right _ _
      all_goals omega

theorem Lawful.sequenceNumber_succ (lawful : Lawful s) (before : s.At () version author previous)
    (found : s.At () (version + 1) label info) :
    previous.sequenceNumber ≤ info.sequenceNumber ∧
      (label.call.isAcquire = true → previous.sequenceNumber < maxU64 →
        previous.sequenceNumber < info.sequenceNumber) := by
  have bound := lawful.sequenceNumber_le before
  have succeeds := lawful.next version author previous label info before found
  cases call : label.call <;> simp only [call, Succeeds, saturatingSucc] at succeeds <;>
    simp only [isAcquire, Bool.false_eq_true, false_imp_iff, and_true] <;> omega

theorem Lawful.sequenceNumber_mono (lawful : Lawful s) (order : version ≤ later)
    (before : s.At () version author previous) (found : s.At () later label info) :
    previous.sequenceNumber ≤ info.sequenceNumber := by
  induction later, order using Nat.le_induction generalizing label info with
  | base => rw [(before.unique found).2]
  | succ later order ih =>
    have bound := found.le
    obtain ⟨_, _, known⟩ := at_of_le (Nat.lt_of_lt_of_le before.1 order) (show later ≤ s.version () by omega)
    exact (ih known).trans (lawful.sequenceNumber_succ known found).1

theorem Lawful.token_lt (lawful : Lawful s) (order : version < later) (before : s.At () version author previous)
    (found : s.At () later label info) (acquires : label.call.isAcquire = true)
    (below : previous.sequenceNumber < maxU64) :
    previous.sequenceNumber < info.sequenceNumber := by
  obtain ⟨later, rfl⟩ : ∃ n, later = n + 1 := ⟨later - 1, by omega⟩
  have bound := found.le
  obtain ⟨_, between, known⟩ := at_of_le (show 0 < later by have := before.1; omega)
    (show later ≤ s.version () by omega)
  have reached := lawful.sequenceNumber_mono (Nat.le_of_lt_succ order) before known
  have step := lawful.sequenceNumber_succ known found
  rcases Nat.lt_or_ge between.sequenceNumber maxU64 with small | large
  · exact Nat.lt_of_le_of_lt reached (step.2 acquires small)
  · exact Nat.lt_of_lt_of_le below (large.trans step.1)

/-- A write of an extension keeps the holder of the record that it replaces. -/
def HolderKept (s : LockStore) : Prop :=
  ∀ version author previous label info, s.At () version author previous → s.At () (version + 1) label info →
    label.call.isExtend = true → info.holderId = previous.holderId

def SequenceNumbersKept (s : LockStore) : Prop :=
  ∀ version later author previous label info, version ≤ later → s.At () version author previous →
    s.At () later label info → previous.sequenceNumber ≤ info.sequenceNumber

/-- The record that a successful extension has written. -/
def ExtensionsWritten {P : Type} (w : LockWorld P) : Prop :=
  ∀ label guard, (label, .extended guard (.ok ())) ∈ w.returned →
    ∃ version author previous info, guard.version = version + 1 ∧ w.store.At () version author previous ∧
      w.store.At () (version + 1) label info ∧ info.holderId = previous.holderId

theorem Lawful.holderKept (lawful : Lawful s) : HolderKept s := by
  intro version author previous label info before found isExtend
  have succeeds := lawful.next version author previous label info before found
  cases call : label.call <;> simp only [call, LockCall.isExtend, Bool.false_eq_true] at isExtend succeeds
  exact succeeds.1

theorem lockProtocol_sound {P : Type} [DecidableEq P] {w : LockWorld P}
    (reached : lockProtocol.Reaches (Respects calm) { store := {} } w) : w.Sound calm Lawful Held :=
  (lockProtocol_verified.reaches (sound_initial lawful_empty (by simp [At])) reached).1

/-- In a run in which no acquisition comes between the two reads of an extension, no extension takes
the lock from its holder, and the sequence number never decreases. -/
theorem extend_keeps_holder {P : Type} [DecidableEq P] {w : LockWorld P}
    (reached : lockProtocol.Reaches (Respects calm) { store := {} } w) :
    HolderKept w.store ∧ ExtensionsWritten w ∧ SequenceNumbersKept w.store := by
  have sound := lockProtocol_sound reached
  have lawful := sound.holds
  refine ⟨lawful.holderKept, fun label guard returned => ?_,
    fun _ _ _ _ _ _ order before found => lawful.sequenceNumber_mono order before found⟩
  obtain ⟨isExtend, _, written⟩ : Held label (.extended guard (.ok ())) w.store := sound.returned _ returned
  obtain ⟨info, found⟩ := written rfl
  obtain ⟨version, same⟩ : ∃ n, guard.version = n + 1 := ⟨guard.version - 1, by have := found.1; omega⟩
  rw [same] at found
  -- The first record is never one of an extension.
  have positive : 0 < version := by
    rcases Nat.eq_zero_or_pos version with rfl | positive
    · have creates := lawful.first label info found
      cases call : label.call <;> simp [call, LockCall.isExtend, LockCall.Creates] at isExtend creates
    · exact positive
  have bound := found.le
  obtain ⟨author, previous, before⟩ := at_of_le positive (show version ≤ w.store.version () by omega)
  exact ⟨version, author, previous, info, same, before, found,
    lawful.holderKept version author previous label info before found isExtend⟩

def steps {P : Type} (p : P) (now : Timestamp) (count : Nat) : List (Action Answer LockCall P) :=
  List.replicate count (.step p .answered (always now ""))

/-- Only an extension of another party asks for anything. -/
theorem respects_calm {P : Type} {w w' : LockWorld P} {action : Action Answer LockCall P}
    (others : ∀ p label rest, p ≠ action.party → w.party p = .running label rest → label.call.isExtend = false) :
    Respects calm w action w' where
  rely p label rest other running := by
    have extends_ := others p label rest other running
    unfold calm
    cases call : label.call <;> simp [call, LockCall.isExtend] at extends_ ⊢
  may _ _ _ _ _ _ _ := trivial

/-- The other one of two parties is not extending the lock. -/
def extendsAlone (w : LockWorld Bool) (action : Action Answer LockCall Bool) : Bool :=
  match w.party !action.party with
  | .running label _ => !label.call.isExtend
  | .idle _ => true

/-- The lock is extended while an acquisition by another party waits, which takes the lock over later. -/
theorem extend_keeps_holder_takenOver :
    ∃ w : LockWorld Bool, lockProtocol.Reaches (Respects calm) { store := {} } w ∧
      w.store.version () = 3 ∧ HolderKept w.store ∧ ExtensionsWritten w ∧ SequenceNumbersKept w.store := by
  obtain ⟨w, reached, versions⟩ := exists_of_play lockProtocol extendsAlone 12 { store := {} }
    [.act (.start true (.acquire "h1" 5 1 none)), goOn true (always 0 ""),
      .act (.start false (.acquire "h2" 5 2 none)), .act (.step false .answered (always 1 "")),
      .act (.start true (.extend { holderId := "h1", version := 1, fencingToken := 1 } 5)), goOn true (always 3 ""),
      goOn false (always 20 "")] (·.store.version () == 3) (by decide)
  have reached : lockProtocol.Reaches (Respects calm) _ w := reached.mono fun _ _ _ alone =>
    respects_calm fun p label rest other running => by
      obtain rfl := Bool.eq_not_of_ne other
      simpa [extendsAlone, running] using alone
  exact ⟨w, reached, beq_iff_eq.mp versions, extend_keeps_holder reached⟩

/-- The lock expires and is taken over after its holder has read it for an extension. -/
def takenOverAndExtended : List (Action Answer LockCall Bool) :=
  .start true (.acquire "h1" 5 1 none) :: steps true 0 3 ++
    .start true (.extend { holderId := "h1", version := 1, fencingToken := 1 } 5) :: steps true 3 1 ++
    .start false (.acquire "h2" 5 1 none) :: steps false 10 8 ++ steps true 10 4

/-- The extension then writes the record of the old holder over the one of the new holder. -/
theorem extend_steals_lock :
    ∃ w : LockWorld Bool, lockProtocol.run { store := {} } takenOverAndExtended = some w ∧
      ¬ HolderKept w.store ∧ ¬ ExtensionsWritten w ∧ ¬ SequenceNumbersKept w.store := by
  refine ⟨_, rfl, fun kept => ?_, fun written => ?_, fun kept => ?_⟩
  · exact absurd (kept 2 _ _ _ _ ⟨by decide, rfl⟩ ⟨by decide, rfl⟩ rfl) (by decide)
  · obtain ⟨_, _, _, _, same, before, found, holder⟩ := written _ _ (List.mem_of_getElem? (i := 2) rfl)
    cases same
    cases before.2
    cases found.2
    exact absurd holder (by decide)
  · exact absurd (kept 2 3 _ _ _ _ (by decide) ⟨by decide, rfl⟩ ⟨by decide, rfl⟩) (by decide)

def Unextended {P : Type} (_ : LockWorld P) (action : Action Answer LockCall P) (_ : LockWorld P) : Prop :=
  ∀ p guard ttl, action ≠ .start p (.extend guard ttl)

/-- The successful acquisitions have written the records whose numbers are their tokens. -/
def TokensWritten {P : Type} (w : LockWorld P) : Prop :=
  ∀ label guard, (label, .acquired (.ok guard)) ∈ w.returned → label.call.isAcquire = true ∧ guard.Granted label w.store

/-- Tokens increase in the order of the writes, as far as `bounded` says. -/
def TokensIncrease {P : Type} (bounded : Nat → Prop) (w : LockWorld P) : Prop :=
  ∀ label guard label' guard', (label, .acquired (.ok guard)) ∈ w.returned →
    (label', .acquired (.ok guard')) ∈ w.returned → guard.version < guard'.version → bounded guard.fencingToken →
    guard.fencingToken < guard'.fencingToken

def LockCall.Releases (call : LockCall) (guard : LockGuard) : Prop := call = .release guard ∨ call = .drop guard

/-- A release replaces the record of the acquisition whose guard it was given. -/
def ReleasesOwn {P : Type} (w : LockWorld P) : Prop :=
  ∀ version label info author previous guard, w.store.At () (version + 1) label info →
    w.store.At () version author previous → label.call.Releases guard →
    version = guard.version ∧ (author, .acquired (.ok guard)) ∈ w.returned

def LockCall.Grounded (returned : List (Label LockCall × LockOutcome)) (call : LockCall) : Prop :=
  call.isExtend = false ∧
    ∀ guard, call.Releases guard → ∃ owner, (owner, LockOutcome.acquired (.ok guard)) ∈ returned

theorem LockCall.Grounded.mono {returned returned' : List (Label LockCall × LockOutcome)} {call : LockCall}
    (grounded : call.Grounded returned) (more : returned ⊆ returned') : call.Grounded returned' := by
  refine ⟨grounded.1, fun guard releases => ?_⟩
  obtain ⟨owner, member⟩ := grounded.2 guard releases
  exact ⟨owner, more member⟩

structure Grounded {P : Type} (w : LockWorld P) : Prop where
  idle : ∀ p label outcome, w.party p = .idle (some (label, outcome)) →
    label.call.isExtend = false ∧ (label, outcome) ∈ w.returned
  running : ∀ p label rest, w.party p = .running label rest → label.call.Grounded w.returned
  written : ∀ version label info, w.store.At () version label info → label.call.Grounded w.returned

section Grounded

variable {P : Type} [DecidableEq P] {w w' : LockWorld P}

omit [DecidableEq P] in
theorem grounded_start (grounded : Grounded w) (sound : w.Sound calm Lawful Held) {p : P} {call : LockCall}
    {last : Option (Label LockCall × LockOutcome)} (idle : w.party p = .idle last) (extends_ : call.isExtend = false)
    (follows : lockProtocol.follows (last.map Prod.snd) call = true) : call.Grounded w.returned := by
  refine ⟨extends_, fun guard releases => ?_⟩
  have has : (last.map Prod.snd).bind LockOutcome.guard = some guard := by
    rcases releases with rfl | rfl <;> simpa [lockProtocol] using follows
  cases last with
  | none => cases has
  | some ended =>
    obtain ⟨label, outcome⟩ := ended
    cases outcome with
    | acquired granted =>
      cases granted with
      | error error => cases has
      | ok granted =>
        cases has
        exact ⟨label, (grounded.idle p label _ idle).2⟩
    | extended extended result =>
      -- The outcome of an extension, which this run does not have.
      have isExtend : label.call.isExtend = true := (sound.idle p label _ idle).1
      rw [(grounded.idle p label _ idle).1] at isExtend
      cases isExtend
    | _ => cases has

/-- One party goes on, and what was returned before stays. -/
theorem Grounded.update (grounded : Grounded w) {p : P} {party : Party LockObject Answer LockOutcome LockCall}
    (parties : w'.party = Function.update w.party p party) (more : w.returned ⊆ w'.returned)
    (idle : ∀ label outcome, party = .idle (some (label, outcome)) →
      label.call.isExtend = false ∧ (label, outcome) ∈ w'.returned)
    (running : ∀ label rest, party = .running label rest → label.call.Grounded w'.returned)
    (written : ∀ version label info, w'.store.At () version label info →
      w.store.At () version label info ∨ label.call.Grounded w'.returned) : Grounded w' := by
  refine ⟨fun q label outcome here => ?_, fun q label rest here => ?_, fun version label info found => ?_⟩
  · rw [parties, Function.update_apply] at here
    split at here
    · exact idle label outcome here
    · exact (grounded.idle q label outcome here).imp id (more ·)
  · rw [parties, Function.update_apply] at here
    split at here
    · exact running label rest here
    · exact (grounded.running q label rest here).mono more
  · rcases written version label info found with old | new
    · exact (grounded.written version label info old).mono more
    · exact new

theorem Grounded.next (grounded : Grounded w) (sound : w.Sound calm Lawful Held) {action : Action Answer LockCall P}
    (next : lockProtocol.next w action = some w') (unextended : Unextended w action w') : Grounded w' := by
  cases action with
  | start p call =>
    obtain ⟨_, idle, follows, rfl⟩ := next_start next
    have extends_ : call.isExtend = false := by
      cases call with
      | extend guard ttl => exact absurd rfl (unextended p guard ttl)
      | _ => rfl
    refine grounded.update rfl (List.Subset.refl _) nofun (fun _ _ running => ?_)
      fun _ _ _ found => .inl found
    obtain ⟨rfl, _⟩ := Party.running.inj running
    exact grounded_start grounded sound idle extends_ follows
  | crash p =>
    cases next
    exact grounded.update rfl (List.Subset.refl _) nofun nofun fun _ _ _ found => .inl found
  | step p service answers =>
    obtain ⟨label, rest, running, ⟨_, rfl, rfl⟩ | rfl⟩ := next_step next
    · refine grounded.update rfl (List.subset_append_left _ _) (fun _ _ ended => ?_) nofun
        fun _ _ _ found => .inl found
      cases ended
      exact ⟨(grounded.running p label _ running).1, by simp⟩
    · have known := grounded.running p label rest running
      refine grounded.update rfl (List.Subset.refl _) nofun (fun _ _ running => ?_)
        fun version label' info found => ?_
      · obtain ⟨rfl, _⟩ := Party.running.inj running
        exact known
      · rcases Program.at_step found with rfl | old
        · exact .inr known
        · exact .inl old

omit [DecidableEq P] in
theorem Grounded.respects (grounded : Grounded w) (action : Action Answer LockCall P) : Respects calm w action w' :=
  respects_calm fun p label rest _ running => (grounded.running p label rest running).1

theorem grounded_of_reaches (reached : lockProtocol.Reaches Unextended { store := {} } w) :
    Grounded w ∧ lockProtocol.Reaches (Respects calm) { store := {} } w := by
  induction reached with
  | refl => exact ⟨⟨by simp, by simp, by simp [At]⟩, .refl⟩
  | step _ next unextended ih =>
    obtain ⟨grounded, reached⟩ := ih
    exact ⟨grounded.next (lockProtocol_sound reached) next unextended, reached.step next (grounded.respects _)⟩

/-- Fencing tokens are unique and ordered as long as they do not reach the largest 64-bit number,
and a release touches no record but the one of its own acquisition. -/
theorem tokens_increase (reached : lockProtocol.Reaches Unextended { store := {} } w) :
    TokensWritten w ∧ TokensIncrease (· < maxU64) w ∧ ReleasesOwn w := by
  obtain ⟨grounded, calmly⟩ := grounded_of_reaches reached
  have sound := lockProtocol_sound calmly
  have tokens : TokensWritten w := fun label guard returned =>
    (sound.returned _ returned).imp id fun granted => granted guard rfl
  refine ⟨tokens, fun label guard label' guard' returned returned' order bounded => ?_,
    fun version label info author previous guard found before releases => ?_⟩
  · obtain ⟨_, info, found, token, _⟩ := tokens label guard returned
    obtain ⟨acquires, info', found', token', _⟩ := tokens label' guard' returned'
    rw [← token] at bounded
    rw [← token, ← token']
    exact sound.holds.token_lt order found found' acquires bounded
  · have succeeds := sound.holds.next version author previous label info before found
    have own : version = guard.version := by
      rcases releases with call | call <;> simp only [call] at succeeds <;> exact succeeds.1
    obtain ⟨owner, returned⟩ := (grounded.written _ _ _ found).2 guard releases
    obtain ⟨_, _, found', _⟩ := tokens owner guard returned
    obtain ⟨rfl, _⟩ := found'.unique (own ▸ before)
    exact ⟨own, returned⟩

end Grounded

def releasedAndAcquired : List (Action Answer LockCall Bool) :=
  .start true (.acquire "h1" 5 1 none) :: steps true 0 3 ++
    .start true (.release { holderId := "h1", version := 1, fencingToken := 1 }) :: steps true 3 4 ++
    .start false (.acquire "h2" 5 1 none) :: steps false 4 8

theorem tokens_increase_two_holders :
    ∃ w : LockWorld Bool, lockProtocol.Reaches Unextended { store := {} } w ∧ w.store.version () = 3 ∧
      TokensWritten w ∧ TokensIncrease (· < maxU64) w ∧ ReleasesOwn w := by
  obtain ⟨w, ran⟩ : ∃ w, lockProtocol.run { store := {} } releasedAndAcquired = some w := ⟨_, rfl⟩
  have reached : lockProtocol.Reaches Unextended { store := {} } w := by
    refine reaches_of_run (fun action member _ _ p guard ttl same => ?_) ran
    subst same
    simp [releasedAndAcquired, steps] at member
  refine ⟨w, reached, ?_, tokens_increase reached⟩
  cases ran
  rfl

theorem run_acquire_expired {now : Timestamp} (read : s.get () = some info) (expired : info.expiresAt ≤ now)
    (holderId : String) (ttl : Nat) :
    (lockProtocol.program (.acquire holderId ttl 1 none)).run label (fun _ => always now "") 0 s =
      (.acquired (.ok ⟨holderId, s.version () + 1, saturatingSucc info.sequenceNumber⟩), 3,
        s.write () label (LockInfo.new now holderId ttl (saturatingSucc info.sequenceNumber) none)) := by
  obtain ⟨_, current⟩ := get_eq_some.mp read
  have present : s.head () = some (s.version ()) := head_eq_some.mpr ⟨rfl, current.1⟩
  have positive : s.version () ≠ 0 := Nat.pos_iff_ne_zero.mp current.1
  simp [lockProtocol, LockCall.program, acquireWithOperation, acquireAttempts, tryAcquire, Program.bind, Program.run,
    Program.conditionalWrite, allows, present, read, positive, LockInfo.isExpired, always, expired]

structure AcquiredTimes (count : Nat) (w : LockWorld Unit) : Prop where
  idle : w.party () = .idle none
  version : w.store.version () = count
  current : ∃ info, w.store.get () = some info ∧ info.expiresAt = 0 ∧ info.sequenceNumber = min count maxU64
  returned : ∃ label, (label, .acquired (.ok ⟨"h", count, min count maxU64⟩)) ∈ w.returned

/-- The holder loses its guard in a crash and acquires the lock once more. -/
theorem AcquiredTimes.again {count : Nat} {w : LockWorld Unit} (acquired : AcquiredTimes count w) :
    ∃ w', lockProtocol.Reaches Unextended w w' ∧ AcquiredTimes (count + 1) w' ∧ w.returned ⊆ w'.returned := by
  obtain ⟨info, read, expired, _⟩ := acquired.current
  have tokens : saturatingSucc info.sequenceNumber = min (count + 1) maxU64 := by
    unfold saturatingSucc
    omega
  have called : lockProtocol.Reaches Unextended w (finished { w with calls := w.calls + 1 } ()
      ⟨w.calls, .acquire "h" 0 1 none⟩ (fun _ => always 0 "") 0 (lockProtocol.program (.acquire "h" 0 1 none))) :=
    reaches_call lockProtocol (fun _ _ _ _ _ same => by cases same) (fun _ _ _ _ _ _ same => by cases same) _
      acquired.idle rfl
  simp only [finished, run_acquire_expired read (Int.le_of_eq expired)] at called
  have crashed := called.step (show lockProtocol.next _ (.crash ()) = some _ from rfl)
    fun _ _ _ same => by cases same
  refine ⟨_, crashed, ⟨by simp, ?_, ⟨_, get_write_self _ _ _ _, rfl, tokens⟩, ⟨w.calls, .acquire "h" 0 1 none⟩, ?_⟩,
    by simp⟩
  · rw [← acquired.version]
    exact version_write_self _ _ _ _
  · simp [acquired.version, tokens]

theorem reaches_acquiredTimes (count : Nat) :
    ∃ w, lockProtocol.Reaches Unextended { store := {} } w ∧ AcquiredTimes (count + 1) w := by
  induction count with
  | zero =>
    obtain ⟨w, ran⟩ : ∃ w : LockWorld Unit,
        lockProtocol.run { store := {} } (.start () (.acquire "h" 0 1 none) :: steps () 0 3 ++ [.crash ()]) = some w :=
      ⟨_, rfl⟩
    refine ⟨w, reaches_of_run (fun action member _ _ p guard ttl same => ?_) ran, ?_⟩
    · subst same
      simp [steps] at member
    · cases ran
      exact ⟨rfl, rfl, ⟨_, rfl, rfl, rfl⟩, ⟨_, List.mem_cons_self⟩⟩
  | succ count ih =>
    obtain ⟨w, reached, acquired⟩ := ih
    obtain ⟨w', further, acquired', _⟩ := acquired.again
    exact ⟨w', reached.trans further, acquired'⟩

/-- The largest token is granted over and over. -/
theorem tokens_saturate :
    ¬ ∀ w : LockWorld Unit, lockProtocol.Reaches Unextended { store := {} } w → TokensIncrease (fun _ => True) w := by
  intro increase
  obtain ⟨w, reached, acquired⟩ := reaches_acquiredTimes (maxU64 - 1)
  obtain ⟨w', further, acquired', kept⟩ := acquired.again
  obtain ⟨_, first⟩ := acquired.returned
  obtain ⟨_, second⟩ := acquired'.returned
  have less := increase w' (reached.trans further) _ _ _ _ (kept first) second (Nat.lt_succ_self _) trivial
  simp [maxU64] at less

end Arco.Core
