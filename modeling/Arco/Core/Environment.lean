import Arco.Storage.Fallible

/-! What a program asks of its surroundings besides storage. -/

namespace Arco.Core

/-- Nanoseconds since the Unix epoch. -/
abbrev Timestamp := Int

inductive Question where
  | now
  | ulid

@[reducible] def Answer : Question → Type
  | .now => Timestamp
  | .ulid => String

def always (now : Timestamp) (ulid : String) : (q : Question) → Answer q
  | .now => now
  | .ulid => ulid

open Storage Fallible

section Asking

variable {K : Type} {V : K → Type} {ε W : Type}

def utcNow : Fallible V Answer ε Timestamp := ask Question.now

def newUlid : Fallible V Answer ε String := ask Question.ulid

variable [DecidableEq K] {inv : Store V W → Prop} {writer : W} {s : Store V W}

theorem safe_utcNow {conduct : Conduct V Answer (Except ε Timestamp) W} :
    Safe inv conduct writer (fun _ s' => Onward inv writer s s') utcNow s :=
  safe_ask (q := Question.now)

theorem safe_newUlid {conduct : Conduct V Answer (Except ε String) W} :
    Safe inv conduct writer (fun _ s' => Onward inv writer s s') newUlid s :=
  safe_ask (q := Question.ulid)

variable {answers : Answers Answer}

theorem yields_utcNow : Yields writer answers (fun now => ∃ asked, now = answers asked .now)
    (utcNow : Fallible V Answer ε Timestamp) s := yields_ask (q := Question.now)

theorem yields_newUlid : Yields writer answers (fun ulid => ∃ asked, ulid = answers asked .ulid)
    (newUlid : Fallible V Answer ε String) s := yields_ask (q := Question.ulid)

end Asking

def seconds (n : Int) : Int := n * 1000000000

/-- A length of time in nanoseconds as a signed duration, or half a minute if its milliseconds do
not fit into 63 bits. -/
def fromStd (ttl : Nat) : Int := if ttl / 1000000 ≤ 9223372036854775807 then ttl else seconds 30

def maxU64 : Nat := 18446744073709551615

def saturatingSucc (n : Nat) : Nat := min (n + 1) maxU64

/-! ## Publication of an immutable snapshot behind a pointer.

The snapshot is created first; the pointer that names it is then replaced by a conditional write,
which is what makes the snapshot visible.
-/

inductive SnapshotPointerDurability where
  | visible
  | persisted

inductive SnapshotPointerPublishOutcome where
  | visible (pointerVersion : Nat) (repairPending : Bool)
  | persistedNotVisible

variable {K : Type} {V : K → Type} {Q : Type} {Ans : Q → Type} {ε : Type} [Faulty ε K]

/-- The write of a copy for old readers; its failure does not undo the publication. -/
def mirrorLegacy (pointerVersion : Nat) : Option ((k : K) × V k) → Fallible V Ans ε SnapshotPointerPublishOutcome
  | none => pure (.visible pointerVersion false)
  | some ⟨legacyPath, payload⟩ => Program.put legacyPath payload .none fun
    | .ok _ => .done (.ok (.visible pointerVersion false))
    | .fault => .done (.ok (.visible pointerVersion true))

/-- The errors tell a snapshot that exists already from a pointer that has changed. -/
def publishSnapshotPointerTransaction (snapshotExists concurrentWrite : ε) (snapshotPath : K)
    (snapshotPayload : V snapshotPath) (pointerPath : K) (pointerPayload : V pointerPath)
    (expectedPointerVersion : Option Nat) (legacyMirror : Option ((k : K) × V k))
    (durability : SnapshotPointerDurability) (beforePointerPublish : Fallible V Ans ε Unit) :
    Fallible V Ans ε SnapshotPointerPublishOutcome := do
  match ← put snapshotPath snapshotPayload .doesNotExist with
  | .preconditionFailed _ => throw snapshotExists
  | .success _ =>
    beforePointerPublish
    let precondition := match expectedPointerVersion with
      | none => .doesNotExist
      | some version => .matchesVersion version
    match ← put pointerPath pointerPayload precondition with
    | .success version => mirrorLegacy version legacyMirror
    | .preconditionFailed _ =>
      match durability with
      | .persisted => pure .persistedNotVisible
      | .visible => throw concurrentWrite

end Arco.Core
