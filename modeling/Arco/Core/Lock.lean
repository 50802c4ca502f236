import Arco.Core.Environment

/-! The distributed lock: one object that names the holder of the lock and when its claim expires.

A lock that has expired can be taken over by a conditional write, and a released lock is a record
that has expired already. Each acquisition increments the sequence number of the record, which is the
fencing token of the acquisition. The record is read and written as a whole; sleeping between two
attempts is not a storage step.
-/

namespace Arco.Core

open Storage

structure LockInfo where
  holderId : String
  expiresAt : Timestamp
  acquiredAt : Timestamp
  sequenceNumber : Nat := 0
  operation : Option String := none

def LockInfo.new (now : Timestamp) (holderId : String) (ttl : Nat) (sequenceNumber : Nat) (operation : Option String) :
    LockInfo where
  holderId := holderId
  expiresAt := now + fromStd ttl
  acquiredAt := now
  sequenceNumber := sequenceNumber
  operation := operation

def LockInfo.isExpired (now : Timestamp) (info : LockInfo) : Bool := info.expiresAt ≤ now

/-- The record of a released lock keeps the sequence number for the next acquisition. -/
def LockInfo.expired (now : Timestamp) (holderId : String) (info : LockInfo) : LockInfo where
  holderId := holderId
  expiresAt := now - seconds 1
  acquiredAt := info.acquiredAt
  sequenceNumber := info.sequenceNumber
  operation := none

structure LockGuard where
  holderId : String
  version : Nat
  fencingToken : Nat
  deriving DecidableEq

inductive Error where
  | notFound
  | preconditionFailed (message : String)
  | storage

inductive LockError where
  | alreadyHeld (holder : String)
  | storage

abbrev LockObject : Unit → Type := fun _ => LockInfo

abbrev LockProgram : Type → Type := Program LockObject Answer

section Programs

/-- The expiry of a lock is decided on a record that was read after the version which the takeover
is conditioned on. -/
def tryAcquire (holderId : String) (ttl : Nat) (operation : Option String) : LockProgram (Except LockError LockGuard) :=
  .ask .now fun now =>
  .put () (LockInfo.new now holderId ttl 1 operation) .doesNotExist fun
    | .fault => .done (.error .storage)
    | .ok (.success version) => .done (.ok { holderId, version, fencingToken := 1 })
    | .ok (.preconditionFailed _) =>
      .head () fun
        | .fault => .done (.error .storage)
        | .ok none => .done (.error (.alreadyHeld "race"))
        | .ok (some version) =>
          .get () fun
            | .fault => .done (.error .storage)
            | .ok none => .done (.error (.alreadyHeld "race"))
            | .ok (some info) =>
              .ask .now fun now =>
                if info.isExpired now then
                  .ask .now fun now =>
                  .put () (LockInfo.new now holderId ttl (saturatingSucc info.sequenceNumber) operation)
                    (.matchesVersion version) fun
                      | .fault => .done (.error .storage)
                      | .ok (.success version) =>
                        .done (.ok { holderId, version, fencingToken := saturatingSucc info.sequenceNumber })
                      | .ok (.preconditionFailed _) => .done (.error (.alreadyHeld "unknown"))
                else .done (.error (.alreadyHeld info.holderId))

/-- At most `attempts + 1` attempts; `maxRetries` is the number that the error names. -/
def acquireAttempts (holderId : String) (ttl maxRetries : Nat) (operation : Option String) :
    Nat → LockProgram (Except Error LockGuard)
  | 0 => (tryAcquire holderId ttl operation).bind fun
    | .ok guard => .done (.ok guard)
    | .error (.alreadyHeld holder) =>
      .done (.error (.preconditionFailed s!"lock held by {holder} after {maxRetries} retries"))
    | .error .storage => .done (.error .storage)
  | attempts + 1 => (tryAcquire holderId ttl operation).bind fun
    | .ok guard => .done (.ok guard)
    | .error (.alreadyHeld _) => acquireAttempts holderId ttl maxRetries operation attempts
    | .error .storage => .done (.error .storage)

def acquireWithOperation (holderId : String) (ttl maxRetries : Nat) (operation : Option String) :
    LockProgram (Except Error LockGuard) :=
  acquireAttempts holderId ttl maxRetries operation (maxRetries - 1)

/-- The record that is read decides about the ownership, the version of the guard about the write. -/
def doRelease (guard : LockGuard) : LockProgram (Except Error Unit) :=
  .get () fun
    | .fault => .done (.error .storage)
    | .ok none => .done (.ok ())
    | .ok (some info) =>
      if info.holderId = guard.holderId then
        .ask .now fun now =>
        .put () (info.expired now guard.holderId) (.matchesVersion guard.version) fun
          | .fault => .done (.error .storage)
          | .ok _ => .done (.ok ())
      else .done (.ok ())

/-- What the destructor of a guard does that was not released. -/
def dropGuard (guard : LockGuard) : LockProgram Unit :=
  .head () fun
    | .ok (some version) =>
      if version = guard.version then
        .get () fun
          | .ok (some info) =>
            if info.holderId = guard.holderId then
              .ask .now fun now =>
              .put () (info.expired now guard.holderId) (.matchesVersion guard.version) fun _ => .done ()
            else .done ()
          | _ => .done ()
      else .done ()
    | _ => .done ()

/-- A release that fails leaves the lock to the destructor. -/
def release (guard : LockGuard) : LockProgram (Except Error Unit) :=
  (doRelease guard).bind fun
    | .ok () => .done (.ok ())
    | .error error => (dropGuard guard).bind fun _ => .done (.error error)

/-- The write is conditioned on a version that is read after the record. The guard keeps its version
if the lock is not extended. -/
def extend (guard : LockGuard) (additionalTtl : Nat) : LockProgram (LockGuard × Except Error Unit) :=
  .get () fun
    | .fault => .done (guard, .error .storage)
    | .ok none => .done (guard, .error .notFound)
    | .ok (some info) =>
      if info.holderId = guard.holderId then
        .ask .now fun now =>
        .head () fun
          | .fault => .done (guard, .error .storage)
          | .ok none => .done (guard, .error .notFound)
          | .ok (some version) =>
            .put () { info with expiresAt := now + fromStd additionalTtl } (.matchesVersion version) fun
              | .fault => .done (guard, .error .storage)
              | .ok (.success version) => .done ({ guard with version }, .ok ())
              | .ok (.preconditionFailed _) =>
                .done (guard, .error (.preconditionFailed "lock modified by another holder"))
      else .done (guard, .error (.preconditionFailed "lock held by different holder"))

end Programs

inductive LockCall where
  | acquire (holderId : String) (ttl maxRetries : Nat) (operation : Option String)
  | release (guard : LockGuard)
  | drop (guard : LockGuard)
  | extend (guard : LockGuard) (additionalTtl : Nat)

inductive LockOutcome where
  | acquired (result : Except Error LockGuard)
  | released (result : Except Error Unit)
  | dropped
  | extended (guard : LockGuard) (result : Except Error Unit)

def LockOutcome.guard : LockOutcome → Option LockGuard
  | .acquired (.ok guard) => some guard
  | .extended guard _ => some guard
  | _ => none

def LockCall.program : LockCall → LockProgram LockOutcome
  | .acquire holderId ttl maxRetries operation =>
    (acquireWithOperation holderId ttl maxRetries operation).bind fun result => .done (.acquired result)
  | .release guard => (Core.release guard).bind fun result => .done (.released result)
  | .drop guard => (dropGuard guard).bind fun _ => .done .dropped
  | .extend guard additionalTtl =>
    (Core.extend guard additionalTtl).bind fun (guard, result) => .done (.extended guard result)

/-- A guard is released, dropped or extended by the caller that has it; a caller without a guard can
acquire the lock, under any name. -/
def lockProtocol : Protocol LockObject Answer LockOutcome LockCall where
  program := LockCall.program
  follows last call :=
    match call with
    | .acquire _ _ _ _ => (last.bind LockOutcome.guard).isNone
    | .release guard => last.bind LockOutcome.guard = some guard
    | .drop guard => last.bind LockOutcome.guard = some guard
    | .extend guard _ => last.bind LockOutcome.guard = some guard

end Arco.Core
