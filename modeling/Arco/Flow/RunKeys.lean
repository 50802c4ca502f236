import Arco.Core.Environment

/-! Reservations of run keys.

A caller creates the object of its run key if there is none yet, and otherwise reads back what is
there. The digest that the path is made of is a parameter, and nothing is assumed of it: run keys may
share a path.
-/

namespace Arco.Flow

open Storage Arco.Core Fallible

structure FingerprintPolicy where
  cutoff : Option Core.Timestamp := none
  deriving DecidableEq

def FingerprintPolicy.allowsMissing (policy : FingerprintPolicy) (existingCreatedAt : Core.Timestamp) : Bool :=
  policy.cutoff.all (existingCreatedAt < ·)

structure RunKeyReservation where
  runKey : String
  runId : String
  planId : String
  eventId : String
  planEventId : Option String := none
  requestFingerprint : Option String := none
  createdAt : Core.Timestamp
  deriving DecidableEq

inductive ReservationResult where
  | reserved
  | alreadyExists (existing : RunKeyReservation)
  | fingerprintMismatch (existing : RunKeyReservation) (requestedFingerprint : Option String)
  deriving DecidableEq

inductive ReservationError where
  | unavailable
  | storage (message : String)
  | configuration (message : String)
  deriving DecidableEq

instance : Faulty ReservationError String where
  fault := .unavailable
  notFound _ := .unavailable

abbrev Blob (_ : String) : Type := RunKeyReservation

abbrev ReservationM : Type → Type := Fallible Blob Answer ReservationError

variable (digest : String → String)

def reservationPath (runKey : String) : String := s!"run_keys/{digest runKey}.json"

def getReservation (runKey : String) : ReservationM (Option RunKeyReservation) := do
  match ← find (reservationPath digest runKey) with
  | none => return none
  | some reservation =>
    if reservation.runKey ≠ runKey then
      throw (.configuration s!"run_key hash collision detected: requested='{runKey}', stored='{reservation.runKey}'")
    else return some reservation

def readReservation (runKey : String) : (retries : Nat) → ReservationM (Option RunKeyReservation)
  | 0 => getReservation digest runKey
  | retries + 1 => do
    match ← getReservation digest runKey with
    | some existing => return some existing
    | none => readReservation runKey retries

structure ReserveCall where
  reservation : RunKeyReservation
  fingerprintPolicy : FingerprintPolicy := {}
  deriving DecidableEq

namespace ReserveCall

def fingerprintsMatch (call : ReserveCall) (existing : RunKeyReservation) : Bool :=
  match existing.requestFingerprint, call.reservation.requestFingerprint with
  | some a, some b => a = b
  | none, none => true
  | none, some _ => call.fingerprintPolicy.allowsMissing existing.createdAt
  | some _, none => false

def answer (call : ReserveCall) (existing : RunKeyReservation) : ReservationResult :=
  if call.fingerprintsMatch existing then .alreadyExists existing
  else .fingerprintMismatch existing call.reservation.requestFingerprint

end ReserveCall

def reserveRunKey (call : ReserveCall) : ReservationM ReservationResult := do
  let runKey := call.reservation.runKey
  match ← put (reservationPath digest runKey) call.reservation .doesNotExist with
  | .success _ => return .reserved
  | .preconditionFailed _ =>
    match ← readReservation digest runKey 5 with
    | some existing => return call.answer existing
    | none =>
      throw (.storage s!"run_key reservation race: precondition failed but reservation not found: {runKey}")

def reservationProtocol : Protocol Blob Answer (Except ReservationError ReservationResult) ReserveCall where
  program call := (reserveRunKey digest call).run
  follows _ _ := true

abbrev Reservations : Type := Storage.Store Blob (Label ReserveCall)

abbrev ReservationWorld (P : Type) : Type :=
  World Blob Answer (Except ReservationError ReservationResult) ReserveCall P

/-- The fingerprint of a call agrees with a reservation: the two are the same, or the reservation has none and is
from the time before fingerprints. -/
def ReserveCall.Agrees (call : ReserveCall) (existing : RunKeyReservation) : Prop :=
  existing.requestFingerprint = call.reservation.requestFingerprint ∨
    existing.requestFingerprint = none ∧ ∀ cutoff, call.fingerprintPolicy.cutoff = some cutoff → existing.createdAt < cutoff

/-- No object is replaced, and each holds the reservation of the call that created it. -/
def WriteOnce (s : Reservations) : Prop :=
  ∀ path version label reservation, s.At path version label reservation →
    version = 1 ∧ reservation = label.call.reservation

/-- The call that has created the object of a run key. -/
def Won (s : Reservations) (runKey : String) (winner : Label ReserveCall) : Prop :=
  s.At (reservationPath digest runKey) 1 winner winner.call.reservation

def Holds (s : Reservations) (runKey : String) (existing : RunKeyReservation) : Prop :=
  ∃ winner, Won digest s runKey winner ∧ winner.call.reservation.runKey = runKey ∧ existing = winner.call.reservation

/-- What is known of the store when a call has returned without an error. -/
def Settled (label : Label ReserveCall) (result : ReservationResult) (s : Reservations) : Prop :=
  result = .reserved ∧ Won digest s label.call.reservation.runKey label ∨
    ∃ existing, Holds digest s label.call.reservation.runKey existing ∧ result = label.call.answer existing

variable {digest} {s s' : Reservations} {runKey : String} {label : Label ReserveCall}

section

variable (call : ReserveCall) (existing : RunKeyReservation)
include call existing

theorem ReserveCall.fingerprintsMatch_iff :
    call.fingerprintsMatch existing = true ↔ call.Agrees existing := by
  unfold fingerprintsMatch Agrees
  cases existing.requestFingerprint <;> cases call.reservation.requestFingerprint <;>
    simp [FingerprintPolicy.allowsMissing, Option.all_eq_true]

theorem ReserveCall.answer_spec : (call.Agrees existing → call.answer existing = .alreadyExists existing) ∧
      (¬ call.Agrees existing →
        call.answer existing = .fingerprintMismatch existing call.reservation.requestFingerprint) := by
  rw [← call.fingerprintsMatch_iff]
  exact ⟨fun agrees => if_pos agrees, fun differs => if_neg differs⟩

theorem ReserveCall.answer_ne_reserved : call.answer existing ≠ .reserved := by
  unfold answer
  split <;> simp

end

theorem Settled.mono {result : ReservationResult} (settled : Settled digest label result s) (later : s ≤ s') :
    Settled digest label result s' := by
  obtain ⟨reserved, won⟩ | ⟨existing, ⟨winner, won, same⟩, answered⟩ := settled
  · exact .inl ⟨reserved, won.mono later⟩
  · exact .inr ⟨existing, ⟨winner, won.mono later, same⟩, answered⟩

theorem WriteOnce.create {path : String} (once : WriteOnce s) (absent : s.version path = 0) :
    WriteOnce (s.write path label label.call.reservation) := by
  intro path' version author reservation found
  by_cases same : path' = path
  · subst same
    obtain before | ⟨rfl, rfl, rfl⟩ := Store.at_write_same.mp found
    · exact once _ _ _ _ before
    · exact ⟨by omega, rfl⟩
  · exact once _ _ _ _ ((Store.at_write_ne same).mp found)

theorem safe_getReservation {conduct} (s : Reservations) :
    Safe WriteOnce conduct label (fun found s' => ∀ existing ∈ found, Holds digest s' runKey existing)
      (getReservation digest runKey) s := by
  refine safe_bind safe_find fun found s' ⟨later, read⟩ => ?_
  cases found with
  | none => exact safe_pure (by simp)
  | some existing =>
    obtain ⟨winner, current⟩ := Store.At.of_get read
    obtain ⟨isFirst, rfl⟩ := later.inv _ _ _ _ current
    by_cases same : winner.call.reservation.runKey = runKey
    · simp only [ne_eq, same]
      refine safe_pure ?_
      rintro _ ⟨⟩
      exact ⟨winner, current.once isFirst.le, same, rfl⟩
    · simp only [ne_eq, same]
      exact safe_throw _

theorem safe_readReservation {conduct} (retries : Nat) (s : Reservations) :
    Safe WriteOnce conduct label (fun found s' => ∀ existing ∈ found, Holds digest s' runKey existing)
      (readReservation digest runKey retries) s := by
  induction retries generalizing s with
  | zero => exact safe_getReservation s
  | succ retries ih =>
    refine safe_bind (safe_getReservation s) fun found s' held => ?_
    cases found with
    | none => exact ih s'
    | some existing => exact safe_pure held

theorem safe_createReservation {conduct} : Safe WriteOnce conduct label
      (fun written s' => ∀ version, written = .success version → Won digest s' label.call.reservation.runKey label)
      (put (reservationPath digest label.call.reservation.runKey) label.call.reservation .doesNotExist :
        ReservationM WriteResult) s := by
  refine safe_put (fun s' later allowed => ?_) nofun
  have absent := Store.allows_doesNotExist.mp allowed
  have written := Store.at_write_self s' (reservationPath digest label.call.reservation.runKey) label
    label.call.reservation
  rw [absent] at written
  exact ⟨later.inv.create absent, fun _ _ => written⟩

theorem safe_reserveRunKey {conduct} (s : Reservations) :
    Safe WriteOnce conduct label (Settled digest label) (reserveRunKey digest label.call) s := by
  refine safe_bind safe_createReservation fun written s' won => ?_
  cases written with
  | success version => exact safe_pure (.inl ⟨rfl, won version rfl⟩)
  | preconditionFailed version =>
    refine safe_bind (safe_readReservation 5 s') fun found s'' held => ?_
    cases found with
    | none => exact safe_throw _
    | some existing => exact safe_pure (.inr ⟨existing, held existing rfl, rfl⟩)

theorem reservationProtocol_verified : (reservationProtocol digest).Verified (fun _ => Conduct.free) WriteOnce
      (fun label => ensures (Settled digest label)) where
  relyRefl _ _ _ := trivial
  relyTrans _ _ _ _ _ _ _ := trivial
  postStable label result s s' known later _ := by
    cases result with
    | ok result => exact Settled.mono known later
    | error error => trivial
  calls _ _ s _ _ _ _ := safe_reserveRunKey s

variable {P : Type} [DecidableEq P]

theorem settled_of_returned {w : ReservationWorld P} {result : ReservationResult}
    (reached : (reservationProtocol digest).Reaches (fun _ _ _ => True) { store := {} } w)
    (returned : (label, .ok result) ∈ w.returned) : Settled digest label result w.store :=
  (reservationProtocol_verified.reaches
    (Protocol.sound_empty fun _ _ _ _ found => by simpa using found.2) reached.free).1.returned _ returned

/-- One caller obtains the reservation, and the others are told of it, as theirs or as one that differs. Callers may use
any run keys, crash, and meet failures of storage, also after a write has landed. -/
theorem reserveRunKey_exclusive {w : ReservationWorld P}
    (reached : (reservationProtocol digest).Reaches (fun _ _ _ => True) { store := {} } w) (runKey : String) :
    (∀ label label', label.call.reservation.runKey = runKey → label'.call.reservation.runKey = runKey →
      (label, .ok .reserved) ∈ w.returned → (label', .ok .reserved) ∈ w.returned → label = label') ∧
    ∀ label result, label.call.reservation.runKey = runKey → (label, .ok result) ∈ w.returned → result ≠ .reserved →
      ∃ winner, Won digest w.store runKey winner ∧ winner.call.reservation.runKey = runKey ∧
        (label.call.Agrees winner.call.reservation → result = .alreadyExists winner.call.reservation) ∧
        (¬ label.call.Agrees winner.call.reservation →
          result = .fingerprintMismatch winner.call.reservation label.call.reservation.requestFingerprint) ∧
        ∀ label', label'.call.reservation.runKey = runKey → (label', .ok .reserved) ∈ w.returned → label' = winner := by
  have wins : ∀ label, label.call.reservation.runKey = runKey → (label, .ok .reserved) ∈ w.returned →
      Won digest w.store runKey label := by
    rintro label rfl returned
    obtain ⟨_, won⟩ | ⟨_, _, answered⟩ := settled_of_returned reached returned
    · exact won
    · exact absurd answered.symm (label.call.answer_ne_reserved _)
  refine ⟨fun label label' same same' returned returned' =>
    (Store.At.unique (wins label same returned) (wins label' same' returned')).1, ?_⟩
  rintro label _ rfl returned other
  obtain ⟨reserved, _⟩ | ⟨_, ⟨winner, won, same, rfl⟩, answered⟩ := settled_of_returned reached returned
  · exact absurd reserved other
  · obtain ⟨agrees, differs⟩ := label.call.answer_spec winner.call.reservation
    exact ⟨winner, won, same, fun isSame => answered.trans (agrees isSame), fun isOther => answered.trans (differs isOther),
      fun label' same' returned' => (Store.At.unique (wins label' same' returned') won).1⟩

def sampleReservation (runId fingerprint : String) : ReserveCall where
  reservation :=
    { runKey := "k", runId, planId := "p", eventId := "e", requestFingerprint := some fingerprint, createdAt := 0 }

/-- Two callers have started when the first one writes, and the second one, with another request, returns before it. A
third one repeats the request of the first. -/
theorem reserveRunKey_exclusive_mismatch : ∃ w : ReservationWorld Bool,
    (reservationProtocol id).Reaches (fun _ _ _ => True) { store := {} } w ∧
      (⟨1, sampleReservation "s" "g"⟩, .ok (.fingerprintMismatch (sampleReservation "r" "f").reservation (some "g"))) ∈
        w.returned ∧
      (⟨2, sampleReservation "t" "f"⟩, .ok (.alreadyExists (sampleReservation "r" "f").reservation)) ∈ w.returned ∧
      Won id w.store "k" ⟨0, sampleReservation "r" "f"⟩ := by
  obtain ⟨w, reached, passed⟩ := Protocol.exists_of_play (P := Bool) (reservationProtocol id) (fun _ _ => true) 9
    { store := {} }
    [.act (.start true (sampleReservation "r" "f")), .act (.start false (sampleReservation "s" "g")),
      .act (.step true .answered (always 0 "")), Protocol.goOn false (always 0 ""),
      .act (.start false (sampleReservation "t" "f")), Protocol.goOn false (always 0 ""), Protocol.goOn true (always 0 "")]
    (fun w => w.returned = [
      (⟨1, sampleReservation "s" "g"⟩, .ok (.fingerprintMismatch (sampleReservation "r" "f").reservation (some "g"))),
      (⟨2, sampleReservation "t" "f"⟩, .ok (.alreadyExists (sampleReservation "r" "f").reservation)),
      (⟨0, sampleReservation "r" "f"⟩, .ok .reserved)]) (by decide +kernel)
  have returned := of_decide_eq_true passed
  have reached' := reached.mono fun _ _ _ _ => trivial
  obtain ⟨_, won, _, _, _, onlyWinner⟩ := (reserveRunKey_exclusive reached' "k").2 ⟨1, sampleReservation "s" "g"⟩ _ rfl
    (by rw [returned]; exact List.mem_cons_self) (by simp)
  have isWinner := onlyWinner ⟨0, sampleReservation "r" "f"⟩ rfl (by simp [returned])
  exact ⟨w, reached', by simp [returned], by simp [returned], isWinner ▸ won⟩

end Arco.Flow
