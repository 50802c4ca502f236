import Arco.Delta.Serial

/-! The log of a Delta table is a serial history, and each idempotency key commits once.

The first holds if each key is always used with the same request. A key that is used with different
requests at the same time can commit twice: a call that has not found a record under its key may
reserve a version after another call has committed under the key.
-/

namespace Arco.Delta

open Storage Fallible List Option Store DeltaCommitCoordinator Protocol

def DeltaCall.request : DeltaCall → Option CommitDeltaRequest
  | .commit _ req _ | .replay req => some req
  | .stage _ | .upload _ _ => none

def DeltaAnswer.response : DeltaAnswer → Option CommitDeltaResponse
  | .committed response => some response
  | .replayed response => response
  | .staged _ => none

/-- A version that is returned was written for the key of the call. -/
def Answered (admits : CommitDeltaRequest → Bool) (label : Label DeltaCall)
    (result : Except DeltaError DeltaAnswer) (s : Objects) : Prop :=
  ∀ answer response req, result = .ok answer → answer.response = some response → label.call.request = some req →
    admits req = true ∧ WrittenFor s req.idempotencyKey response.version

abbrev DeltaWorld (P : Type) : Type := World Content Core.Answer (Except DeltaError DeltaAnswer) DeltaCall P

section Runs

variable {ext : Externals} {paths : DeltaPaths} {admits : CommitDeltaRequest → Bool} {label : Label DeltaCall}
  {conduct : Conduct Content Core.Answer (Except DeltaError DeltaAnswer) (Label DeltaCall)} {s : Objects}

theorem safe_putStaged {conduct} (path : String) (payload : Payload) :
    Keeps (History admits) conduct label (putRaw (.staged path) payload .doesNotExist) s := by
  refine safe_put (fun s₁ later₁ allowed => ⟨?_, trivial⟩) fun _ _ _ => trivial
  exact later₁.inv.stage path label payload (allows_doesNotExist.mp allowed)

theorem safe_stageCommitPayload {conduct} (coordinator : DeltaCommitCoordinator) (payload : Payload) :
    Keeps (History admits) conduct label (coordinator.stageCommitPayload payload) s := by
  refine safe_bind Core.safe_newUlid fun ulid s₁ _ => ?_
  refine safe_bind (safe_putStaged _ _) fun result s₂ _ => ?_
  cases result with
  | success version => exact safe_pure trivial
  | preconditionFailed _ => exact safe_throw _

theorem safe_uploadPayload {conduct} (path : String) (payload : Payload) :
    Keeps (History admits) conduct label (uploadPayload path payload) s := by
  refine safe_bind (safe_putStaged _ _) fun result s₁ _ => ?_
  cases result with
  | success version => exact safe_pure trivial
  | preconditionFailed _ => exact safe_throw _

theorem safe_program (fresh : Fresh admits conduct)
    (admitted : ∀ req, label.call.request = some req → admits req = true) :
    Safe (History admits) conduct label
      (fun answer s' => ∀ response req, answer.response = some response → label.call.request = some req →
        WrittenFor s' req.idempotencyKey response.version) (label.call.program ext paths) s := by
  obtain ⟨_, call⟩ := label
  cases call with
  | stage payload =>
    exact safe_bind (safe_stageCommitPayload _ _) fun _ _ _ => safe_pure nofun
  | upload path payload =>
    exact safe_bind (safe_uploadPayload _ _) fun _ _ _ => safe_pure nofun
  | replay req =>
    refine safe_bind (safe_replayCommitted _ _ _) fun replayed s₁ written => ?_
    refine safe_pure fun response req' isResponse isRequest => ?_
    obtain rfl := some.inj isRequest
    exact written response isResponse
  | commit config req nowMs =>
    refine safe_bind (safe_commit (fresh.under _) _ _ (admitted req rfl) nowMs) fun committed s₁ written => ?_
    refine safe_pure fun response req' isResponse isRequest => ?_
    obtain rfl := some.inj isRequest
    obtain rfl := some.inj isResponse
    exact written

/-- Without assumptions on what other parties do. -/
theorem verified (relies : ∀ p s s', conduct.rely p s s') (fresh : Fresh admits conduct) :
    (deltaProtocol ext paths admits).Verified (fun _ => conduct) (History admits) (Answered admits) where
  relyRefl _ p s := relies p s s
  relyTrans _ p s _ s'' _ _ := relies p s s''
  postStable label result s s' answered later _ answer response req isOk isResponse isRequest :=
    (answered answer response req isOk isResponse isRequest).imp id (·.mono later)
  calls last label s follows history _ _ := by
    have admitted : ∀ req, label.call.request = some req → admits req = true := by
      intro req isRequest
      obtain ⟨_, call⟩ := label
      cases call with
      | stage | upload => cases isRequest
      | replay | commit =>
        obtain rfl := some.inj isRequest
        exact follows
    refine Program.Safe.mono (fun result s' ends => ?_) (safe_program fresh admitted)
    rintro _ response req rfl isResponse isRequest
    exact ⟨admitted req isRequest, ends response req isResponse isRequest⟩

end Runs

def latestVersion (s : Objects) : Int := ((s.get .coordinatorState).getD {}).latestVersion

section Serial

variable {admits : CommitDeltaRequest → Bool} {s s' : Objects}

section

variable (history : History admits s)
include history

theorem History.latestVersion_eq : latestVersion s = (s.version .coordinatorState / 2 : Nat) - 1 := by
  unfold latestVersion
  cases read : s.get .coordinatorState with
  | none => simp [get_eq_none.mp read]
  | some state =>
    obtain ⟨author, found⟩ := get_eq_some.mp read
    exact (history.states _ author state found).1

theorem History.latestVersion_mono (history' : History admits s') (later : s ≤ s') :
    latestVersion s ≤ latestVersion s' := by
  have order := version_mono later .coordinatorState
  rw [history.latestVersion_eq, history'.latestVersion_eq]
  omega

theorem History.logged_of_lt {n : Nat} (past : 2 * n + 1 < s.version .coordinatorState) : Logged s n := by
  obtain ⟨inflight, reserved⟩ := history.exists_reserved (n := n) (by omega)
  exact (history.cleared n inflight reserved past).1

variable {version : Int}

theorem History.reserved_of_logged (logged : Logged s version) :
    ∃ n inflight, version = (n : Nat) ∧ Reserved s n inflight := by
  obtain ⟨author, payload, found⟩ := at_of_le (s := s) (k := .deltaLog version) Nat.one_pos logged
  obtain ⟨_, n, inflight, isVersion, reserved, _⟩ := history.logs version 1 author payload found
  exact ⟨n, inflight, isVersion, reserved⟩

/-- The log has no gaps, and is not behind the latest version. -/
theorem History.contiguous :
    ∃ n : Nat, (∀ version, Logged s version ↔ 0 ≤ version ∧ version < n) ∧ latestVersion s < n := by
  have below : ∀ version : Int, 0 ≤ version → version < (s.version .coordinatorState / 2 : Nat) → Logged s version := by
    intro version nonnegative inside
    have logged := history.logged_of_lt (n := version.toNat) (by omega)
    rwa [Int.toNat_of_nonneg nonnegative] at logged
  have above : ∀ version, Logged s version →
      0 ≤ version ∧ 2 * version + 1 ≤ (s.version .coordinatorState : Int) := by
    intro version logged
    obtain ⟨n, _, rfl, reserved⟩ := history.reserved_of_logged logged
    have inside := reserved.le
    omega
  have latest := history.latestVersion_eq
  -- The last reservation may have its log file or not.
  by_cases last : Logged s (s.version .coordinatorState / 2 : Nat)
  · refine ⟨s.version .coordinatorState / 2 + 1, fun version => ⟨fun logged => ?_, fun inside => ?_⟩, by omega⟩
    · have := above version logged
      omega
    · by_cases isLast : version = (s.version .coordinatorState / 2 : Nat)
      · exact isLast ▸ last
      · exact below version inside.1 (by omega)
  · refine ⟨s.version .coordinatorState / 2, fun version => ⟨fun logged => ?_, fun inside => ?_⟩, by omega⟩
    · have inside := above version logged
      refine ⟨inside.1, ?_⟩
      by_contra beyond
      exact last ((show version = (s.version .coordinatorState / 2 : Nat) by omega) ▸ logged)
    · exact below version inside.1 inside.2

theorem History.get_log {payload : Payload} (read : s.get (.deltaLog version) = some payload) :
    ∃ author, s.At (.deltaLog version) 1 author payload := by
  obtain ⟨author, found⟩ := get_eq_some.mp read
  rw [(history.logs version _ author payload found).1] at found
  exact ⟨author, found⟩

theorem History.log_version_le (version : Int) : s.version (.deltaLog version) ≤ 1 := by
  by_contra more
  have inside : 2 ≤ s.version (.deltaLog version) := by omega
  obtain ⟨author, payload, found⟩ := at_of_le (by omega) inside
  exact absurd (history.logs version 2 author payload found).1 (by omega)

theorem History.log_of_writtenFor {key : String} (written : WrittenFor s key version) :
    ∃ req payload, admits req = true ∧ req.idempotencyKey = key ∧ req.readVersion = version - 1 ∧
      s.get (.staged req.stagedPath) = some payload ∧ s.get (.deltaLog version) = some payload := by
  obtain ⟨n, inflight, rfl, reserved, isKey, logged⟩ := written
  obtain ⟨author, payload, found⟩ := at_of_le (s := s) (k := .deltaLog n) Nat.one_pos logged
  obtain ⟨_, m, _, _, reserved', _, isStaged⟩ := history.logs n 1 author payload found
  obtain rfl : n = m := by omega
  obtain rfl := reserved.unique reserved'
  refine ⟨inflightRequest inflight, payload, history.reserved n inflight reserved, isKey, ?_,
    isStaged.get_of_le (history.staged _), found.get_of_le (history.log_version_le _)⟩
  simp [inflightRequest, (history.reserved_version reserved).2]

end

end Serial

/-- Each key is always used with the same request. -/
def SameRequest (requests : String → CommitDeltaRequest) (req : CommitDeltaRequest) : Bool :=
  req = requests req.idempotencyKey

theorem fresh_of_sameRequest (requests : String → CommitDeltaRequest) :
    Fresh (SameRequest requests) (Conduct.free (α := Except DeltaError DeltaAnswer)) := by
  intro s state precondition next n inflight _ _ history turn _ read admitted
  by_contra recorded
  obtain ⟨author, record, found⟩ := at_of_le (s := s) Nat.one_pos (Nat.pos_of_ne_zero recorded)
  obtain ⟨m, inflight', _, reserved, isKey, _⟩ := history.records _ 1 author record found
  have admitted' := history.reserved m inflight' reserved
  simp only [SameRequest, decide_eq_true_eq] at admitted admitted'
  have same : inflightRequest inflight = inflightRequest inflight' :=
    admitted.trans ((congrArg requests isKey.symm).trans admitted'.symm)
  have sameRead : (n : Int) - 1 = m - 1 := by
    have := congrArg CommitDeltaRequest.readVersion same
    simpa only [inflightRequest, read, (history.reserved_version reserved).2, getD_some] using this
  have inside := reserved.le
  omega

variable {P : Type} [DecidableEq P]

/-- The log of a table whose clients use each key for one request: its files are there without gaps and
stay as they are, a version that is returned follows the one that was read and holds the staged
payload, and the latest version grows and is not ahead of the files. -/
theorem log_serial {ext : Externals} {paths : DeltaPaths} {requests : String → CommitDeltaRequest}
    {w w' : DeltaWorld P}
    (reached : (deltaProtocol ext paths (SameRequest requests)).Reaches (fun _ _ _ => True) { store := {} } w)
    (further : (deltaProtocol ext paths (SameRequest requests)).Reaches (fun _ _ _ => True) w w') :
    (∃ n : Nat, (∀ version, Logged w.store version ↔ 0 ≤ version ∧ version < n) ∧ latestVersion w.store < n) ∧
      (∀ version payload, w.store.get (.deltaLog version) = some payload →
        w'.store.get (.deltaLog version) = some payload) ∧
      (∀ label answer response req, (label, .ok answer) ∈ w.returned → answer.response = some response →
        label.call.request = some req → req.readVersion = response.version - 1 ∧
          ∃ payload, w.store.get (.staged req.stagedPath) = some payload ∧
            w.store.get (.deltaLog response.version) = some payload) ∧
      latestVersion w.store ≤ latestVersion w'.store := by
  have verified : (deltaProtocol ext paths (SameRequest requests)).Verified (fun _ => Conduct.free)
      (History (SameRequest requests)) (Answered (SameRequest requests)) :=
    verified (fun _ _ _ => trivial) (fresh_of_sameRequest requests)
  obtain ⟨sound, _⟩ := verified.reaches (sound_empty history_empty) reached.free
  obtain ⟨sound', later⟩ := verified.reaches sound further.free
  refine ⟨sound.holds.contiguous, fun version payload read => ?_, ?_, sound.holds.latestVersion_mono sound'.holds later⟩
  · obtain ⟨_, found⟩ := sound.holds.get_log read
    exact (found.mono later).get_of_le (sound'.holds.log_version_le version)
  · intro label answer response req member isResponse isRequest
    obtain ⟨admitted, written⟩ := sound.returned _ member answer response req rfl isResponse isRequest
    obtain ⟨req', payload, admitted', sameKey, isRead, staged, log⟩ := sound.holds.log_of_writtenFor written
    -- The request of the reservation is the one of the call.
    simp only [SameRequest, decide_eq_true_eq] at admitted admitted'
    obtain rfl : req' = req := admitted'.trans ((congrArg requests sameKey).trans admitted.symm)
    exact ⟨isRead, payload, staged, log⟩

section Samples

def plain : Externals where
  parseUuid key := some (7, key)
  requestHash _ _ stagedPath _ := stagedPath
  legacyRequestHash req := "legacy:" ++ req.stagedPath

def tablePaths : DeltaPaths := .legacy "t"

def sampleKey : String := "01890a5d-ac96-774b-bcce-b302099a8057"

def firstRequest : CommitDeltaRequest := ⟨-1, "delta/staging/t/a", 1, sampleKey⟩

def secondRequest : CommitDeltaRequest := ⟨0, "delta/staging/t/b", 1, sampleKey⟩

def steps (count : Nat) (party : Bool) : List (Action Core.Answer DeltaCall Bool) :=
  replicate count (.step party .answered (Core.always 0 "a"))

/-- A call is about to reserve its version when another one with the same request commits. -/
def twoCalls : List (Action Core.Answer DeltaCall Bool) :=
  .start false (.upload "delta/staging/t/a" [1]) :: steps 2 false ++ .start true (.commit {} firstRequest 0) ::
    steps 5 true ++ .start false (.commit {} firstRequest 0) :: steps 12 false ++ steps 4 true

end Samples

theorem log_serial_one :
    ∃ w : DeltaWorld Bool, Logged w.store 0 ∧ ∃ n : Nat, ∀ version, Logged w.store version ↔ 0 ≤ version ∧ version < n := by
  obtain ⟨w, ran⟩ : ∃ w, (deltaProtocol plain tablePaths (SameRequest fun _ => firstRequest)).run { store := {} }
      twoCalls = some w := ⟨_, rfl⟩
  have reached := reaches_of_run (fun _ _ _ _ => trivial) ran
  obtain ⟨⟨n, contiguous, _⟩, _⟩ := log_serial reached .refl
  refine ⟨w, ?_, n, contiguous⟩
  cases ran
  exact Nat.one_pos

/-- The reservation that a program is about to write, if the coordinator state is still the one that it has read. -/
def reservation {α : Type} (s : Objects) : Program Content Core.Answer α → Option InflightCommit
  | .put .coordinatorState state precondition _ => if s.allows .coordinatorState precondition then state.inflight else none
  | _ => none

/-- Whoever writes a reservation does so while no record is there under its key. -/
def reservesUnrecorded (w : DeltaWorld P) : Action Core.Answer DeltaCall P → Bool
  | .step p _ _ =>
    match w.party p with
    | .running _ rest =>
      (reservation w.store rest).all fun inflight => w.store.version (.idempotencyMarker inflight.commitId) = 0
    | .idle _ => true
  | _ => true

def unrecorded : Conduct Content Core.Answer (Except DeltaError DeltaAnswer) (Label DeltaCall) where
  rely _ _ _ := True
  may p s := ∀ inflight ∈ reservation s p, s.version (.idempotencyMarker inflight.commitId) = 0

omit [DecidableEq P] in
theorem respects_unrecorded {w w' : DeltaWorld P} {action : Action Core.Answer DeltaCall P}
    (reserves : reservesUnrecorded w action = true) : Respects (fun _ => unrecorded) w action w' := by
  refine ⟨fun _ _ _ _ _ => trivial, ?_⟩
  rintro p _ _ _ _ rfl running _ isReservation
  simp only [reservesUnrecorded, running] at reserves
  rw [mem_def.mp isReservation] at reserves
  simpa using reserves

/-- In every run in which a version is only reserved while no record is there under the key, at most one
version is written for each key, and this is the version that each call with the key returns. -/
theorem key_commits_once {ext : Externals} {paths : DeltaPaths} {w : DeltaWorld P}
    (reached : (deltaProtocol ext paths fun _ => true).Reaches (fun w action _ => reservesUnrecorded w action = true)
      { store := {} } w) :
    (∀ version, Logged w.store version → ∃ key, WrittenFor w.store key version) ∧
      (∀ key version version', WrittenFor w.store key version → WrittenFor w.store key version' → version = version') ∧
      ∀ label answer response req, (label, .ok answer) ∈ w.returned → answer.response = some response →
        label.call.request = some req → WrittenFor w.store req.idempotencyKey response.version := by
  have fresh : Fresh (fun _ => true) unrecorded :=
    fun s state precondition next n inflight may allowed _ _ isInflight _ _ =>
      may inflight (mem_def.mpr ((if_pos allowed).trans isInflight))
  have verified : (deltaProtocol ext paths fun _ => true).Verified (fun _ => unrecorded) (History fun _ => true)
      (Answered fun _ => true) := verified (fun _ _ _ => trivial) fresh
  obtain ⟨sound, _⟩ := verified.reaches (sound_empty history_empty)
    (reached.mono fun _ _ _ reserves => respects_unrecorded reserves)
  refine ⟨fun version logged => ?_, ?_, fun label answer response req member isResponse isRequest => ?_⟩
  · obtain ⟨n, inflight, isVersion, reserved⟩ := sound.holds.reserved_of_logged logged
    exact ⟨inflight.commitId, n, inflight, isVersion, reserved, rfl, logged⟩
  · rintro _ _ _ ⟨n, inflight, rfl, reserved, isKey, _⟩ ⟨n', inflight', rfl, reserved', isKey', _⟩
    rw [sound.holds.once n n' inflight inflight' reserved reserved' (isKey.trans isKey'.symm)]
  · exact (sound.returned _ member answer response req rfl isResponse isRequest).2

theorem key_commits_once_one :
    ∃ w : DeltaWorld Bool, WrittenFor w.store sampleKey 0 ∧ ∀ version, WrittenFor w.store sampleKey version → version = 0 := by
  obtain ⟨w, ran⟩ : ∃ w, (deltaProtocol plain tablePaths fun _ => true).run { store := {} } twoCalls = some w := ⟨_, rfl⟩
  have reached : (deltaProtocol plain tablePaths fun _ => true).Reaches
      (fun w action _ => reservesUnrecorded w action = true) { store := {} } w := by
    refine reaches_of_allows ?_ ran
    iterate 26 refine And.intro rfl ?_
    trivial
  obtain ⟨_, once, _⟩ := key_commits_once reached
  have written : WrittenFor w.store sampleKey 0 := by
    cases ran
    exact ⟨0, _, rfl, ⟨_, _, ⟨Nat.one_pos, rfl⟩, rfl⟩, rfl, Nat.one_pos⟩
  exact ⟨w, written, fun version other => once sampleKey version 0 other written⟩

/-- A second request under the same key finds no record, waits until the first one has committed, and
then commits as well. -/
def twoCommits : List (Action Core.Answer DeltaCall Bool) :=
  .start false (.upload "delta/staging/t/a" [1]) :: steps 2 false ++
  .start false (.upload "delta/staging/t/b" [2]) :: steps 2 false ++
  .start true (.commit {} secondRequest 0) :: steps 3 true ++
  .start false (.commit {} firstRequest 0) :: steps 12 false ++ steps 11 true

theorem key_commits_twice :
    ∃ w : DeltaWorld Bool, (deltaProtocol plain tablePaths fun _ => true).Reaches (fun _ _ _ => True) { store := {} } w ∧
      WrittenFor w.store sampleKey 0 ∧ WrittenFor w.store sampleKey 1 ∧
      ∃ label label' response response', (label, .ok (.committed response)) ∈ w.returned ∧
        (label', .ok (.committed response')) ∈ w.returned ∧ label.call.request = some firstRequest ∧
        label'.call.request = some secondRequest ∧ response.version = 0 ∧ response'.version = 1 := by
  obtain ⟨w, ran⟩ : ∃ w, (deltaProtocol plain tablePaths fun _ => true).run { store := {} } twoCommits = some w :=
    ⟨_, rfl⟩
  refine ⟨w, reaches_of_run (fun _ _ _ _ => trivial) ran, ?_⟩
  cases ran
  refine ⟨⟨0, _, rfl, ⟨_, _, ⟨Nat.one_pos, rfl⟩, rfl⟩, rfl, Nat.one_pos⟩,
    ⟨1, _, rfl, ⟨_, _, ⟨by decide, rfl⟩, rfl⟩, rfl, Nat.one_pos⟩, ?_⟩
  exact ⟨_, _, _, _, mem_cons_of_mem _ (mem_cons_of_mem _ mem_cons_self),
    mem_cons_of_mem _ (mem_cons_of_mem _ (mem_cons_of_mem _ mem_cons_self)), rfl, rfl, rfl, rfl⟩

end Arco.Delta
