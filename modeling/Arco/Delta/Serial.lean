import Arco.Delta.History

/-! Every run of the coordinator keeps the history of the log. -/

namespace Arco.Delta

open Storage Fallible Option Store DeltaCommitCoordinator

/-- The state of the coordinator at a write that has happened, or before any write. -/
def StateAt (s : Objects) (i : Nat) (state : DeltaCoordinatorState) : Prop :=
  (i = 0 ∧ state = {}) ∨ ∃ author, s.At .coordinatorState i author state

variable {state : DeltaCoordinatorState}

theorem StateAt.mono {s s' : Objects} {i : Nat} (known : StateAt s i state) (later : s ≤ s') : StateAt s' i state :=
  known.imp id fun ⟨author, found⟩ => ⟨author, found.mono later⟩

theorem StateAt.le {s : Objects} {i : Nat} (known : StateAt s i state) : i ≤ s.version .coordinatorState := by
  obtain ⟨rfl, _⟩ | ⟨_, found⟩ := known
  · exact Nat.zero_le _
  · exact found.le

section Programs

variable {admits : CommitDeltaRequest → Bool} {label : Label DeltaCall} {s : Objects}
  {i n : Nat} {loaded : DeltaCoordinatorState}
  {conduct : Conduct Content Core.Answer (Except DeltaError Unit) (Label DeltaCall)} {payload : Payload}
  {key : String} {req : CommitDeltaRequest} {version : Int}

section

variable (history : History admits s) (known : StateAt s i state)
include history known

theorem History.numbered : state.Numbered i := by
  obtain ⟨rfl, rfl⟩ | ⟨author, found⟩ := known
  · exact ⟨rfl, rfl⟩
  · exact history.states i author state found

theorem History.inflight {inflight : InflightCommit} (isInflight : state.inflight = some inflight) :
    ∃ n, i = 2 * n + 1 ∧ Reserved s n inflight ∧ inflight.version = (n : Nat) ∧
      inflight.readVersion = some ((n : Int) - 1) ∧ state.latestVersion = (n : Int) - 1 := by
  obtain ⟨rfl, rfl⟩ | ⟨_, found⟩ := known
  · cases isInflight
  · exact history.reserved_of_at found isInflight

theorem History.settled (isInflight : state.inflight = none) :
    ∃ n, i = 2 * n ∧ state = ⟨(n : Int) - 1, none⟩ := by
  obtain ⟨latest, _⟩ := history.numbered known
  obtain ⟨_, _⟩ := state
  subst isInflight latest
  exact ⟨i / 2, by omega, rfl⟩

end

theorem safe_loadState {conduct} : Safe (History admits) conduct label
      (fun loaded s' => s ≤ s' ∧ History admits s' ∧ ∃ i, loaded.2.getD 0 ≤ i ∧
        (loaded.2.isSome = true → s.version .coordinatorState ≤ i) ∧ StateAt s' i loaded.1) loadState s := by
  refine safe_bind safe_head fun head s₁ ⟨later₁, isHead⟩ => ?_
  cases head with
  | none => exact safe_pure ⟨later₁.le, later₁.inv, 0, le_rfl, nofun, .inl ⟨rfl, rfl⟩⟩
  | some version =>
    refine safe_bind safe_get fun state s₂ ⟨later₂, author, found⟩ => ?_
    have order := version_mono later₂.le .coordinatorState
    have order' := version_mono later₁.le .coordinatorState
    have isVersion := (head_eq_some.mp isHead).1
    refine safe_pure ⟨later₁.le.trans later₂.le, later₂.inv, s₂.version .coordinatorState, ?_, ?_,
      .inr ⟨author, found⟩⟩
    · exact isVersion ▸ order
    · exact fun _ => order'.trans order

theorem safe_storeState {conduct}
    {version : Option Nat} (post : Objects → Prop) (bound : version.getD 0 ≤ i) (known : StateAt s i loaded)
    (written : ∀ s' next, Onward (History admits) label s s' →
      conduct.may (.put .coordinatorState state (version.elim .doesNotExist .matchesVersion) next) s' →
      s'.allows .coordinatorState (version.elim .doesNotExist .matchesVersion) = true →
      s'.version .coordinatorState = i →
      History admits (s'.write .coordinatorState label state) ∧ post (s'.write .coordinatorState label state)) :
    Safe (History admits) conduct label
      (fun result s' => s ≤ s' ∧ ∀ version, result = .success version → post s') (storeState state version) s := by
  refine safe_put_may (fun s' next later may allowed => ?_) (fun s' _ later _ _ => ⟨later.le, nofun⟩)
  have inside := known.le.trans (version_mono later.le .coordinatorState)
  have unchanged : s'.version .coordinatorState = version.getD 0 := by
    cases version with
    | none => exact allows_doesNotExist.mp allowed
    | some version => exact (allows_matchesVersion.mp allowed).1
  obtain ⟨kept, holds⟩ := written s' next later may allowed (by omega)
  exact ⟨kept, later.le.trans (s'.le_write _ _ _), fun _ _ => holds⟩

theorem safe_readStagedPayload {conduct} (path : String) (version : Nat) :
    Safe (History admits) conduct label (fun payload s' => s ≤ s' ∧ Staged s' path payload)
      (readStagedPayload path version) s := by
  refine safe_bind safe_head fun head s₁ ⟨later₁, _⟩ => ?_
  cases head with
  | none => exact safe_throw _
  | some found =>
    dsimp only
    split
    · exact safe_throw _
    · refine (safe_get (k := DeltaObject.staged path)).mono fun payload s₂ ⟨later₂, author, current⟩ => ?_
      have bound := later₂.inv.staged path
      have positive := current.1
      rw [show s₂.version (.staged path) = 1 by omega] at current
      exact ⟨later₁.le.trans later₂.le, author, current⟩

theorem safe_putLog {conduct}
    {inflight : InflightCommit} (reserved : Reserved s n inflight) (staged : Staged s inflight.stagedPath payload) :
    Safe (History admits) conduct label (fun _ s' => s ≤ s' ∧ Logged s' n)
      (putRaw (.deltaLog n) payload .doesNotExist) s := by
  refine safe_put (fun s₁ later₁ allowed => ?_) (fun s₁ later₁ refused => ?_)
  · have absent := allows_doesNotExist.mp allowed
    refine ⟨later₁.inv.log (reserved.mono later₁.le) (staged.mono later₁.le) label absent,
      later₁.le.trans (s₁.le_write _ _ _), ?_⟩
    exact (at_write_self s₁ (.deltaLog n) label payload).le.trans_lt' (Nat.succ_pos _)
  · exact ⟨later₁.le, Nat.pos_of_ne_zero fun absent => by simp [allows, absent] at refused⟩

theorem safe_putRecord {conduct}
    {record : DeltaCommitIdempotencyRecord} (written : WrittenFor s key record.version) :
    Safe (History admits) conduct label (fun _ s' => s ≤ s' ∧ 0 < s'.version (.idempotencyMarker key))
      (putRaw (.idempotencyMarker key) record .doesNotExist) s := by
  refine safe_put (fun s₁ later₁ allowed => ?_) (fun s₁ later₁ refused => ?_)
  · refine ⟨later₁.inv.record (written.mono later₁.le) label, later₁.le.trans (s₁.le_write _ _ _), ?_⟩
    rw [version_write_self]
    exact Nat.succ_pos _
  · exact ⟨later₁.le, Nat.pos_of_ne_zero fun absent => by simp [allows, absent] at refused⟩

theorem safe_writeIdempotencyRecord (hash : String) {response : CommitDeltaResponse} (nowMs : Int)
    (written : WrittenFor s key response.version) :
    Safe (History admits) conduct label (fun _ s' => s ≤ s' ∧ 0 < s'.version (.idempotencyMarker key))
      (writeIdempotencyRecord key hash response nowMs) s :=
  safe_bind (safe_putRecord written) fun _ _ known => safe_pure known

theorem safe_readIdempotencyRecord {conduct} (key : String) : Safe (History admits) conduct label
      (fun found s' => s ≤ s' ∧ ∀ record, found = some record → WrittenFor s' key record.version ∧
        0 < s'.version (.idempotencyMarker key)) (readIdempotencyRecord key) s := by
  refine safe_bind safe_head fun head s₁ ⟨later₁, _⟩ => ?_
  cases head with
  | none => exact safe_pure ⟨later₁.le, nofun⟩
  | some version =>
    refine safe_bind safe_get fun record s₂ ⟨later₂, author, found⟩ => ?_
    refine safe_pure ⟨later₁.le.trans later₂.le, fun record' same => ?_⟩
    obtain rfl := some.inj same
    exact ⟨later₂.inv.records key _ author record found, found.1⟩

theorem safe_materializeInflight {inflight : InflightCommit} (reserved : Reserved s n inflight)
    (version : inflight.version = (n : Nat)) {commitExists : Bool} (logged : commitExists = true → Logged s n) :
    Safe (History admits) conduct label (fun _ s' => s ≤ s' ∧ Logged s' n)
      (materializeInflight inflight commitExists) s := by
  unfold materializeInflight
  split
  · rename_i there
    exact safe_pure ⟨le_rfl, logged there⟩
  · refine safe_bind (safe_readStagedPayload _ _) fun payload s₁ ⟨later₁, staged⟩ => ?_
    rw [version]
    refine safe_bind (safe_putLog (reserved.mono later₁) staged) fun _ s₂ ⟨later₂, there⟩ => ?_
    exact safe_pure ⟨later₁.trans later₂, there⟩

/-- The version of the reservation is the one after the latest. -/
theorem safe_clear {conduct}
    {version : Nat} {latest : Int} {inflight : InflightCommit} (isLatest : latest = (n : Int))
    (bound : version ≤ 2 * n + 1) (known : StateAt s (2 * n + 1) loaded)
    (reserved : Reserved s n inflight) (logged : Logged s n)
    (recorded : 0 < s.version (.idempotencyMarker inflight.commitId)) :
    Safe (History admits) conduct label (fun _ s' => s ≤ s')
      (storeState ⟨latest, none⟩ (some version)) s := by
  subst isLatest
  refine Safe.mono (safe_storeState (fun _ => True) bound known fun s' next later _ _ now => ?_)
    fun _ _ known => known.1
  refine ⟨later.inv.clear label (reserved.mono later.le) now (logged.mono later.le) ?_, trivial⟩
  exact Nat.lt_of_lt_of_le recorded (version_mono later.le _)

theorem safe_recoverInflight {conduct}
    (coordinator : DeltaCommitCoordinator) (ext : Externals) (nowMs : Int) (retries : Nat) :
    Safe (History admits) conduct label
      (fun recovered s' => s ≤ s' ∧ ∀ r, recovered = some r → WrittenFor s' r.commitId r.response.version)
      (coordinator.recoverInflight ext nowMs retries) s := by
  induction retries generalizing s conduct with
  | zero => exact safe_throw _
  | succ retries ih =>
    refine safe_bind safe_loadState fun loaded s₁ ⟨later₁, history, i, bound, _, known⟩ => ?_
    obtain ⟨state, _ | _⟩ := loaded
    · exact safe_pure ⟨later₁, nofun⟩
    dsimp only at known ⊢
    cases isInflight : state.inflight with
    | none => exact safe_pure ⟨later₁, nofun⟩
    | some inflight =>
      obtain ⟨n, rfl, reserved, isVersion, _, _⟩ := history.inflight known isInflight
      refine safe_ofExcept_bind fun _ _ => safe_ofExcept_bind fun deltaLogPath _ => ?_
      refine safe_bind safe_head fun found s₄ ⟨later₄, isFound⟩ => ?_
      have grown := later₄.le
      split
      case isFalse => exact safe_pure ⟨later₁.trans grown, nofun⟩
      have there : found.isSome = true → Logged s₄ n := by
        intro isSome
        obtain ⟨v, rfl⟩ := isSome_iff_exists.mp isSome
        obtain ⟨same, positive⟩ := head_eq_some.mp isFound
        rw [isVersion] at same
        exact Nat.lt_of_lt_of_eq positive same.symm
      refine safe_bind (safe_materializeInflight (reserved.mono grown) isVersion there)
        fun _ s₅ ⟨later₅, logged⟩ => ?_
      refine safe_bind (safe_readStagedPayload _ _) fun payload s₆ ⟨later₆, _⟩ => ?_
      have grown := grown.trans (later₅.trans later₆)
      have written : WrittenFor s₆ inflight.commitId inflight.version :=
        ⟨n, inflight, isVersion, reserved.mono grown, rfl, isVersion ▸ logged.mono later₆⟩
      refine safe_bind (safe_writeIdempotencyRecord _ nowMs written) fun _ s₇ ⟨later₇, recorded⟩ => ?_
      have grown := grown.trans later₇
      refine safe_bind (safe_clear (by omega) bound (known.mono grown) (reserved.mono grown)
        (logged.mono (later₆.trans later₇)) recorded) fun result s₈ later₈ => ?_
      cases result with
      | success _ =>
        refine safe_pure ⟨later₁.trans (grown.trans later₈), fun r isRecovered => ?_⟩
        obtain rfl := some.inj isRecovered
        exact written.mono (later₇.trans later₈)
      | preconditionFailed _ =>
        exact ih.mono fun _ _ ⟨later, holds⟩ => ⟨later₁.trans (grown.trans (later₈.trans later)), holds⟩

/-- Whoever is let to write a reservation finds no record under its key. -/
def Fresh {α : Type} (admits : CommitDeltaRequest → Bool) (conduct : Conduct Content Core.Answer α (Label DeltaCall)) :
    Prop :=
  ∀ s state precondition next n inflight, conduct.may (.put .coordinatorState state precondition next) s →
    s.allows .coordinatorState precondition = true → History admits s → s.version .coordinatorState = 2 * n →
      state.inflight = some inflight →
    inflight.readVersion = some ((n : Int) - 1) → admits (inflightRequest inflight) = true →
    s.version (.idempotencyMarker inflight.commitId) = 0

theorem Fresh.under {α β : Type} {conduct : Conduct Content Core.Answer β (Label DeltaCall)}
    (fresh : Fresh admits conduct) (f : α → Program Content Core.Answer β) : Fresh admits (conduct.under f) :=
  fun s state precondition _ n inflight may => fresh s state precondition _ n inflight may

def ReservedFor (s : Objects) (req : CommitDeltaRequest) (version : Int) : Prop :=
  ∃ n inflight, version = (n : Nat) ∧ Reserved s n inflight ∧ inflight.commitId = req.idempotencyKey ∧
    inflight.stagedPath = req.stagedPath

theorem resumeInflight_ok {latestVersion : Int} {inflight : InflightCommit}
    (resumed : resumeInflight req latestVersion inflight = .ok version) :
    inflight.commitId = req.idempotencyKey ∧ inflight.stagedPath = req.stagedPath ∧ version = inflight.version := by
  unfold resumeInflight at resumed
  split at resumed
  case isFalse => cases resumed
  rename_i sameKey
  split at resumed
  · cases resumed
  rename_i samePath
  split at resumed
  · cases resumed
  split at resumed
  · cases resumed
  · refine ⟨sameKey, ?_, (Except.ok.inj resumed).symm⟩
    by_contra different
    exact samePath (.inl different)

theorem safe_reserveOrResumeInflight {conduct} (fresh : Fresh admits conduct)
    (coordinator : DeltaCommitCoordinator) (ext : Externals) (admitted : admits req = true) (nowMs : Int)
    (retries : Nat) :
    Safe (History admits) conduct label (fun version s' => s ≤ s' ∧ ReservedFor s' req version)
      (coordinator.reserveOrResumeInflight ext req nowMs retries) s := by
  induction retries generalizing s conduct with
  | zero => exact safe_throw _
  | succ retries ih =>
    refine safe_bind safe_loadState fun loaded s₁ ⟨later₁, history, i, bound, _, known⟩ => ?_
    obtain ⟨state, version⟩ := loaded
    dsimp only
    cases isInflight : state.inflight with
    | some inflight =>
      dsimp only
      split
      · obtain ⟨n, rfl, reserved, isVersion, _, _⟩ := history.inflight known isInflight
        refine safe_ofExcept fun version resumed => ⟨later₁, ?_⟩
        obtain ⟨sameKey, samePath, rfl⟩ := resumeInflight_ok resumed
        exact ⟨n, inflight, isVersion, reserved, sameKey, samePath⟩
      · refine safe_bind (safe_recoverInflight _ _ _ _) fun _ s₂ ⟨later₂, _⟩ => ?_
        exact (ih fresh).mono fun _ _ ⟨later, reserved⟩ => ⟨later₁.trans (later₂.trans later), reserved⟩
    | none =>
      dsimp only
      split
      · exact safe_throw _
      rename_i isRead
      split
      · exact safe_throw _
      obtain ⟨n, rfl, rfl⟩ := history.settled known isInflight
      have isRead : (n : Int) - 1 = req.readVersion := by simpa using isRead
      have next : (n : Int) - 1 + 1 = (n : Nat) := by omega
      simp only [next]
      refine safe_bind (safe_storeState (fun s' => ReservedFor s' req n) bound known
        fun s' _ later may allowed now => ?_) fun result s₂ ⟨later₂, success⟩ => ?_
      · have sameRequest : inflightRequest (coordinator.newInflight req n nowMs) = req := rfl
        have read : (coordinator.newInflight req n nowMs).readVersion = some ((n : Int) - 1) := by rw [isRead]; rfl
        have unused := (fresh.under _) s' _ _ _ n _ may allowed later.inv now rfl read (sameRequest ▸ admitted)
        refine ⟨later.inv.reserve label now rfl read (sameRequest ▸ admitted) unused, n,
          coordinator.newInflight req n nowMs, rfl, ⟨label, ⟨(n : Int) - 1, some _⟩, ?_, rfl⟩, rfl, rfl⟩
        rw [← now]
        exact at_write_self s' .coordinatorState label _
      · cases result with
        | success version => exact safe_pure ⟨later₁.trans later₂, success version rfl⟩
        | preconditionFailed _ =>
          exact (ih fresh).mono fun _ _ ⟨later, reserved⟩ => ⟨later₁.trans (later₂.trans later), reserved⟩

theorem safe_writeDeltaLog {inflight : InflightCommit} (reserved : Reserved s n inflight)
    (staged : Staged s inflight.stagedPath payload) :
    Safe (History admits) conduct label (fun _ s' => s ≤ s' ∧ Logged s' n) (writeDeltaLog n payload) s := by
  refine safe_bind (safe_putLog reserved staged) fun result s₁ ⟨later₁, logged⟩ => ?_
  cases result with
  | success _ => exact safe_pure ⟨later₁, logged⟩
  | preconditionFailed _ =>
    refine safe_bind safe_get fun existing s₂ ⟨later₂, _⟩ => ?_
    split
    · exact safe_throw _
    · exact safe_pure ⟨later₁.trans later₂.le, logged.mono later₂.le⟩

/-- What a party knows that is about to finalize a version. -/
structure Finalizable (s : Objects) (key : String) (version : Int) : Prop where
  written : WrittenFor s key version
  recorded : 0 < s.version (.idempotencyMarker key)

theorem Finalizable.mono {s' : Objects} (ready : Finalizable s key version) (later : s ≤ s') : Finalizable s' key version :=
  ⟨ready.written.mono later, Nat.lt_of_lt_of_le ready.recorded (version_mono later _)⟩

/-- No state that was loaded since then is without a reservation and behind the version. -/
theorem Finalizable.latest {s₀ : Objects} (ready : Finalizable s₀ key version) (history : History admits s)
    (since : s₀.version .coordinatorState ≤ i) (known : StateAt s i state) (isInflight : state.inflight = none) :
    version ≤ state.latestVersion := by
  obtain ⟨n, _, rfl, reserved, _, _⟩ := ready.written
  obtain ⟨m, rfl, rfl⟩ := history.settled known isInflight
  have inside := reserved.le
  dsimp only
  omega

section

variable (ready : Finalizable s key version)
include ready

/-- A reservation under the key is the one of the version. -/
theorem Finalizable.same (history : History admits s)
    {inflight : InflightCommit} (known : StateAt s i state) (isInflight : state.inflight = some inflight)
    (sameKey : inflight.commitId = key) :
    ∃ n, i = 2 * n + 1 ∧ version = (n : Nat) ∧ inflight.version = (n : Nat) ∧ state.latestVersion = (n : Int) - 1 ∧
      Reserved s n inflight ∧ Logged s n := by
  obtain ⟨n, inflight', rfl, reserved', isKey, logged⟩ := ready.written
  obtain ⟨m, rfl, reserved, isVersion, _, latest⟩ := history.inflight known isInflight
  obtain rfl := history.once m n inflight inflight' reserved reserved' (sameKey.trans isKey.symm)
  exact ⟨m, rfl, rfl, isVersion, latest, reserved, logged⟩

theorem safe_finalizeInflight (retries : Nat) : Safe (History admits) conduct label (fun _ s' => s ≤ s')
      (finalizeInflight key version retries) s := by
  induction retries generalizing s conduct with
  | zero => exact safe_throw _
  | succ retries ih =>
    refine safe_bind safe_loadState fun loaded s₁ ⟨later₁, history, i, bound, since, known⟩ => ?_
    obtain ⟨state, _ | _⟩ := loaded
    · exact safe_throw _
    dsimp only at known ⊢
    split
    · exact safe_pure later₁
    rename_i unfinished
    split
    · exact safe_throw _
    rename_i same
    have ready₁ := ready.mono later₁
    cases isInflight : state.inflight with
    | none => exact absurd ⟨by rw [isInflight]; rfl, ready.latest history (since rfl) known isInflight⟩ unfinished
    | some inflight =>
      have sameKey : inflight.commitId = key := by simpa [isInflight] using same
      obtain ⟨n, rfl, rfl, _, _, reserved, logged⟩ := ready₁.same history known isInflight sameKey
      refine safe_bind (safe_clear (by omega) bound known reserved logged (sameKey ▸ ready₁.recorded))
        fun result s₂ later₂ => ?_
      cases result with
      | success _ => exact safe_pure (later₁.trans later₂)
      | preconditionFailed _ =>
        exact (ih (ready₁.mono later₂)).mono fun _ _ later => later₁.trans (later₂.trans later)

theorem safe_finalizeReplayedCommit (retries : Nat) : Safe (History admits) conduct label (fun _ s' => s ≤ s')
      (finalizeReplayedCommit key version retries) s := by
  induction retries generalizing s conduct with
  | zero => exact safe_throw _
  | succ retries ih =>
    refine safe_bind safe_loadState fun loaded s₁ ⟨later₁, history, i, bound, since, known⟩ => ?_
    obtain ⟨state, _ | _⟩ := loaded
    · exact safe_pure later₁
    dsimp only
    cases isInflight : state.inflight with
    | none =>
      rw [if_pos (ready.latest history (since rfl) known isInflight)]
      exact safe_pure later₁
    | some inflight =>
      dsimp only
      split
      · exact safe_pure later₁
      rename_i same
      have ready₁ := ready.mono later₁
      have sameKey : inflight.commitId = key := by simpa using same
      obtain ⟨n, rfl, rfl, _, _, reserved, logged⟩ := ready₁.same history known isInflight sameKey
      refine safe_bind (safe_clear (by omega) bound known reserved logged (sameKey ▸ ready₁.recorded))
        fun result s₂ later₂ => ?_
      cases result with
      | success _ => exact safe_pure (later₁.trans later₂)
      | preconditionFailed _ =>
        exact (ih (ready₁.mono later₂)).mono fun _ _ later => later₁.trans (later₂.trans later)

end

theorem safe_replayCommittedWithHashes {conduct} (key : String) (hashes : List String) :
    Safe (History admits) conduct label
      (fun replayed s' => s ≤ s' ∧ ∀ response, replayed = some response → Finalizable s' key response.version)
      (replayCommittedWithHashes key hashes) s := by
  refine safe_bind (safe_readIdempotencyRecord key) fun found s₁ ⟨later₁, known⟩ => ?_
  cases found with
  | none => exact safe_pure ⟨later₁, nofun⟩
  | some record =>
    dsimp only
    split
    · refine safe_pure ⟨later₁, fun response same => ?_⟩
      obtain rfl := some.inj same
      exact ⟨(known record rfl).1, (known record rfl).2⟩
    · exact safe_throw _

theorem safe_replayCommitted {conduct}
    (coordinator : DeltaCommitCoordinator) (ext : Externals) (req : CommitDeltaRequest) :
    Safe (History admits) conduct label
      (fun replayed s' => ∀ response, replayed = some response → WrittenFor s' req.idempotencyKey response.version)
      (coordinator.replayCommitted ext req) s := by
  refine safe_ofExcept_bind fun _ _ => safe_ofExcept_bind fun _ _ => ?_
  refine safe_bind (safe_readIdempotencyRecord _) fun found s₁ ⟨_, known⟩ => ?_
  cases found with
  | none => exact safe_pure nofun
  | some record =>
    have written := (known record rfl).1
    dsimp only
    split
    · refine safe_pure fun response same => ?_
      obtain rfl := some.inj same
      exact written
    · refine safe_bind (safe_readStagedPayload _ _) fun payload s₂ ⟨later₂, _⟩ => ?_
      split
      · refine safe_pure fun response same => ?_
        obtain rfl := some.inj same
        exact written.mono later₂
      · exact safe_throw _

theorem safe_commitNew {conduct}
    (fresh : Fresh admits conduct) (coordinator : DeltaCommitCoordinator) (ext : Externals)
    (admitted : admits req = true) (staged : Staged s req.stagedPath payload) (nowMs : Int) :
    Safe (History admits) conduct label (fun response s' => WrittenFor s' req.idempotencyKey response.version)
      (coordinator.commitNew ext req payload nowMs) s := by
  refine safe_bind (safe_reserveOrResumeInflight (fresh.under _) coordinator ext admitted nowMs _)
    fun version s₁ ⟨later₁, n, inflight, isVersion, reserved, isKey, isPath⟩ => ?_
  subst isVersion
  refine safe_ofExcept_bind fun deltaLogPath _ => ?_
  refine safe_bind (safe_writeDeltaLog reserved (isPath ▸ staged.mono later₁)) fun _ s₂ ⟨later₂, logged⟩ => ?_
  have written : WrittenFor s₂ req.idempotencyKey n := ⟨n, inflight, rfl, reserved.mono later₂, isKey, logged⟩
  refine safe_bind (safe_writeIdempotencyRecord _ nowMs written) fun _ s₃ ⟨later₃, recorded⟩ => ?_
  refine safe_bind (safe_finalizeInflight ⟨written.mono later₃, recorded⟩ _) fun _ s₄ later₄ => ?_
  exact safe_pure (written.mono (later₃.trans later₄))

theorem safe_commit {conduct}
    (fresh : Fresh admits conduct) (coordinator : DeltaCommitCoordinator) (ext : Externals)
    (admitted : admits req = true) (nowMs : Int) :
    Safe (History admits) conduct label
      (fun response s' => WrittenFor s' req.idempotencyKey response.version) (coordinator.commit ext req nowMs) s := by
  refine safe_bind (safe_ofExcept_bind fun _ _ => safe_ofExcept_bind fun _ _ =>
    safe_readStagedPayload _ _) fun payload s₁ ⟨_, staged⟩ => ?_
  refine safe_bind (safe_replayCommittedWithHashes _ _) fun replayed s₂ ⟨later₂, ready⟩ => ?_
  cases replayed with
  | some response =>
    have ready := ready response rfl
    refine safe_bind (safe_finalizeReplayedCommit ready _) fun _ s₃ later₃ => ?_
    exact safe_pure (ready.written.mono later₃)
  | none =>
    refine safe_bind (safe_recoverInflight _ _ _ _) fun recovered s₃ ⟨later₃, written⟩ => ?_
    have staged := staged.mono (later₂.trans later₃)
    cases recovered with
    | none => exact safe_commitNew fresh coordinator ext admitted staged nowMs
    | some recovered =>
      dsimp only
      split
      · rename_i sameKey
        split
        · exact safe_throw _
        · exact safe_pure (sameKey ▸ written recovered rfl)
      · exact safe_commitNew fresh coordinator ext admitted staged nowMs

end Programs

end Arco.Delta
