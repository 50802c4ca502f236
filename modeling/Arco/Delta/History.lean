import Arco.Delta.Coordinator

/-! The history of a Delta log.

The writes to the state of the coordinator take turns: the write `2 n + 1` reserves the version `n`
of the log, and the write `2 n + 2` clears the reservation. In between, the log file is written, and
then the record under the key of the reservation.
-/

namespace Arco.Delta

open Storage Store

def DeltaCoordinatorState.Numbered (i : Nat) (state : DeltaCoordinatorState) : Prop :=
  state.latestVersion = (i / 2 : Nat) - 1 ∧
    match state.inflight with
    | none => i % 2 = 0
    | some inflight => i % 2 = 1 ∧ inflight.version = (i / 2 : Nat) ∧ inflight.readVersion = some state.latestVersion

def Reserved (s : Objects) (n : Nat) (inflight : InflightCommit) : Prop :=
  ∃ author state, s.At .coordinatorState (2 * n + 1) author state ∧ state.inflight = some inflight

variable {s' : Objects} {n : Nat} {inflight : InflightCommit}

theorem Reserved.mono {s : Objects} (reserved : Reserved s n inflight) (later : s ≤ s') : Reserved s' n inflight := by
  obtain ⟨author, state, found, isInflight⟩ := reserved
  exact ⟨author, state, found.mono later, isInflight⟩

theorem Reserved.unique {s : Objects} {inflight' : InflightCommit} (left : Reserved s n inflight)
    (right : Reserved s n inflight') : inflight = inflight' := by
  obtain ⟨_, _, found, isInflight⟩ := left
  obtain ⟨_, _, found', isInflight'⟩ := right
  obtain ⟨_, rfl⟩ := found.unique found'
  exact Option.some.inj (isInflight.symm.trans isInflight')

theorem Reserved.le {s : Objects} (reserved : Reserved s n inflight) :
    2 * n + 1 ≤ s.version .coordinatorState := by
  obtain ⟨_, _, found, _⟩ := reserved
  exact found.le

theorem reserved_write {s : Objects} {k : DeltaObject} {author : Label DeltaCall} {value : Content k}
    (other : k ≠ .coordinatorState) :
    Reserved (s.write k author value) n inflight ↔ Reserved s n inflight := by
  simp only [Reserved, at_write_ne other.symm]

def Staged (s : Objects) (path : String) (payload : Payload) : Prop := ∃ author, s.At (.staged path) 1 author payload

theorem Staged.mono {s : Objects} {path : String} {payload : Payload} (staged : Staged s path payload)
    (later : s ≤ s') : Staged s' path payload := by
  obtain ⟨author, found⟩ := staged
  exact ⟨author, found.mono later⟩

def Logged (s : Objects) (version : Int) : Prop := 0 < s.version (.deltaLog version)

theorem Logged.mono {s : Objects} {version : Int} (logged : Logged s version) (later : s ≤ s') : Logged s' version :=
  Nat.lt_of_lt_of_le logged (version_mono later _)

/-- A version that was reserved under a key and whose log file is there. -/
def WrittenFor (s : Objects) (key : String) (version : Int) : Prop :=
  ∃ n inflight, version = (n : Nat) ∧ Reserved s n inflight ∧ inflight.commitId = key ∧ Logged s version

theorem WrittenFor.mono {s : Objects} {key : String} {version : Int} (written : WrittenFor s key version)
    (later : s ≤ s') : WrittenFor s' key version := by
  obtain ⟨n, inflight, isVersion, reserved, isKey, logged⟩ := written
  exact ⟨n, inflight, isVersion, reserved.mono later, isKey, logged.mono later⟩

structure History (admits : CommitDeltaRequest → Bool) (s : Objects) : Prop where
  states : ∀ i author state, s.At .coordinatorState i author state → state.Numbered i
  staged : ∀ path, s.version (.staged path) ≤ 1
  reserved : ∀ n inflight, Reserved s n inflight → admits (DeltaCommitCoordinator.inflightRequest inflight) = true
  logs : ∀ version i author payload, s.At (.deltaLog version) i author payload →
    i = 1 ∧ ∃ n inflight, version = (n : Nat) ∧ Reserved s n inflight ∧ Staged s inflight.stagedPath payload
  records : ∀ key i author record, s.At (.idempotencyMarker key) i author record → WrittenFor s key record.version
  cleared : ∀ n inflight, Reserved s n inflight → 2 * n + 1 < s.version .coordinatorState →
    Logged s n ∧ 0 < s.version (.idempotencyMarker inflight.commitId)
  once : ∀ n n' inflight inflight', Reserved s n inflight → Reserved s n' inflight' →
    inflight.commitId = inflight'.commitId → n = n'

variable {admits : CommitDeltaRequest → Bool} {s : Objects}

theorem history_empty : History admits {} := by
  have nothing : ∀ k i author value, ¬ ({} : Objects).At k i author value := fun _ _ _ _ found => by simpa using found.2
  have unreserved : ∀ n inflight, ¬ Reserved {} n inflight := fun _ _ ⟨_, _, found, _⟩ => nothing _ _ _ _ found
  exact {
    states := fun _ _ _ found => absurd found (nothing _ _ _ _)
    staged := fun _ => Nat.zero_le 1
    reserved := fun _ _ reserved => absurd reserved (unreserved _ _)
    logs := fun _ _ _ _ found => absurd found (nothing _ _ _ _)
    records := fun _ _ _ _ found => absurd found (nothing _ _ _ _)
    cleared := fun _ _ reserved => absurd reserved (unreserved _ _)
    once := fun _ _ _ _ reserved => absurd reserved (unreserved _ _) }

namespace History

variable {state : DeltaCoordinatorState}

section

variable (history : History admits s)
include history

theorem reserved_of_at {i : Nat} {author : Label DeltaCall}
    (found : s.At .coordinatorState i author state) (isInflight : state.inflight = some inflight) :
    ∃ n, i = 2 * n + 1 ∧ Reserved s n inflight ∧ inflight.version = (n : Nat) ∧
      inflight.readVersion = some ((n : Int) - 1) ∧ state.latestVersion = (n : Int) - 1 := by
  have numbered := history.states i author state found
  simp only [DeltaCoordinatorState.Numbered, isInflight] at numbered
  obtain ⟨latest, _, version, read⟩ := numbered
  refine ⟨i / 2, by omega, ⟨author, state, ?_, isInflight⟩, version, latest ▸ read, latest⟩
  rwa [show 2 * (i / 2) + 1 = i by omega]

theorem reserved_version (reserved : Reserved s n inflight) :
    inflight.version = (n : Nat) ∧ inflight.readVersion = some ((n : Int) - 1) := by
  obtain ⟨_, _, found, isInflight⟩ := reserved
  obtain ⟨m, _, _, version, read, _⟩ := history.reserved_of_at found isInflight
  obtain rfl : m = n := by omega
  exact ⟨version, read⟩

theorem exists_reserved (inside : 2 * n + 1 ≤ s.version .coordinatorState) :
    ∃ inflight, Reserved s n inflight := by
  obtain ⟨author, state, found⟩ := at_of_le (by omega) inside
  have numbered := (history.states _ _ _ found).2
  cases isInflight : state.inflight with
  | none =>
    rw [isInflight] at numbered
    omega
  | some inflight => exact ⟨inflight, author, state, found, isInflight⟩

/-- A write to another object than the state of the coordinator, once it is shown what is new about it. -/
theorem write (k : DeltaObject) (author : Label DeltaCall) (value : Content k)
    (other : k ≠ .coordinatorState) (staged : ∀ path, k = .staged path → s.version k = 0)
    (logs : ∀ version i by_ payload, (s.write k author value).At (.deltaLog version) i by_ payload →
      ¬ s.At (.deltaLog version) i by_ payload →
      i = 1 ∧ ∃ n inflight, version = (n : Nat) ∧ Reserved s n inflight ∧ Staged s inflight.stagedPath payload)
    (records : ∀ key i by_ record, (s.write k author value).At (.idempotencyMarker key) i by_ record →
      ¬ s.At (.idempotencyMarker key) i by_ record → WrittenFor s key record.version) :
    History admits (s.write k author value) := by
  have grows := s.le_write k author value
  have same : (s.write k author value).version .coordinatorState = s.version .coordinatorState :=
    version_write_ne s author value other.symm
  constructor
  case states =>
    intro i by_ state found
    exact history.states i by_ state ((at_write_ne other.symm).mp found)
  case staged =>
    exact fun path => version_write_le (history.staged path) fun here => by rw [here, staged path here.symm]
  case reserved => exact fun n inflight reserved => history.reserved n inflight ((reserved_write other).mp reserved)
  case logs =>
    intro version i by_ payload found
    have known : i = 1 ∧ ∃ n inflight, version = (n : Nat) ∧ Reserved s n inflight ∧ Staged s inflight.stagedPath payload := by
      by_cases old : s.At (.deltaLog version) i by_ payload
      · exact history.logs version i by_ payload old
      · exact logs version i by_ payload found old
    obtain ⟨first, n, inflight, isVersion, reserved, isStaged⟩ := known
    exact ⟨first, n, inflight, isVersion, reserved.mono grows, isStaged.mono grows⟩
  case records =>
    intro key i by_ record found
    by_cases old : s.At (.idempotencyMarker key) i by_ record
    · exact (history.records key i by_ record old).mono grows
    · exact (records key i by_ record found old).mono grows
  case cleared =>
    intro n inflight reserved past
    rw [same] at past
    obtain ⟨logged, recorded⟩ := history.cleared n inflight ((reserved_write other).mp reserved) past
    exact ⟨logged.mono grows, Nat.lt_of_lt_of_le recorded (version_mono grows _)⟩
  case once =>
    exact fun n n' inflight inflight' left right =>
      history.once n n' inflight inflight' ((reserved_write other).mp left) ((reserved_write other).mp right)

theorem stage (path : String) (author : Label DeltaCall) (payload : Payload)
    (absent : s.version (.staged path) = 0) : History admits (s.write (.staged path) author payload) := by
  refine history.write (.staged path) author payload (by simp) (fun _ _ => absent) ?_ ?_
  · exact fun version i by_ payload found new => absurd ((at_write_ne (by simp)).mp found) new
  · exact fun key i by_ record found new => absurd ((at_write_ne (by simp)).mp found) new

theorem log {payload : Payload} (reserved : Reserved s n inflight)
    (staged : Staged s inflight.stagedPath payload) (author : Label DeltaCall)
    (absent : s.version (.deltaLog n) = 0) : History admits (s.write (.deltaLog n) author payload) := by
  refine history.write (.deltaLog n) author payload (by simp) (by simp) ?_ ?_
  · intro version i by_ payload' found new
    by_cases here : version = n
    · subst here
      obtain old | ⟨_, _, rfl⟩ := at_write_same.mp found
      · exact absurd old new
      · exact ⟨by omega, n, inflight, rfl, reserved, staged⟩
    · exact absurd ((at_write_ne (by simpa using here)).mp found) new
  · exact fun key i by_ record found new => absurd ((at_write_ne (by simp)).mp found) new

theorem record {key : String} {record : DeltaCommitIdempotencyRecord}
    (written : WrittenFor s key record.version) (author : Label DeltaCall) :
    History admits (s.write (.idempotencyMarker key) author record) := by
  refine history.write (.idempotencyMarker key) author record (by simp) (by simp) ?_ ?_
  · exact fun version i by_ payload found new => absurd ((at_write_ne (by simp)).mp found) new
  · intro key' i by_ record' found new
    by_cases here : key' = key
    · subst here
      obtain old | ⟨_, _, rfl⟩ := at_write_same.mp found
      · exact absurd old new
      · exact written
    · exact absurd ((at_write_ne (by simpa using here)).mp found) new

/-- The state is written in turns, if the rest of the invariant holds of what is reserved then. -/
theorem advance (author : Label DeltaCall) (numbered : state.Numbered (s.version .coordinatorState + 1))
    (admitted : ∀ inflight, state.inflight = some inflight → admits (DeltaCommitCoordinator.inflightRequest inflight) = true)
    (cleared : ∀ n inflight, Reserved s n inflight → s.version .coordinatorState = 2 * n + 1 → Logged s n ∧
      0 < s.version (.idempotencyMarker inflight.commitId))
    (new : ∀ n inflight inflight', Reserved s n inflight → state.inflight = some inflight' →
      inflight.commitId ≠ inflight'.commitId) :
    History admits (s.write .coordinatorState author state) := by
  have grows := s.le_write .coordinatorState author state
  have atOther : ∀ k i by_ value, k ≠ .coordinatorState →
      ((s.write .coordinatorState author state).At k i by_ value ↔ s.At k i by_ value) :=
    fun k i by_ value other => at_write_ne other
  have reservedAfter : ∀ n inflight, Reserved (s.write .coordinatorState author state) n inflight →
      Reserved s n inflight ∨ (2 * n = s.version .coordinatorState ∧ state.inflight = some inflight) := by
    rintro n inflight ⟨by_, state', found, isInflight⟩
    obtain old | ⟨last, _, rfl⟩ := at_write_same.mp found
    · exact .inl ⟨by_, state', old, isInflight⟩
    · exact .inr ⟨by omega, isInflight⟩
  constructor
  case states =>
    intro i by_ state' found
    obtain old | ⟨rfl, _, rfl⟩ := at_write_same.mp found
    · exact history.states i by_ state' old
    · exact numbered
  case staged =>
    intro path
    exact history.staged path
  case reserved =>
    intro n inflight reserved
    obtain old | ⟨_, isInflight⟩ := reservedAfter n inflight reserved
    · exact history.reserved n inflight old
    · exact admitted inflight isInflight
  case logs =>
    intro version i by_ payload found
    obtain ⟨first, n, inflight, isVersion, reserved, isStaged⟩ :=
      history.logs version i by_ payload ((atOther _ _ _ _ (by simp)).mp found)
    exact ⟨first, n, inflight, isVersion, reserved.mono grows, isStaged.mono grows⟩
  case records =>
    intro key i by_ record found
    exact (history.records key i by_ record ((atOther _ _ _ _ (by simp)).mp found)).mono grows
  case cleared =>
    intro n inflight reserved past
    rw [version_write_self] at past
    have known : Logged s n ∧ 0 < s.version (.idempotencyMarker inflight.commitId) := by
      obtain old | ⟨last, _⟩ := reservedAfter n inflight reserved
      · by_cases earlier : 2 * n + 1 < s.version .coordinatorState
        · exact history.cleared n inflight old earlier
        · exact cleared n inflight old (by omega)
      · omega
    exact ⟨known.1.mono grows, Nat.lt_of_lt_of_le known.2 (version_mono grows _)⟩
  case once =>
    intro n n' inflight inflight' left right sameKey
    obtain old | ⟨_, isInflight⟩ := reservedAfter n inflight left
    · obtain old' | ⟨last', isInflight'⟩ := reservedAfter n' inflight' right
      · exact history.once n n' inflight inflight' old old' sameKey
      · exact absurd sameKey (new n inflight inflight' old isInflight')
    · obtain old' | ⟨_, _⟩ := reservedAfter n' inflight' right
      · exact absurd sameKey.symm (new n' inflight' inflight old' isInflight)
      · omega

theorem reserve (author : Label DeltaCall) (turn : s.version .coordinatorState = 2 * n)
    (version : inflight.version = (n : Nat)) (read : inflight.readVersion = some ((n : Int) - 1))
    (admitted : admits (DeltaCommitCoordinator.inflightRequest inflight) = true)
    (fresh : s.version (.idempotencyMarker inflight.commitId) = 0) :
    History admits (s.write .coordinatorState author ⟨(n : Int) - 1, some inflight⟩) := by
  refine history.advance author ?_ ?_ ?_ ?_
  · rw [turn]
    refine ⟨?_, ?_, ?_, ?_⟩
    · show (n : Int) - 1 = ((2 * n + 1) / 2 : Nat) - 1
      omega
    · omega
    · rw [version]
      omega
    · exact read
  · intro inflight' isInflight
    obtain rfl := Option.some.inj isInflight
    exact admitted
  · intro m inflight' _ now
    omega
  · intro m inflight' inflight'' reserved isInflight sameKey
    obtain rfl := Option.some.inj isInflight
    have inside := reserved.le
    have recorded := (history.cleared m inflight' reserved (by omega)).2
    rw [sameKey, fresh] at recorded
    exact Nat.lt_irrefl 0 recorded

theorem clear (author : Label DeltaCall) (reserved : Reserved s n inflight)
    (turn : s.version .coordinatorState = 2 * n + 1) (logged : Logged s n)
    (recorded : 0 < s.version (.idempotencyMarker inflight.commitId)) :
    History admits (s.write .coordinatorState author ⟨(n : Int), none⟩) := by
  refine history.advance author ?_ (by simp) ?_ (by simp)
  · rw [turn]
    refine ⟨?_, ?_⟩
    · show (n : Int) = ((2 * n + 1 + 1) / 2 : Nat) - 1
      omega
    · show (2 * n + 1 + 1) % 2 = 0
      omega
  · intro m inflight' reserved' now
    obtain rfl : m = n := by omega
    obtain rfl := reserved.unique reserved'
    exact ⟨logged, recorded⟩

end

end History

end Arco.Delta
