import Arco.Core.Environment
import Arco.Flow.Compactor

/-! The manifest of the compacted state, and the pointer that makes one of its revisions visible.

A manifest names the base snapshot and the deltas on top of it. The files of one snapshot or delta
are one artifact here: its directory and the checksum of its content. Row counts are 32-bit numbers
in the source, which only matters for tables of four billion rows.
-/

namespace Arco.Flow

def manifestIdWidth : Nat := 20

def initialManifestId : String := "00000000000000000000"

def decimalDigits : (width : Nat) → (value : Nat) → List Char
  | 0, _ => []
  | width + 1, value => decimalDigits width (value / 10) ++ [Nat.digitChar (value % 10)]

def formatManifestId (value : Nat) : String := String.ofList (decimalDigits manifestIdWidth value)

def parseManifestId (manifestId : String) : Except String Nat :=
  if manifestId.toList.length ≠ manifestIdWidth ∨ ¬ manifestId.toList.all Char.isDigit then
    .error s!"invalid manifest_id '{manifestId}': expected {manifestIdWidth} decimal digits"
  else match (Text.parseDecimal manifestId.toList).filter (· ≤ Core.maxU64) with
    | some value => .ok value
    | none =>
      .error s!"invalid manifest_id '{manifestId}': cannot parse as u64 (number too large to fit in target type)"

def nextManifestId (previous : String) : Except String String := do
  let previous ← parseManifestId previous
  if previous < Core.maxU64 then .ok (formatManifestId (previous + 1))
  else .error "manifest_id overflow while generating successor"

section ManifestIds

theorem length_decimalDigits (width value : Nat) : (decimalDigits width value).length = width := by
  induction width generalizing value with
  | zero => rfl
  | succ width ih => simp [decimalDigits, ih]

theorem isDigit_digitChar : ∀ digit < 10, (Nat.digitChar digit).isDigit = true := by decide

theorem all_isDigit_decimalDigits (width value : Nat) : (decimalDigits width value).all Char.isDigit = true := by
  induction width generalizing value with
  | zero => rfl
  | succ width ih => simp [decimalDigits, ih, isDigit_digitChar _ (Nat.mod_lt value (by decide : 0 < 10))]

theorem parseDigits_append (value : Nat) (digits rest : List Char) :
    Text.parseDigits value (digits ++ rest) = (Text.parseDigits value digits).bind (Text.parseDigits · rest) := by
  induction digits generalizing value with
  | nil => rfl
  | cons c digits ih =>
    simp only [List.cons_append, Text.parseDigits]
    split
    · exact ih _
    · rfl

theorem parseDigits_decimalDigits (width value : Nat) :
    Text.parseDigits 0 (decimalDigits width value) = some (value % 10 ^ width) := by
  induction width generalizing value with
  | zero => simp [decimalDigits, Text.parseDigits, Nat.mod_one]
  | succ width ih =>
    have small : value % 10 < 10 := Nat.mod_lt value (by decide)
    have digit : (Nat.digitChar (value % 10)).toNat - '0'.toNat = value % 10 := by
      rw [Nat.toNat_digitChar_of_lt_ten small]
      exact Nat.add_sub_cancel_left 48 _
    rw [decimalDigits, parseDigits_append, ih]
    simp only [Option.bind_some, Text.parseDigits, isDigit_digitChar _ small, if_true, Option.some.injEq]
    rw [Nat.pow_succ', Nat.mod_mul]
    omega

theorem parseManifestId_formatManifestId {value : Nat} (small : value ≤ Core.maxU64) :
    parseManifestId (formatManifestId value) = .ok value := by
  have parsed : Text.parseDecimal (decimalDigits manifestIdWidth value) = some value := by
    have digits := parseDigits_decimalDigits manifestIdWidth value
    rw [Nat.mod_eq_of_lt (Nat.lt_of_le_of_lt small (by decide))] at digits
    have length := length_decimalDigits manifestIdWidth value
    revert digits length
    generalize decimalDigits manifestIdWidth value = chars
    cases chars with
    | nil => exact fun _ length => absurd length (by decide)
    | cons c rest => exact fun digits _ => digits
  have wellFormed : ¬ ((formatManifestId value).toList.length ≠ manifestIdWidth ∨
      ¬ (formatManifestId value).toList.all Char.isDigit = true) := by
    simp [formatManifestId, length_decimalDigits, all_isDigit_decimalDigits]
  rw [parseManifestId, if_neg wellFormed]
  simp [formatManifestId, parsed, Option.filter, small]

theorem nextManifestId_ok {previous manifestId : String} (next : nextManifestId previous = .ok manifestId) :
    ∃ value, parseManifestId previous = .ok value ∧ parseManifestId manifestId = .ok (value + 1) := by
  unfold nextManifestId at next
  cases parsed : parseManifestId previous with
  | error message =>
    rw [parsed] at next
    cases next
  | ok value =>
    rw [parsed] at next
    simp only [bind, Except.bind] at next
    split at next
    · obtain rfl := Except.ok.inj next
      exact ⟨value, rfl, parseManifestId_formatManifestId (by omega)⟩
    · cases next

end ManifestIds

def orchestrationManifestSnapshotPath (manifestId : String) : String :=
  s!"state/orchestration/manifests/{manifestId}.json"

def orchestrationManifestPath : String := "state/orchestration/manifest.json"

def orchestrationCompactionLockPath : String := "locks/orchestration.compaction.lock.json"

def orchestrationL0Dir (deltaId : String) : String := s!"state/orchestration/l0/{deltaId}"

def orchestrationBaseSnapshotDir (snapshotId : String) : String := s!"state/orchestration/base/{snapshotId}"

def isIso8601DateSegment (segment : List Char) : Bool :=
  segment.length = 10 && (segment.zipIdx.all fun (c, index) => if index = 4 ∨ index = 7 then c = '-' else c.isDigit)

def eventIdFromLedgerPath (path : String) : Option String :=
  match Text.splitChars '/' path.toList with
  | [root, domain, date, filename] =>
    if root = "ledger".toList ∧ domain = "orchestration".toList ∧ isIso8601DateSegment date then
      let eventId := filename.take (filename.length - 5)
      if filename.drop (filename.length - 5) = ".json".toList ∧ eventId ≠ [] then some (String.ofList eventId) else none
    else none
  | _ => none

structure OrchestrationManifestPointer where
  manifestId : String := initialManifestId
  manifestPath : String
  epoch : Nat := 0
  parentPointerHash : Option String := none
  updatedAt : Timestamp

structure Watermarks where
  lastCommittedEventId : Option String := none
  lastVisibleEventId : Option String := none
  eventsProcessedThrough : Option String := none
  lastProcessedFile : Option String := none
  lastProcessedAt : Timestamp := 0
  deriving DecidableEq

structure TablePaths where
  directory : String
  checksum : String
  deriving DecidableEq

structure BaseSnapshot where
  snapshotId : Option String := none
  publishedAt : Timestamp := 0
  tables : TablePaths := ⟨"", ""⟩

structure EventRange where
  fromEvent : String
  toEvent : String
  eventCount : Nat

structure RowCounts where
  runs : Nat := 0
  tasks : Nat := 0
  catalogRunIndex : Nat := 0
  depSatisfaction : Nat := 0
  timers : Nat := 0
  dispatchOutbox : Nat := 0
  sensorState : Nat := 0
  sensorEvals : Nat := 0
  runKeyIndex : Nat := 0
  runKeyConflicts : Nat := 0
  partitionStatus : Nat := 0
  idempotencyKeys : Nat := 0
  scheduleDefinitions : Nat := 0
  scheduleState : Nat := 0
  scheduleTicks : Nat := 0
  backfills : Nat := 0
  backfillChunks : Nat := 0

def RowCounts.total (counts : RowCounts) : Nat :=
  counts.runs + counts.tasks + counts.catalogRunIndex + counts.depSatisfaction + counts.timers +
    counts.dispatchOutbox + counts.sensorState + counts.sensorEvals + counts.runKeyIndex + counts.runKeyConflicts +
    counts.partitionStatus + counts.idempotencyKeys + counts.scheduleDefinitions + counts.scheduleState +
    counts.scheduleTicks + counts.backfills + counts.backfillChunks

def FoldState.rowCounts (s : FoldState) : RowCounts where
  runs := s.runs.rows.length
  tasks := s.tasks.rows.length
  catalogRunIndex := s.catalogRunIndex.rows.length
  depSatisfaction := s.depSatisfaction.rows.length
  timers := s.timers.rows.length
  dispatchOutbox := s.dispatchOutbox.rows.length
  sensorState := s.sensorState.rows.length
  sensorEvals := s.sensorEvals.rows.length
  runKeyIndex := s.runKeyIndex.rows.length
  runKeyConflicts := s.runKeyConflicts.rows.length
  partitionStatus := s.partitionStatus.rows.length
  idempotencyKeys := s.idempotencyKeys.rows.length
  scheduleDefinitions := s.scheduleDefinitions.rows.length
  scheduleState := s.scheduleState.rows.length
  scheduleTicks := s.scheduleTicks.rows.length
  backfills := s.backfills.rows.length
  backfillChunks := s.backfillChunks.rows.length

structure L0Delta where
  deltaId : String
  createdAt : Timestamp
  eventRange : EventRange
  tables : TablePaths
  rowCounts : RowCounts

structure L0Limits where
  maxCount : Nat := 10
  maxRows : Nat := 100000
  maxAgeSeconds : Nat := 300

structure OrchestrationManifest where
  manifestId : String := initialManifestId
  epoch : Nat := 0
  previousManifestPath : Option String := none
  revisionUlid : String
  publishedAt : Timestamp
  watermarks : Watermarks := {}
  baseSnapshot : BaseSnapshot := {}
  l0Deltas : List L0Delta := []
  l0Count : Nat := 0
  l0Limits : L0Limits := {}

namespace OrchestrationManifest

def shouldCompactL0 (now : Timestamp) (manifest : OrchestrationManifest) : Bool :=
  manifest.l0Limits.maxCount ≤ manifest.l0Count ||
    manifest.l0Limits.maxRows ≤ (manifest.l0Deltas.map fun delta => delta.rowCounts.total).sum ||
    manifest.l0Deltas.any fun delta => Core.seconds manifest.l0Limits.maxAgeSeconds ≤ now - delta.createdAt

def validateSuccession (manifest previous : OrchestrationManifest) : Except String Unit := do
  let previousManifestId ← parseManifestId previous.manifestId
  let nextManifestId ← parseManifestId manifest.manifestId
  if nextManifestId ≤ previousManifestId then
    throw s!"manifest_id did not advance: {previous.manifestId} -> {manifest.manifestId}"
  if manifest.epoch < previous.epoch then
    throw s!"epoch regression: {previous.epoch} -> {manifest.epoch} (stale holder)"

end OrchestrationManifest

def OrchestrationManifestPointer.validateSuccession (pointer previous : OrchestrationManifestPointer)
    (previousRawHash : String) : Except String Unit := do
  let previousManifestId ← parseManifestId previous.manifestId
  let nextManifestId ← parseManifestId pointer.manifestId
  if nextManifestId ≤ previousManifestId then
    throw s!"pointer manifest_id did not advance: {previous.manifestId} -> {pointer.manifestId}"
  if pointer.epoch < previous.epoch then
    throw s!"pointer epoch regression: {previous.epoch} -> {pointer.epoch} (stale holder)"
  match pointer.parentPointerHash with
  | some parentPointerHash =>
    if parentPointerHash = previousRawHash then pure ()
    else throw s!"parent pointer hash mismatch: expected {previousRawHash}, got {parentPointerHash}"
  | none => throw "missing parent_pointer_hash for pointer succession"

inductive DurabilityMode where
  | visible
  | persisted

/-- Events with the paths that they were read from. -/
abbrev LedgerEvents : Type := List (String × OrchestrationEvent)

def updateWatermarks (manifest : OrchestrationManifest) (events : LedgerEvents)
    (lastEventId : String) (durabilityMode : DurabilityMode) (now : Timestamp) : Bool × OrchestrationManifest :=
  if events.isEmpty then (false, manifest)
  else if !(manifest.watermarks.lastCommittedEventId.all fun current => current < lastEventId) then (false, manifest)
  else
    let nextVisible := match durabilityMode with
      | .visible => some lastEventId
      | .persisted => manifest.watermarks.lastVisibleEventId
    (true, { manifest with watermarks := {
      lastCommittedEventId := some lastEventId
      lastVisibleEventId := nextVisible
      eventsProcessedThrough := nextVisible
      lastProcessedFile := events.getLast?.map Prod.fst
      lastProcessedAt := now } })

def replayFloorEventId (watermarks : Watermarks) : Option String :=
  watermarks.lastVisibleEventId <|> watermarks.eventsProcessedThrough <|> watermarks.lastCommittedEventId

def selectEventPath (floor : Option String) (dedup : List (String × String)) (path : String) :
    Except String (List (String × String)) :=
  match eventIdFromLedgerPath path with
  | none => .error s!"invalid orchestration ledger path for rebuild: '{path}'"
  | some eventId =>
    if floor.any fun floor => eventId ≤ floor then .ok dedup
    else if dedup.any fun entry => entry.1 = eventId then .ok dedup
    else .ok (dedup ++ [(eventId, path)])

def selectRebuildEventPaths (eventPaths : List String) (watermarks : Watermarks) : Except String (List String) := do
  let dedup ← eventPaths.foldlM (selectEventPath (replayFloorEventId watermarks)) []
  return (dedup.insertionSort fun a b => a.1 ≤ b.1).map Prod.snd

end Arco.Flow
