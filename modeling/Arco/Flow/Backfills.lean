import Arco.Flow.Controllers
import Arco.Flow.Growth

/-! Backfills: the chunks of a selection, the chunks that the controller plans, and the counter of planned chunks.

The fold counts the chunks from the first one on, up to the first that is missing. It never takes a chunk out
of its planned state, so the controller sees every chunk that was ever planned as an active one.
-/

namespace Arco.Flow

open Keyed Text List Table Automation

/-! ## The controller -/

/-- The partitions of an asset between two bounds, counted and listed in pieces. -/
structure PartitionResolver where
  countRange : (assetKey start stop : String) → UInt32
  listRangeChunk : (assetKey start stop : String) → (offset limit : Nat) → List String

structure BackfillController where
  partitionResolver : PartitionResolver
  maxCompactionLag : Int := seconds 30

def validateAssetKey (assetKey : String) : Except String Unit :=
  if trim assetKey = "" then .error "asset_key cannot be empty" else .ok ()

def ensureSingleAsset : List String → Except String String
  | [] => .error "asset_selection cannot be empty"
  | [assetKey] => do
    validateAssetKey assetKey
    return assetKey
  | _ => .error "multi-asset backfills are not supported yet"

def filterStartEnd (filters : Map String String) : Option (String × String) := do
  if filters.keys.any (· ∉ ["start", "end", "partition_start", "partition_end"]) then none
  let start ← (filters.get "start").or (filters.get "partition_start")
  let stop ← (filters.get "end").or (filters.get "partition_end")
  return (start, stop)

def chunkFingerprint (ext : Externals) (partitionKeys : List String) : String :=
  String.ofList ((ext.sha256Hex (String.join (partitionKeys.map (· ++ "|")))).toList.take 32)

namespace BackfillController

/-- Counts are unsigned numbers of 32 bits, the length of a list is cut to one. -/
def totalChunks (c : BackfillController) (b : BackfillRow) : Nat :=
  if b.chunkSize = 0 then 0
  else match ensureSingleAsset b.assetSelection with
    | .error _ => 0
    | .ok assetKey =>
      let totalPartitions := match b.partitionSelector with
        | .explicit partitionKeys => partitionKeys.length % 2 ^ 32
        | .range start stop => (c.partitionResolver.countRange assetKey start stop).toNat
        | .filter filters =>
          match filterStartEnd filters with
          | some (start, stop) => (c.partitionResolver.countRange assetKey start stop).toNat
          | none => b.totalPartitions
      (totalPartitions + b.chunkSize - 1) / b.chunkSize

def getChunkPartitions (c : BackfillController) (b : BackfillRow) (chunkIndex : Nat) : Except String (List String) :=
  let offset := min (chunkIndex * b.chunkSize) (2 ^ 32 - 1)
  if b.chunkSize = 0 then .ok []
  else do
    let assetKey ← ensureSingleAsset b.assetSelection
    match b.partitionSelector with
    | .range start stop => return c.partitionResolver.listRangeChunk assetKey start stop offset b.chunkSize
    | .explicit partitionKeys => return (partitionKeys.drop offset).take b.chunkSize
    | .filter filters =>
      match filterStartEnd filters with
      | some (start, stop) => return c.partitionResolver.listRangeChunk assetKey start stop offset b.chunkSize
      | none => .error "filter selector requires start/end bounds"

def isActiveChunk (runs : Table RunRow.runId) (backfillId : String) (chunk : BackfillChunkRow) : Bool :=
  chunk.backfillId = backfillId ∧ (chunk.state = .planned ∨ chunk.state = .running ∨
    chunk.runId.any fun id => (runs.find id).any fun run => !run.state.isTerminal)

def countActiveChunks (backfillId : String) (chunks : Table BackfillChunkRow.chunkId) (runs : Table RunRow.runId) : Nat :=
  chunks.rows.countP (isActiveChunk runs backfillId) % 2 ^ 32

def planChunk (ext : Externals) (b : BackfillRow) (chunkIndex : Nat) (partitionKeys : List String) :
    List OrchestrationEventData :=
  if partitionKeys.isEmpty then []
  else
    let backfillId := b.backfillId
    let chunkId := chunkIdOf backfillId chunkIndex
    let runKey := s!"backfill:{backfillId}:chunk:{chunkIndex}"
    [.backfillChunkPlanned { backfillId, chunkId, chunkIndex, partitionKeys, runKey },
      .runRequested {
        runKey
        requestFingerprint := chunkFingerprint ext partitionKeys
        triggerSourceRef := .backfill backfillId chunkId
        codeVersion := b.codeVersion }]

/-- The planning loop of one backfill. Every round raises the index, which stays below `total`. -/
def planLoop (ext : Externals) (c : BackfillController) (chunks : Table BackfillChunkRow.chunkId) (b : BackfillRow)
    (total : Nat) : (rounds chunksToPlan nextChunkIndex : Nat) → List OrchestrationEventData
  | 0, _, _ => []
  | rounds + 1, chunksToPlan, nextChunkIndex =>
    if chunksToPlan = 0 ∨ total ≤ nextChunkIndex then []
    else if chunks.contains (chunkIdOf b.backfillId nextChunkIndex) then
      planLoop ext c chunks b total rounds chunksToPlan (nextChunkIndex + 1)
    else match c.getChunkPartitions b nextChunkIndex with
      | .error _ | .ok [] => []
      | .ok partitionKeys =>
        planChunk ext b nextChunkIndex partitionKeys ++
          planLoop ext c chunks b total rounds (chunksToPlan - 1) (nextChunkIndex + 1)

def reconcileBackfill (ext : Externals) (c : BackfillController) (s : FoldState) (b : BackfillRow) :
    List OrchestrationEventData :=
  if b.state ≠ .running ∨ b.chunkSize = 0 ∨ b.maxConcurrentRuns = 0 then []
  else
    planLoop ext c s.backfillChunks b (c.totalChunks b) (c.totalChunks b)
      (b.maxConcurrentRuns - countActiveChunks b.backfillId s.backfillChunks s.runs) b.plannedChunks

def reconcile (ext : Externals) (c : BackfillController) (lastProcessedAt now : Timestamp) (s : FoldState) :
    List OrchestrationEventData :=
  if now - lastProcessedAt ≤ c.maxCompactionLag then s.backfills.rows.flatMap (c.reconcileBackfill ext s) else []

/-! ## Chunks of a selection -/

/-- The selector stands for the given partitions of the asset: it lists fewer than 2^32 of them, or the
resolver lists them on every call. -/
inductive Selects (c : BackfillController) (assetKey : String) (keys : List String) : PartitionSelector → Prop where
  | explicit (bounded : keys.length < 2 ^ 32) : Selects c assetKey keys (.explicit keys)
  | range (start stop : String)
      (count : (c.partitionResolver.countRange assetKey start stop).toNat = keys.length)
      (chunk : ∀ offset limit, c.partitionResolver.listRangeChunk assetKey start stop offset limit =
        (keys.drop offset).take limit) : Selects c assetKey keys (.range start stop)

variable {c : BackfillController} {b : BackfillRow} {assetKey : String} {keys : List String}

section

variable (single : ensureSingleAsset b.assetSelection = .ok assetKey) (positive : 1 ≤ b.chunkSize)
  (selects : c.Selects assetKey keys b.partitionSelector)
include single positive selects

theorem totalChunks_of_selects :
    c.totalChunks b = (keys.length + b.chunkSize - 1) / b.chunkSize ∧ keys.length < 2 ^ 32 := by
  have nonzero : b.chunkSize ≠ 0 := by omega
  generalize isSelector : b.partitionSelector = selector at selects
  cases selects with
  | explicit bounded =>
    refine ⟨?_, bounded⟩
    simp only [totalChunks, nonzero, if_false, single, isSelector]
    rw [Nat.mod_eq_of_lt bounded]
  | range start stop count chunk =>
    have bounded := (c.partitionResolver.countRange assetKey start stop).toNat_lt
    rw [count] at bounded
    simp [totalChunks, nonzero, single, isSelector, count, bounded]

theorem getChunkPartitions_of_selects {i : Nat} (fits : i * b.chunkSize < 2 ^ 32) :
    c.getChunkPartitions b i = .ok ((keys.drop (i * b.chunkSize)).take b.chunkSize) := by
  have nonzero : b.chunkSize ≠ 0 := by omega
  have offset : min (i * b.chunkSize) (2 ^ 32 - 1) = i * b.chunkSize := by omega
  generalize isSelector : b.partitionSelector = selector at selects
  unfold getChunkPartitions
  simp only [offset, nonzero, single, isSelector]
  cases selects with
  | explicit bounded => rfl
  | range start stop count chunk => exact congrArg Except.ok (chunk _ _)

end

theorem flatMap_chunks (size n : Nat) :
    (range n).flatMap (fun i => (keys.drop (i * size)).take size) = keys.take (n * size) := by
  induction n with
  | zero => simp
  | succ n ih => rw [range_succ, flatMap_append, ih, Nat.succ_mul, take_add]; simp

/-- The chunks of a backfill are a partition of its selection in order, and none of them is empty. -/
theorem chunks_partition (single : ensureSingleAsset b.assetSelection = .ok assetKey) (positive : 1 ≤ b.chunkSize)
    (selects : c.Selects assetKey keys b.partitionSelector) :
    ∃ chunk : Nat → List String,
      (∀ i < c.totalChunks b, c.getChunkPartitions b i = .ok (chunk i) ∧ chunk i ≠ []) ∧
      (range (c.totalChunks b)).flatMap chunk = keys := by
  obtain ⟨total, bounded⟩ := totalChunks_of_selects single positive selects
  refine ⟨fun i => (keys.drop (i * b.chunkSize)).take b.chunkSize, fun i below => ?_, ?_⟩
  · -- the offset of a chunk below the total lies inside the selection
    have inside : i * b.chunkSize < keys.length := by
      rw [total, Nat.lt_div_iff_mul_lt positive] at below
      omega
    refine ⟨getChunkPartitions_of_selects single positive selects (inside.trans bounded), ?_⟩
    simp only [ne_eq, take_eq_nil_iff, drop_eq_nil_iff]
    omega
  · rw [flatMap_chunks, total, take_of_length_le]
    have := Nat.lt_mul_div_succ (keys.length + b.chunkSize - 1) (by omega : 0 < b.chunkSize)
    rw [Nat.mul_succ, Nat.mul_comm] at this
    omega

/-- A backfill of two partitions, one by one. -/
def sampleBackfill (assetSelection : List String) : BackfillRow where
  tenantId := "tenant"
  workspaceId := "workspace"
  backfillId := "b"
  assetSelection := assetSelection
  codeVersion := none
  partitionSelector := .explicit ["p0", "p1"]
  chunkSize := 1
  maxConcurrentRuns := 1
  state := .running
  stateVersion := 1
  totalPartitions := 2
  plannedChunks := 0
  completedChunks := 0
  failedChunks := 0
  parentBackfillId := none
  createdAt := 0
  rowVersion := "01"

def sampleController : BackfillController where
  partitionResolver := ⟨fun _ _ _ => 0, fun _ _ _ _ _ => []⟩

theorem chunks_partition_sample :
    ensureSingleAsset (sampleBackfill ["raw.orders"]).assetSelection = .ok "raw.orders" ∧
    ∃ chunk : Nat → List String, (∀ i < sampleController.totalChunks (sampleBackfill ["raw.orders"]),
        sampleController.getChunkPartitions (sampleBackfill ["raw.orders"]) i = .ok (chunk i) ∧ chunk i ≠ []) ∧
      (range (sampleController.totalChunks (sampleBackfill ["raw.orders"]))).flatMap chunk = ["p0", "p1"] :=
  ⟨by decide, @chunks_partition sampleController (sampleBackfill ["raw.orders"]) "raw.orders" ["p0", "p1"]
    (by decide) (by decide) (.explicit (by decide))⟩

/-- A backfill of two assets has no chunks at all. -/
theorem multiAsset_not_partitioned :
    ¬ ∀ (c : BackfillController) (b : BackfillRow) (keys : List String), 1 ≤ b.chunkSize →
      b.partitionSelector = .explicit keys → ∃ chunk : Nat → List String,
        (∀ i < c.totalChunks b, c.getChunkPartitions b i = .ok (chunk i) ∧ chunk i ≠ []) ∧
        (range (c.totalChunks b)).flatMap chunk = keys := by
  intro all
  obtain ⟨_, _, whole⟩ := all sampleController (sampleBackfill ["raw.orders", "raw.items"]) _ (by decide) rfl
  cases whole

end BackfillController

/-! ## The counter of planned chunks -/

namespace Automation

variable {a : Automation} {ev : Envelope} {backfillId : String}

theorem chunkIdOf_injective (backfillId : String) : Function.Injective (chunkIdOf backfillId) := by
  intro i j same
  exact toString_injective (by simpa [chunkIdOf] using same)

/-- The chunks below `n` are there, chunk `n` is not. -/
structure Contiguous (chunks : Table BackfillChunkRow.chunkId) (backfillId : String) (n : Nat) : Prop where
  below : ∀ i < n, chunks.contains (chunkIdOf backfillId i) = true
  missing : chunks.contains (chunkIdOf backfillId n) = false

theorem contains_contiguousFrom (chunks : Table BackfillChunkRow.chunkId) (backfillId : String) (fuel index : Nat) :
    (∀ j, index ≤ j → j < contiguousFrom chunks backfillId fuel index → chunks.contains (chunkIdOf backfillId j) = true) ∧
      (chunks.contains (chunkIdOf backfillId (contiguousFrom chunks backfillId fuel index)) = true →
        contiguousFrom chunks backfillId fuel index = index + fuel) := by
  induction fuel generalizing index with
  | zero => exact ⟨fun j least below => absurd below (not_lt.mpr least), fun _ => rfl⟩
  | succ fuel ih =>
    unfold contiguousFrom
    split
    · rename_i held
      obtain ⟨between, full⟩ := ih (index + 1)
      refine ⟨fun j least below => ?_, fun last => by rw [full last]; omega⟩
      rcases Nat.eq_or_lt_of_le least with rfl | later
      · exact held
      · exact between j later below
    · rename_i absent
      exact ⟨fun j least below => absurd below (not_lt.mpr least), fun held => absurd held absent⟩

/-- There are more rounds than chunk rows, so the search ends at a missing chunk. -/
theorem contiguous_nextChunkIndex {index : Nat}
    (below : ∀ i < index, a.backfillChunks.contains (chunkIdOf backfillId i) = true) :
    Contiguous a.backfillChunks backfillId (a.nextChunkIndex backfillId index) := by
  obtain ⟨between, full⟩ :=
    contains_contiguousFrom a.backfillChunks backfillId (a.backfillChunks.rows.length + 1) index
  refine ⟨fun i lt => ?_, Bool.eq_false_iff.mpr fun last => ?_⟩
  · by_cases before : i < index
    · exact below i before
    · exact between i (by omega) lt
  · rw [full last] at between
    have found : (range' index (a.backfillChunks.rows.length + 1)).map (chunkIdOf backfillId) ⊆
        a.backfillChunks.keys := by
      intro id member
      obtain ⟨j, inRange, rfl⟩ := mem_map.mp member
      obtain ⟨least, most⟩ := mem_range'_1.mp inRange
      exact contains_iff.mp (between j least most)
    have nodup := (nodup_range' (s := index) (n := a.backfillChunks.rows.length + 1)).map
      (chunkIdOf_injective backfillId)
    have := (nodup.subperm found).length_le
    simp [Table.keys] at this

/-- The counter of a backfill. -/
def planned (a : Automation) (backfillId : String) : Option Nat :=
  (a.backfills.find backfillId).map BackfillRow.plannedChunks

theorem planned_advancePlannedChunks (backfillId id : String) :
    (a.advancePlannedChunks ev backfillId).planned id =
      if backfillId = id then (a.planned id).map (a.nextChunkIndex id) else a.planned id := by
  unfold advancePlannedChunks planned
  by_cases here : backfillId = id
  · subst here
    rw [if_pos rfl]
    cases found : a.backfills.find backfillId with
    | none => simp [found]
    | some row =>
      have key : row.backfillId = backfillId := key_of_find found
      dsimp only
      split
      · rw [find_upsert]
        exact congrArg (Option.map _) (if_pos key)
      · rename_i still
        rw [found, Option.map_some, Option.map_some, not_not.mp still]
  · rw [if_neg here]
    split
    · rename_i row found
      dsimp only
      split
      · have key : row.backfillId = backfillId := key_of_find found
        exact congrArg _ (find_upsert_of_ne (key.trans_ne here))
      · rfl
    · rfl

theorem backfillChunks_advancePlannedChunks :
    (a.advancePlannedChunks ev backfillId).backfillChunks = a.backfillChunks := by
  unfold advancePlannedChunks
  split
  · dsimp only
    split <;> rfl
  · rfl

theorem planned_foldBackfillCreated (a : Automation) (ev : Envelope) (p : BackfillCreated) (id : String) :
    (a.foldBackfillCreated ev p).1.planned id = a.planned id ∨ p.backfillId = id ∧
      (a.foldBackfillCreated ev p).1.planned id = some (if 0 < p.chunkSize then a.nextChunkIndex id 0 else 0) := by
  unfold foldBackfillCreated planned
  split
  · exact .inl rfl
  · rw [find_upsert]
    by_cases here : p.backfillId = id
    · exact .inr ⟨here, (congrArg (Option.map _) (if_pos here)).trans (here ▸ rfl)⟩
    · exact .inl (congrArg (Option.map _) (if_neg here))

theorem foldBackfillChunkPlanned_cases (a : Automation) (ev : Envelope) (p : BackfillChunkPlanned) :
    (a.foldBackfillChunkPlanned ev p).1 = a ∧ a.backfillChunks.contains p.chunkId = true ∨
      ∃ chunk : BackfillChunkRow, chunk.chunkId = p.chunkId ∧ chunk.state = .planned ∧
        (a.foldBackfillChunkPlanned ev p).1 =
          ({ a with backfillChunks := a.backfillChunks.upsert chunk } : Automation).advancePlannedChunks ev p.backfillId := by
  dsimp only [foldBackfillChunkPlanned]
  split
  · exact .inr ⟨_, rfl, rfl, rfl⟩
  · rename_i older
    refine .inl ⟨rfl, ?_⟩
    cases found : a.backfillChunks.find p.chunkId with
    | none => simp [found, isNewer] at older
    | some row => rw [Table.contains, found]; rfl

theorem contiguous_advancePlannedChunks {n : Nat}
    (below : ∀ n, a.planned backfillId = some n → ∀ i < n, a.backfillChunks.contains (chunkIdOf backfillId i) = true)
    (counter : (a.advancePlannedChunks ev backfillId).planned backfillId = some n) :
    Contiguous a.backfillChunks backfillId n := by
  rw [planned_advancePlannedChunks, if_pos rfl, Option.map_eq_some_iff] at counter
  obtain ⟨old, before, rfl⟩ := counter
  exact contiguous_nextChunkIndex (below old before)

end Automation

/-! ## Every order of the plans -/

/-- The event plans this chunk. -/
def OrchestrationEvent.PlansChunk (e : OrchestrationEvent) (index : Nat) : Prop :=
  ∃ p, e.data = .backfillChunkPlanned p ∧ p.chunkIndex = index

/-- The event creates the backfill, under any key that no plan has, or plans one of its chunks. -/
inductive OrchestrationEvent.OfBackfill (ext : Externals) (backfillId : String) (e : OrchestrationEvent) : Prop where
  | created (p : BackfillCreated) (isEvent : e.data = .backfillCreated p) (isBackfill : p.backfillId = backfillId)
      (positive : 1 ≤ p.chunkSize) (foreign : ∀ i : Nat, e.idempotencyKey ≠ s!"backfill_chunk:{backfillId}:{i}")
  | planned (p : BackfillChunkPlanned) (isEvent : e.data = .backfillChunkPlanned p) (isBackfill : p.backfillId = backfillId)
      (isChunk : p.chunkId = chunkIdOf backfillId p.chunkIndex)
      (keyed : e.idempotencyKey = e.data.idempotencyKey ext)

namespace FoldState

open Automation OrchestrationEvent

variable {ext : Externals} {s : FoldState} {e : OrchestrationEvent} {backfillId : String} {indices : Nat → Prop}

/-- The state after the plans of these chunks. -/
structure Counted (backfillId : String) (indices : Nat → Prop) (s : FoldState) : Prop where
  chunks : ∀ i, s.backfillChunks.contains (chunkIdOf backfillId i) = true ↔ indices i
  keys : ∀ i, s.idempotencyKeys.contains s!"backfill_chunk:{backfillId}:{i}" = true → indices i
  counter : ∀ n, s.planned backfillId = some n → Contiguous s.backfillChunks backfillId n

theorem chunkKey_injective {i j : Nat} (same : s!"backfill_chunk:{backfillId}:{i}" = s!"backfill_chunk:{backfillId}:{j}") :
    i = j :=
  toString_injective (by simpa using same)

theorem Counted.foldEvent (counted : Counted backfillId indices s) (mine : e.OfBackfill ext backfillId) :
    Counted backfillId (fun i => indices i ∨ e.PlansChunk i) (s.foldEvent ext e) := by
  obtain ⟨p, isEvent, rfl, positive, foreign⟩ | ⟨p, isEvent, rfl, isChunk, keyed⟩ := mine
  · have none : ∀ i, ¬ e.PlansChunk i := by
      rintro i ⟨q, isPlan, -⟩
      cases isEvent.symm.trans isPlan
    simp only [none, or_false]
    refine foldEvent_cases ext s e counted fun new => ?_
    obtain ⟨folded, keys⟩ := @foldEvent_onAutomation e ext s (s.foldBackfillCreated e.toEnvelope p) new
      (by rw [isEvent]; rfl)
    have sameChunks : (s.foldEvent ext e).backfillChunks = s.backfillChunks := by
      rw [folded, foldBackfillCreated]
      split <;> rfl
    refine ⟨by rw [sameChunks]; exact counted.chunks, fun i recorded => counted.keys i ?_, fun n counter => ?_⟩
    · rwa [keys, decide_eq_false (foreign i), Bool.and_false, Bool.or_false] at recorded
    · rw [sameChunks]
      rw [folded] at counter
      rcases planned_foldBackfillCreated s.toAutomation e.toEnvelope p p.backfillId with same | ⟨-, made⟩
      · exact counted.counter n (same.symm.trans counter)
      · rw [made, if_pos (Nat.lt_of_succ_le positive), Option.some.injEq] at counter
        exact counter ▸ contiguous_nextChunkIndex fun i below => absurd below i.not_lt_zero
  · have plans : ∀ i, e.PlansChunk i ↔ p.chunkIndex = i := by
      intro i
      simp [PlansChunk, isEvent]
    simp only [plans]
    cases new : s.idempotencyKeys.contains e.idempotencyKey with
    | true =>
      rw [foldEvent_of_known ext new]
      rw [keyed, isEvent] at new
      have old : ∀ i, indices i ∨ p.chunkIndex = i ↔ indices i := fun i =>
        or_iff_left_of_imp fun same => same ▸ counted.keys p.chunkIndex new
      simpa only [old] using counted
    | false =>
      obtain ⟨folded, keys⟩ := @foldEvent_onAutomation e ext s (s.foldBackfillChunkPlanned e.toEnvelope p) new
        (by rw [isEvent]; rfl)
      have recorded : ∀ i, (s.foldEvent ext e).idempotencyKeys.contains s!"backfill_chunk:{p.backfillId}:{i}" = true →
          indices i ∨ p.chunkIndex = i := by
        intro i recorded
        rw [keys, keyed, isEvent, Bool.or_eq_true, Bool.and_eq_true, decide_eq_true_iff] at recorded
        exact recorded.imp (counted.keys i) fun new => chunkKey_injective new.2
      rcases foldBackfillChunkPlanned_cases s.toAutomation e.toEnvelope p with ⟨same, present⟩ | ⟨_, key, -, added⟩
      · rw [same] at folded
        rw [isChunk, counted.chunks] at present
        have old : ∀ i, indices i ∨ p.chunkIndex = i ↔ indices i := fun i =>
          or_iff_left_of_imp fun same => same ▸ present
        refine ⟨fun i => ?_, recorded, fun n => ?_⟩
        · rw [old, folded, counted.chunks]
        · rw [folded]
          exact counted.counter n
      · rw [added] at folded
        refine ⟨fun i => ?_, recorded, fun n counter => ?_⟩
        · rw [folded, backfillChunks_advancePlannedChunks, contains_upsert, key, isChunk, Bool.or_eq_true,
            decide_eq_true_iff, counted.chunks, (chunkIdOf_injective p.backfillId).eq_iff, or_comm]
        · rw [folded] at counter ⊢
          rw [backfillChunks_advancePlannedChunks]
          refine contiguous_advancePlannedChunks (fun n before i lt => ?_) counter
          rw [contains_upsert, (counted.counter n before).below i lt, Bool.or_true]

theorem Counted.foldEvents (counted : Counted backfillId indices s) {events : List OrchestrationEvent}
    (mine : ∀ e ∈ events, e.OfBackfill ext backfillId) :
    Counted backfillId (fun i => indices i ∨ ∃ e ∈ events, e.PlansChunk i) (foldEvents ext s events) := by
  induction events generalizing s indices with
  | nil => simpa [foldEvents] using counted
  | cons e rest ih =>
    obtain ⟨first, later⟩ := forall_mem_cons.mp mine
    simpa [foldEvents, or_assoc] using ih (counted.foldEvent first) later

/-- In whatever order a backfill is created and its chunks are planned, its row counts the chunks from the first
one on, up to the first that was not planned. -/
theorem plannedChunks_contiguous (secret : List UInt8) {events : List OrchestrationEvent}
    (mine : ∀ e ∈ events, e.OfBackfill ext backfillId) {row : BackfillRow}
    (found : (foldEvents ext { tenantSecret := secret } events).backfills.find backfillId = some row) :
    (∀ i < row.plannedChunks, ∃ e ∈ events, e.PlansChunk i) ∧ ¬ ∃ e ∈ events, e.PlansChunk row.plannedChunks := by
  have start : Counted backfillId (fun _ => False) { tenantSecret := secret } :=
    ⟨fun i => by simp [Table.contains], fun i => by simp [Table.contains], nofun⟩
  have counted := start.foldEvents mine
  simp only [false_or] at counted
  obtain ⟨below, missing⟩ := counted.counter row.plannedChunks (congrArg (Option.map _) found)
  refine ⟨fun i lt => (counted.chunks i).mp (below i lt), fun plans => ?_⟩
  rw [(counted.chunks _).mpr plans] at missing
  cases missing

def backfillCreated : OrchestrationEvent :=
  .sample "02" (.backfillCreated {
    backfillId := "b", clientRequestId := "r", assetSelection := ["raw.orders"], codeVersion := none
    partitionSelector := .explicit ["p0", "p1"], totalPartitions := 2, chunkSize := 1, maxConcurrentRuns := 1
    parentBackfillId := none })

def chunkPlanned (eventId : String) (chunkIndex : Nat) : OrchestrationEvent :=
  .sample eventId (.backfillChunkPlanned {
    backfillId := "b", chunkId := chunkIdOf "b" chunkIndex, chunkIndex, partitionKeys := [s!"p{chunkIndex}"]
    runKey := s!"backfill:b:chunk:{chunkIndex}" })

/-- The second chunk is planned before the backfill is created, as a retry of another one. -/
def secondFirst : List OrchestrationEvent :=
  [chunkPlanned "01" 1, { backfillCreated with idempotencyKey := "backfill_retry:a:r" }, chunkPlanned "03" 0]

theorem plannedChunks_contiguous_secondFirst :
    ∃ row, (foldEvents .constant {} secondFirst).backfills.find "b" = some row ∧ row.plannedChunks = 2 ∧
      (∀ i < row.plannedChunks, ∃ e ∈ secondFirst, e.PlansChunk i) ∧
      ¬ ∃ e ∈ secondFirst, e.PlansChunk row.plannedChunks := by
  have counted : ((foldEvents .constant {} secondFirst).backfills.find "b").any (·.plannedChunks = 2) = true := by decide
  obtain ⟨row, found, two⟩ := (Option.any_eq_true _ _).mp counted
  have planned : ∀ id i, (chunkPlanned id i).OfBackfill .constant "b" := fun id i => .planned _ rfl rfl rfl rfl
  refine ⟨row, found, of_decide_eq_true two, plannedChunks_contiguous [] (fun e member => ?_) found⟩
  simp only [secondFirst, mem_cons, not_mem_nil, or_false] at member
  rcases member with rfl | rfl | rfl
  · exact planned _ _
  · refine .created _ rfl rfl (by decide) fun i same => ?_
    simpa [toString] using congrArg String.toList same
  · exact planned _ _

end FoldState

/-! ## Progress -/

namespace Automation

variable {a : Automation} {ev : Envelope}

/-- The counters stay below the missing chunks, and no chunk leaves the planned state. -/
structure Tallied (a : Automation) : Prop where
  below : ∀ id n, a.planned id = some n → ∀ i < n, a.backfillChunks.contains (chunkIdOf id i) = true
  planned : ∀ chunk ∈ a.backfillChunks.rows, chunk.state = .planned

theorem planned_foldBackfillStateChanged (p : BackfillStateChanged) (id : String) :
    (a.foldBackfillStateChanged ev p).1.planned id = a.planned id := by
  unfold foldBackfillStateChanged planned
  split
  · rfl
  · rename_i row found
    have key : row.backfillId = p.backfillId := key_of_find found
    repeat' split
    all_goals try rfl
    rw [find_upsert]
    by_cases here : p.backfillId = id
    · rw [← here, found]
      exact (congrArg (Option.map _) (if_pos key)).trans rfl
    · exact congrArg (Option.map _) (if_neg (key.trans_ne here))

namespace Tallied

section

variable (tallied : a.Tallied)
include tallied

theorem of_apart {a' : Automation} (apart : Apart a a') : a'.Tallied := by
  obtain ⟨backfills, chunks, -⟩ := apart
  refine ⟨?_, chunks ▸ tallied.planned⟩
  rw [chunks]
  unfold Automation.planned
  rw [backfills]
  exact tallied.below

theorem upsertChunk {chunk : BackfillChunkRow} (planned : chunk.state = .planned) :
    Tallied { a with backfillChunks := a.backfillChunks.upsert chunk } where
  below id n counter i lt := by rw [contains_upsert, tallied.below id n counter i lt, Bool.or_true]
  planned other member := by
    rcases mem_rows_upsert.mp member with rfl | ⟨old, -⟩
    · exact planned
    · exact tallied.planned other old

theorem advance (ev : Envelope) (backfillId : String) : (a.advancePlannedChunks ev backfillId).Tallied := by
  refine ⟨fun id n counter i lt => ?_, ?_⟩
  · rw [backfillChunks_advancePlannedChunks]
    by_cases here : backfillId = id
    · subst here
      exact (contiguous_advancePlannedChunks (tallied.below backfillId) counter).below i lt
    · rw [planned_advancePlannedChunks, if_neg here] at counter
      exact tallied.below id n counter i lt
  · rw [backfillChunks_advancePlannedChunks]
    exact tallied.planned

theorem foldRunRequested (ext : Externals) (secret : List UInt8) (p : RunRequested) :
    (a.foldRunRequested ext secret ev p).1.Tallied := by
  dsimp only [Automation.foldRunRequested, correlateRunToSource]
  repeat' split
  all_goals try exact { tallied with }
  rename_i chunk found
  have planned : ({ chunk with runId := some (ext.runIdFromRunKey ev.tenantId ev.workspaceId p.runKey secret) } :
    BackfillChunkRow).state = .planned := tallied.planned chunk (mem_of_find found)
  exact { tallied.upsertChunk planned with }

theorem apply (ext : Externals) (secret : List UInt8) (data : OrchestrationEventData) :
    (a.apply ext secret ev data).Tallied := by
  cases data with
  | backfillCreated p =>
    have sameChunks : (a.foldBackfillCreated ev p).1.backfillChunks = a.backfillChunks := by
      unfold foldBackfillCreated
      split <;> rfl
    refine ⟨fun id n counter i lt => ?_, fun chunk => sameChunks ▸ tallied.planned chunk⟩
    rw [Automation.apply, sameChunks]
    rcases planned_foldBackfillCreated a ev p id with same | ⟨-, made⟩
    · exact tallied.below id n (same.symm.trans counter) i lt
    · obtain rfl := Option.some.inj (made.symm.trans counter)
      split at lt
      · exact (contiguous_nextChunkIndex fun j below => absurd below j.not_lt_zero).below i lt
      · omega
  | backfillChunkPlanned p =>
    rcases foldBackfillChunkPlanned_cases a ev p with ⟨same, -⟩ | ⟨chunk, -, planned, added⟩
    · rwa [Automation.apply, same]
    · rw [Automation.apply, added]
      exact (tallied.upsertChunk planned).advance ev p.backfillId
  | backfillStateChanged p =>
    have sameChunks : (a.foldBackfillStateChanged ev p).1.backfillChunks = a.backfillChunks := by
      unfold foldBackfillStateChanged
      repeat' split
      all_goals rfl
    refine ⟨fun id n counter => ?_, fun chunk => sameChunks ▸ tallied.planned chunk⟩
    rw [Automation.apply, sameChunks]
    exact tallied.below id n ((planned_foldBackfillStateChanged p id).symm.trans counter)
  | runRequested p => exact tallied.foldRunRequested ext secret p
  | _ => exact tallied.of_apart (apart_apply ext secret a ev rfl)

end

end Tallied

end Automation

namespace BackfillController

open FoldState

variable {ext : Externals} {c : BackfillController} {s : FoldState} {b : BackfillRow} {p : BackfillChunkPlanned}

theorem tallied_of_reachable (reachable : Reachable ext s) : s.toAutomation.Tallied := by
  obtain ⟨_, events, rfl⟩ := reachable
  refine foldEvents_invariant (fun s => s.toAutomation.Tallied) (fun s e tallied => ?_) ?_ events
  · refine foldEvent_cases ext s e tallied fun new => ?_
    rw [toAutomation_foldEvent ext s e new]
    exact tallied.apply ext s.tenantSecret e.data
  · exact ⟨fun id n counter => (by cases counter), fun chunk member => (by cases member)⟩

section

variable {chunks : Table BackfillChunkRow.chunkId} {total budget : Nat}

theorem backfillId_of_mem_planLoop {rounds index : Nat}
    (member : .backfillChunkPlanned p ∈ planLoop ext c chunks b total rounds budget index) :
    p.backfillId = b.backfillId := by
  induction rounds generalizing budget index with
  | zero => cases member
  | succ rounds ih =>
    unfold planLoop at member
    split at member
    · cases member
    · split at member
      · exact ih member
      · split at member
        · cases member
        · cases member
        · rcases mem_append.mp member with here | later
          · unfold planChunk at here
            split at here
            · cases here
            · simp at here
              rw [here]
          · exact ih later

theorem planLoop_of_held (left : budget ≠ 0) {all rounds k index : Nat} (enough : all = rounds + k)
    (inside : index + k < total)
    (held : ∀ i, index ≤ i → i < index + k → chunks.contains (chunkIdOf b.backfillId i) = true) :
    planLoop ext c chunks b total all budget index = planLoop ext c chunks b total rounds budget (index + k) := by
  induction k generalizing index all with
  | zero => rw [enough]; rfl
  | succ k ih =>
    rw [enough, ← Nat.add_assoc, planLoop, if_neg (by omega), if_pos (held index (by omega) (by omega)),
      ih rfl (by omega) (fun i least most => held i (by omega) (by omega))]
    congr 1
    omega

theorem planLoop_of_missing {rounds next : Nat} (inside : next < total)
    (missing : chunks.contains (chunkIdOf b.backfillId next) = false) :
    (∃ p, .backfillChunkPlanned p ∈ planLoop ext c chunks b total (rounds + 1) budget next ∧ p.chunkIndex = next) ↔
      budget ≠ 0 ∧ ∃ keys, c.getChunkPartitions b next = .ok keys ∧ keys ≠ [] := by
  unfold planLoop
  by_cases left : budget = 0
  · simp [left]
  · rw [if_neg (by omega), if_neg (by simp [missing])]
    split
    · rename_i failed
      simp [failed]
    · rename_i none
      simp [none]
    · rename_i keys given isKeys
      refine ⟨fun _ => ⟨left, keys, isKeys, given⟩, fun _ => ?_⟩
      rw [planChunk, if_neg (by simpa using given)]
      exact ⟨_, mem_append_left _ mem_cons_self, rfl⟩

end

theorem backfillId_of_mem_reconcileBackfill (member : .backfillChunkPlanned p ∈ c.reconcileBackfill ext s b) :
    p.backfillId = b.backfillId := by
  unfold reconcileBackfill at member
  split at member
  · cases member
  · exact backfillId_of_mem_planLoop member

theorem countActiveChunks_of_planned (planned : ∀ chunk ∈ s.backfillChunks.rows, chunk.state = .planned) (id : String) :
    countActiveChunks id s.backfillChunks s.runs =
      s.backfillChunks.rows.countP (fun chunk => chunk.backfillId = id) % 2 ^ 32 := by
  unfold countActiveChunks
  congr 1
  refine countP_congr fun chunk member => ?_
  simp [isActiveChunk, planned chunk member]

/-- The next chunk of a running backfill is planned if and only if fewer chunks were planned so far than may run
at the same time, whether the runs of those chunks have ended or not. -/
theorem next_chunk_planned_iff (reachable : Reachable ext s) (member : b ∈ s.backfills.rows)
    (running : b.state = .running) {lastProcessedAt now : Timestamp} (fresh : now - lastProcessedAt ≤ c.maxCompactionLag)
    {next : Nat} (inside : next < c.totalChunks b)
    (missing : s.backfillChunks.contains (chunkIdOf b.backfillId next) = false)
    (held : ∀ i < next, s.backfillChunks.contains (chunkIdOf b.backfillId i) = true) :
    (∃ p, .backfillChunkPlanned p ∈ c.reconcile ext lastProcessedAt now s ∧ p.backfillId = b.backfillId ∧
        p.chunkIndex = next) ↔
      s.backfillChunks.rows.countP (fun chunk => chunk.backfillId = b.backfillId) % 2 ^ 32 < b.maxConcurrentRuns ∧
        ∃ keys, c.getChunkPartitions b next = .ok keys ∧ keys ≠ [] := by
  obtain ⟨below, planned⟩ := tallied_of_reachable reachable
  have counter : b.plannedChunks ≤ next := by
    by_contra above
    have found := congrArg (Option.map BackfillRow.plannedChunks) (find_of_mem member)
    rw [below _ _ found next (by omega)] at missing
    cases missing
  have sized : b.chunkSize ≠ 0 := by
    rintro none
    simp [totalChunks, none] at inside
  have emits : (∃ p, .backfillChunkPlanned p ∈ c.reconcileBackfill ext s b ∧ p.chunkIndex = next) ↔
      countActiveChunks b.backfillId s.backfillChunks s.runs < b.maxConcurrentRuns ∧
        ∃ keys, c.getChunkPartitions b next = .ok keys ∧ keys ≠ [] := by
    obtain ⟨k, rfl⟩ := Nat.exists_eq_add_of_le counter
    obtain ⟨rounds, enough⟩ : ∃ rounds, c.totalChunks b = rounds + 1 + k := ⟨c.totalChunks b - k - 1, by omega⟩
    unfold reconcileBackfill
    by_cases none : b.maxConcurrentRuns = 0
    · simp [none]
    · rw [if_neg (by simp [running, sized, none])]
      by_cases left : b.maxConcurrentRuns - countActiveChunks b.backfillId s.backfillChunks s.runs = 0
      · rw [left, enough, Nat.add_right_comm, planLoop]
        simp
        omega
      · rw [planLoop_of_held left enough inside fun i _ most => held i most, planLoop_of_missing inside missing]
        exact and_congr_left fun _ => by omega
  rw [← countActiveChunks_of_planned planned, ← emits]
  rw [reconcile, if_pos fresh]
  constructor
  · rintro ⟨p, emitted, mine, index⟩
    obtain ⟨_, listed, here⟩ := mem_flatMap.mp emitted
    have found := find_of_mem listed
    rw [← backfillId_of_mem_reconcileBackfill here, mine, find_of_mem member] at found
    cases found
    exact ⟨p, here, index⟩
  · rintro ⟨p, here, index⟩
    exact ⟨p, mem_flatMap.mpr ⟨b, member, here⟩, backfillId_of_mem_reconcileBackfill here, index⟩

def created : FoldState := foldEvents .constant {} [backfillCreated]

theorem next_chunk_planned_iff_created :
    ∃ b ∈ created.backfills.rows, (∃ p, .backfillChunkPlanned p ∈ sampleController.reconcile .constant 0 0 created ∧
        p.backfillId = b.backfillId ∧ p.chunkIndex = 0) ↔
      created.backfillChunks.rows.countP (fun chunk => chunk.backfillId = b.backfillId) % 2 ^ 32 < b.maxConcurrentRuns ∧
        ∃ keys, sampleController.getChunkPartitions b 0 = .ok keys ∧ keys ≠ [] := by
  have facts : created.backfills.rows.any (fun b => b.state = .running ∧ 0 < sampleController.totalChunks b ∧
      created.backfillChunks.contains (chunkIdOf b.backfillId 0) = false) = true := by decide
  obtain ⟨b, member, facts⟩ := any_eq_true.mp facts
  obtain ⟨running, inside, missing⟩ := of_decide_eq_true facts
  exact ⟨b, member, next_chunk_planned_iff ⟨[], _, rfl⟩ member running (by decide) inside missing
    fun i lt => absurd lt i.not_lt_zero⟩

/-- The run of the first chunk has ended. -/
def firstChunkEnded : FoldState :=
  foldEvents .constant {} [backfillCreated, chunkPlanned "03" 0,
    .sample "04" (.runRequested {
      runKey := "backfill:b:chunk:0", requestFingerprint := "", triggerSourceRef := .backfill "b" "b:0" }),
    .sample "05" (.runTriggered { runId := "", planId := "plan" }),
    .sample "06" (.runCancelRequested { runId := "" })]

theorem second_chunk_never_planned :
    ¬ ∀ s, Reachable .constant s → ∀ b ∈ s.backfills.rows, b.state = .running → 0 < b.maxConcurrentRuns →
      (∀ chunk ∈ s.backfillChunks.rows, chunk.runId.any (fun id =>
        (s.runs.find id).any fun run => run.state.isTerminal) = true) →
      ∀ next < sampleController.totalChunks b,
        s.backfillChunks.contains (chunkIdOf b.backfillId next) = false →
        ∃ p, .backfillChunkPlanned p ∈ sampleController.reconcile .constant 0 0 s := by
  intro progress
  have facts : firstChunkEnded.backfills.rows.any (fun b =>
      b.state = .running ∧ 0 < b.maxConcurrentRuns ∧ 1 < sampleController.totalChunks b ∧
        firstChunkEnded.backfillChunks.contains (chunkIdOf b.backfillId 1) = false) = true := by decide
  have ended : ∀ chunk ∈ firstChunkEnded.backfillChunks.rows, chunk.runId.any (fun id =>
      (firstChunkEnded.runs.find id).any fun run => run.state.isTerminal) = true := by decide
  obtain ⟨b, member, facts⟩ := any_eq_true.mp facts
  obtain ⟨running, positive, inside, missing⟩ := of_decide_eq_true facts
  obtain ⟨p, emitted⟩ := progress firstChunkEnded ⟨[], _, rfl⟩ b member running positive ended 1 inside missing
  cases emitted

end BackfillController

end Arco.Flow
