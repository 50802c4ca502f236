import Arco.Flow.Compactor
import Arco.Flow.Growth
import Arco.Flow.Writes

/-! Row versions.

A merge restores what a batch wrote as long as no row is written by an event with a
smaller id than the event that wrote it last. The handlers of runs, tasks and edges do not
compare the two; this module says which rows an event writes, from the state before it,
and when one of those rows is newer than the event.
-/

namespace Arco.Flow

open Keyed Table

theorem selects_pickNewer {V : Type} (version : V → String) : Selects (pickNewer version) := by
  intro a b
  unfold pickNewer
  split
  · exact .inl rfl
  · exact .inr rfl

theorem pickNewer_eq_right_iff {V : Type} (version : V → String) (a b : V) :
    a = b ∨ pickNewer version a b = b ↔ version a ≤ version b := by
  constructor
  · rintro (rfl | picked)
    · exact le_refl _
    · by_contra older
      rw [pickNewer, if_pos (not_le.mp older)] at picked
      exact older (picked ▸ le_refl _)
  · exact fun le => .inr (if_neg (not_lt.mpr le))

def TaskRow.UpTo (a b : TaskRow) : Prop :=
  a.rowVersion < b.rowVersion ∨ (a.rowVersion = b.rowVersion ∧ a.state.rank ≤ b.state.rank)

theorem TaskRow.UpTo.refl (t : TaskRow) : t.UpTo t := Or.inr ⟨rfl, Nat.le_refl _⟩

theorem TaskRow.UpTo.trans {a b c : TaskRow} (first : a.UpTo b) (second : b.UpTo c) : a.UpTo c := by
  rcases first with before | ⟨same, rank⟩
  · rcases second with after | ⟨same', _⟩
    · exact .inl (before.trans after)
    · exact .inl (same' ▸ before)
  · rcases second with after | ⟨same', rank'⟩
    · exact .inl (same ▸ after)
    · exact .inr ⟨same.trans same', rank.trans rank'⟩

theorem mergeTaskRows_eq_right_iff (a b : TaskRow) : a = b ∨ mergeTaskRows a b = b ↔ a.UpTo b := by
  unfold mergeTaskRows
  constructor
  · rintro (rfl | picked)
    · exact .inr ⟨rfl, Nat.le_refl _⟩
    · split at picked
      · exact .inl ‹_›
      · split at picked
        · subst picked
          exact .inr ⟨rfl, Nat.le_refl _⟩
        · have same := le_antisymm (not_lt.mp ‹¬ b.rowVersion < a.rowVersion›) (not_lt.mp ‹¬ a.rowVersion < b.rowVersion›)
          split at picked
          · subst picked
            exact .inr ⟨rfl, Nat.le_refl _⟩
          · exact .inr ⟨same, Nat.le_of_not_lt ‹_›⟩
  · rintro (before | ⟨same, rank⟩)
    · exact .inr (if_pos before)
    · refine .inr ?_
      rw [if_neg (by rw [same]; exact lt_irrefl _), if_neg (by rw [same]; exact lt_irrefl _), if_neg (Nat.not_lt.mpr rank)]

theorem selects_mergeTaskRows : Selects mergeTaskRows := by
  intro a b
  unfold mergeTaskRows
  split
  · exact .inr rfl
  · split
    · exact .inl rfl
    · split
      · exact .inl rfl
      · exact .inr rfl

def BackfillRow.UpTo (a b : BackfillRow) : Prop :=
  a.stateVersion < b.stateVersion ∨ (a.stateVersion = b.stateVersion ∧ a.rowVersion ≤ b.rowVersion)

theorem BackfillRow.UpTo.refl (b : BackfillRow) : b.UpTo b := Or.inr ⟨rfl, le_refl _⟩

theorem BackfillRow.UpTo.trans {a b c : BackfillRow} (first : a.UpTo b) (second : b.UpTo c) : a.UpTo c := by
  rcases first with before | ⟨same, version⟩ <;> rcases second with after | ⟨same', version'⟩
  · exact .inl (before.trans after)
  · exact .inl (same' ▸ before)
  · exact .inl (same ▸ after)
  · exact .inr ⟨same.trans same', version.trans version'⟩

theorem mergeBackfillRows_eq_right_iff (a b : BackfillRow) : a = b ∨ mergeBackfillRows a b = b ↔ a.UpTo b := by
  unfold mergeBackfillRows BackfillRow.UpTo
  split
  · rename_i before
    exact ⟨fun _ => .inl before, fun _ => .inr rfl⟩
  · split
    · rename_i notBefore after
      constructor
      · rintro (rfl | rfl) <;> exact .inr ⟨rfl, le_refl _⟩
      · rintro (before | ⟨same, _⟩)
        · exact absurd before notBefore
        · exact absurd (same ▸ after) (Nat.lt_irrefl _)
    · rename_i notBefore notAfter
      have same : a.stateVersion = b.stateVersion := by omega
      rw [pickNewer_eq_right_iff]
      simp [same]

theorem selects_mergeBackfillRows : Selects mergeBackfillRows := by
  intro a b
  unfold mergeBackfillRows
  split
  · exact .inr rfl
  · split
    · exact .inl rfl
    · exact selects_pickNewer _ a b

theorem selects_mergeRunKeyIndexRows : Selects mergeRunKeyIndexRows := by
  intro a b
  unfold mergeRunKeyIndexRows
  split
  · exact .inr rfl
  · exact .inl rfl

namespace Automation

variable {a : Automation} {e : OrchestrationEvent}

theorem le_contiguousFrom (chunks : Table BackfillChunkRow.chunkId) (backfillId : String) (fuel index : Nat) :
    index ≤ contiguousFrom chunks backfillId fuel index := by
  induction fuel generalizing index with
  | zero => exact Nat.le_refl _
  | succ fuel ih =>
    unfold contiguousFrom
    split
    · exact Nat.le_of_succ_le (ih (index + 1))
    · exact Nat.le_refl _

theorem nextChunkIndex_ne_iff (backfillId : String) (index : Nat) :
    a.nextChunkIndex backfillId index ≠ index ↔ a.backfillChunks.contains (chunkIdOf backfillId index) = true := by
  unfold nextChunkIndex contiguousFrom
  split
  · rename_i present
    have above := le_contiguousFrom a.backfillChunks backfillId a.backfillChunks.rows.length (index + 1)
    exact ⟨fun _ => present, fun _ => by omega⟩
  · rename_i absent
    simpa using absent

/-- The chunk that the event plans moves the planned chunk counter of the backfill. -/
def MovesBackfill (a : Automation) (e : OrchestrationEvent) (b : BackfillRow) : Prop :=
  match e.data with
  | .backfillChunkPlanned p =>
    isNewer e.eventId BackfillChunkRow.rowVersion (a.backfillChunks.find p.chunkId) = true ∧
      b.backfillId = p.backfillId ∧
      (p.chunkId = chunkIdOf p.backfillId b.plannedChunks ∨
        a.backfillChunks.contains (chunkIdOf p.backfillId b.plannedChunks) = true)
  | _ => False

/-- The backfills after an event. Only the counter is written without a comparison of versions. -/
structure StampsBackfills (e : OrchestrationEvent) (moves : BackfillRow → Prop)
    (base current : Table BackfillRow.backfillId) : Prop where
  keys : base.keys <+: current.keys
  moved : ∀ k b b', base.find k = some b → current.find k = some b' → moves b →
    b'.stateVersion = b.stateVersion ∧ b'.rowVersion = e.eventId
  kept : ∀ k b b', base.find k = some b → current.find k = some b' → ¬ moves b →
    b' = b ∨ (b.stateVersion < b'.stateVersion ∧ b'.rowVersion = e.eventId)
  added : ∀ k b, base.find k = none → current.find k = some b → b.rowVersion = e.eventId

theorem StampsBackfills.same (still : ∀ b ∈ a.backfills.rows, ¬ a.MovesBackfill e b) :
    StampsBackfills e (a.MovesBackfill e) a.backfills a.backfills where
  keys := List.prefix_rfl
  moved _ b _ found _ moves := absurd moves (still b (mem_of_find found))
  kept _ _ _ found found' _ := .inl (Option.some.inj (found'.symm.trans found))
  added _ _ missing found := by cases missing.symm.trans found

theorem StampsBackfills.write {moves : BackfillRow → Prop} {base : Table BackfillRow.backfillId} {k : String}
    {b b' : BackfillRow} (found : base.find k = some b) (rowKey : b'.backfillId = k)
    (version : b'.rowVersion = e.eventId) (others : ∀ other ∈ base.rows, other.backfillId ≠ k → ¬ moves other)
    (moved : moves b → b'.stateVersion = b.stateVersion) (kept : ¬ moves b → b.stateVersion < b'.stateVersion) :
    StampsBackfills e moves base (base.upsert b') := by
  have rows : ∀ k' old new, base.find k' = some old → (base.upsert b').find k' = some new →
      (old = b ∧ new = b') ∨ (¬ moves old ∧ new = old) := by
    intro k' old new foundOld foundNew
    rw [find_upsert, rowKey] at foundNew
    split at foundNew
    · rename_i here
      rw [← here, found] at foundOld
      exact .inl ⟨(Option.some.inj foundOld).symm, (Option.some.inj foundNew).symm⟩
    · rename_i other
      rw [foundOld] at foundNew
      refine .inr ⟨others old (mem_of_find foundOld) fun here => other ?_, (Option.some.inj foundNew).symm⟩
      rw [← here, key_of_find foundOld]
  refine ⟨ keys_upsertAll_prefix base [b'], fun k' old new foundOld foundNew moves => ?_,
    fun k' old new foundOld foundNew still => ?_, fun k' new missing foundNew => ?_⟩
  · rcases rows k' old new foundOld foundNew with ⟨rfl, rfl⟩ | ⟨still, _⟩
    · exact ⟨moved moves, version⟩
    · exact absurd moves still
  · rcases rows k' old new foundOld foundNew with ⟨rfl, rfl⟩ | ⟨_, same⟩
    · exact .inr ⟨kept still, version⟩
    · exact .inl same
  · rw [find_upsert, rowKey] at foundNew
    split at foundNew
    · rename_i here
      rw [← here, found] at missing
      cases missing
    · cases missing.symm.trans foundNew

theorem stampsBackfills_foldBackfillChunkPlanned {p : BackfillChunkPlanned} (isEvent : e.data = .backfillChunkPlanned p) :
    StampsBackfills e (a.MovesBackfill e) a.backfills (a.foldBackfillChunkPlanned e.toEnvelope p).1.backfills := by
  have moves : ∀ b, a.MovesBackfill e b ↔ _ := fun b => by rw [MovesBackfill, isEvent]
  have mine : ∀ b, a.MovesBackfill e b → b.backfillId = p.backfillId := fun b moved => ((moves b).mp moved).2.1
  dsimp only [foldBackfillChunkPlanned]
  split
  · rename_i newer
    -- the counter moves if its chunk was there or has just been added
    generalize entered : a.backfillChunks.upsert _ = chunks
    have present : ∀ k, chunks.contains k = true ↔ p.chunkId = k ∨ a.backfillChunks.contains k = true := by
      intro k
      rw [← entered, contains_upsert, Bool.or_eq_true, decide_eq_true_iff]
    have writes : ∀ b : BackfillRow, b.backfillId = p.backfillId → (a.MovesBackfill e b ↔
        ({ a with backfillChunks := chunks }.nextChunkIndex p.backfillId b.plannedChunks ≠ b.plannedChunks)) := by
      intro b mine
      rw [nextChunkIndex_ne_iff, present, moves]
      simp [newer, mine]
    unfold advancePlannedChunks
    split
    · rename_i b found
      have bKey : b.backfillId = p.backfillId := key_of_find found
      dsimp only
      split
      · rename_i moved
        refine .write found bKey rfl (fun other _ elsewhere moves => elsewhere (mine other moves)) (fun _ => rfl) ?_
        exact fun still => absurd ((writes b bKey).mpr moved) still
      · rename_i still
        refine .same fun other member moved => ?_
        have found' := find_of_mem member
        rw [mine other moved, found] at found'
        cases found'
        exact still ((writes b bKey).mp moved)
    · rename_i missing
      refine .same fun other member moved => ?_
      have found' := find_of_mem member
      rw [mine other moved, missing] at found'
      cases found'
  · rename_i older
    exact .same fun b _ moved => older ((moves b).mp moved).1

theorem stampsBackfills_foldBackfillCreated {p : BackfillCreated} (still : ∀ b, ¬ a.MovesBackfill e b) :
    StampsBackfills e (a.MovesBackfill e) a.backfills (a.foldBackfillCreated e.toEnvelope p).1.backfills := by
  unfold foldBackfillCreated
  split
  · exact .same fun b _ => still b
  · rename_i absent
    have missing : a.backfills.find p.backfillId = none := by simpa [contains] using absent
    generalize made : BackfillRow.mk _ _ _ _ _ _ _ _ _ _ _ _ _ _ _ _ _ = row
    have rowKey : row.backfillId = p.backfillId := made ▸ rfl
    have stamps : Stamps BackfillRow.rowVersion e.eventId (fun _ => False) a.backfills (a.backfills.upsert row) :=
      .upsert_new (rowKey ▸ missing) (made ▸ rfl)
    exact ⟨stamps.keys, fun _ b _ _ _ moves => absurd moves (still b),
      fun k b b' found found' _ => .inl (stamps.kept k b b' found found' not_false), stamps.added⟩

theorem stampsBackfills_foldBackfillStateChanged {p : BackfillStateChanged} (still : ∀ b, ¬ a.MovesBackfill e b) :
    StampsBackfills e (a.MovesBackfill e) a.backfills (a.foldBackfillStateChanged e.toEnvelope p).1.backfills := by
  have same : StampsBackfills e (a.MovesBackfill e) a.backfills a.backfills := .same fun b _ => still b
  unfold foldBackfillStateChanged
  split
  · exact same
  · rename_i b found
    split
    · exact same
    · split
      · exact same
      · split
        · exact same
        · split
          · exact same
          · rename_i next
            refine .write found (key_of_find found : b.backfillId = _) rfl (fun other _ _ => still other)
              (fun moves => absurd moves (still b)) fun _ => ?_
            show b.stateVersion < p.stateVersion
            omega

theorem backfills_correlateRunToSource (a : Automation) (runId : String) (source : SourceRef) :
    (a.correlateRunToSource runId source).backfills = a.backfills := by
  unfold correlateRunToSource
  repeat' split
  all_goals rfl

theorem stampsBackfills_apply (ext : Externals) (secret : List UInt8) (a : Automation) (e : OrchestrationEvent) :
    StampsBackfills e (a.MovesBackfill e) a.backfills (a.apply ext secret e.toEnvelope e.data).backfills := by
  have unmoved : ∀ {t : Table BackfillRow.backfillId}, t = a.backfills → (∀ b, ¬ a.MovesBackfill e b) →
      StampsBackfills e (a.MovesBackfill e) a.backfills t := by
    rintro _ rfl still
    exact .same fun b _ => still b
  cases isEvent : e.data with
  | backfillChunkPlanned p => exact stampsBackfills_foldBackfillChunkPlanned isEvent
  | backfillCreated p => exact stampsBackfills_foldBackfillCreated fun b => by simp [MovesBackfill, isEvent]
  | backfillStateChanged p => exact stampsBackfills_foldBackfillStateChanged fun b => by simp [MovesBackfill, isEvent]
  | runRequested p =>
    refine unmoved ?_ fun b => by simp [MovesBackfill, isEvent]
    dsimp only [apply, foldRunRequested]
    repeat' split
    all_goals first
      | rfl
      | exact backfills_correlateRunToSource _ _ _
  | _ => exact unmoved (apart_apply ext secret a _ rfl).backfills fun b => by simp [MovesBackfill, isEvent]

end Automation

end Arco.Flow
