import Arco.Flow.Publication

/-! What an interrupted publication leaves behind.

A compactor that is interrupted between the creation of its snapshot and the write of the pointer
leaves a snapshot that no pointer names. The next id of the visible manifest stays the same, so every
later compaction tries to create that very snapshot again, and fails.
-/

namespace Arco.Flow

open Storage Fallible Store Arco.Core

/-! ## What a compactor reads -/

inductive Reads (s : Objects) : Current → Prop where
  | pointer {author : Label CompactorCall} {pointer : OrchestrationManifestPointer} {manifest : OrchestrationManifest}
      (visible : s.At .pointer (s.version .pointer) author pointer)
      (found : s.At (.manifest pointer.manifestPath) 1 author manifest)
      (sameId : manifest.manifestId = pointer.manifestId) (sameEpoch : manifest.epoch = pointer.epoch) :
      Reads s ⟨manifest, some (s.version .pointer, pointer)⟩
  | legacy {author : Label CompactorCall} {manifest : OrchestrationManifest} (absent : s.version .pointer = 0)
      (found : s.At legacyManifest 1 author manifest) : Reads s ⟨manifest, none⟩
  | new (absent : s.version .pointer = 0) (absentLegacy : s.version legacyManifest = 0)
      (revisionUlid : String) (publishedAt : Timestamp) : Reads s ⟨{ revisionUlid, publishedAt }, none⟩

def VisibleStore (s : Objects) (store : Store) : Prop := ∃ current, Reads s current ∧ Stored s current.manifest store

def visibleManifestId (s : Objects) : String :=
  match s.get .pointer with
  | some pointer => pointer.manifestId
  | none =>
    match s.get legacyManifest with
    | some manifest => manifest.manifestId
    | none => initialManifestId

def NextIdFree (s : Objects) : Prop :=
  ∃ manifestId, nextManifestId (visibleManifestId s) = .ok manifestId ∧
    s.version (.manifest (orchestrationManifestSnapshotPath manifestId)) = 0

section Reads

variable {ext : Externals} {sums : Checksums} {s : Objects} {label : Label CompactorCall}
  {answers : Answers Core.Answer}

theorem Chain.get_eq (chain : Chain ext sums s) {path : ObjectPath} (isImmutable : path.immutable = true)
    {author : Label CompactorCall} {value : Object path} (found : s.At path 1 author value) : s.get path = some value := by
  have bound := chain.immutable path isImmutable
  have inside := found.le
  refine get_eq_some.mpr ⟨author, ?_⟩
  rwa [show s.version path = 1 by omega]

theorem Reads.manifestId {current : Current} (reads : Reads s current) (chain : Chain ext sums s) :
    current.manifest.manifestId = visibleManifestId s := by
  unfold visibleManifestId
  cases reads with
  | pointer visible found sameId sameEpoch => rw [visible.get, sameId]
  | legacy absent found => rw [get_eq_none.mpr absent, chain.get_eq rfl found]
  | new absent absentLegacy => rw [get_eq_none.mpr absent, get_eq_none.mpr absentLegacy]

theorem alone_readManifestWithVersion (chain : Chain ext sums s) :
    Yields label answers (Reads s) readManifestWithVersion s := by
  refine alone_bind_ok yields_head fun head isHead => ?_
  cases head with
  | some version =>
    obtain ⟨rfl, positive⟩ := head_eq_some.mp isHead.symm
    obtain ⟨author, _, visible⟩ := at_of_le positive (le_refl (s.version .pointer))
    obtain ⟨manifest, found, sameId, sameEpoch⟩ := chain.published _ _ _ visible
    refine alone_bind_eq (yields_get visible.get) ?_
    refine alone_bind_eq (yields_get (chain.get_eq rfl found)) ?_
    refine yields_pure ?_
    simpa [← sameId, ← sameEpoch] using Reads.pointer visible found sameId sameEpoch
  | none =>
    have absent := head_eq_none.mp isHead.symm
    refine alone_bind_ok yields_head fun legacy isLegacy => ?_
    cases legacy with
    | some version =>
      obtain ⟨rfl, positive⟩ := head_eq_some.mp isLegacy.symm
      obtain ⟨_, _, current⟩ := at_of_le positive (le_refl _)
      refine alone_bind_eq (yields_get current.get) ?_
      exact yields_pure (.legacy absent (current.once (chain.immutable _ rfl)))
    | none =>
      refine alone_bind_ok yields_newUlid fun revisionUlid _ => ?_
      refine alone_bind_ok yields_utcNow fun publishedAt _ => ?_
      exact yields_pure (.new absent (head_eq_none.mp isLegacy.symm) _ _)

/-- The lock is held under the token for as long as the clock is read. -/
def Fenced (s : Objects) (answers : Answers Core.Answer) (fencingToken : Option Nat)
    (lockPath : Option String) : Prop :=
  ∀ token path, fencingToken = some token → lockPath = some path →
    path = orchestrationCompactionLockPath ∧ ∃ lockInfo, s.get .lock = some lockInfo ∧
      lockInfo.sequenceNumber = token ∧ ∀ asked, lockInfo.isExpired (answers asked .now) = false

theorem alone_validateFencingLock {fencingToken : Option Nat} {lockPath : Option String}
    (fenced : Fenced s answers fencingToken lockPath) :
    Yields label answers (· = ()) (validateFencingLock fencingToken lockPath) s := by
  unfold validateFencingLock
  split
  · rename_i token path
    obtain ⟨rfl, _, held, sameToken, unexpired⟩ := fenced token path rfl rfl
    refine alone_bind_ok (yields_find (k := ObjectPath.lock)) fun found same => ?_
    rw [same, held]
    refine alone_bind_ok yields_utcNow fun now ⟨asked, same⟩ => ?_
    rw [same, if_neg (by simp [unexpired]), if_neg (by simp [sameToken])]
    exact yields_pure rfl
  · exact yields_pure rfl

theorem alone_loadDeltas (chain : Chain ext sums s) {deltas : List L0Delta} {states : List FoldState}
    (stored : List.Forall₂ (fun (delta : L0Delta) state => ∃ author, s.At (.artifact delta.tables) 1 author state) deltas
      states) :
    Yields label answers (· = states) (loadDeltas deltas) s := by
  induction stored with
  | nil => exact yields_pure rfl
  | cons found _ ih =>
    obtain ⟨_, found⟩ := found
    refine alone_bind_eq (yields_get (chain.get_eq rfl found)) ?_
    refine alone_bind_eq ih ?_
    exact yields_pure rfl

theorem alone_loadCurrentState (chain : Chain ext sums s) {manifest : OrchestrationManifest} {store : Store}
    (stored : Stored s manifest store) :
    Yields label answers (· = store) (loadCurrentState manifest) s := by
  have base : Yields label answers (· = store.base) (loadBase manifest.baseSnapshot) s := by
    unfold loadBase
    rcases stored.base with ⟨unnamed, isBase⟩ | ⟨named, _, found⟩
    · rw [unnamed]
      exact yields_pure isBase.symm
    · obtain ⟨_, isNamed⟩ := Option.isSome_iff_exists.mp named
      rw [isNamed]
      exact yields_get (chain.get_eq rfl found)
  refine alone_bind_eq base ?_
  refine alone_bind_eq (alone_loadDeltas chain stored.deltas) ?_
  exact yields_pure rfl

theorem alone_readEvents (chain : Chain ext sums s) {compactor : MicroCompactor} {paths : List String}
    {events : LedgerEvents} (batched : Batched s paths events)
    (inScope : ∀ event ∈ events, event.2.tenantId = compactor.tenantId ∧ event.2.workspaceId = compactor.workspaceId) :
    Yields label answers (· = events) (compactor.readEvents paths) s := by
  induction batched with
  | nil => exact yields_pure rfl
  | @cons path event paths events found _ ih =>
    obtain ⟨rfl, _, found⟩ := found
    refine alone_bind_eq (yields_get (chain.get_eq rfl found)) ?_
    rw [if_pos (inScope event List.mem_cons_self)]
    refine alone_bind_eq (ih fun event member => inScope event (List.mem_cons_of_mem _ member)) ?_
    exact yields_pure rfl

end Reads

/-! ## What a compactor writes -/

def ObjectPath.isArtifact : ObjectPath → Bool
  | .artifact _ => true
  | _ => false

def OnlyArtifacts (s s' : Objects) : Prop := ∀ path, path.isArtifact = false → s'.writes path = s.writes path

/-- The identifiers that are handed out have not been used for an artifact. -/
def FreshUlids (s : Objects) (answers : Answers Core.Answer) : Prop :=
  ∀ asked checksum, s.version (.artifact ⟨orchestrationBaseSnapshotDir (answers asked .ulid), checksum⟩) = 0 ∧
    s.version (.artifact ⟨orchestrationL0Dir (answers asked .ulid), checksum⟩) = 0

section Writes

variable {ext : Externals} {sums : Checksums} {s : Objects} {label : Label CompactorCall}
  {answers : Answers Core.Answer}

theorem alone_writeStateParquet (directory : String) (state : FoldState) :
    Alone label answers (fun r s' => OnlyArtifacts s s' ∧
      (s.version (.artifact ⟨directory, sums.tablesChecksum state⟩) = 0 → ∃ tables, r = .ok tables))
      (writeStateParquet sums directory state) s := by
  refine alone_put_bind (fun allowed => ?_) fun refused => ?_
  · refine alone_pure ⟨fun path other => writes_write_ne _ _ _ ?_, fun _ => ⟨_, rfl⟩⟩
    rintro rfl
    cases other
  · refine alone_throw ⟨fun _ _ => rfl, fun absent => ?_⟩
    simp [allows, absent] at refused

theorem alone_persistBatch (manifest : OrchestrationManifest) (batch : FoldedBatch) :
    Alone label answers (fun r s' => OnlyArtifacts s s' ∧
      (FreshUlids s answers → ∃ persisted, r = .ok persisted) ∧
      ∀ persisted, r = .ok persisted → persisted.manifest.manifestId = manifest.manifestId ∧
        persisted.manifest.epoch = manifest.epoch ∧ (batch.hasDelta = true → persisted.storageChanged = true))
      (persistBatch sums manifest batch) s := by
  refine alone_bind_ok yields_utcNow fun createdAt _ => ?_
  refine alone_bind_ok yields_utcNow fun now _ => ?_
  split
  · refine alone_bind_ok yields_newUlid fun snapshotId ⟨asked, isUlid⟩ => ?_
    refine alone_bind (alone_writeStateParquet _ _) (fun tables s₁ ⟨only, _⟩ => ?_)
      fun error s₁ ⟨only, written⟩ => ⟨only, fun fresh => ?_, fun _ isOk => ?_⟩
    · refine alone_bind_ok yields_utcNow fun publishedAt _ => alone_pure ⟨only, fun _ => ⟨_, rfl⟩, ?_⟩
      rintro persisted ⟨⟩
      exact ⟨rfl, rfl, fun hasDelta => by simp [hasDelta]⟩
    · obtain ⟨_, isOk⟩ := written (isUlid ▸ (fresh asked _).1)
      cases isOk
    · cases isOk
  · split
    · refine alone_bind_ok yields_newUlid fun deltaId ⟨asked, isUlid⟩ => ?_
      refine alone_bind (alone_writeStateParquet _ _) (fun tables s₁ ⟨only, _⟩ => ?_)
        fun error s₁ ⟨only, written⟩ => ⟨only, fun fresh => ?_, fun _ isOk => ?_⟩
      · refine alone_pure ⟨only, fun _ => ⟨_, rfl⟩, ?_⟩
        rintro persisted ⟨⟩
        exact ⟨rfl, rfl, fun _ => rfl⟩
      · obtain ⟨_, isOk⟩ := written (isUlid ▸ (fresh asked _).2)
        cases isOk
      · cases isOk
    · rename_i noDelta
      refine alone_pure ⟨fun _ _ => rfl, fun _ => ⟨_, rfl⟩, ?_⟩
      rintro _ ⟨⟩
      exact ⟨rfl, rfl, fun hasDelta => absurd hasDelta noDelta⟩

variable {manifest : OrchestrationManifest} {current : Current} {compactor : MicroCompactor}
  {fencingToken : Option Nat} {lockPath : Option String} {s' : Objects} {path : ObjectPath}

theorem validatePublication_of_next {updatedAt : Timestamp}
    (sameIds : ∀ version pointer, current.previous = some (version, pointer) →
      pointer.manifestId = current.manifest.manifestId ∧ pointer.epoch = current.manifest.epoch)
    (next : nextManifestId current.manifest.manifestId = .ok manifest.manifestId)
    (epoch : current.manifest.epoch ≤ manifest.epoch) :
    validatePublication sums manifest current.manifest (successorPointer sums manifest current.previous updatedAt)
      current.previous = .ok () := by
  obtain ⟨value, isValue, isNext⟩ := nextManifestId_ok next
  obtain ⟨previousManifest, _ | ⟨version, pointer⟩⟩ := current
  · rfl
  · obtain ⟨sameId, sameEpoch⟩ := sameIds version pointer rfl
    dsimp only at epoch
    have notBefore : ¬ manifest.epoch < previousManifest.epoch := by omega
    have advances : ¬ value + 1 ≤ value := by omega
    simp [validatePublication, OrchestrationManifest.validateSuccession,
      OrchestrationManifestPointer.validateSuccession, successorPointer, sameId, sameEpoch, isValue, isNext, notBefore,
      advances, bind, Except.bind, pure, Except.pure]

def Unmoved (s : Objects) (previous : Option (Nat × OrchestrationManifestPointer)) : Prop :=
  s.allows .pointer (match previous.map Prod.fst with
    | none => .doesNotExist
    | some version => .matchesVersion version) = true

theorem nextIdFree_iff {manifestId : String} (next : nextManifestId (visibleManifestId s) = .ok manifestId) :
    NextIdFree s ↔ s.version (.manifest (orchestrationManifestSnapshotPath manifestId)) = 0 := by
  constructor
  · rintro ⟨_, next', free⟩
    obtain rfl := Except.ok.inj (next.symm.trans next')
    exact free
  · exact fun free => ⟨manifestId, next, free⟩

def Publishes (s : Objects) (label : Label CompactorCall) : Prop :=
  ∃ pointer, s.At .pointer (s.version .pointer) label pointer

theorem alone_publishManifest (fenced : Fenced s answers fencingToken lockPath)
    (valid : ∀ updatedAt, validatePublication sums manifest current.manifest
      (successorPointer sums manifest current.previous updatedAt) current.previous = .ok ())
    (unmoved : Unmoved s current.previous) (next : nextManifestId (visibleManifestId s) = .ok manifest.manifestId) :
    Alone label answers (fun r s' =>
      (NextIdFree s → (∃ outcome, r = .ok outcome) ∧ Publishes s' label) ∧ (¬ NextIdFree s → s' = s))
      (publishManifest sums compactor fencingToken lockPath manifest current.manifest current.previous) s := by
  rw [nextIdFree_iff next]
  refine alone_bind_ok yields_utcNow fun updatedAt _ => ?_
  refine alone_bind_ok (alone_validateFencingLock fenced) fun _ _ => ?_
  rw [valid updatedAt]
  refine alone_put_bind (fun allowed => ?_) fun refused => ?_
  · have absent := allows_doesNotExist.mp allowed
    refine alone_put_bind (fun _ => ?_) fun refused => ?_
    · refine alone_pure ⟨fun _ => ⟨⟨_, rfl⟩, successorPointer sums manifest current.previous updatedAt, ?_⟩,
        fun taken => absurd absent taken⟩
      rw [version_write_self]
      exact at_write_self _ _ _ _
    · -- The snapshot is another object than the pointer.
      exact absurd (refused.symm.trans unmoved) Bool.false_ne_true
  · refine alone_throw ⟨fun absent => ?_, fun _ => rfl⟩
    exact absurd (refused.symm.trans (allows_doesNotExist.mpr absent)) Bool.false_ne_true

theorem Reads.unmoved (reads : Reads s current) : Unmoved s current.previous := by
  cases reads with
  | pointer visible _ _ _ => exact allows_matchesVersion.mpr ⟨rfl, by have := visible.1; omega⟩
  | legacy absent _ | new absent _ => exact allows_doesNotExist.mpr absent

theorem Reads.sameIds (reads : Reads s current) {version : Nat} {pointer : OrchestrationManifestPointer}
    (isPrevious : current.previous = some (version, pointer)) :
    pointer.manifestId = current.manifest.manifestId ∧ pointer.epoch = current.manifest.epoch := by
  cases reads with
  | pointer _ _ sameId sameEpoch =>
    cases isPrevious
    exact ⟨sameId.symm, sameEpoch.symm⟩
  | legacy | new => cases isPrevious

theorem OnlyArtifacts.trans {s₁ s₂ : Objects} (first : OnlyArtifacts s s₁) (second : OnlyArtifacts s₁ s₂) :
    OnlyArtifacts s s₂ := fun path other => (second path other).trans (first path other)

section

variable (only : OnlyArtifacts s s')
include only

section

variable (other : path.isArtifact = false)
include other

theorem OnlyArtifacts.version : s'.version path = s.version path := by
  rw [Store.version, Store.version, only path other]

theorem OnlyArtifacts.get : s'.get path = s.get path := by
  rw [Store.get, Store.get, only path other]

theorem OnlyArtifacts.before {version : Nat}
    {author : Label CompactorCall} {value : Object path} (found : s'.At path version author value) :
    s.At path version author value := by
  rwa [At, ← only path other]

end

theorem OnlyArtifacts.fenced (fenced : Fenced s answers fencingToken lockPath) :
    Fenced s' answers fencingToken lockPath := by
  unfold Fenced
  rwa [only.get rfl]

theorem OnlyArtifacts.unmoved {previous : Option (Nat × OrchestrationManifestPointer)}
    (unmoved : Unmoved s previous) : Unmoved s' previous := by
  have same : s'.version .pointer = s.version .pointer := only.version rfl
  obtain _ | ⟨_, _⟩ := previous
  · exact allows_doesNotExist.mpr (same.trans (allows_doesNotExist.mp unmoved))
  · have known := allows_matchesVersion.mp unmoved
    exact allows_matchesVersion.mpr ⟨same.trans known.1, known.2⟩

theorem OnlyArtifacts.visibleManifestId : visibleManifestId s' = visibleManifestId s := by
  unfold Flow.visibleManifestId
  rw [only.get rfl, only.get rfl]

theorem OnlyArtifacts.nextIdFree : NextIdFree s' ↔ NextIdFree s := by
  have sameVersion : ∀ path, s'.version (.manifest path) = s.version (.manifest path) := fun _ => only.version rfl
  simp only [NextIdFree, only.visibleManifestId, sameVersion]

end

theorem alone_publishBatch (chain : Chain ext sums s) (reads : Reads s current) (batch : FoldedBatch)
    (fenced : Fenced s answers fencingToken lockPath) :
    Alone label answers (fun r s' =>
      (NextIdFree s → FreshUlids s answers → batch.hasDelta = true → (∃ result, r = .ok result) ∧ Publishes s' label) ∧
      (¬ NextIdFree s → OnlyArtifacts s s')) (publishBatch sums compactor fencingToken lockPath current batch) s := by
  refine alone_bind (alone_persistBatch _ _) (fun persisted s₁ ⟨only, _, known⟩ => ?_)
    fun error s₁ ⟨only, persists, _⟩ => ⟨fun _ fresh => ?_, fun _ => only⟩
  · obtain ⟨sameId, sameEpoch, changed⟩ := known persisted rfl
    refine alone_bind_ok yields_utcNow fun now _ => ?_
    dsimp only
    rw [updateWatermarks_eq]
    split
    · split
      · rename_i message next
        rw [sameId, reads.manifestId chain] at next
        refine alone_throw ⟨fun ⟨manifestId, next', _⟩ => ?_, fun _ => only⟩
        cases next.symm.trans next'
      · rename_i manifestId next
        rw [sameId] at next
        refine alone_bind_ok yields_newUlid fun revisionUlid _ => ?_
        refine alone_bind_ok yields_utcNow fun publishedAt _ => ?_
        refine alone_bind (alone_publishManifest (only.fenced fenced) (fun updatedAt => ?_)
          (only.unmoved reads.unmoved) ?_) (fun outcome s₂ known => ?_) fun error s₂ known => ?_
        · refine validatePublication_of_next (fun _ _ => reads.sameIds) next ?_
          rw [← sameEpoch]
          exact (le_max_left _ _).trans (le_max_left _ _)
        · rwa [only.visibleManifestId, ← reads.manifestId chain]
        · rw [only.nextIdFree] at known
          exact alone_pure ⟨fun free _ _ => ⟨⟨_, rfl⟩, (known.1 free).2⟩, fun taken => known.2 taken ▸ only⟩
        · rw [only.nextIdFree] at known
          refine ⟨fun free => ?_, fun taken => known.2 taken ▸ only⟩
          obtain ⟨⟨_, isOk⟩, _⟩ := known.1 free
          cases isOk
    · rename_i unchanged
      refine alone_pure ⟨fun _ _ hasDelta => ?_, fun _ => only⟩
      simp [changed hasDelta] at unchanged
  · obtain ⟨_, isOk⟩ := persists fresh
    cases isOk

end Writes

/-! ## A whole compaction -/

/-- A store that a compactor can read its batch and the visible state from. The files of an old
installation are there if its manifest is. -/
structure Readable (s : Objects) (answers : Answers Core.Answer) (compactor : MicroCompactor)
    (paths : List String) (fencingToken : Option Nat) (lockPath : Option String)
    (events : LedgerEvents) : Prop where
  batched : Batched s paths events
  inScope : ∀ event ∈ events, event.2.tenantId = compactor.tenantId ∧ event.2.workspaceId = compactor.workspaceId
  fenced : Fenced s answers fencingToken lockPath
  legacy : ∀ author manifest, s.At legacyManifest 1 author manifest →
    ∃ store, Stored s manifest store

/-- A batch that changes the visible state, and identifiers that are new. -/
structure Ready (ext : Externals) (s : Objects) (answers : Answers Core.Answer)
    (compactor : MicroCompactor) (paths : List String) (fencingToken : Option Nat) (lockPath : Option String)
    (events : LedgerEvents) : Prop
    extends Readable s answers compactor paths fencingToken lockPath events where
  nonempty : paths.isEmpty = false
  fresh : FreshUlids s answers
  changing : ∀ store, VisibleStore s store → (foldBatch ext compactor store events).hasDelta = true

section Compaction

variable {ext : Externals} {sums : Checksums} {s : Objects} {label : Label CompactorCall}
  {answers : Answers Core.Answer} {compactor : MicroCompactor} {paths : List String}
  {fencingToken : Option Nat} {lockPath : Option String} {events : LedgerEvents}

theorem Readable.mono {s' : Objects} (readable : Readable s answers compactor paths fencingToken lockPath events)
    (later : s ≤ s') (only : OnlyArtifacts s s') :
    Readable s' answers compactor paths fencingToken lockPath events where
  batched := readable.batched.mono later
  inScope := readable.inScope
  fenced := only.fenced readable.fenced
  legacy author manifest found := by
    obtain ⟨store, stored⟩ := readable.legacy author manifest (only.before rfl found)
    exact ⟨store, stored.mono later⟩

variable {manifest : OrchestrationManifest}

/-- A manifest that was derived from another one can be loaded. -/
theorem Derives.stored {call : CompactorCall} {manifest' : OrchestrationManifest}
    (derives : Derives ext s call manifest manifest') : ∃ store, Stored s manifest' store := by
  obtain ⟨_, _, _, _, _, _, _, _, _, compacts⟩ := derives
  exact ⟨_, compacts.after⟩

theorem stored_empty (revisionUlid : String) (publishedAt : Timestamp) :
    Stored s { revisionUlid, publishedAt } {} where
  base := Or.inl ⟨rfl, rfl⟩
  deltas := .nil

theorem Readable.origin (readable : Readable s answers compactor paths fencingToken lockPath events)
    (origin : Origin s manifest) : ∃ store, Stored s manifest store := by
  rcases origin with ⟨author, found⟩ | ⟨revisionUlid, publishedAt, rfl⟩
  · exact readable.legacy author manifest found
  · exact ⟨{}, stored_empty revisionUlid publishedAt⟩

theorem Chain.founds_or_derives (chain : Chain ext sums s) {version : Nat} {pointer : OrchestrationManifestPointer}
    (visible : s.At .pointer version label pointer) (found : s.At (.manifest pointer.manifestPath) 1 label manifest) :
    Founds ext s label.call manifest ∨ ∃ previous, Derives ext s label.call previous manifest := by
  have positive := visible.1
  have bound := visible.le
  by_cases one : version = 1
  · exact .inl (chain.first label pointer manifest (one ▸ visible) found)
  · obtain ⟨before, rfl⟩ : ∃ before, version = before + 1 := ⟨version - 1, by omega⟩
    obtain ⟨_, _, visible₀⟩ := at_of_le (show 0 < before by omega) (show before ≤ s.version .pointer by omega)
    obtain ⟨manifest₀, found₀, _⟩ := chain.published _ _ _ visible₀
    exact .inr ⟨manifest₀, (chain.succeeds _ _ _ _ _ _ _ visible₀ found₀ visible found).derives⟩

theorem Readable.stored (readable : Readable s answers compactor paths fencingToken lockPath events)
    (chain : Chain ext sums s) {current : Current} (reads : Reads s current) : ∃ store, Stored s current.manifest store := by
  cases reads with
  | legacy absent found => exact readable.origin (.inl ⟨_, found⟩)
  | new absent absentLegacy revisionUlid publishedAt => exact ⟨{}, stored_empty revisionUlid publishedAt⟩
  | pointer visible found =>
    rcases chain.founds_or_derives visible found with ⟨_, isOrigin, ⟨_, rfl⟩ | derives⟩ | ⟨_, derives⟩
    · exact readable.origin isOrigin
    · exact derives.stored
    · exact derives.stored

theorem alone_compactOnce (chain : Chain ext sums s)
    (readable : Readable s answers compactor paths fencingToken lockPath events) (nonempty : paths.isEmpty = false) :
    Alone label answers (fun r s' =>
      (NextIdFree s → Ready ext s answers compactor paths fencingToken lockPath events →
        (∃ result, r = .ok result) ∧ Publishes s' label) ∧
      (¬ NextIdFree s → OnlyArtifacts s s')) (compactOnce ext sums compactor fencingToken lockPath paths) s := by
  refine alone_bind_ok (alone_validateFencingLock readable.fenced) fun _ _ => ?_
  refine alone_bind_ok (alone_readManifestWithVersion chain) fun current reads => ?_
  rw [if_neg (by simp [nonempty])]
  obtain ⟨_, stored⟩ := readable.stored chain reads
  refine alone_bind_eq (alone_loadCurrentState chain stored) ?_
  refine alone_bind_eq (alone_readEvents chain readable.batched readable.inScope) ?_
  refine (alone_publishBatch chain reads _ readable.fenced).mono fun result s' ⟨free, taken⟩ => ⟨fun isFree ready => ?_, taken⟩
  exact free isFree ready.fresh (ready.changing _ ⟨current, reads, stored⟩)

theorem alone_chain {β : Type} {x : CompactorM β}
    (safe : Keeps (Chain ext sums) Conduct.free label x s) (chain : Chain ext sums s) :
    Alone label answers (fun _ s' => s ≤ s' ∧ Chain ext sums s') x s :=
  (Program.Alone.and (Program.alone_le _ _)
    (Program.Safe.run (fun _ _ => trivial) (fun _ _ => trivial) safe chain)).mono fun _ _ known => ⟨known.1, known.2.2⟩

theorem alone_compactEventsRetrying (isCall : label.call = .compact compactor paths fencingToken lockPath)
    (nonempty : paths.isEmpty = false) (retries : Nat) (chain : Chain ext sums s)
    (readable : Readable s answers compactor paths fencingToken lockPath events) :
    Alone label answers (fun _ s' =>
      (NextIdFree s → Ready ext s answers compactor paths fencingToken lockPath events → Publishes s' label) ∧
      (¬ NextIdFree s → OnlyArtifacts s s'))
      (compactEventsRetrying ext sums compactor fencingToken lockPath paths retries) s := by
  have once : ∀ s, Chain ext sums s → Readable s answers compactor paths fencingToken lockPath events →
      Program.Alone label answers _ _ s := fun s chain readable => Program.Alone.and
    (alone_compactOnce chain readable nonempty) (alone_chain (safe_compactOnce isCall s) chain)
  induction retries generalizing s with
  | zero =>
    refine (once s chain readable).mono fun result s₁ known => ⟨fun isFree ready => ?_, known.1.2⟩
    exact (known.1.1 isFree ready).2
  | succ retries ih =>
    refine Program.Alone.bind ((once s chain readable).mono fun result s₁ ⟨⟨free, taken⟩, later, chain₁⟩ => ?_)
    cases result with
    | ok result => exact fun _ => ⟨fun isFree ready => (free isFree ready).2, taken⟩
    | error error =>
      have notReady : NextIdFree s → ¬ Ready ext s answers compactor paths fencingToken lockPath events := by
        intro isFree ready
        obtain ⟨⟨_, isOk⟩, _⟩ := free isFree ready
        cases isOk
      dsimp only
      split
      · by_cases isFree : NextIdFree s
        · exact fun _ => ⟨fun _ ready => absurd ready (notReady isFree), fun taken => absurd isFree taken⟩
        · have only := taken isFree
          refine (ih chain₁ (readable.mono later only)).mono fun _ s₂ known => ⟨fun isFree' => absurd isFree' isFree, fun _ => ?_⟩
          exact only.trans (known.2 (only.nextIdFree.not.mpr isFree))
      · exact fun _ => ⟨fun isFree ready => absurd ready (notReady isFree), taken⟩

end Compaction

/-- The visible manifest is one that the call has derived from another one by the compaction of its
batch. -/
def BatchVisible (ext : Externals) (s : Objects) (label : Label CompactorCall) : Prop :=
  ∃ pointer manifest previous, s.At .pointer (s.version .pointer) label pointer ∧
    s.At (.manifest pointer.manifestPath) 1 label manifest ∧ Derives ext s label.call previous manifest

section Runs

variable {ext : Externals} {sums : Checksums} {s : Objects} {P : Type} [DecidableEq P]

theorem Chain.batchVisible {label : Label CompactorCall} (chain : Chain ext sums s)
    (nonempty : label.call.isEmpty = false) (publishes : Publishes s label) : BatchVisible ext s label := by
  obtain ⟨pointer, visible⟩ := publishes
  obtain ⟨manifest, found, _⟩ := chain.published _ _ _ visible
  rcases chain.founds_or_derives visible found with ⟨origin, _, ⟨empty, _⟩ | derives⟩ | ⟨previous, derives⟩
  · simp [nonempty] at empty
  · exact ⟨pointer, manifest, origin, visible, found, derives⟩
  · exact ⟨pointer, manifest, previous, visible, found, derives⟩

/-- From every world that the compactors reach, a compaction that runs alone makes its batch visible
exactly if the next manifest id exists and no snapshot with that id is left over. -/
theorem compaction_visible_iff {calls : Nat} (bootstrap : Bootstrap s calls) {w : CompactorWorld P}
    (reached : (compactorProtocol ext sums).Reaches (fun _ _ _ => True) { store := s, calls } w) (p : P)
    (answers : Answers Core.Answer) {compactor : MicroCompactor} {paths : List String}
    {fencingToken : Option Nat} {lockPath : Option String} {events : LedgerEvents}
    (ready : Ready ext w.store answers compactor paths fencingToken lockPath events) :
    BatchVisible ext ((compactorProtocol ext sums).alone p w
      [(.compact compactor paths fencingToken lockPath, answers)]).store
      ⟨w.calls, .compact compactor paths fencingToken lockPath⟩ ↔ NextIdFree w.store := by
  have sound := sound_of_reaches bootstrap reached
  let label : Label CompactorCall := ⟨w.calls, .compact compactor paths fencingToken lockPath⟩
  have kept : Alone label answers (fun _ s' => w.store ≤ s' ∧ Chain ext sums s')
      (label.call.program ext sums) w.store := alone_chain (safe_program w.store) sound.holds
  have ended : Alone label answers (fun _ s' =>
      (NextIdFree w.store → Ready ext w.store answers compactor paths fencingToken lockPath events → Publishes s' label) ∧
      (¬ NextIdFree w.store → OnlyArtifacts w.store s')) (label.call.program ext sums) w.store :=
    alone_bind (alone_compactEventsRetrying rfl ready.nonempty _ sound.holds ready.toReadable)
      (fun _ _ known => alone_pure known) fun _ _ known => known
  obtain ⟨_, chain⟩ := kept 0
  obtain ⟨free, taken⟩ := ended 0
  constructor
  · rintro ⟨pointer, _, _, visible, _⟩
    by_contra blocked
    -- The pointer is the one from before, and no earlier call carries the number of this one.
    exact Nat.lt_irrefl _ (sound.numbered _ _ _ _ ((taken blocked).before rfl visible))
  · exact fun isFree => chain.batchVisible ready.nonempty (free isFree ready)

end Runs

/-! ## A snapshot that is left over -/

theorem eq_empty_of_visibleStore {s : Objects} (absent : s.version .pointer = 0)
    (absentLegacy : s.version legacyManifest = 0) {store : Store} (visible : VisibleStore s store) :
    store = {} := by
  obtain ⟨_, reads, stored⟩ := visible
  cases reads with
  | pointer visible => exact absurd visible.1 (by omega)
  | legacy _ found => exact absurd found.le (by omega)
  | new _ _ revisionUlid publishedAt => exact stored.unique (stored_empty revisionUlid publishedAt)

def distinctUlids (asked : Nat) : (q : Core.Question) → Core.Answer q :=
  Core.always 0 (String.ofList (List.replicate (asked + 2) 'b'))

def firstPath : String := orchestrationEventPath "2026-01-01" "01"

def firstCompaction : CompactorCall := .compact .sample [firstPath] none none

/-- One event is in the ledger, and nothing is visible. -/
structure Fresh (s : Objects) : Prop where
  absent : s.version .pointer = 0
  absentLegacy : s.version legacyManifest = 0
  appended : ∃ author, s.At (.ledger firstPath) 1 author (runTriggeredAs "01" "r1")
  artifacts : ∀ tables, s.version (.artifact tables) = 0 ∨ tables.directory = orchestrationL0Dir "a"

theorem length_orchestrationL0Dir (deltaId : String) : (orchestrationL0Dir deltaId).length = 23 + deltaId.length := by
  unfold orchestrationL0Dir
  simp only [toString, String.length_append]
  rw [show "state/orchestration/l0/".length = 23 from rfl]

theorem length_orchestrationBaseSnapshotDir (snapshotId : String) :
    (orchestrationBaseSnapshotDir snapshotId).length = 25 + snapshotId.length := by
  unfold orchestrationBaseSnapshotDir
  simp only [toString, String.length_append]
  rw [show "state/orchestration/base/".length = 25 from rfl]

theorem Fresh.ready {s : Objects} (fresh : Fresh s) :
    Ready .constant s distinctUlids .sample [firstPath] none none [(firstPath, runTriggeredAs "01" "r1")] where
  batched := .cons ⟨rfl, fresh.appended⟩ .nil
  inScope event member := by
    obtain rfl := List.mem_singleton.mp member
    exact ⟨rfl, rfl⟩
  fenced _ _ isToken := by cases isToken
  legacy author manifest found := absurd found.le (by have := fresh.absentLegacy; omega)
  nonempty := rfl
  fresh asked checksum := by
    have long : (distinctUlids asked .ulid : String).length = asked + 2 := by simp [distinctUlids, always]
    have short : (orchestrationL0Dir "a").length = 24 := length_orchestrationL0Dir "a"
    constructor <;> refine (fresh.artifacts _).resolve_right fun same => ?_
    · have lengths := congrArg String.length same
      rw [length_orchestrationBaseSnapshotDir, short] at lengths
      omega
    · have lengths := congrArg String.length same
      rw [length_orchestrationL0Dir, short] at lengths
      omega
  changing store visible := by
    rw [eq_empty_of_visibleStore fresh.absent fresh.absentLegacy visible]
    rfl

def appended : CompactorWorld Unit :=
  sampleProtocol.alone () { store := {} }
    [callWith "" (.append "2026-01-01" (runTriggeredAs "01" "r1"))]

theorem reaches_appended : sampleProtocol.Reaches (fun _ _ _ => True) { store := {} } appended :=
  Protocol.reaches_alone _ () (fun _ _ => rfl) (fun _ _ _ _ => trivial) _ rfl

theorem compaction_visible_iff_appended :
    Fresh appended.store ∧ BatchVisible .constant (sampleProtocol.alone () appended
      [(firstCompaction, distinctUlids)]).store ⟨appended.calls, firstCompaction⟩ := by
  have fresh : Fresh appended.store := ⟨rfl, rfl, ⟨_, Nat.one_pos, rfl⟩, fun _ => .inl rfl⟩
  exact ⟨fresh, (compaction_visible_iff bootstrap_empty reaches_appended () distinctUlids fresh.ready).mpr
    ⟨_, rfl, rfl⟩⟩

def interrupted : List (Action Core.Answer CompactorCall Unit) :=
  .start () firstCompaction :: List.replicate 14 (.step () .answered (Core.always 0 "a")) ++ [.crash ()]

/-- The snapshot that an interrupted compactor has left blocks every later compaction. -/
theorem leftover_snapshot_blocks : ∃ w : CompactorWorld Unit,
      sampleProtocol.Reaches (fun _ _ _ => True) { store := {} } w ∧
      Ready .constant w.store distinctUlids .sample [firstPath] none none [(firstPath, runTriggeredAs "01" "r1")] ∧
      ¬ BatchVisible .constant (sampleProtocol.alone () w
        [(firstCompaction, distinctUlids)]).store ⟨w.calls, firstCompaction⟩ := by
  obtain ⟨w, ran⟩ : ∃ w, sampleProtocol.run appended interrupted = some w := ⟨_, rfl⟩
  have reached := reaches_appended.trans (Protocol.reaches_of_run (fun _ _ _ _ => trivial) ran)
  have written : ∃ label delta path manifest, w.store = (appended.store.write
      (.artifact ⟨orchestrationL0Dir "a", "tables"⟩) label delta).write (.manifest path) label manifest := by
    cases ran
    exact ⟨_, _, _, _, rfl⟩
  have artifacts : ∀ tables, w.store.version (.artifact tables) = 0 ∨ tables.directory = orchestrationL0Dir "a" := by
    obtain ⟨_, _, _, _, isStore⟩ := written
    intro tables
    by_cases here : tables.directory = orchestrationL0Dir "a"
    · exact .inr here
    · left
      have other : ObjectPath.artifact tables ≠ .artifact ⟨orchestrationL0Dir "a", "tables"⟩ := fun same =>
        here (congrArg TablePaths.directory (ObjectPath.artifact.inj same))
      rw [isStore, version_write_ne _ _ _ (by simp), version_write_ne _ _ _ other]
      rfl
  cases ran
  refine ⟨_, reached, Fresh.ready ⟨rfl, rfl, ⟨_, Nat.one_pos, rfl⟩, artifacts⟩, ?_⟩
  rintro ⟨_, _, _, visible, _⟩
  exact Nat.lt_irrefl 0 visible.1

end Arco.Flow
