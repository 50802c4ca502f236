import Arco.Flow.Service

/-! The chain of visible manifests.

Whatever the compactors do at the same time, each pointer follows the pointer before it: its manifest
was derived from exactly the manifest that was visible until then. The version of the pointer is read
before its content and decides about the write, so that a pointer that was replaced in between cannot
be overwritten; the snapshot of a pointer is created by the compactor that publishes the pointer, and
is never replaced.
-/

namespace Arco.Flow

open Storage Store

abbrev Objects : Type := Storage.Store Object (Label CompactorCall)

def ObjectPath.immutable : ObjectPath → Bool
  | .pointer | .lock => false
  | .manifest _ | .artifact _ | .ledger _ => true

structure Stored (s : Objects) (manifest : OrchestrationManifest) (store : Store) : Prop where
  base : (manifest.baseSnapshot.snapshotId = none ∧ store.base = {}) ∨
    (manifest.baseSnapshot.snapshotId.isSome = true ∧
      ∃ author, s.At (.artifact manifest.baseSnapshot.tables) 1 author store.base)
  deltas : List.Forall₂ (fun (delta : L0Delta) state => ∃ author, s.At (.artifact delta.tables) 1 author state)
    manifest.l0Deltas store.deltas

variable {s s' : Objects} {manifest manifest' : OrchestrationManifest} {store : Store}
  {author : Label CompactorCall}

theorem Stored.mono (stored : Stored s manifest store) (later : s ≤ s') : Stored s' manifest store where
  base := stored.base.imp id (And.imp id fun ⟨author, found⟩ => ⟨author, found.mono later⟩)
  deltas := stored.deltas.imp fun _ _ ⟨author, found⟩ => ⟨author, found.mono later⟩

theorem Stored.congr (stored : Stored s manifest store) (base : manifest'.baseSnapshot = manifest.baseSnapshot)
    (deltas : manifest'.l0Deltas = manifest.l0Deltas) : Stored s manifest' store :=
  ⟨base ▸ stored.base, deltas ▸ stored.deltas⟩

theorem Stored.unique {store' : Store} (left : Stored s manifest store) (right : Stored s manifest store') : store = store' := by
  obtain ⟨base, deltas⟩ := store
  obtain ⟨base', deltas'⟩ := store'
  have sameBase : base = base' := by
    rcases left.base with ⟨absent, empty⟩ | ⟨named, _, found⟩ <;>
      rcases right.base with ⟨absent', empty'⟩ | ⟨named', _, found'⟩
    · exact empty.trans empty'.symm
    · simp [absent] at named'
    · simp [absent'] at named
    · exact (found.unique found').2
  have sameDeltas : deltas = deltas' :=
    List.right_unique_forall₂' (fun _ _ _ ⟨_, found⟩ ⟨_, found'⟩ => (found.unique found').2) left.deltas right.deltas
  rw [sameBase, sameDeltas]

theorem Stored.withDelta (stored : Stored s manifest store) (delta : L0Delta) {state : FoldState}
    (found : s.At (.artifact delta.tables) 1 author state) :
    Stored s (manifest.withDelta delta) { store with deltas := store.deltas ++ [state] } where
  base := stored.base
  deltas := List.rel_append stored.deltas (.cons ⟨author, found⟩ .nil)

theorem Stored.withBase (manifest : OrchestrationManifest) {base : BaseSnapshot} {state : FoldState}
    (named : base.snapshotId.isSome = true) (found : s.At (.artifact base.tables) 1 author state) :
    Stored s (manifest.withBase base) { base := state, deltas := [] } where
  base := .inr ⟨named, author, found⟩
  deltas := .nil

def Batched (s : Objects) (paths : List String) (events : LedgerEvents) : Prop :=
  List.Forall₂ (fun path event => event.1 = path ∧ ∃ author, s.At (.ledger path) 1 author event.2) paths events

theorem Batched.mono {paths : List String} {events : LedgerEvents}
    (batched : Batched s paths events) (later : s ≤ s') : Batched s' paths events :=
  batched.imp fun _ _ ⟨same, author, found⟩ => ⟨same, author, found.mono later⟩

/-- A successor keeps the base and every delta, or it has collapsed them into a new base. -/
def Persist.Keeps (manifest manifest' : OrchestrationManifest) : Persist → Prop
  | .delta => manifest'.baseSnapshot = manifest.baseSnapshot ∧ manifest.l0Deltas <+: manifest'.l0Deltas
  | .collapse => manifest'.l0Deltas = []

/-- What a manifest becomes by the compaction of one batch: what it describes afterwards is the
sequential compaction of what it described. -/
structure Compacts (ext : Externals) (s : Objects) (manifest manifest' : OrchestrationManifest)
    (compactor : MicroCompactor) (events : LedgerEvents) (store : Store) (persist : Persist) :
    Prop where
  before : Stored s manifest store
  after : Stored s manifest' (store.compact ext compactor.tenantSecret ⟨persist, events.map Prod.snd⟩)
  keeps : persist.Keeps manifest manifest'
  watermarks : ∃ now, manifest'.watermarks = (updateWatermarks manifest (foldBatch ext compactor store events).events
    (foldBatch ext compactor store events).lastEventId compactor.durabilityMode now).2.watermarks

def Derives (ext : Externals) (s : Objects) (call : CompactorCall) (manifest manifest' : OrchestrationManifest) : Prop :=
  ∃ compactor paths fencingToken lockPath events store persist,
    call = .compact compactor paths fencingToken lockPath ∧ Batched s paths events ∧
      Compacts ext s manifest manifest' compactor events store persist

theorem Derives.mono {ext : Externals} {call : CompactorCall} (derives : Derives ext s call manifest manifest')
    (later : s ≤ s') :
    Derives ext s' call manifest manifest' := by
  obtain ⟨compactor, paths, fencingToken, lockPath, events, store, persist, isCall, batched, compacts⟩ := derives
  exact ⟨compactor, paths, fencingToken, lockPath, events, store, persist, isCall, batched.mono later,
    compacts.before.mono later, compacts.after.mono later, compacts.keeps, compacts.watermarks⟩

structure Succeeds (ext : Externals) (sums : Checksums) (s : Objects) (call : CompactorCall)
    (pointer : OrchestrationManifestPointer) (manifest : OrchestrationManifest)
    (pointer' : OrchestrationManifestPointer) (manifest' : OrchestrationManifest) : Prop where
  previousManifestPath : manifest'.previousManifestPath = some pointer.manifestPath
  parentPointerHash : pointer'.parentPointerHash = some (sums.pointerHash pointer)
  advances : ∃ id id', parseManifestId pointer.manifestId = .ok id ∧ parseManifestId pointer'.manifestId = .ok id' ∧
    id < id'
  epoch : pointer.epoch ≤ pointer'.epoch
  derives : Derives ext s call manifest manifest'

abbrev legacyManifest : ObjectPath := .manifest orchestrationManifestPath

/-- The manifest that a compaction starts from when no manifest is visible. -/
def Origin (s : Objects) (manifest : OrchestrationManifest) : Prop :=
  (∃ author, s.At legacyManifest 1 author manifest) ∨
    ∃ revisionUlid publishedAt, manifest = { revisionUlid, publishedAt }

theorem Origin.mono (origin : Origin s manifest) (later : s ≤ s') :
    Origin s' manifest := origin.imp (fun ⟨author, found⟩ => ⟨author, found.mono later⟩) id

def CompactorCall.isEmpty : CompactorCall → Bool
  | .compact _ paths _ _ => paths.isEmpty
  | _ => false

/-- The first visible manifest: a call without events publishes the one it starts from. -/
def Founds (ext : Externals) (s : Objects) (call : CompactorCall) (manifest : OrchestrationManifest) : Prop :=
  ∃ origin, Origin s origin ∧ ((call.isEmpty = true ∧ manifest = origin) ∨ Derives ext s call origin manifest)

theorem Founds.mono {ext : Externals} {call : CompactorCall} (founds : Founds ext s call manifest)
    (later : s ≤ s') : Founds ext s' call manifest := by
  obtain ⟨origin, isOrigin, same⟩ := founds
  exact ⟨origin, isOrigin.mono later, same.imp id fun derives => derives.mono later⟩

structure Chain (ext : Externals) (sums : Checksums) (s : Objects) : Prop where
  immutable : ∀ path, path.immutable = true → s.version path ≤ 1
  first : ∀ label pointer manifest, s.At .pointer 1 label pointer →
    s.At (.manifest pointer.manifestPath) 1 label manifest → Founds ext s label.call manifest
  published : ∀ version label pointer, s.At .pointer version label pointer →
    ∃ manifest, s.At (.manifest pointer.manifestPath) 1 label manifest ∧
      manifest.manifestId = pointer.manifestId ∧ manifest.epoch = pointer.epoch
  succeeds : ∀ version author pointer manifest label pointer' manifest', s.At .pointer version author pointer →
    s.At (.manifest pointer.manifestPath) 1 author manifest → s.At .pointer (version + 1) label pointer' →
    s.At (.manifest pointer'.manifestPath) 1 label manifest' →
    Succeeds ext sums s label.call pointer manifest pointer' manifest'

section Chain

variable {ext : Externals} {sums : Checksums} {label : Label CompactorCall}
  {pointer pointer' : OrchestrationManifestPointer}

theorem Succeeds.mono {s' : Objects} {call : CompactorCall}
    (succeeds : Succeeds ext sums s call pointer manifest pointer' manifest') (later : s ≤ s') :
    Succeeds ext sums s' call pointer manifest pointer' manifest' :=
  { succeeds with derives := succeeds.derives.mono later }

theorem Chain.manifest_of_le {s' : Objects} (chain : Chain ext sums s) (later : s ≤ s') {version : Nat}
    {author : Label CompactorCall} (visible : s.At .pointer version author pointer)
    (found : s'.At (.manifest pointer.manifestPath) 1 author manifest) :
    s.At (.manifest pointer.manifestPath) 1 author manifest := by
  obtain ⟨_, found₀, _⟩ := chain.published version author pointer visible
  obtain ⟨_, rfl⟩ := (found₀.mono later).unique found
  exact found₀

theorem Chain.write (chain : Chain ext sums s) (path : ObjectPath) (value : Object path) (other : path ≠ .pointer)
    (absent : path.immutable = true → s.version path = 0) : Chain ext sums (s.write path label value) := by
  have later := s.le_write path label value
  have pointers : ∀ {version author pointer}, (s.write path label value).At .pointer version author pointer →
      s.At .pointer version author pointer := (at_write_ne other.symm).mp
  refine ⟨fun path' isImmutable => ?_, fun author pointer manifest visible found => ?_,
    fun version author pointer visible => ?_,
    fun version author pointer manifest label' pointer' manifest' visible found visible' found' => ?_⟩
  · exact version_write_le (chain.immutable path' isImmutable) fun same => same ▸ absent (same ▸ isImmutable)
  · exact (chain.first author pointer manifest (pointers visible)
      (chain.manifest_of_le later (pointers visible) found)).mono later
  · obtain ⟨manifest, found, same⟩ := chain.published version author pointer (pointers visible)
    exact ⟨manifest, found.mono later, same⟩
  · exact (chain.succeeds version author pointer manifest label' pointer' manifest' (pointers visible)
      (chain.manifest_of_le later (pointers visible) found) (pointers visible')
      (chain.manifest_of_le later (pointers visible') found')).mono later

theorem Chain.publish (chain : Chain ext sums s)
    (snapshot : s.At (.manifest pointer'.manifestPath) 1 label manifest')
    (sameId : manifest'.manifestId = pointer'.manifestId) (sameEpoch : manifest'.epoch = pointer'.epoch)
    (founds : s.version .pointer = 0 → Founds ext s label.call manifest')
    (follows : ∀ author pointer manifest, s.At .pointer (s.version .pointer) author pointer →
      s.At (.manifest pointer.manifestPath) 1 author manifest →
      Succeeds ext sums s label.call pointer manifest pointer' manifest') :
    Chain ext sums (s.write .pointer label pointer') := by
  have later := s.le_write .pointer label pointer'
  have others : ∀ {path version author manifest}, (s.write .pointer label pointer').At (.manifest path) version author manifest →
      s.At (.manifest path) version author manifest := (at_write_ne (by simp)).mp
  refine ⟨fun path isImmutable => ?_, fun author pointer manifest visible found => ?_,
    fun version author pointer visible => ?_,
    fun version author pointer manifest label' pointer'' manifest'' visible found visible' found' => ?_⟩
  · refine version_write_le (chain.immutable path isImmutable) ?_
    rintro rfl
    cases isImmutable
  · rcases at_write_same.mp visible with old | ⟨one, rfl, rfl⟩
    · exact (chain.first author pointer manifest old (others found)).mono later
    · obtain ⟨_, rfl⟩ := snapshot.unique (others found)
      exact (founds (by omega)).mono later
  · rcases at_write_same.mp visible with old | ⟨_, rfl, rfl⟩
    · obtain ⟨manifest, found, same⟩ := chain.published version author pointer old
      exact ⟨manifest, found.mono later, same⟩
    · exact ⟨manifest', snapshot.mono later, sameId, sameEpoch⟩
  · -- The earlier pointer is an old one in any case; the later one may be the new pointer.
    have bound := visible'.le
    rw [version_write_self] at bound
    rcases at_write_same.mp visible with old | ⟨_, _⟩
    · rcases at_write_same.mp visible' with old' | ⟨_, rfl, rfl⟩
      · exact (chain.succeeds version author pointer manifest label' pointer'' manifest'' old (others found) old'
          (others found')).mono later
      · obtain rfl : version = s.version .pointer := by omega
        obtain ⟨_, rfl⟩ := snapshot.unique (others found')
        exact (follows author pointer manifest old (others found)).mono later
    · omega

end Chain

end Arco.Flow
