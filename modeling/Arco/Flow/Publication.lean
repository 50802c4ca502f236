import Arco.Flow.Chain

/-! Every run of the compactors keeps the chain of visible manifests. -/

namespace Arco.Flow

open Storage Fallible Store Arco.Core

section Reads

variable {inv : Objects → Prop} {label : Label CompactorCall}

theorem safe_readLockInfo {conduct}
    {s : Objects} : Safe inv conduct label (fun _ s' => s ≤ s') readLockInfo s :=
  (safe_find (k := ObjectPath.lock)).mono fun _ _ known => known.1.le

theorem safe_validateFencingLock {conduct}
    (fencingToken : Option Nat) (lockPath : Option String) (s : Objects) :
    Safe inv conduct label (fun _ s' => s ≤ s') (validateFencingLock fencingToken lockPath) s := by
  unfold validateFencingLock
  split
  case h_2 => exact safe_pure le_rfl
  split
  · exact safe_throw _
  refine safe_bind safe_readLockInfo fun lockInfo s₁ grown => ?_
  cases lockInfo with
  | none => exact safe_throw _
  | some lockInfo =>
    refine safe_bind safe_utcNow fun now s₂ later => ?_
    split
    · exact safe_throw _
    split
    · exact safe_throw _
    · exact safe_pure (grown.trans later.le)

end Reads

/-- What a compactor knows about the manifest it has read. A manifest behind a pointer was visible at
some version not before the one that the compactor holds. -/
def Current.Known (s : Objects) (current : Current) : Prop :=
  match current.previous with
  | some (version, pointer) => ∃ read author, version ≤ read ∧ s.At .pointer read author pointer ∧
      s.At (.manifest pointer.manifestPath) 1 author current.manifest
  | none => Origin s current.manifest

theorem Current.Known.mono {s s' : Objects} {current : Current} (known : current.Known s) (later : s ≤ s') :
    current.Known s' := by
  obtain ⟨_, _ | ⟨_, _⟩⟩ := current
  · exact Origin.mono known later
  · obtain ⟨read, author, order, visible, found⟩ := known
    exact ⟨read, author, order, visible.mono later, found.mono later⟩

section Compaction

variable {ext : Externals} {sums : Checksums} {label : Label CompactorCall} {s : Objects}

theorem safe_readManifestWithVersion {conduct} :
    Safe (Chain ext sums) conduct label (fun current s' => s ≤ s' ∧ current.Known s')
      readManifestWithVersion s := by
  refine safe_bind safe_head fun head s₁ ⟨later₁, isHead⟩ => ?_
  cases head with
  | some version =>
    refine safe_bind safe_get fun pointer s₂ ⟨later₂, author, visible⟩ => ?_
    refine safe_bind safe_get fun manifest s₃ ⟨later₃, author', found⟩ => ?_
    refine safe_pure ⟨later₁.le.trans (later₂.le.trans later₃.le), ?_⟩
    -- The snapshot is the one of the pointer, and repeats its id and its epoch.
    obtain ⟨_, found₀, sameId, sameEpoch⟩ := later₂.inv.published _ author pointer visible
    obtain ⟨_, rfl⟩ := (found₀.mono later₃.le).unique (found.once (later₃.inv.immutable _ rfl))
    have order := version_mono later₂.le .pointer
    rw [(head_eq_some.mp isHead).1] at order
    refine ⟨_, author, order, visible.mono later₃.le, ?_⟩
    simpa [← sameId, ← sameEpoch] using found₀.mono later₃.le
  | none =>
    refine safe_bind safe_head fun legacy s₂ ⟨later₂, _⟩ => ?_
    cases legacy with
    | some _ =>
      refine safe_bind safe_get fun manifest s₃ ⟨later₃, author, found⟩ => ?_
      exact safe_pure ⟨later₁.le.trans (later₂.le.trans later₃.le),
        .inl ⟨author, found.once (later₃.inv.immutable _ rfl)⟩⟩
    | none =>
      refine safe_bind safe_newUlid fun revisionUlid s₃ later₃ => ?_
      refine safe_bind safe_utcNow fun publishedAt s₄ later₄ => ?_
      exact safe_pure ⟨later₁.le.trans (later₂.le.trans (later₃.le.trans later₄.le)),
        .inr ⟨revisionUlid, publishedAt, rfl⟩⟩

theorem safe_loadDeltas {conduct} (deltas : List L0Delta) :
    Safe (Chain ext sums) conduct label (fun states s' => s ≤ s' ∧
      List.Forall₂ (fun (delta : L0Delta) state => ∃ author, s'.At (.artifact delta.tables) 1 author state) deltas states)
      (loadDeltas deltas) s := by
  induction deltas generalizing s conduct with
  | nil => exact safe_pure ⟨le_rfl, .nil⟩
  | cons delta deltas ih =>
    refine safe_bind safe_get fun state s₁ ⟨later₁, author, found⟩ => ?_
    refine safe_bind ih fun states s₂ ⟨later₂, loaded⟩ => ?_
    exact safe_pure ⟨later₁.le.trans later₂, .cons ⟨author, (found.once (later₁.inv.immutable _ rfl)).mono later₂⟩ loaded⟩

theorem safe_loadBase {conduct} (base : BaseSnapshot) :
    Safe (Chain ext sums) conduct label (fun state s' => s ≤ s' ∧ ((base.snapshotId = none ∧ state = {}) ∨
        (base.snapshotId.isSome = true ∧ ∃ author, s'.At (.artifact base.tables) 1 author state))) (loadBase base) s := by
  unfold loadBase
  split
  · rename_i id named
    refine (safe_get (k := ObjectPath.artifact base.tables)).mono fun state s₁ ⟨later₁, author, found⟩ =>
      ⟨later₁.le, .inr ⟨?_, author, ?_⟩⟩
    · simp [named]
    · exact found.once (later₁.inv.immutable _ rfl)
  · rename_i unnamed
    exact safe_pure ⟨le_rfl, .inl ⟨unnamed, rfl⟩⟩

theorem safe_loadCurrentState {conduct} (manifest : OrchestrationManifest) :
    Safe (Chain ext sums) conduct label (fun store s' => s ≤ s' ∧ Stored s' manifest store)
      (loadCurrentState manifest) s := by
  refine safe_bind (safe_loadBase _) fun base s₁ ⟨later₁, isBase⟩ => ?_
  refine safe_bind (safe_loadDeltas _) fun deltas s₂ ⟨later₂, loaded⟩ => ?_
  refine safe_pure ⟨later₁.trans later₂, isBase.imp id (And.imp id ?_), loaded⟩
  exact fun ⟨author, found⟩ => ⟨author, found.mono later₂⟩

theorem safe_readEvents {conduct} (compactor : MicroCompactor) (paths : List String) :
    Safe (Chain ext sums) conduct label (fun events s' => s ≤ s' ∧ Batched s' paths events)
      (compactor.readEvents paths) s := by
  induction paths generalizing s conduct with
  | nil => exact safe_pure ⟨le_rfl, .nil⟩
  | cons path paths ih =>
    refine safe_bind safe_get fun event s₁ ⟨later₁, author, found⟩ => ?_
    split
    · refine safe_bind ih fun events s₂ ⟨later₂, batched⟩ => ?_
      exact safe_pure ⟨later₁.le.trans later₂,
        .cons ⟨rfl, author, (found.once (later₁.inv.immutable _ rfl)).mono later₂⟩ batched⟩
    · exact safe_throw _

theorem safe_create {conduct}
    (path : ObjectPath) (value : Object path) (isImmutable : path.immutable = true) :
    Safe (Chain ext sums) conduct label
      (fun result s' => s ≤ s' ∧ ∀ version, result = .success version → s'.At path 1 label value)
      (put path value .doesNotExist : CompactorM WriteResult) s := by
  refine safe_put (fun s₁ later₁ allowed => ?_) (fun s₁ later₁ _ => ⟨later₁.le, nofun⟩)
  have absent := allows_doesNotExist.mp allowed
  have other : path ≠ .pointer := by
    rintro rfl
    cases isImmutable
  refine ⟨later₁.inv.write path value other fun _ => absent, later₁.le.trans (s₁.le_write _ _ _), fun version _ => ?_⟩
  simpa [absent] using s₁.at_write_self path label value

theorem safe_writeStateParquet {conduct} (directory : String) (state : FoldState) :
    Safe (Chain ext sums) conduct label
      (fun tables s' => s ≤ s' ∧ s'.At (.artifact tables) 1 label state) (writeStateParquet sums directory state) s := by
  refine safe_bind (safe_create (.artifact { directory, checksum := sums.tablesChecksum state }) state rfl)
    fun result s₁ ⟨later₁, written⟩ => ?_
  cases result with
  | success version => exact safe_pure ⟨later₁, written version rfl⟩
  | preconditionFailed => exact safe_throw _

structure Persisted.Of (ext : Externals) (s : Objects) (compactor : MicroCompactor)
    (events : LedgerEvents) (store : Store) (manifest : OrchestrationManifest)
    (persisted : Persisted) : Prop where
  watermarks : persisted.manifest.watermarks = manifest.watermarks
  compacts : ∃ persist, Persist.Keeps manifest persisted.manifest persist ∧
    Stored s persisted.manifest (store.compact ext compactor.tenantSecret ⟨persist, events.map Prod.snd⟩)

variable {conduct : Conduct Object Core.Answer (Except CompactionError CompactionResult) (Label CompactorCall)}
  {events : LedgerEvents} {compactor : MicroCompactor} {manifest : OrchestrationManifest}
  {store : Store} {current : Current} {paths : List String} {fencingToken : Option Nat} {lockPath : Option String}

theorem compact_collapse (ext : Externals) (compactor : MicroCompactor) (store : Store) (some_ : events ≠ []) :
    store.compact ext compactor.tenantSecret ⟨.collapse, events.map Prod.snd⟩ =
      { base := (foldBatch ext compactor store events).state.tables, deltas := [] } := by
  simp [compact, some_, foldBatch]

theorem compact_delta (ext : Externals) (compactor : MicroCompactor) (store : Store) (some_ : events ≠ []) :
    store.compact ext compactor.tenantSecret ⟨.delta, events.map Prod.snd⟩ =
      if (foldBatch ext compactor store events).hasDelta then
        { store with deltas := store.deltas ++ [(foldBatch ext compactor store events).delta] }
      else store := by
  cases isEmpty : (foldBatch ext compactor store events).delta.deltaStateIsEmpty <;>
    simp_all [compact, FoldedBatch.hasDelta, foldBatch]

theorem safe_persistBatch {conduct} (some_ : events ≠ []) (stored : Stored s manifest store) :
    Safe (Chain ext sums) conduct label
      (fun persisted s' => s ≤ s' ∧ persisted.Of ext s' compactor events store manifest)
      (persistBatch sums manifest (foldBatch ext compactor store events)) s := by
  refine safe_bind safe_utcNow fun createdAt s₁ later₁ => ?_
  refine safe_bind safe_utcNow fun now s₂ later₂ => ?_
  have grown := later₁.le.trans later₂.le
  split
  · refine safe_bind safe_newUlid fun snapshotId s₃ later₃ => ?_
    refine safe_bind (safe_writeStateParquet _ _) fun tables s₄ ⟨later₄, written⟩ => ?_
    refine safe_bind safe_utcNow fun publishedAt s₅ later₅ => ?_
    refine safe_pure ⟨grown.trans (later₃.le.trans (later₄.trans later₅.le)), rfl, .collapse, rfl, ?_⟩
    rw [compact_collapse ext compactor store some_]
    exact Stored.withBase manifest rfl (written.mono later₅.le)
  split
  · rename_i hasDelta
    refine safe_bind safe_newUlid fun deltaId s₃ later₃ => ?_
    refine safe_bind (safe_writeStateParquet _ _) fun tables s₄ ⟨later₄, written⟩ => ?_
    have grown := grown.trans (later₃.le.trans later₄)
    refine safe_pure ⟨grown, rfl, .delta, ⟨rfl, List.prefix_append _ _⟩, ?_⟩
    rw [compact_delta ext compactor store some_, if_pos hasDelta]
    exact (stored.mono grown).withDelta ((foldBatch ext compactor store events).l0Delta deltaId createdAt tables) written
  · rename_i hasDelta
    refine safe_pure ⟨grown, rfl, .delta, ⟨rfl, List.prefix_rfl⟩, ?_⟩
    rw [compact_delta ext compactor store some_, if_neg hasDelta]
    exact stored.mono grown

theorem validatePublication_ok {previousManifest : OrchestrationManifest}
    {pointer previousPointer : OrchestrationManifestPointer} {version : Nat}
    (valid : validatePublication sums manifest previousManifest pointer (some (version, previousPointer)) = .ok ()) :
    (∃ id id', parseManifestId previousPointer.manifestId = .ok id ∧ parseManifestId pointer.manifestId = .ok id' ∧
      id < id') ∧ previousPointer.epoch ≤ pointer.epoch := by
  simp only [validatePublication] at valid
  cases manifests : manifest.validateSuccession previousManifest with
  | error message =>
    rw [manifests] at valid
    cases valid
  | ok _ =>
    rw [manifests] at valid
    replace valid : pointer.validateSuccession previousPointer (sums.pointerHash previousPointer) = .ok () := valid
    unfold OrchestrationManifestPointer.validateSuccession at valid
    cases first : parseManifestId previousPointer.manifestId with
    | error message =>
      rw [first] at valid
      cases valid
    | ok id =>
      cases second : parseManifestId pointer.manifestId with
      | error message =>
        rw [first, second] at valid
        cases valid
      | ok id' =>
        rw [first, second] at valid
        by_cases stays : id' ≤ id
        · simp [stays, bind, Except.bind] at valid
        · by_cases falls : pointer.epoch < previousPointer.epoch
          · simp [stays, falls, bind, Except.bind] at valid
          · exact ⟨⟨id, id', rfl, rfl, by omega⟩, by omega⟩

def Follows (ext : Externals) (s : Objects) (call : CompactorCall) (current : Current)
    (manifest : OrchestrationManifest) : Prop :=
  match current.previous with
  | some (_, pointer) =>
    manifest.previousManifestPath = some pointer.manifestPath ∧ Derives ext s call current.manifest manifest
  | none => (call.isEmpty = true ∧ manifest = current.manifest) ∨ Derives ext s call current.manifest manifest

theorem Follows.mono {s' : Objects} {call : CompactorCall} (follows : Follows ext s call current manifest)
    (later : s ≤ s') : Follows ext s' call current manifest := by
  obtain ⟨_, _ | ⟨_, _⟩⟩ := current
  · exact Or.imp id (fun derives => Derives.mono derives later) follows
  · exact ⟨follows.1, follows.2.mono later⟩

theorem safe_putPointer {conduct} {updatedAt : Timestamp} (known : current.Known s)
    (valid : validatePublication sums manifest current.manifest
      (successorPointer sums manifest current.previous updatedAt) current.previous = .ok ())
    (follows : Follows ext s label.call current manifest)
    (snapshot : s.At (.manifest (orchestrationManifestSnapshotPath manifest.manifestId)) 1 label manifest) :
    Keeps (Chain ext sums) conduct label
      (put ObjectPath.pointer (successorPointer sums manifest current.previous updatedAt)
        (match current.previous.map Prod.fst with
          | none => .doesNotExist
          | some version => .matchesVersion version) : CompactorM WriteResult) s := by
  refine safe_put (fun s₁ later₁ allowed => ⟨?_, trivial⟩) (fun _ _ _ => trivial)
  obtain ⟨previousManifest, _ | ⟨_, _⟩⟩ := current
  · have absent := allows_doesNotExist.mp allowed
    refine later₁.inv.publish (snapshot.mono later₁.le) rfl rfl (fun _ => ?_) fun author pointer manifest₀ visible found => ?_
    · exact ⟨previousManifest, known.mono later₁.le, follows.mono later₁.le⟩
    · exact absurd visible.1 (by omega)
  · obtain ⟨_, _, _, visible₀, found₀⟩ := known
    have unchanged := (allows_matchesVersion.mp allowed).1
    obtain ⟨_, current⟩ := visible₀.current later₁.le (by omega)
    refine later₁.inv.publish (snapshot.mono later₁.le) rfl rfl
      (fun absent => ?_) fun author pointer manifest₀ visible found => ?_
    · exact absurd current.1 (by omega)
    · obtain ⟨rfl, rfl⟩ := current.unique visible
      obtain ⟨_, rfl⟩ := (found₀.mono later₁.le).unique found
      obtain ⟨advances, epoch⟩ := validatePublication_ok valid
      exact ⟨follows.1, rfl, advances, epoch, follows.2.mono later₁.le⟩

theorem safe_publishManifest {conduct}
    (compactor : MicroCompactor) (fencingToken : Option Nat) (lockPath : Option String) (known : current.Known s)
    (follows : Follows ext s label.call current manifest) :
    Keeps (Chain ext sums) conduct label
      (publishManifest sums compactor fencingToken lockPath manifest current.manifest current.previous) s := by
  refine safe_bind safe_utcNow fun updatedAt s₁ later₁ => ?_
  refine safe_bind (safe_validateFencingLock _ _ _) fun _ s₂ later₂ => ?_
  have grown := later₁.le.trans later₂
  split
  · exact safe_throw _
  rename_i valid
  refine safe_bind (safe_create (.manifest (orchestrationManifestSnapshotPath manifest.manifestId)) manifest rfl)
    fun result s₃ ⟨later₃, written⟩ => ?_
  have grown := grown.trans later₃
  cases result with
  | preconditionFailed => exact safe_throw _
  | success version =>
    refine safe_pure_bind (safe_bind
      (safe_putPointer (known.mono grown) valid (follows.mono grown) (written version rfl)) fun result s₄ _ => ?_)
    cases result with
    | success version => exact safe_pure trivial
    | preconditionFailed =>
      cases compactor.durabilityMode with
      | visible => exact safe_throw _
      | persisted => exact safe_pure trivial

theorem updateWatermarks_congr {manifest' : OrchestrationManifest}
    (same : manifest'.watermarks = manifest.watermarks) (events : LedgerEvents)
    (lastEventId : String) (mode : DurabilityMode) (now : Timestamp) :
    (updateWatermarks manifest' events lastEventId mode now).2.watermarks =
      (updateWatermarks manifest events lastEventId mode now).2.watermarks := by
  unfold updateWatermarks
  rw [same]
  split
  · exact same
  split
  · exact same
  · rfl

theorem updateWatermarks_eq
    (lastEventId : String) (mode : DurabilityMode) (now : Timestamp) :
    (updateWatermarks manifest events lastEventId mode now).2 =
      { manifest with watermarks := (updateWatermarks manifest events lastEventId mode now).2.watermarks } := by
  unfold updateWatermarks
  split
  · rfl
  split <;> rfl

theorem Persisted.Of.mono {s' : Objects} {persisted : Persisted}
    (of : persisted.Of ext s compactor events store manifest) (later : s ≤ s') :
    persisted.Of ext s' compactor events store manifest := by
  obtain ⟨persist, keeps, after⟩ := of.compacts
  exact ⟨of.watermarks, persist, keeps, after.mono later⟩

theorem Persisted.Of.derives {persisted : Persisted} (of : persisted.Of ext s compactor events store manifest)
    (fencingToken : Option Nat) (lockPath : Option String) (stored : Stored s manifest store)
    (batched : Batched s paths events) (now : Timestamp) (manifestId : String)
    (previous : Option (Nat × OrchestrationManifestPointer)) (revisionUlid : String) (publishedAt : Timestamp) :
    Derives ext s (.compact compactor paths fencingToken lockPath) manifest
      ((updateWatermarks persisted.manifest (foldBatch ext compactor store events).events
        (foldBatch ext compactor store events).lastEventId compactor.durabilityMode now).2.advanced fencingToken
        manifestId previous revisionUlid publishedAt) := by
  obtain ⟨persist, keeps, after⟩ := of.compacts
  refine ⟨compactor, paths, fencingToken, lockPath, events, store, persist, rfl, batched, stored, ?_, ?_, now, ?_⟩
  · refine after.congr ?_ ?_ <;> rw [updateWatermarks_eq] <;> rfl
  · rw [updateWatermarks_eq]
    cases persist <;> exact keeps
  · exact updateWatermarks_congr of.watermarks _ _ _ _

theorem safe_publishBatch (isCall : label.call = .compact compactor paths fencingToken lockPath)
    (some_ : events ≠ []) (known : current.Known s) (stored : Stored s current.manifest store)
    (batched : Batched s paths events) :
    Keeps (Chain ext sums) conduct label
      (publishBatch sums compactor fencingToken lockPath current (foldBatch ext compactor store events)) s := by
  refine safe_bind (safe_persistBatch some_ stored) fun persisted s₁ ⟨later₁, of⟩ => ?_
  refine safe_bind safe_utcNow fun now s₂ later₂ => ?_
  dsimp only
  split
  case isFalse => exact safe_pure trivial
  split
  · exact safe_throw _
  rename_i manifestId _
  refine safe_bind safe_newUlid fun revisionUlid s₃ later₃ => ?_
  refine safe_bind safe_utcNow fun publishedAt s₄ later₄ => ?_
  have grown := later₂.le.trans (later₃.le.trans later₄.le)
  have derives := (of.mono grown).derives fencingToken lockPath (stored.mono (later₁.trans grown))
    (batched.mono (later₁.trans grown)) now manifestId current.previous revisionUlid publishedAt
  rw [← isCall] at derives
  refine safe_bind (safe_publishManifest compactor fencingToken lockPath (known.mono (later₁.trans grown)) ?_)
    fun _ _ _ => safe_pure trivial
  obtain ⟨_, _ | ⟨_, _⟩⟩ := current
  · exact .inr derives
  · exact ⟨rfl, derives⟩

theorem Batched.ne_nil (batched : Batched s paths events) (some_ : paths.isEmpty = false) : events ≠ [] := by
  rintro rfl
  cases batched
  cases some_

section

variable (isCall : label.call = .compact compactor paths fencingToken lockPath)
include isCall

theorem safe_compactOnce (s : Objects) :
    Keeps (Chain ext sums) conduct label (compactOnce ext sums compactor fencingToken lockPath paths) s := by
  refine safe_bind (safe_validateFencingLock _ _ _) fun _ s₁ _ => ?_
  refine safe_bind safe_readManifestWithVersion fun current s₂ ⟨_, known⟩ => ?_
  cases empty : paths.isEmpty with
  | true =>
    obtain ⟨_, _ | _⟩ := current
    · refine safe_bind (safe_publishManifest compactor fencingToken lockPath known (.inl ⟨?_, rfl⟩))
        fun _ _ _ => safe_pure trivial
      rwa [isCall]
    · exact safe_pure trivial
  | false =>
    refine safe_bind (safe_loadCurrentState _) fun store s₃ ⟨later₃, stored⟩ => ?_
    refine safe_bind (safe_readEvents compactor paths) fun events s₄ ⟨later₄, batched⟩ => ?_
    exact safe_publishBatch isCall (batched.ne_nil empty) (known.mono (later₃.trans later₄)) (stored.mono later₄) batched

theorem safe_compactEventsRetrying (retries : Nat) (s : Objects) : Keeps (Chain ext sums) conduct label
      (compactEventsRetrying ext sums compactor fencingToken lockPath paths retries) s := by
  induction retries generalizing s with
  | zero => exact safe_compactOnce isCall s
  | succ retries ih =>
    refine Program.Safe.bind (Program.Safe.mono (fun result s' _ => ?_) (safe_compactOnce isCall s))
    cases result with
    | ok result => trivial
    | error error =>
      dsimp only
      split
      · exact ih s'
      · trivial

end

theorem safe_appendEvent {conduct} (date : String) (event : OrchestrationEvent) :
    Keeps (Chain ext sums) conduct label (appendEvent date event) s :=
  safe_bind (safe_create (.ledger (orchestrationEventPath date event.eventId)) event rfl)
    fun _ _ _ => safe_pure trivial

theorem safe_writeLock {conduct} (lockInfo : Core.LockInfo) :
    Keeps (Chain ext sums) conduct label (writeLock lockInfo) s := by
  have written : ∀ conduct, Keeps (Chain ext sums) conduct label
      (put ObjectPath.lock lockInfo .none : CompactorM WriteResult) s := fun _ =>
    safe_put (fun s₁ later₁ _ => ⟨later₁.inv.write .lock lockInfo nofun nofun, trivial⟩) fun _ _ _ => trivial
  exact safe_bind (written _) fun _ _ _ => safe_pure trivial

theorem safe_program {conduct} (s : Objects) :
    Keeps (Chain ext sums) conduct label (label.call.program ext sums) s := by
  cases isCall : label.call with
  | compact compactor paths fencingToken lockPath =>
    exact safe_bind (safe_compactEventsRetrying isCall _ s) fun _ _ _ => safe_pure trivial
  | append date event =>
    exact safe_bind (safe_appendEvent date event) fun _ _ _ => safe_pure trivial
  | lock lockInfo => exact safe_bind (safe_writeLock lockInfo) fun _ _ _ => safe_pure trivial

end Compaction

abbrev CompactorWorld (P : Type) : Type := World Object Core.Answer CompactorOutcome CompactorCall P

section Runs

variable {ext : Externals} {sums : Checksums} {P : Type} [DecidableEq P]

theorem compactorProtocol_verified :
    (compactorProtocol ext sums).Verified (fun _ => Conduct.free) (Chain ext sums) (fun _ _ _ => True) where
  relyRefl _ _ _ := trivial
  relyTrans _ _ _ _ _ _ _ := trivial
  postStable _ _ _ _ _ _ _ := trivial
  calls _ _ s _ _ _ _ := Program.Safe.mono (fun _ _ _ => trivial) (safe_program s)

/-- A store without a visible manifest; it may hold a ledger, and the manifest of an old installation. -/
structure Bootstrap (s : Objects) (calls : Nat) : Prop where
  pointer : s.version .pointer = 0
  immutable : ∀ path, path.immutable = true → s.version path ≤ 1
  numbered : ∀ path version label value, s.At path version label value → label.id < calls

variable {s : Objects}

theorem Bootstrap.chain {calls : Nat} (bootstrap : Bootstrap s calls) : Chain ext sums s := by
  have none : ∀ version label pointer, ¬ s.At .pointer version label pointer := fun version label pointer visible => by
    have := visible.1
    have := visible.le
    have := bootstrap.pointer
    omega
  exact ⟨bootstrap.immutable, fun _ _ _ visible => absurd visible (none _ _ _),
    fun _ _ _ visible => absurd visible (none _ _ _), fun _ _ _ _ _ _ _ visible => absurd visible (none _ _ _)⟩

theorem sound_of_reaches {calls : Nat} (bootstrap : Bootstrap s calls) {w : CompactorWorld P}
    (reached : (compactorProtocol ext sums).Reaches (fun _ _ _ => True) { store := s, calls } w) :
    w.Sound (fun _ => Conduct.free) (Chain ext sums) (fun _ _ _ => True) :=
  (compactorProtocol_verified.reaches (Protocol.sound_initial bootstrap.chain bootstrap.numbered)
    (reached.mono fun _ _ _ _ => Protocol.respects_free _ _ _)).1

/-- Later pointers have larger ids and no smaller epochs. -/
def Ascending (s : Objects) : Prop :=
  ∀ version version' author author' pointer pointer', version < version' → s.At .pointer version author pointer →
    s.At .pointer version' author' pointer' →
    (∃ id id', parseManifestId pointer.manifestId = .ok id ∧ parseManifestId pointer'.manifestId = .ok id' ∧ id < id') ∧
      pointer.epoch ≤ pointer'.epoch

theorem Chain.ascending (chain : Chain ext sums s) : Ascending s := by
  intro version version' author author' pointer pointer' order visible visible'
  induction version', order using Nat.le_induction generalizing author' pointer' with
  | base =>
    obtain ⟨_, found, _⟩ := chain.published _ _ _ visible
    obtain ⟨manifest', found', _⟩ := chain.published _ _ _ visible'
    have succeeds := chain.succeeds _ _ _ _ _ _ _ visible found visible' found'
    exact ⟨succeeds.advances, succeeds.epoch⟩
  | succ between order ih =>
    have bound := visible'.le
    obtain ⟨author₁, pointer₁, visible₁⟩ := at_of_le (show 0 < between by omega)
      (show between ≤ s.version .pointer by omega)
    obtain ⟨⟨id, id₁, isId, isId₁, less⟩, epoch⟩ := ih author₁ pointer₁ visible₁
    obtain ⟨_, found₁, _⟩ := chain.published _ _ _ visible₁
    obtain ⟨_, found', _⟩ := chain.published _ _ _ visible'
    have succeeds := chain.succeeds _ _ _ _ _ _ _ visible₁ found₁ visible' found'
    obtain ⟨id₁', id', isId₁', isId', less'⟩ := succeeds.advances
    obtain rfl : id₁ = id₁' := by simpa [isId₁] using isId₁'
    exact ⟨⟨id, id', isId, isId', less.trans less'⟩, epoch.trans succeeds.epoch⟩

/-- In every run of any number of compactors, each visible manifest was derived from exactly the one
that was visible before it. -/
theorem visible_manifests_form_a_chain {s : Objects} {calls : Nat} (bootstrap : Bootstrap s calls) {w : CompactorWorld P}
    (reached : (compactorProtocol ext sums).Reaches (fun _ _ _ => True) { store := s, calls } w) :
    Chain ext sums w.store ∧ Ascending w.store :=
  ⟨(sound_of_reaches bootstrap reached).holds, (sound_of_reaches bootstrap reached).holds.ascending⟩

end Runs

def Checksums.constant : Checksums where
  pointerHash _ := "pointer"
  tablesChecksum _ := "tables"

def MicroCompactor.sample : MicroCompactor := { tenantId := "tenant", workspaceId := "workspace" }

abbrev sampleProtocol := compactorProtocol .constant .constant

def callWith (ulid : String) (call : CompactorCall) :
    CompactorCall × Answers Core.Answer := (call, fun _ => Core.always 0 ulid)

def runTriggeredAs (eventId runId : String) : OrchestrationEvent :=
  .sample eventId (.runTriggered { runId, planId := "plan" })

def twoCompactions : List (CompactorCall × Answers Core.Answer) :=
  [callWith "" (.append "2026-01-01" (runTriggeredAs "01" "r1")),
   callWith "a" (.compact .sample [orchestrationEventPath "2026-01-01" "01"] none none),
   callWith "" (.append "2026-01-01" (runTriggeredAs "02" "r2")),
   callWith "b" (.compact .sample [orchestrationEventPath "2026-01-01" "02"] none none)]

theorem bootstrap_empty : Bootstrap {} 0 where
  pointer := rfl
  immutable _ _ := Nat.zero_le 1
  numbered _ _ _ _ found := by simp [At] at found

theorem visible_manifests_form_a_chain_twoCompactions :
    ∃ w : CompactorWorld Unit, sampleProtocol.Reaches (fun _ _ _ => True) { store := {} } w ∧
      w.store.version .pointer = 2 ∧ Chain .constant .constant w.store ∧ Ascending w.store := by
  have reached : sampleProtocol.Reaches (fun _ _ _ => True) { store := {} }
      (sampleProtocol.alone () { store := {} } twoCompactions) :=
    Protocol.reaches_alone _ () (fun _ _ => rfl) (fun _ _ _ _ => trivial) _ rfl
  exact ⟨_, reached, rfl, visible_manifests_form_a_chain bootstrap_empty reached⟩

end Arco.Flow
