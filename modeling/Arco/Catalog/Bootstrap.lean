import Arco.Catalog.Compaction

/-! What the writer of the catalog domain does with manifests: the first one, and direct updates.

In a workspace that was set up by this code no chain of manifests leads back to the one manifest of an
old installation, so nothing is ever repaired.
-/

namespace Arco.Catalog.Tier1

open Storage
open Arco.Core (Timestamp)
open Arco.Flow (initialManifestId)
open Fallible Store

variable {W : Type} {sums : Checksums} {extra : Objects W → Prop} {terms : Terms Object Question W} {label : W}
  {kept : Objects W → Prop} {s : Objects W}

section Update

variable (setting : Setting sums extra terms label kept) {writerEpoch : Nat}

include setting

theorem meets_readForUpdate (valid : Valid sums extra s) (mind : kept s) :
    setting.Meets (fun visible s' => kept s' ∧ Known s' visible ∧
      visible.pointer.epoch ≤ writerEpoch) (readForUpdate writerEpoch) s := by
  refine (setting.frame.meets_head mind).mapError.seq valid fun head s₁ later₁ valid₁ looked => ?_
  obtain ⟨mind₁, read⟩ := looked
  cases head with
  | none => exact meets_throw _
  | some version =>
    obtain ⟨isVersion, _⟩ := head_eq_some.mp read
    refine (setting.frame.meets_get mind₁).mapError.seq valid₁ fun pointer s₂ later₂ valid₂ got => ?_
    obtain ⟨mind₂, author, current⟩ := got
    split
    · exact meets_throw _
    · rename_i fresh
      refine (meets_getRaw setting mind₂ rfl).mapError.seq valid₂ fun manifest s₃ later₃ valid₃ got => ?_
      obtain ⟨mind₃, held⟩ := got
      have order := version_mono later₂ .pointer
      exact meets_pure ⟨mind₃, ⟨⟨_, author, isVersion ▸ order, current.mono later₃⟩, held⟩, Nat.le_of_not_lt fresh⟩

theorem meets_prepareUpdate (valid : Valid sums extra s) (mind : kept s) (visible : Visible)
    (update : CatalogDomainManifest → Except CatalogError CatalogDomainManifest) :
    setting.Meets (fun result s' => kept s' ∧
      Linked sums visible.pointer.manifestPath visible.manifest result.1)
      (prepareUpdate sums writerEpoch visible update) s := by
  refine meets_ofExcept_bind fun manifest _ => ?_
  refine (meets_ask setting mind .now).seq valid fun updatedAt s₁ _ valid₁ mind₁ => ?_
  refine (meets_ask setting mind₁ .ulid).seq valid₁ fun sessionId s₂ _ valid₂ mind₂ => ?_
  refine (meets_ask setting mind₂ .ulid).seq valid₂ fun candidate s₃ _ valid₃ mind₃ => ?_
  refine meets_checked fun commitUlid _ => ?_
  refine (meets_nextAvailableManifestId setting valid₃ mind₃ _).seq valid₃ fun manifestId s₄ _ valid₄ ⟨mind₄, number⟩ => ?_
  refine meets_checked fun _ validated => ?_
  refine (meets_ask setting mind₄ .now).seq valid₄ fun createdAt s₅ _ valid₅ mind₅ => meets_pure ⟨mind₅, ?_⟩
  have advances := CatalogDomainManifest.advances_of_validateSuccession validated
  exact ⟨rfl, rfl, ⟨advances.manifestId, advances.epoch, advances.snapshotVersion⟩, number⟩

variable (publish : ∀ s visible pointer manifest, Valid sums extra s → kept s → terms.puts .pointer pointer s →
  Ready sums s writerEpoch 0 visible pointer manifest → extra (s.write .pointer label pointer))

include publish

theorem meets_publishUpdate (valid : Valid sums extra s) (mind : kept s) {visible : Visible} (known : Known s visible)
    (fenced : visible.pointer.epoch ≤ writerEpoch) {manifest : CatalogDomainManifest}
    (linked : Linked sums visible.pointer.manifestPath visible.manifest manifest) (updatedAt : Timestamp) :
    setting.Meets (fun _ _ => True)
      (publishUpdate visible manifest (visible.successorPointer sums writerEpoch manifest updatedAt)) s := by
  obtain ⟨_, _, _, isNumber, _⟩ := linked.number
  refine (meets_putManifest setting mind isNumber (by omega)).seq valid fun result s₁ later₁ valid₁ written => ?_
  cases result with
  | preconditionFailed version => exact meets_throw _
  | success version =>
    obtain ⟨s₀, _, _, mind₀, _, allowed, _, rfl⟩ := written
    have held : Holds _ (.manifest _) manifest :=
      holds_write_self (s := s₀) label (allows_doesNotExist.mp allowed) manifest
    have mind₁ := setting.frame.write s₀ (.manifest (CatalogDomain.catalog.manifestSnapshot manifest.manifestId))
      manifest (by simp) mind₀
    refine meets_pure_bind ?_
    refine (setting.frame.meets_put mind₁ fun s' later valid' mind' puts allowed => ?_).seq valid₁
      fun result s₂ _ _ _ => ?_
    · have isReady : Ready sums s' writerEpoch 0 visible (visible.successorPointer sums writerEpoch manifest updatedAt)
          manifest := {
        known := known.mono (later₁.trans later)
        current := (allows_matchesVersion.mp allowed).1
        start := Nat.zero_le _
        fenced := fenced
        epoch := rfl
        held := held.mono later
        sameId := rfl
        linked := linked }
      exact ⟨isReady.chain valid'.1 label, publish s' visible _ manifest valid' mind' puts isReady⟩
    · cases result with
      | success version => exact meets_pure trivial
      | preconditionFailed version => exact meets_throw _

theorem meets_updateInner (always : ∀ s, kept s) (valid : Valid sums extra s)
    (update : CatalogDomainManifest → Except CatalogError CatalogDomainManifest) (attempts : Nat) :
    setting.Meets (fun _ _ => True) (updateInner sums writerEpoch update attempts) s := by
  induction attempts generalizing s with
  | zero => exact meets_throw _
  | succ attempts ih =>
    refine (meets_readForUpdate setting valid (always s)).seq valid fun visible s₁ _ valid₁ ⟨mind₁, known, fenced⟩ => ?_
    refine (meets_prepareUpdate setting valid₁ mind₁ visible update).seq valid₁
      fun result s₂ later₂ valid₂ ⟨mind₂, linked⟩ => ?_
    refine (meets_ask setting mind₂ .now).seq valid₂ fun updatedAt s₃ later₃ valid₃ mind₃ => ?_
    have known₃ := known.mono (later₂.trans later₃)
    refine (meets_publishUpdate setting publish valid₃ mind₃ known₃ fenced linked updatedAt).attempt.seq valid₃
      fun outcome s₄ _ valid₄ _ => ?_
    split
    · exact meets_pure trivial
    · exact meets_throw _
    · split
      · exact meets_throw _
      · exact ih valid₄
    · exact meets_throw _

end Update

def Published (s : Objects W) (path : String) (manifest : CatalogDomainManifest) : Prop :=
  ∃ version author pointer, s.At .pointer version author pointer ∧ pointer.manifestPath = path ∧
    Holds s (.manifest path) manifest

variable {manifest : CatalogDomainManifest}

theorem Published.mono {s' : Objects W} {path : String} (published : Published s path manifest)
    (later : s ≤ s') : Published s' path manifest := by
  obtain ⟨version, author, pointer, found, isPath, held⟩ := published
  exact ⟨version, author, pointer, found.mono later, isPath, held.mono later⟩

theorem Chain.previous (chain : Chain sums s) {path previous : String} (published : Published s path manifest)
    (isPrevious : manifest.previousManifestPath = some previous) :
    isLegacyDomainManifestPath previous = false ∧ previous ≠ path ∧
      ∀ manifest', Holds s (.manifest previous) manifest' → Published s previous manifest' := by
  obtain ⟨_, author, pointer, found, rfl, held⟩ := published
  obtain rfl | ⟨before, author', pointer', rfl, found'⟩ := Chain.first_or_later found
  · obtain ⟨⟨_, rfl⟩, _⟩ := chain.first author pointer found
    obtain ⟨_, rfl⟩ := chain.initial manifest held
    cases isPrevious
  · obtain ⟨manifest', _, held', held'', _, linked⟩ :=
      chain.linked before author' pointer' author pointer found' found
    obtain rfl := held.unique held''
    obtain rfl : previous = pointer'.manifestPath := by simpa [linked.previousManifestPath, eq_comm] using isPrevious
    obtain ⟨isPath, _, isNumber⟩ := chain.named _ manifest' held'
    obtain ⟨isPath', _⟩ := chain.named _ manifest held
    refine ⟨isPath ▸ isLegacyDomainManifestPath_manifestSnapshot isNumber, fun same => ?_, fun other held => ?_⟩
    · obtain ⟨_, _, isNumber₁, isNumber₂, _⟩ := linked.number
      rw [isPath, isPath'] at same
      rw [manifestSnapshot_injective same] at isNumber₁
      have := isNumber₁.unique isNumber₂
      omega
    · exact ⟨before, author', pointer', found', rfl, held⟩

section Initialization

variable (setting : Setting sums extra terms label fun _ => True)

include setting

theorem meets_reachesLegacyHead (valid : Valid sums extra s) {path : String} {manifest : CatalogDomainManifest}
    (published : Published s path manifest) (fuel : Nat) (visited : List String) :
    setting.Meets (fun result _ => result = false) (reachesLegacyHead fuel visited path manifest) s := by
  induction fuel generalizing s visited path manifest with
  | zero => exact meets_throw _
  | succ fuel ih =>
    unfold reachesLegacyHead
    split
    · exact meets_pure rfl
    · rename_i previous isPrevious
      obtain ⟨notLegacy, other, _⟩ := valid.1.previous published isPrevious
      rw [notLegacy, if_neg (by simpa using other)]
      split
      · exact meets_pure rfl
      · refine (meets_findRaw setting trivial rfl).mapError.seq valid fun found s₁ later₁ valid₁ known => ?_
        cases found with
        | none => exact meets_pure rfl
        | some manifest' =>
          obtain ⟨_, _, earlier'⟩ := valid₁.1.previous (published.mono later₁) isPrevious
          exact ih valid₁ (earlier' manifest' (known.2.1 manifest' rfl)) _

theorem meets_repairLegacyCatalogManifestHistory (valid : Valid sums extra s) (writerEpoch fuel : Nat) :
    setting.Meets (fun _ _ => True) (repairLegacyCatalogManifestHistory sums writerEpoch fuel) s := by
  refine (setting.frame.meets_head trivial).mapError.seq valid fun head s₁ later₁ valid₁ _ => ?_
  cases head with
  | none => exact meets_pure trivial
  | some version =>
    refine (setting.frame.meets_get trivial).mapError.seq valid₁ fun pointer s₂ later₂ valid₂ ⟨_, author, current⟩ => ?_
    refine (meets_getRaw setting trivial rfl).mapError.seq valid₂ fun manifest s₃ later₃ valid₃ ⟨_, held⟩ => ?_
    have published : Published s₃ pointer.manifestPath manifest := ⟨_, author, pointer, current.mono later₃, rfl, held⟩
    refine (meets_reachesLegacyHead setting valid₃ published fuel _).seq valid₃ fun result s₄ _ _ isFalse => ?_
    subst isFalse
    exact meets_pure trivial

theorem meets_ensureExists {path : ObjectPath} {value : Object path}
    (written : ∀ s', s ≤ s' → Valid sums extra s' → s'.version path = 0 → Valid sums extra (s'.write path label value)) :
    setting.Meets (fun _ s' => 0 < s'.version path) (ensureExists path value) s := by
  refine ⟨fun conduct honors => ?_⟩
  refine safe_bind ((setting.frame.meets_put trivial fun s' later valid' _ _ allowed =>
    written s' later valid' (allows_doesNotExist.mp allowed)).mapError.safe _ (honors.under _)) fun result s' outcome => ?_
  refine safe_pure ?_
  cases result with
  | success version =>
    obtain ⟨_, _, _, _, _, _, _, rfl⟩ := outcome
    rw [version_write_self]
    exact Nat.succ_pos _
  | preconditionFailed version =>
    refine Nat.pos_of_ne_zero fun absent => ?_
    have refused := outcome.2
    rw [allows_doesNotExist.mpr absent] at refused
    cases refused

variable (first : ∀ s updatedAt, Valid sums extra s → s.version .pointer = 0 →
    (∃ manifest, Holds s (.manifest (CatalogDomain.catalog.manifestSnapshot initialManifestId)) manifest) →
    extra (s.write .pointer label { updatedAt }))

include first

theorem meets_bootstrapTier1Manifest (valid : Valid sums extra s) (legacyRootPath : String) :
    setting.Meets (fun _ _ => True) (bootstrapTier1Manifest legacyRootPath) s := by
  refine (setting.frame.meets_head trivial).mapError.seq valid fun head s₁ later₁ valid₁ _ => ?_
  cases head with
  | some version => exact meets_pure trivial
  | none =>
    refine (meets_findRaw setting trivial rfl).mapError.seq valid₁ fun found s₂ later₂ valid₂ known => ?_
    cases found with
    | some manifest =>
      obtain ⟨isPath, _, isNumber⟩ := valid₂.1.named _ manifest (known.2.1 manifest rfl)
      exact absurd isPath (legacyManifestCandidatePath_ne isNumber legacyRootPath)
    | none =>
      refine (meets_ask setting trivial .now).seq valid₂ fun updatedAt s₃ _ valid₃ _ => ?_
      refine (meets_ensureExists setting fun s' _ valid' absent => ⟨?_, ?_⟩).seq valid₃ fun _ s₄ _ valid₄ exists₄ => ?_
      · exact valid'.1.write_manifest label { updatedAt } absent ⟨0, isNumber_initialManifestId⟩ fun _ => ⟨updatedAt, rfl⟩
      · exact setting.manifests s' _ _ valid' absent
      · refine (meets_ask setting trivial .now).seq valid₄ fun updatedAt' s₅ later₅ valid₅ _ => ?_
        obtain ⟨author, manifest, found⟩ := at_of_le (s := s₄) (k := ObjectPath.manifest _) Nat.one_pos exists₄
        refine (meets_ensureExists setting fun s' later valid' absent => ⟨?_, ?_⟩).mono fun _ _ _ => trivial
        · exact valid'.1.write_first label absent ⟨manifest, author, found.mono (later₅.trans later)⟩
        · exact first s' updatedAt' valid' absent ⟨manifest, author, found.mono (later₅.trans later)⟩

theorem meets_initializeCatalog (roots : ∀ s root, Valid sums extra s → extra (s.write .root label root))
    (valid : Valid sums extra s) (writerEpoch fuel : Nat) :
    setting.Meets (fun _ _ => True) (initializeCatalog sums writerEpoch fuel) s := by
  refine (setting.frame.meets_find trivial).mapError.seq valid fun root s₁ _ valid₁ _ => ?_
  refine (meets_bootstrapTier1Manifest setting first valid₁ _).seq valid₁ fun _ s₂ _ valid₂ _ => ?_
  refine (setting.frame.meets_put trivial fun s' _ valid' _ _ _ => ?_).mapError.seq valid₂ fun _ s₃ _ valid₃ _ => ?_
  · exact ⟨valid'.1.write .root label _ (by simp) (by simp) (by simp [ObjectPath.immutable]), roots s' _ valid'⟩
  · exact meets_repairLegacyCatalogManifestHistory setting valid₃ writerEpoch fuel

end Initialization

end Arco.Catalog.Tier1
