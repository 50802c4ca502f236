import Arco.Catalog.Compaction

/-! Event ids and what is appended to the ledger of the catalog domain. -/

namespace Arco.Catalog.Tier1

open Storage Fallible List Option CatalogDomain

theorem lt_generateAfter {ulids : Ulids} {candidate watermark id : EventId}
    (next : generateAfter ulids candidate (some watermark) = some id) :
    watermark.text < id.text := by
  rw [generateAfter] at next
  split at next
  · rename_i above
    obtain rfl := some.inj next
    exact above
  · exact ulids.lt_increment next

theorem le_maxEventId {first second : Option EventId} {id : EventId} (member : id ∈ first ∨ id ∈ second) :
    ∃ floor ∈ maxEventId first second, id.text ≤ floor.text := by
  cases first with
  | none =>
    cases second with
    | none => simp at member
    | some b =>
      obtain rfl : b = id := by simpa using member
      exact ⟨b, rfl, le_rfl⟩
  | some a =>
    cases second with
    | none =>
      obtain rfl : a = id := by simpa using member
      exact ⟨a, rfl, le_rfl⟩
    | some b =>
      refine ⟨_, rfl, ?_⟩
      split
      · rename_i above
        rcases member with isFirst | isSecond
        · obtain rfl : a = id := by simpa using isFirst
          exact above.le
        · obtain rfl : b = id := by simpa using isSecond
          exact le_rfl
      · rename_i below
        rcases member with isFirst | isSecond
        · obtain rfl : a = id := by simpa using isFirst
          exact le_rfl
        · obtain rfl : b = id := by simpa using isSecond
          exact not_lt.mp below

theorem eventIdFromPath_ledgerEvent (id : EventId) :
    eventIdFromPath (catalog.ledgerEvent id.text) = some id.text := by
  have noSlash : ∀ c ∈ (id.text.toList ++ ".json".toList).reverse, decide (c ≠ '/') = true := by
    intro c member
    rw [mem_reverse, mem_append] at member
    rw [decide_eq_true_eq]
    rintro rfl
    rcases member with isDigit | isEnding
    · exact absurd (id.isAlphanum_of_mem isDigit) (by decide)
    · exact absurd isEnding (by decide)
  have chars : (catalog.ledgerEvent id.text).toList =
      "ledger/catalog".toList ++ '/' :: (id.text.toList ++ ".json".toList) := by
    simp only [ledgerEvent, asStr]
    simp [toString]
  have isName : Text.afterLast '/' (catalog.ledgerEvent id.text) =
      String.ofList (id.text.toList ++ ".json".toList) := by
    have reversed : ("ledger/catalog".toList ++ '/' :: (id.text.toList ++ ".json".toList)).reverse =
        (id.text.toList ++ ".json".toList).reverse ++ '/' :: "ledger/catalog".toList.reverse := by
      rw [reverse_append, reverse_cons, append_assoc, singleton_append]
    rw [Text.afterLast, chars, reversed, takeWhile_append_of_pos noSlash, takeWhile_cons_of_neg (by decide),
      append_nil, reverse_reverse]
  rw [eventIdFromPath, isName, Text.stripSuffix]
  have nameChars := String.toList_ofList (l := id.text.toList ++ ".json".toList)
  rw [nameChars, if_pos (isSuffixOf_iff_suffix.mpr (suffix_append _ _)), length_append, Nat.add_sub_cancel,
    take_left, String.ofList_toList]

section Appending

variable {W : Type} {sums : Checksums} {extra : Objects W → Prop} {terms : Terms Object Question W} {label : W}
  {kept : Objects W → Prop} {s : Objects W} (setting : Setting sums extra terms label kept)

include setting

section

variable (valid : Valid sums extra s) (mind : kept s)
include valid mind

theorem meets_readManifest : setting.Meets (fun manifest s' => kept s' ∧ ∃ version author pointer,
      s.version .pointer ≤ version ∧ s'.At .pointer version author pointer ∧
      Holds s' (.manifest pointer.manifestPath) manifest) readManifest s := by
  refine (setting.frame.meets_get mind).mapError.seq valid fun root s₁ later₁ valid₁ ⟨mind₁, _⟩ => ?_
  refine (setting.frame.meets_get mind₁).mapError.seq valid₁ fun pointer s₂ later₂ valid₂ ⟨mind₂, author, current⟩ => ?_
  have read := meets_getRaw setting mind₂ (show (ObjectPath.manifest pointer.manifestPath).immutable = true from rfl)
  refine (read.remember valid₂).mapError.mono ?_
  rintro _ _ ⟨later₃, _, mind₃, held⟩
  have order := Store.version_mono (later₁.trans later₂) .pointer
  exact ⟨mind₃, s₂.version .pointer, author, pointer, order, current.mono later₃, held⟩

theorem meets_currentWatermarkEventId :
    setting.Meets (fun watermark s' => kept s' ∧ ∃ version author pointer manifest,
      s.version .pointer ≤ version ∧ s'.At .pointer version author pointer ∧
      Holds s' (.manifest pointer.manifestPath) manifest ∧ manifest.watermarkEventId = watermark.map EventId.text)
      (currentWatermarkEventId sums.toUlids) s := by
  refine (meets_readManifest setting valid mind).seq valid fun manifest s₁ _ _
    ⟨mind₁, version, author, pointer, order, found, held⟩ => ?_
  split
  · rename_i isNone
    exact meets_pure ⟨mind₁, version, author, pointer, manifest, order, found, held, isNone⟩
  · rename_i text isText
    split
    · rename_i id parsed
      refine meets_pure ⟨mind₁, version, author, pointer, manifest, order, found, held, ?_⟩
      rw [isText, map_some, sums.parse_text parsed]
    · exact meets_throw _

theorem meets_newEventId (floor : Option EventId) :
    setting.Meets (fun id s' => kept s' ∧ ∀ below ∈ floor, below.text < id.text)
      (newEventId sums.toUlids floor) s := by
  refine (meets_ask setting mind .ulid).seq valid fun candidate s₁ _ _ mind₁ => ?_
  split
  · rename_i id isNext
    refine meets_pure ⟨mind₁, fun below isFloor => ?_⟩
    obtain rfl : floor = some below := isFloor
    exact lt_generateAfter isNext
  · exact meets_throw _

end

def Recorded (s : Objects W) (event : CatalogEvent) (id : EventId) : Prop :=
  ∃ stored : CatalogEvent, Holds s (.ledger (catalog.ledgerEvent id.text)) stored ∧
    stored.payload.eventVersion = event.payload.eventVersion ∧ stored.idempotencyKey = event.idempotencyKey

theorem meets_appendAttempts {event : CatalogEvent}
    (appends : ∀ (s : Objects W) (id : EventId), Valid sums extra s → kept s →
      terms.puts (.ledger (catalog.ledgerEvent id.text)) event s →
      s.version (.ledger (catalog.ledgerEvent id.text)) = 0 →
      extra (s.write (.ledger (catalog.ledgerEvent id.text)) label event))
    (valid : Valid sums extra s) (mind : kept s) (attempts : Nat) (id : EventId) :
    setting.Meets (fun id' s' => kept s' ∧ id.text ≤ id'.text ∧ Recorded s' event id')
      (appendAttempts sums.toUlids event attempts id) s := by
  induction attempts generalizing s id with
  | zero => exact meets_throw _
  | succ attempts ih =>
    refine (setting.frame.meets_put mind fun s' _ valid' mind' puts allowed => ?_).mapError.seq valid
      fun result s₁ later₁ valid₁ written => ?_
    · have absent := Store.allows_doesNotExist.mp allowed
      exact ⟨valid'.1.write (.ledger _) label event (by simp) (by simp) fun _ => absent, appends s' id valid' mind' puts absent⟩
    · cases result with
      | success version =>
        obtain ⟨s₀, _, _, mind₀, _, allowed, _, rfl⟩ := written
        have held : Holds _ (.ledger _) event :=
          holds_write_self (s := s₀) label (Store.allows_doesNotExist.mp allowed) event
        have mind₁ := setting.frame.write s₀ (.ledger (catalog.ledgerEvent id.text)) event (by simp) mind₀
        exact meets_pure ⟨mind₁, le_rfl, event, held, rfl, rfl⟩
      | preconditionFailed version =>
        refine (meets_getRaw setting written.1 rfl).mapError.seq valid₁ fun existing s₂ _ valid₂ read => ?_
        obtain ⟨mind₂, held⟩ := read
        split
        · rename_i same
          exact meets_pure ⟨mind₂, le_rfl, existing, held, same⟩
        · refine (meets_newEventId setting valid₂ mind₂ (some id)).seq valid₂ fun next s₃ _ valid₃ minted => ?_
          obtain ⟨mind₃, above⟩ := minted
          refine (ih valid₃ mind₃ next).mono fun id' s' appended => ?_
          obtain ⟨mind', higher, recorded⟩ := appended
          exact ⟨mind', (above id rfl).le.trans higher, recorded⟩

/-- The id of an event is above a watermark that is visible while the call runs. -/
theorem meets_appendLedgerEventAfter (payload : ParsedCatalogDdlEvent) (source : String)
    (appends : ∀ (s : Objects W) (id : EventId), Valid sums extra s → kept s →
      terms.puts (.ledger (catalog.ledgerEvent id.text))
        ({ payload, idempotencyKey := sums.idempotencyKey payload, source } : CatalogEvent) s →
      s.version (.ledger (catalog.ledgerEvent id.text)) = 0 →
      extra (s.write (.ledger (catalog.ledgerEvent id.text)) label
        ({ payload, idempotencyKey := sums.idempotencyKey payload, source } : CatalogEvent)))
    (valid : Valid sums extra s) (mind : kept s) (previousEventId : Option EventId) :
    setting.Meets (fun id s' => kept s' ∧
      Recorded s' { payload, idempotencyKey := sums.idempotencyKey payload, source } id ∧
      ∃ version author pointer manifest, s.version .pointer ≤ version ∧ s'.At .pointer version author pointer ∧
        Holds s' (.manifest pointer.manifestPath) manifest ∧ ∀ text ∈ manifest.watermarkEventId, text < id.text)
      (appendLedgerEventAfter sums payload source previousEventId) s := by
  refine meets_checked fun _ _ => ?_
  refine (meets_currentWatermarkEventId setting valid mind).seq valid fun watermark s₁ later₁ valid₁
    ⟨mind₁, version, author, pointer, manifest, order, found, held, isWatermark⟩ => ?_
  refine (meets_newEventId setting valid₁ mind₁ _).seq valid₁ fun id s₂ later₂ valid₂ ⟨mind₂, above⟩ => ?_
  refine ((meets_appendAttempts setting appends valid₂ mind₂ 1024 id).remember valid₂).mono ?_
  rintro _ _ ⟨later₃, _, mind₃, higher, recorded⟩
  refine ⟨mind₃, recorded, version, author, pointer, manifest, order, found.mono (later₂.trans later₃),
    held.mono (later₂.trans later₃), fun text isText => ?_⟩
  rw [isWatermark] at isText
  obtain ⟨_, isBelow, rfl⟩ := mem_map.mp isText
  obtain ⟨floor, isFloor, le⟩ := le_maxEventId (.inl isBelow)
  exact lt_of_le_of_lt le (lt_of_lt_of_le (above floor isFloor) higher)

end Appending

end Arco.Catalog.Tier1
