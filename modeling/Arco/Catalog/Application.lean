import Arco.Catalog.Succession

/-! Which events of the ledger the visible catalog comes from.

A manifest only keeps the largest id of the events that were compacted for it. Later requests are
filtered by this watermark, so an event with a smaller id that was not part of a compaction is taken
for one that was. As long as no compaction passes over an event of the ledger, and events are appended
above the watermark, every event of a request that is answered without an error is applied.
-/

namespace Arco.Catalog.Tier1

open Storage Arco.Flow List Store CatalogOutcome CatalogDomain

/-! ## Histories of appends and compactions -/

def CatalogCall.isDirect : CatalogCall → Bool
  | .update _ _ _ => true
  | .initializeCatalog _ _ | .syncCompact _ _ | .append _ _ _ | .lock _ => false

def ledgerProtocol (sums : Checksums) : Protocol Object Answer CatalogOutcome CatalogCall where
  program := CatalogCall.program sums
  follows _ call := !call.isDirect

def CatalogCall.eventPaths : CatalogCall → List String
  | .syncCompact _ eventPaths => eventPaths
  | .initializeCatalog _ _ | .update _ _ _ | .append _ _ _ | .lock _ => []

abbrev LedgerObjects : Type := Objects (Label CatalogCall)

/-- The catalog at a version of the pointer: its manifest, its state, and the paths of the events that
the state comes from, in the order of their application. -/
inductive Derived (s : LedgerObjects) : Nat → CatalogDomainManifest → CatalogState → List String → Prop where
  | first {author : Label CatalogCall} {pointer : DomainManifestPointer} {manifest : CatalogDomainManifest}
      {state : CatalogState} (found : s.At .pointer 1 author pointer)
      (held : Holds s (.manifest pointer.manifestPath) manifest)
      (snapshot : Snapshot s manifest.snapshotPath state) : Derived s 1 manifest state []
  | next {version : Nat} {previous manifest : CatalogDomainManifest} {before after : CatalogState}
      {applied requested : List String} {author : Label CatalogCall} {pointer : DomainManifestPointer}
      {events : List ParsedCatalogDdlEvent} {record : CatalogCommitRecord}
      (derived : Derived s version previous before applied) (found : s.At .pointer (version + 1) author pointer)
      (held : Holds s (.manifest pointer.manifestPath) manifest)
      (validated : validatePaths author.call.eventPaths = .ok requested)
      (batched : Batched s (previous.unapplied requested) events)
      (isApplied : before.applyAll events = .ok after)
      (snapshot : Snapshot s manifest.snapshotPath { after with commits := after.commits ++ [record] }) :
      Derived s (version + 1) manifest { after with commits := after.commits ++ [record] }
        (applied ++ previous.unapplied requested)

/-- The event at a path is one of those that the visible state comes from. -/
def Applied (s : LedgerObjects) (path : String) : Prop :=
  ∃ manifest state applied, Derived s (s.version .pointer) manifest state applied ∧ path ∈ applied

def Logged (s : LedgerObjects) (path : String) : Prop := ∃ event : CatalogEvent, Holds s (.ledger path) event

def visibleWatermark (s : LedgerObjects) : Option String :=
  (s.get .pointer).bind fun pointer => (s.get (.manifest pointer.manifestPath)).bind
    CatalogDomainManifest.watermarkEventId

/-- No event of the ledger is passed over: those before the end of a request are part of it or were
applied before. -/
def Covers (s : LedgerObjects) (requested : List String) : Prop :=
  ∀ path last id lastId, Logged s path → last ∈ requested → Logged s last → eventIdFromPath path = some id →
    eventIdFromPath last = some lastId → id ≤ lastId → path ∈ requested ∨ Applied s path

/-- A call that is about to replace the pointer passes over no event; an event that is about to be
appended comes after the watermark; no storage error is taken for an empty file. -/
def Proceeds (call : CatalogCall) : Program Object Answer CatalogOutcome → LedgerObjects → Prop
  | .put .pointer _ _ _, s => Covers s call.eventPaths
  | .put (.ledger path) _ _ _, s => ∀ watermark ∈ visibleWatermark s, ∀ id ∈ eventIdFromPath path, watermark < id
  | .ask .unreadable _, _ => False
  | _, _ => True

def Orderly {P : Type} (w : CatalogWorld P) : Action Answer CatalogCall P → Prop
  | .step p _ _ =>
    match w.party p with
    | .running label rest => Proceeds label.call rest w.store
    | .idle _ => True
  | .start _ _ | .crash _ => True

/-! ## Derivations -/

namespace Derived

variable {s s' : LedgerObjects} {version : Nat} {manifest : CatalogDomainManifest} {state : CatalogState}
  {applied : List String}

section

variable (derived : Derived s version manifest state applied)
include derived

theorem mono (later : s ≤ s') : Derived s' version manifest state applied := by
  induction derived with
  | first found held snapshot => exact .first (found.mono later) (held.mono later) (snapshot.mono later)
  | next _ found held validated batched isApplied snapshot ih =>
    exact .next ih (found.mono later) (held.mono later) validated (batched.mono later) isApplied (snapshot.mono later)

theorem pointer :
    ∃ author pointer, s.At .pointer version author pointer ∧ Holds s (.manifest pointer.manifestPath) manifest ∧
      Snapshot s manifest.snapshotPath state := by
  cases derived with
  | first found held snapshot | next _ found held _ _ _ snapshot => exact ⟨_, _, found, held, snapshot⟩

theorem positive : 0 < version := by
  obtain ⟨_, _, found, _⟩ := derived.pointer
  exact found.1

theorem le_version : version ≤ s.version .pointer := by
  obtain ⟨_, _, found, _⟩ := derived.pointer
  exact found.le

end

variable {manifest' : CatalogDomainManifest} {state' : CatalogState} {applied' : List String}

section

variable (left : Derived s version manifest state applied)
include left

theorem unique_state (right : Derived s version manifest' state' applied') :
    manifest = manifest' ∧ state = state' := by
  obtain ⟨_, _, found, held, snapshot⟩ := left.pointer
  obtain ⟨_, _, found', held', snapshot'⟩ := right.pointer
  obtain ⟨_, rfl⟩ := found.unique found'
  obtain rfl := held.unique held'
  exact ⟨rfl, snapshot.unique snapshot'⟩

theorem unique (right : Derived s version manifest' state' applied') : applied = applied' := by
  induction left generalizing manifest' state' applied' with
  | first found _ _ =>
    cases right with
    | first _ _ _ => rfl
    | next derived' _ _ _ _ _ _ => exact absurd derived'.positive (by omega)
  | next derived found held validated _ _ _ ih =>
    cases right with
    | first _ _ _ => exact absurd derived.positive (by omega)
    | next derived' found' held' validated' _ _ _ =>
      obtain ⟨rfl, _⟩ := found.unique found'
      obtain rfl := Except.ok.inj (validated.symm.trans validated')
      obtain ⟨rfl, _⟩ := derived.unique_state derived'
      rw [ih derived']

theorem subset {version' : Nat}
    (right : Derived s version' manifest' state' applied') (order : version ≤ version') : applied ⊆ applied' := by
  induction right with
  | first _ _ _ =>
    obtain rfl : version = 1 := by
      have := left.positive
      omega
    rw [left.unique (.first ‹_› ‹_› ‹_›)]
    exact Subset.refl _
  | @next version' _ _ _ _ _ _ _ _ _ _ derived found held validated batched isApplied snapshot ih =>
    by_cases here : version = version' + 1
    · subst here
      rw [left.unique (.next derived found held validated batched isApplied snapshot)]
      exact Subset.refl _
    · exact Subset.trans (ih (by omega)) (subset_append_left _ _)

end

end Derived

/-! ## Watermarks -/

variable {paths known : List String} {path id : String} {watermark : Option String} {s : LedgerObjects}
  {label : Label CatalogCall}

theorem le_maxEventId_of_mem (member : path ∈ paths) (isId : eventIdFromPath path = some id) :
    ∃ watermark, maxEventIdFromPaths paths = some watermark ∧ id ≤ watermark := by
  have mapped : id ∈ paths.filterMap eventIdFromPath := mem_filterMap.mpr ⟨path, member, isId⟩
  cases isMax : maxEventIdFromPaths paths with
  | none =>
    rw [max?_eq_none_iff.mp isMax] at mapped
    cases mapped
  | some watermark => exact ⟨watermark, rfl, (max?_eq_some_iff.mp isMax).2 id mapped⟩

theorem exists_of_maxEventId {watermark : String} (isMax : maxEventIdFromPaths paths = some watermark) :
    ∃ path ∈ paths, eventIdFromPath path = some watermark :=
  mem_filterMap.mp (max?_eq_some_iff.mp isMax).1

theorem mem_of_mem_unapplied (member : path ∈ unappliedEventPathsAfterWatermark paths watermark) : path ∈ paths := by
  cases watermark with
  | none => exact member
  | some text => exact (mem_filter.mp member).1

theorem mem_unapplied (isId : eventIdFromPath path = some id) : path ∈ unappliedEventPathsAfterWatermark paths watermark ↔
      path ∈ paths ∧ ∀ text ∈ watermark, text < id := by
  cases watermark with
  | none => simp [unappliedEventPathsAfterWatermark]
  | some text => simp [unappliedEventPathsAfterWatermark, isUnapplied, isId]

theorem mem_validateEventPaths {domain : CatalogDomain} {requested : List String}
    (validated : validateEventPaths domain requested = .ok paths) : path ∈ paths ↔ path ∈ requested := by
  induction requested generalizing paths with
  | nil =>
    cases validated
    rfl
  | cons first rest ih =>
    simp only [validateEventPaths] at validated
    split at validated
    · cases validated
    · split at validated
      · cases validated
      · obtain ⟨_, isRest, isPaths⟩ := Results.bind_eq_ok.mp validated
        obtain rfl := Except.ok.inj isPaths
        by_cases here : path = first
        · simp [here]
        · simp [here, ih isRest]

theorem mem_validatePaths {requested : List String} (validated : validatePaths requested = .ok paths) :
    path ∈ paths ↔ path ∈ requested := by
  unfold validatePaths at validated
  cases result : validateEventPaths .catalog requested with
  | error error =>
    rw [result] at validated
    cases validated
  | ok paths' =>
    rw [result] at validated
    obtain rfl := Except.ok.inj validated
    exact mem_validateEventPaths result

/-! ## The ledger and the visible state -/

/-- Every event of the ledger up to the watermark is one that the visible state comes from. -/
structure Accounted (s : LedgerObjects) : Prop where
  named : ∀ path, Logged s path → ∃ id : EventId, path = catalog.ledgerEvent id.text
  derived : ∀ version author pointer, s.At .pointer version author pointer →
    ∃ manifest state applied, Derived s version manifest state applied
  rises : ∀ version manifest state applied manifest' state' applied', Derived s version manifest state applied →
    Derived s (version + 1) manifest' state' applied' → ∀ watermark ∈ manifest.watermarkEventId,
      ∃ watermark' ∈ manifest'.watermarkEventId, watermark < watermark'
  covered : ∀ manifest state applied, Derived s (s.version .pointer) manifest state applied →
    ∀ path id, Logged s path → eventIdFromPath path = some id →
      ∀ watermark ∈ manifest.watermarkEventId, id ≤ watermark → path ∈ applied

namespace Accounted

variable {sums : Checksums} {s s' : LedgerObjects}
  {path watermark : String} {version : Nat} {manifest : CatalogDomainManifest} {state : CatalogState}

section

variable (accounted : Accounted s)
include accounted

theorem eventId (logged : Logged s path) : ∃ id : EventId, eventIdFromPath path = some id.text := by
  obtain ⟨id, rfl⟩ := accounted.named path logged
  exact ⟨id, eventIdFromPath_ledgerEvent id⟩

/-- The same versions of the pointer are derived in the same way. -/
theorem derived_of_later (later : s ≤ s') {author : Label CatalogCall}
    {pointer : DomainManifestPointer} (found : s.At .pointer version author pointer) {applied : List String}
    (derived : Derived s' version manifest state applied) :
    Derived s version manifest state applied := by
  obtain ⟨_, _, _, derived₀⟩ := accounted.derived version author pointer found
  obtain ⟨rfl, rfl⟩ := (derived₀.mono later).unique_state derived
  obtain rfl := (derived₀.mono later).unique derived
  exact derived₀

theorem derived_of_le (positive : 0 < version) (bound : version ≤ s.version .pointer) :
    ∃ manifest state applied, Derived s version manifest state applied := by
  obtain ⟨author, pointer, found⟩ := at_of_le positive bound
  exact accounted.derived version author pointer found

theorem derived_of_known {visible : Visible} (known : Known s visible) :
    ∃ read state applied, visible.version ≤ read ∧ Derived s read visible.manifest state applied := by
  obtain ⟨read, author, newer, found⟩ := known.pointer
  obtain ⟨_, state, applied, derived⟩ := accounted.derived read author visible.pointer found
  obtain ⟨_, _, found', held', _⟩ := derived.pointer
  obtain ⟨_, rfl⟩ := found.unique found'
  obtain rfl := held'.unique known.manifest
  exact ⟨read, state, applied, newer, derived⟩

theorem watermark_le {version' : Nat} {manifest' : CatalogDomainManifest}
    {state' : CatalogState} {applied applied' : List String} (order : version ≤ version')
    (derived : Derived s version manifest state applied) (derived' : Derived s version' manifest' state' applied')
    (isWatermark : watermark ∈ manifest.watermarkEventId) :
    ∃ watermark' ∈ manifest'.watermarkEventId, watermark ≤ watermark' := by
  induction version', order using Nat.le_induction generalizing manifest' state' applied' with
  | base =>
    obtain ⟨rfl, _⟩ := derived.unique_state derived'
    exact ⟨watermark, isWatermark, le_rfl⟩
  | succ between order ih =>
    obtain ⟨_, _, _, derived₁⟩ := accounted.derived_of_le (derived.positive.trans_le order)
      (Nat.le_of_succ_le derived'.le_version)
    obtain ⟨watermark₁, isWatermark₁, le⟩ := ih derived₁
    obtain ⟨watermark', isWatermark', less⟩ := accounted.rises between _ _ _ _ _ _ derived₁ derived' watermark₁ isWatermark₁
    exact ⟨watermark', isWatermark', le.trans less.le⟩

theorem applied {applied : List String}
    (derived : Derived s version manifest state applied) {id : String} (logged : Logged s path)
    (isId : eventIdFromPath path = some id) (isWatermark : watermark ∈ manifest.watermarkEventId)
    (below : id ≤ watermark) : Applied s path := by
  have bound := derived.le_version
  obtain ⟨manifest', state', applied', derived'⟩ := accounted.derived_of_le (derived.positive.trans_le bound) le_rfl
  obtain ⟨watermark', isWatermark', le⟩ := accounted.watermark_le bound derived derived' isWatermark
  exact ⟨manifest', state', applied', derived', accounted.covered _ _ _ derived' path id logged isId watermark' isWatermark'
    (below.trans le)⟩

theorem extend (later : s ≤ s')
    (same : ∀ version author pointer, s'.At .pointer version author pointer → s.At .pointer version author pointer)
    (sameVersion : s'.version .pointer = s.version .pointer)
    (logged : ∀ path, Logged s' path → Logged s path ∨ ∃ id : EventId, path = catalog.ledgerEvent id.text ∧
      ∀ manifest state applied, Derived s (s.version .pointer) manifest state applied →
        ∀ watermark ∈ manifest.watermarkEventId, watermark < id.text) : Accounted s' where
  named path isLogged := by
    rcases logged path isLogged with old | ⟨id, isPath, _⟩
    · exact accounted.named path old
    · exact ⟨id, isPath⟩
  derived version author pointer found := by
    obtain ⟨manifest, state, applied, derived⟩ := accounted.derived version author pointer (same _ _ _ found)
    exact ⟨manifest, state, applied, derived.mono later⟩
  rises version manifest state applied manifest' state' applied' derived derived' := by
    obtain ⟨_, _, found, _⟩ := derived.pointer
    obtain ⟨_, _, found', _⟩ := derived'.pointer
    exact accounted.rises version _ _ _ _ _ _ (accounted.derived_of_later later (same _ _ _ found) derived)
      (accounted.derived_of_later later (same _ _ _ found') derived')
  covered manifest state applied derived path id isLogged isId watermark isWatermark below := by
    obtain ⟨_, _, found, _⟩ := derived.pointer
    have derived₀ := accounted.derived_of_later later (same _ _ _ found) derived
    rw [sameVersion] at derived₀
    rcases logged path isLogged with old | ⟨_, rfl, above⟩
    · exact accounted.covered manifest state applied derived₀ path id old isId watermark isWatermark below
    · rw [eventIdFromPath_ledgerEvent] at isId
      obtain rfl := Option.some.inj isId
      exact absurd (above manifest state applied derived₀ watermark isWatermark) (not_lt.mpr below)

end

/-- What a compaction has applied its events to is the visible state. -/
theorem compacts {terms : Terms Object Question (Label CatalogCall)} (readable : ¬ Unreadable terms)
    {visible : Visible} (current : s.version .pointer = visible.version) {batch : List String}
    (compacts : Compacts sums Accounted terms s visible batch manifest) :
    ∃ before applied events after record, Derived s (s.version .pointer) visible.manifest before applied ∧
      Batched s batch events ∧ before.applyAll events = .ok after ∧
      Snapshot s manifest.snapshotPath { after with commits := after.commits ++ [record] } := by
  obtain ⟨_, before, events, after, record, earlier, valid₀, known₀, loaded, batched, isApplied, snapshot⟩ :=
    compacts.applied
  obtain ⟨read, state, applied, newer, derived⟩ := valid₀.2.derived_of_known known₀
  obtain ⟨_, _, _, _, snapshot'⟩ := derived.pointer
  obtain rfl := (loaded state snapshot').resolve_right readable
  obtain rfl : read = s.version .pointer := (derived.mono earlier).le_version.antisymm (current ▸ newer)
  exact ⟨before, applied, events, after, record, derived.mono earlier, batched, isApplied, snapshot⟩

theorem logged_of_batched {paths : List String} {events : List ParsedCatalogDdlEvent}
    (batched : Batched s paths events) (member : path ∈ paths) : Logged s path := by
  induction batched with
  | nil => cases member
  | cons first _ ih =>
    rcases mem_cons.mp member with rfl | later
    · obtain ⟨event, held, _⟩ := first
      exact ⟨event, held⟩
    · exact ih later

theorem logged_write {path : ObjectPath} {writer : Label CatalogCall} {value : Object path}
    (other : ∀ ledgerPath, path ≠ .ledger ledgerPath) {ledgerPath : String} :
    Logged (s.write path writer value) ledgerPath ↔ Logged s ledgerPath :=
  exists_congr fun _ => holds_write_ne (other ledgerPath).symm

section Publishing

variable {requested : List String} {previous : CatalogDomainManifest} {events : List ParsedCatalogDdlEvent}

theorem lt_batch (accounted : Accounted s) (batched : Batched s (previous.unapplied requested) events)
    (some : previous.unapplied requested ≠ []) {watermark : String}
    (isWatermark : watermark ∈ previous.watermarkEventId) :
    ∃ watermark' ∈ maxEventIdFromPaths (previous.unapplied requested), watermark < watermark' := by
  obtain ⟨_, member⟩ := exists_mem_of_ne_nil _ some
  obtain ⟨_, isId⟩ := accounted.eventId (logged_of_batched batched member)
  obtain ⟨watermark', isMax, le⟩ := le_maxEventId_of_mem member isId
  exact ⟨watermark', isMax, lt_of_lt_of_le (((mem_unapplied isId).mp member).2 watermark isWatermark) le⟩

theorem covered_batch (accounted : Accounted s) {state : CatalogState} {applied paths : List String}
    (derived : Derived s (s.version .pointer) previous state applied) (validated : validatePaths paths = .ok requested)
    (batched : Batched s (previous.unapplied requested) events)
    (covers : Covers s paths) {path id watermark : String} (logged : Logged s path)
    (isId : eventIdFromPath path = some id)
    (isMax : watermark ∈ maxEventIdFromPaths (previous.unapplied requested))
    (below : id ≤ watermark) :
    path ∈ applied ++ previous.unapplied requested := by
  obtain ⟨last, inBatch, isLast⟩ := exists_of_maxEventId isMax
  have inPaths := (mem_validatePaths validated).mp ((mem_unapplied isLast).mp inBatch).1
  rcases covers path last id watermark logged inPaths (logged_of_batched batched inBatch) isId isLast below with
    isRequested | ⟨_, _, _, derived', member⟩
  · by_cases above : ∀ text ∈ previous.watermarkEventId, text < id
    · have unapplied := (mem_unapplied isId).mpr ⟨(mem_validatePaths validated).mpr isRequested, above⟩
      exact mem_append_right _ unapplied
    · push Not at above
      obtain ⟨text, isText, le⟩ := above
      exact mem_append_left _ (accounted.covered _ _ _ derived path id logged isId text isText le)
  · rw [derived'.unique derived] at member
    exact mem_append_left _ member

end Publishing

section Publication

variable {terms : Terms Object Question (Label CatalogCall)} (readable : ¬ Unreadable terms) {label : Label CatalogCall}
  {fencingToken start : Nat} {visible : Visible} {pointer : DomainManifestPointer} {manifest : CatalogDomainManifest}
  (ready : Ready sums s fencingToken start visible pointer manifest) {requested : List String}
  (validated : validatePaths label.call.eventPaths = .ok requested)
  (compacts : Compacts sums Accounted terms s visible
    (visible.manifest.unapplied requested) manifest)

include readable ready validated compacts

/-- The state of a new pointer comes from the events before it and those of the batch. -/
theorem next : ∃ before applied events state, Derived s (s.version .pointer) visible.manifest before applied ∧
    Batched s (visible.manifest.unapplied requested) events ∧
    Derived (s.write .pointer label pointer) (s.version .pointer + 1) manifest state
      (applied ++ visible.manifest.unapplied requested) := by
  have later := s.le_write .pointer label pointer
  obtain ⟨before, applied, events, _, _, derived, batched, isApplied, snapshot⟩ :=
    Accounted.compacts readable ready.current compacts
  exact ⟨before, applied, events, _, derived, batched, .next (derived.mono later) (s.at_write_self .pointer label pointer)
    (ready.held.mono later) validated (batched.mono later) isApplied (snapshot.mono later)⟩

theorem publish (accounted : Accounted s) (some : visible.manifest.unapplied requested ≠ [])
    (covers : Covers s label.call.eventPaths) : Accounted (s.write .pointer label pointer) := by
  have later := s.le_write .pointer label pointer
  have isLogged : ∀ {path}, Logged (s.write .pointer label pointer) path ↔ Logged s path := logged_write (by simp)
  have isVersion := s.version_write_self .pointer label pointer
  obtain ⟨before, _, _, _, derived, batched, derived'⟩ := next readable ready validated compacts
  -- the versions up to the last one are derived as before
  have back : ∀ {version manifest' state' applied'}, version ≤ s.version .pointer →
      Derived (s.write .pointer label pointer) version manifest' state' applied' →
      Derived s version manifest' state' applied' := by
    intro version manifest' state' applied' bound derived
    obtain ⟨_, _, found₁, _⟩ := derived.pointer
    have found := (at_write_same.mp found₁).resolve_right fun isLast => by omega
    exact accounted.derived_of_later later found derived
  constructor
  · exact fun path logged => accounted.named path (isLogged.mp logged)
  · intro version author pointer' found
    rcases at_write_same.mp found with old | ⟨rfl, _, _⟩
    · obtain ⟨manifest', state', applied', derived⟩ := accounted.derived version author pointer' old
      exact ⟨manifest', state', applied', derived.mono later⟩
    · exact ⟨_, _, _, derived'⟩
  · intro version manifest₁ state₁ applied₁ manifest₂ state₂ applied₂ derived₁ derived₂
    have bound := derived₂.le_version
    have derived₁ := back (by omega) derived₁
    by_cases isLast : version = s.version .pointer
    · subst isLast
      obtain ⟨rfl, _⟩ := derived.unique_state derived₁
      obtain ⟨rfl, _⟩ := derived'.unique_state derived₂
      intro watermark isWatermark
      rw [compacts.watermarkEventId]
      exact accounted.lt_batch batched some isWatermark
    · exact accounted.rises version _ _ _ _ _ _ derived₁ (back (by omega) derived₂)
  · intro manifest₁ state₁ applied₁ derived₁ path id logged isId watermark isWatermark below
    rw [isVersion] at derived₁
    obtain ⟨rfl, _⟩ := derived'.unique_state derived₁
    rw [← derived'.unique derived₁]
    rw [compacts.watermarkEventId] at isWatermark
    exact accounted.covered_batch derived validated batched covers (isLogged.mp logged) isId isWatermark below

end Publication

theorem first (accounted : Accounted s) (chain : Chain sums s) (label : Label CatalogCall)
    (absent : s.version .pointer = 0) (updatedAt : Core.Timestamp)
    (held : ∃ manifest, Holds s (.manifest (catalog.manifestSnapshot initialManifestId)) manifest) :
    Accounted (s.write .pointer label { updatedAt }) := by
  have later := s.le_write .pointer label { updatedAt }
  obtain ⟨manifest, held⟩ := held
  obtain ⟨updatedAt', rfl⟩ := chain.initial manifest held
  have isVersion := s.version_write_self .pointer label { updatedAt }
  rw [absent] at isVersion
  have found := s.at_write_self .pointer label { updatedAt }
  rw [absent] at found
  have isEmpty : isEmptySnapshot (catalog.snapshotDir 0) = true := by decide
  have derived : Derived (s.write .pointer label { updatedAt }) 1 { updatedAt := updatedAt' } {} [] :=
    .first found (held.mono later) ⟨fun _ => rfl, fun nonempty => absurd isEmpty (by simp [nonempty])⟩
  constructor
  · exact fun path logged => accounted.named path ((logged_write (by simp)).mp logged)
  · intro version author pointer found'
    have positive := found'.1
    have bound := found'.le
    obtain rfl : version = 1 := by omega
    exact ⟨_, _, _, derived⟩
  · intro version _ _ _ _ _ _ derived₁ derived₂
    have positive := derived₁.positive
    have bound := derived₂.le_version
    omega
  · intro manifest₁ state₁ applied₁ derived₁ path id _ _ watermark isWatermark
    rw [isVersion] at derived₁
    obtain ⟨rfl, _⟩ := derived.unique_state derived₁
    cases isWatermark

theorem write (accounted : Accounted s) (path : ObjectPath) (label : Label CatalogCall) (value : Object path)
    (notPointer : path ≠ .pointer) (notLedger : ∀ ledgerPath, path ≠ .ledger ledgerPath) :
    Accounted (s.write path label value) :=
  accounted.extend (s.le_write path label value) (fun _ _ _ found => (at_write_ne notPointer.symm).mp found)
    (s.version_write_ne label value notPointer.symm) fun _ logged => .inl ((logged_write notLedger).mp logged)

theorem visibleWatermark_eq (chain : Chain sums s) {applied : List String}
    (derived : Derived s (s.version .pointer) manifest state applied) :
    visibleWatermark s = manifest.watermarkEventId := by
  obtain ⟨_, _, found, held, _⟩ := derived.pointer
  rw [visibleWatermark, found.get, Option.bind_some, chain.get_of_holds rfl held, Option.bind_some]

theorem append (accounted : Accounted s) (chain : Chain sums s) (label : Label CatalogCall) (id : EventId)
    (event : CatalogEvent) (above : ∀ watermark ∈ visibleWatermark s, watermark < id.text) :
    Accounted (s.write (.ledger (catalog.ledgerEvent id.text)) label event) := by
  refine accounted.extend (s.le_write (.ledger _) label event) (fun _ _ _ found => (at_write_ne (by simp)).mp found)
    (s.version_write_ne (k := .ledger _) label event (by simp)) fun path logged => ?_
  by_cases here : path = catalog.ledgerEvent id.text
  · exact .inr ⟨id, here, fun _ _ _ derived => visibleWatermark_eq chain derived ▸ above⟩
  · obtain ⟨event', held⟩ := logged
    exact .inl ⟨event', (holds_write_ne (by simpa using here)).mp held⟩

end Accounted

/-! ## Every run -/

def ledgerTerms (call : CatalogCall) : Terms Object Question (Label CatalogCall) where
  puts
    | .pointer, _, s => Covers s call.eventPaths
    | .ledger path, _, s => ∀ watermark ∈ visibleWatermark s, ∀ id ∈ eventIdFromPath path, watermark < id
    | _, _, _ => True
  asks
    | .unreadable, _ => False
    | _, _ => True

def ledgerConduct (label : Label CatalogCall) : Conduct Object Answer CatalogOutcome (Label CatalogCall) where
  rely _ _ _ := True
  may := Proceeds label.call

theorem ledgerConduct_honors (label : Label CatalogCall) : (ledgerConduct label).Honors (ledgerTerms label.call) where
  rely _ _ _ _ := trivial
  puts path _ _ _ _ may := by
    cases path with
    | pointer | ledger _ => exact may
    | _ => trivial
  asks question _ _ may := by
    cases question with
    | unreadable => exact may
    | _ => trivial

theorem readable_ledgerTerms (call : CatalogCall) : ¬ Unreadable (ledgerTerms call) := fun ⟨_, unreadable⟩ => unreadable

/-- An event was applied, or it is not above the watermark of some version. -/
def Settled (s : LedgerObjects) (path : String) : Prop :=
  ∃ version manifest state applied, Derived s version manifest state applied ∧ (path ∈ applied ∨
    ∃ id watermark, eventIdFromPath path = some id ∧ watermark ∈ manifest.watermarkEventId ∧ id ≤ watermark)

theorem Settled.mono {s' : LedgerObjects} (settled : Settled s path) (later : s ≤ s') : Settled s' path := by
  obtain ⟨version, manifest, state, applied, derived, settled⟩ := settled
  exact ⟨version, manifest, state, applied, derived.mono later, settled⟩

theorem Settled.applied (settled : Settled s path) (accounted : Accounted s) (logged : Logged s path) : Applied s path := by
  obtain ⟨_, _, _, _, derived, member | ⟨_, _, isId, isWatermark, below⟩⟩ := settled
  · have bound := derived.le_version
    obtain ⟨manifest', state', applied', derived'⟩ := accounted.derived_of_le (derived.positive.trans_le bound) le_rfl
    exact ⟨manifest', state', applied', derived', derived.subset derived' bound member⟩
  · exact accounted.applied derived logged isId isWatermark below

/-- What a request leaves out is not above the watermark. -/
theorem below_of_not_unapplied (member : path ∈ paths)
    (absent : path ∉ unappliedEventPathsAfterWatermark paths watermark) :
    ∃ id text, eventIdFromPath path = some id ∧ text ∈ watermark ∧ id ≤ text := by
  cases watermark with
  | none => exact absurd member absent
  | some text =>
    have applied : isUnapplied text path = false := by simpa [unappliedEventPathsAfterWatermark, member] using absent
    cases isId : eventIdFromPath path with
    | none => simp [isUnapplied, isId] at applied
    | some id =>
      have below : decide (text < id) = false := by simpa only [isUnapplied, isId, Option.all_some] using applied
      exact ⟨id, text, rfl, rfl, not_lt.mp (of_decide_eq_false below)⟩

theorem settled_of_compacted {sums : Checksums} {fencingToken : Nat} {requested : List String}
    (accounted : Accounted s) (validated : validatePaths label.call.eventPaths = .ok requested)
    (compacted : Compacted sums Accounted (ledgerTerms label.call) label (fun _ => True) fencingToken 0 requested s)
    (member : path ∈ label.call.eventPaths) : Settled s path := by
  have isRequested := (mem_validatePaths validated).mpr member
  cases compacted with
  | unchanged visible _ known _ _ none =>
    obtain ⟨read, state, applied, _, derived⟩ := accounted.derived_of_known known
    exact ⟨read, _, state, applied, derived, .inr (below_of_not_unapplied isRequested (by simp [none]))⟩
  | published s₀ visible pointer manifest valid _ _ ready _ compacts written =>
    subst written
    obtain ⟨before, applied, _, state, derived, _, derived'⟩ :=
      Accounted.next (readable_ledgerTerms label.call) ready validated compacts
    by_cases unapplied : path ∈ visible.manifest.unapplied requested
    · exact ⟨_, _, state, _, derived', .inl (mem_append_right _ unapplied)⟩
    · exact ⟨_, _, before, applied, derived.mono (s₀.le_write .pointer label pointer),
        .inr (below_of_not_unapplied isRequested unapplied)⟩

section Runs

variable {sums : Checksums} {P : Type} [DecidableEq P]

theorem setting_ledger (label : Label CatalogCall) :
    Setting sums Accounted (ledgerTerms label.call) label fun _ => True where
  frame := .always
  files s directory table rows valid _ := valid.2.write (.file directory table) label rows (by simp) (by simp)
  manifests s path manifest valid _ := valid.2.write (.manifest path) label manifest (by simp) (by simp)

theorem publishes_ledger {label : Label CatalogCall} {fencingToken : Nat} {requested : List String}
    (validated : validatePaths label.call.eventPaths = .ok requested) :
    Publishes sums Accounted (ledgerTerms label.call) label (fun _ => True) fencingToken 0 requested :=
  fun _ _ _ _ valid _ puts ready some compacts =>
    valid.2.publish (readable_ledgerTerms label.call) ready validated compacts some puts

def ledgerPost (label : Label CatalogCall) (outcome : CatalogOutcome) (s : LedgerObjects) : Prop :=
  ∀ result, outcome = .compacted (.ok result) → ∀ path ∈ label.call.eventPaths, Settled s path

theorem ledgerProtocol_verified :
    (ledgerProtocol sums).Verified ledgerConduct (Valid sums Accounted) ledgerPost where
  relyRefl _ _ _ := trivial
  relyTrans _ _ _ _ _ _ _ := trivial
  postStable _ _ _ _ known later _ := fun result isOk path member => (known result isOk path member).mono later
  calls _ label s follows valid _ _ := by
    have setting : Setting sums _ _ label _ := setting_ledger label
    have honors := ledgerConduct_honors label
    cases isCall : label.call with
    | initializeCatalog writerEpoch fuel =>
      have first := fun s updatedAt (valid : Valid sums Accounted s) absent held =>
        valid.2.first valid.1 label absent updatedAt held
      have roots := fun s root (valid : Valid sums Accounted s) => valid.2.write .root label root (by simp) (by simp)
      exact (meets_initializeCatalog setting first roots valid writerEpoch fuel).run (f := initialized)
        honors fun _ _ _ _ isOk => by cases isOk
    | update writerEpoch change attempts =>
      rw [ledgerProtocol, isCall] at follows
      cases follows
    | syncCompact fencingToken eventPaths =>
      have isPaths : label.call.eventPaths = eventPaths := by rw [isCall, CatalogCall.eventPaths]
      have publish : ∀ requested, validatePaths eventPaths = .ok requested →
          Publishes sums Accounted (ledgerTerms label.call) label (fun _ => True) fencingToken 0 requested :=
        fun requested validated => publishes_ledger (isPaths ▸ validated)
      have compact := (meets_syncCompact setting publish valid trivial (Nat.zero_le _)).remember valid
      refine compact.run (f := compacted) honors fun result s' ended result' isOk path member => ?_
      obtain rfl := compacted.inj isOk
      obtain ⟨_, valid', _, validated, compacted⟩ := ended
      exact settled_of_compacted valid'.2 (isPaths ▸ validated) compacted member
    | append payload source previousEventId =>
      refine (meets_appendLedgerEventAfter setting payload source (fun s' id valid' _ puts _ => ?_) valid trivial
        previousEventId).run (f := appended) honors fun _ _ _ _ isOk => by cases isOk
      exact valid'.2.append valid'.1 label id _ fun watermark isWatermark =>
        puts watermark isWatermark id.text (eventIdFromPath_ledgerEvent id)
    | lock lockInfo =>
      refine (setting.frame.meets_put trivial fun s' _ valid' _ _ _ => ⟨?_, ?_⟩).run (f := locked)
        honors fun _ _ _ _ isOk => by cases isOk
      · exact valid'.1.write .lock label lockInfo (by simp) (by simp) (by simp [ObjectPath.immutable])
      · exact valid'.2.write .lock label lockInfo (by simp) (by simp)

theorem not_logged_empty (path : String) : ¬ Logged {} path := by
  rintro ⟨_, held⟩
  exact absurd held.positive (Nat.lt_irrefl 0)

theorem accounted_empty : Accounted {} where
  named path logged := absurd logged (not_logged_empty path)
  derived _ _ _ found := absurd found.le (Nat.not_le.mpr found.1)
  rises _ _ _ _ _ _ _ derived := absurd derived.le_version (Nat.not_le.mpr derived.positive)
  covered _ _ _ derived := absurd derived.positive (Nat.lt_irrefl 0)

omit [DecidableEq P] in
theorem orderly_respects {w w' : CatalogWorld P} {action : Action Answer CatalogCall P} (orderly : Orderly w action) :
    Protocol.Respects ledgerConduct w action w' where
  rely _ _ _ _ _ := trivial
  may p service answers label rest isStep running := by
    subst isStep
    simp only [Orderly, running] at orderly
    exact orderly

/-- In every run of appends and compactions that pass over no event, each event of a request that was
answered without an error is one of those that the visible state comes from. -/
theorem compaction_applies_its_events {w : CatalogWorld P}
    (reached : (ledgerProtocol sums).Reaches (fun w action _ => Orderly w action) { store := {} } w)
    {label : Label CatalogCall} {result : Tier1CompactionResult} (returned : (label, .compacted (.ok result)) ∈ w.returned)
    {path : String} (requested : path ∈ label.call.eventPaths) (logged : Logged w.store path) : Applied w.store path := by
  have sound := (ledgerProtocol_verified.reaches (Protocol.sound_empty ⟨Chain.empty, accounted_empty⟩)
    (reached.mono fun _ _ _ orderly => orderly_respects orderly)).1
  exact (sound.returned _ returned result rfl path requested).applied sound.holds.2 logged

end Runs

/-! ## A request that passes over an event -/

/-- Whatever is applied was part of a request that replaced the pointer. -/
theorem Derived.requested {version : Nat} {manifest : CatalogDomainManifest} {state : CatalogState}
    {applied : List String} (derived : Derived s version manifest state applied) (member : path ∈ applied) :
    ∃ entry ∈ s.writes .pointer, ∃ requested, validatePaths entry.1.call.eventPaths = .ok requested ∧
      path ∈ requested := by
  induction derived with
  | first _ _ _ => cases member
  | next _ found _ validated _ _ _ ih =>
    obtain earlier | now := mem_append.mp member
    · exact ih earlier
    · exact ⟨_, mem_of_getElem? found.2, _, validated, mem_of_mem_unapplied now⟩

def requestsPath (path : String) (entry : Label CatalogCall × DomainManifestPointer) : Bool :=
  match validatePaths entry.1.call.eventPaths with
  | .ok requested => path ∈ requested
  | .error _ => false

theorem not_applied (never : (s.writes .pointer).any (requestsPath path) = false) : ¬ Applied s path := by
  rintro ⟨_, _, _, derived, member⟩
  obtain ⟨entry, isEntry, _, validated, inRequest⟩ := derived.requested member
  have requests : requestsPath path entry = true := by simp [requestsPath, validated, inRequest]
  exact absurd (any_eq_true.mpr ⟨entry, isEntry, requests⟩) (by simp [never])

def firstPath : String := catalog.ledgerEvent firstEventId.text

def secondPath : String := catalog.ledgerEvent secondEventId.text

abbrev Schedule : Type := List (Schedules.Move (CatalogWorld Unit) (Action Answer CatalogCall Unit))

def callOf (call : CatalogCall) (ulid : EventId) : Schedule :=
  [.act (.start () call), Protocol.goOn () (answering 0 ulid "uuid")]

/-- Two events are appended, and the second one is compacted before the first one. -/
def lateCompaction : Schedule :=
  callOf (.lock (heldLock 1)) firstEventId ++ callOf (.initializeCatalog 1 1) firstEventId ++
  callOf (.append (catalogCreated "1" "main") "writer" none) firstEventId ++
  callOf (.append (catalogCreated "2" "other") "writer" none) secondEventId ++
  callOf (.syncCompact 1 [secondPath]) secondEventId ++ callOf (.syncCompact 1 [firstPath]) secondEventId

def answersFor (path : String) : Label CatalogCall × CatalogOutcome → Bool
  | (label, .compacted (.ok _)) => path ∈ label.call.eventPaths
  | _ => false

theorem returned_of_answersFor {answers : List (Label CatalogCall × CatalogOutcome)}
    (found : answers.any (answersFor path) = true) :
    ∃ label result, (label, compacted (.ok result)) ∈ answers ∧ path ∈ label.call.eventPaths := by
  obtain ⟨⟨label, _⟩, member, answered⟩ := any_eq_true.mp found
  unfold answersFor at answered
  split at answered
  · rename_i label' result isPair
    obtain ⟨rfl, rfl⟩ := Prod.mk.inj isPair
    exact ⟨label, result, member, by simpa using answered⟩
  · cases answered

theorem logged_of_writes (written : (s.writes (.ledger path)).isEmpty = false) : Logged s path := by
  obtain ⟨⟨author, event⟩, _, writes⟩ := exists_cons_of_ne_nil (by simpa using written)
  exact ⟨event, author, Nat.one_pos, by simp [writes]⟩

/-- The second request is answered without an error, and the event of it is not applied. -/
theorem compaction_passes_over_an_event :
    ∃ w : CatalogWorld Unit, (ledgerProtocol .constant).Reaches (fun _ _ _ => True) { store := {} } w ∧
      ∃ label result path, (label, .compacted (.ok result)) ∈ w.returned ∧ path ∈ label.call.eventPaths ∧
        Logged w.store path ∧ ¬ Applied w.store path := by
  obtain ⟨w, reached, passed⟩ := Protocol.exists_of_play (ledgerProtocol .constant) (fun _ _ => true) 100 { store := {} }
    lateCompaction (fun w => w.returned.any (answersFor firstPath) &&
      (!(w.store.writes (.ledger firstPath)).isEmpty && !(w.store.writes .pointer).any (requestsPath firstPath)))
    (by decide +kernel)
  simp only [Bool.and_eq_true, Bool.not_eq_true'] at passed
  obtain ⟨answered, written, never⟩ := passed
  obtain ⟨label, result, returned, requested⟩ := returned_of_answersFor answered
  exact ⟨w, reached.mono fun _ _ _ _ => trivial, label, result, firstPath, returned, requested,
    logged_of_writes written, not_applied never⟩

/-! ## A run that passes over no event -/

def proceedsCalmly (known : List String) (call : CatalogCall) :
    Program Object Answer CatalogOutcome → LedgerObjects → Bool
  | .put .pointer _ _ _, _ => decide (∀ path ∈ known, ∀ last ∈ call.eventPaths, ∀ id ∈ eventIdFromPath path,
      ∀ lastId ∈ eventIdFromPath last, id ≤ lastId → path ∈ call.eventPaths)
  | .put (.ledger path) _ _ _, s => path ∈ known &&
      decide (∀ watermark ∈ visibleWatermark s, ∀ id ∈ eventIdFromPath path, watermark < id)
  | .ask .unreadable _, _ => false
  | _, _ => true

def isCalm {P : Type} (known : List String) (w : CatalogWorld P) : Action Answer CatalogCall P → Bool
  | .step p _ _ =>
    match w.party p with
    | .running label rest => proceedsCalmly known label.call rest w.store
    | .idle _ => true
  | .start _ _ | .crash _ => true

theorem isCalm_step {P : Type} {w : CatalogWorld P} {p : P} {service : Service}
    {answers : (q : Question) → Answer q} {rest : Program Object Answer CatalogOutcome}
    (calm : isCalm known w (.step p service answers) = true) (running : w.party p = .running label rest) :
    proceedsCalmly known label.call rest w.store = true := by
  simpa only [isCalm, running] using calm

def OnlyKnown (known : List String) (s : LedgerObjects) : Prop := ∀ path, Logged s path → path ∈ known

theorem onlyKnown_next {P : Type} [DecidableEq P] {sums : Checksums} {w w' : CatalogWorld P}
    {action : Action Answer CatalogCall P} (only : OnlyKnown known w.store)
    (next : (ledgerProtocol sums).next w action = some w') (calm : isCalm known w action = true) :
    OnlyKnown known w'.store := by
  obtain same | ⟨p, _, _, _, k, _, _, _, rfl, running, _, written⟩ := Protocol.next_store next
  · rwa [same]
  · intro path ⟨event, author, found⟩
    have proceeds := isCalm_step calm running
    rw [written] at found
    by_cases isPath : ObjectPath.ledger path = k
    · subst isPath
      simp only [proceedsCalmly, Bool.and_eq_true, decide_eq_true_eq] at proceeds
      exact proceeds.1
    · exact only path ⟨event, author, (at_write_ne isPath).mp found⟩

theorem orderly_of_isCalm {P : Type} {w : CatalogWorld P} {action : Action Answer CatalogCall P}
    (calm : isCalm known w action = true) (only : OnlyKnown known w.store) : Orderly w action := by
  cases action with
  | start _ _ | crash _ => trivial
  | step p service answers =>
    cases running : w.party p with
    | idle _ => simp [Orderly, running]
    | running label rest =>
      have proceeds := isCalm_step calm running
      simp only [Orderly, running]
      unfold Proceeds
      split
      · simp only [proceedsCalmly, decide_eq_true_eq] at proceeds
        intro path last id lastId logged isLast _ isId isLastId le
        exact .inl (proceeds path (only path logged) last isLast id isId lastId isLastId le)
      · simp only [proceedsCalmly, Bool.and_eq_true, decide_eq_true_eq] at proceeds
        exact proceeds.2
      · exact Bool.false_ne_true proceeds
      · trivial

/-- Each event is compacted before the next one is appended. -/
def promptCompactions : Schedule :=
  callOf (.lock (heldLock 1)) firstEventId ++ callOf (.initializeCatalog 1 1) firstEventId ++
  callOf (.append (catalogCreated "1" "main") "writer" none) firstEventId ++
  callOf (.syncCompact 1 [firstPath]) firstEventId ++
  callOf (.append (catalogCreated "2" "other") "writer" none) secondEventId ++
  callOf (.syncCompact 1 [secondPath, firstPath]) secondEventId

theorem compaction_applies_its_events_promptCompactions : ∃ w : CatalogWorld Unit,
      (ledgerProtocol .constant).Reaches (fun w action _ => Orderly w action) { store := {} } w ∧
      w.store.version .pointer = 3 ∧ Applied w.store firstPath ∧ Applied w.store secondPath := by
  obtain ⟨w, played, passed⟩ := Protocol.exists_of_play (ledgerProtocol .constant) (isCalm [firstPath, secondPath]) 100
    { store := {} } promptCompactions (fun w => w.store.version .pointer = 3 &&
      (w.returned.any (answersFor firstPath) && (w.returned.any (answersFor secondPath) &&
      (!(w.store.writes (.ledger firstPath)).isEmpty && !(w.store.writes (.ledger secondPath)).isEmpty))))
    (by decide +kernel)
  simp only [Bool.and_eq_true, Bool.not_eq_true', decide_eq_true_eq] at passed
  obtain ⟨version, first, second, firstWritten, secondWritten⟩ := passed
  have keeps : ∀ (w : CatalogWorld Unit) (action : Action Answer CatalogCall Unit) (w' : CatalogWorld Unit),
      OnlyKnown [firstPath, secondPath] w.store → (ledgerProtocol .constant).next w action = some w' →
      isCalm [firstPath, secondPath] w action = true → OnlyKnown [firstPath, secondPath] w'.store :=
    fun _ _ _ only next calm => onlyKnown_next only next calm
  have reached := (played.invariant keeps fun path logged => absurd logged (not_logged_empty path)).1.mono
    fun _ _ _ checked => orderly_of_isCalm checked.1 checked.2
  obtain ⟨_, _, returned, requested⟩ := returned_of_answersFor first
  obtain ⟨_, _, returned', requested'⟩ := returned_of_answersFor second
  exact ⟨w, reached, version,
    compaction_applies_its_events reached returned requested (logged_of_writes firstWritten),
    compaction_applies_its_events reached returned' requested' (logged_of_writes secondWritten)⟩

end Arco.Catalog.Tier1
