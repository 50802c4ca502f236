import Arco.Flow.Recovery

/-! Rebuilding from the ledger.

A rebuild replays the events of the ledger after a watermark of the visible manifest. The watermark is
the largest id of a batch that was compacted, so an event with a smaller id that is not part of any
batch yet is passed over. As long as each batch takes along all earlier events, and events are appended
after the watermark, nothing is lost.
-/

namespace Arco.Flow

open Storage List Store

def CompactorCall.eventPaths : CompactorCall → List String
  | .compact _ eventPaths _ _ => eventPaths
  | .append _ _ | .lock _ => []

def Logged (s : Objects) (eventId : String) : Prop :=
  ∃ path author event, s.At (.ledger path) 1 author event ∧ event.eventId = eventId

def InBatch (s : Objects) (call : CompactorCall) (eventId : String) : Prop :=
  ∃ path ∈ call.eventPaths, ∃ author event, s.At (.ledger path) 1 author event ∧ event.eventId = eventId

/-- The event is part of the visible state: a call whose batch it belongs to has published a manifest. -/
def Folded (s : Objects) (eventId : String) : Prop :=
  ∃ version label pointer, s.At .pointer version label pointer ∧ InBatch s label.call eventId

def visibleWatermarks (s : Objects) : Watermarks :=
  match s.get .pointer with
  | some pointer => ((s.get (.manifest pointer.manifestPath)).map OrchestrationManifest.watermarks).getD {}
  | none => ((s.get legacyManifest).map OrchestrationManifest.watermarks).getD {}

/-- Every event that a rebuild passes over is part of the visible state. -/
def CaughtUp (s : Objects) : Prop :=
  ∀ eventId floor, Logged s eventId → replayFloorEventId (visibleWatermarks s) = some floor → eventId ≤ floor →
    Folded s eventId

/-- No event before the end of the batch is left out. -/
def Covers (s : Objects) (call : CompactorCall) : Prop :=
  ∀ eventId last, Logged s eventId → InBatch s call last → eventId ≤ last → InBatch s call eventId ∨ Folded s eventId

/-- A compactor that is about to replace the pointer leaves no earlier event out, and an event that is
about to be appended comes after the watermark. -/
def InOrder {P : Type} (w : CompactorWorld P) : Action Core.Answer CompactorCall P → Prop
  | .step p _ _ =>
    match w.party p with
    | .running label (.put .pointer _ _ _) => Covers w.store label.call
    | .running _ (.put (.ledger _) event _ _) =>
      ∀ floor, replayFloorEventId (visibleWatermarks w.store) = some floor → floor < event.eventId
    | _ => True
  | _ => True

section Ledger

variable {s s' : Objects} {call : CompactorCall} {eventId : String}

theorem InBatch.mono (inBatch : InBatch s call eventId) (later : s ≤ s') : InBatch s' call eventId := by
  obtain ⟨path, member, author, event, found, same⟩ := inBatch
  exact ⟨path, member, author, event, found.mono later, same⟩

theorem Folded.mono (folded : Folded s eventId) (later : s ≤ s') : Folded s' eventId := by
  obtain ⟨version, label, pointer, visible, inBatch⟩ := folded
  exact ⟨version, label, pointer, visible.mono later, inBatch.mono later⟩

/-- Nothing changes while the watermarks and the ledger stay the same, except for new events after the
watermark. -/
theorem CaughtUp.extend (caughtUp : CaughtUp s) (later : s ≤ s') (same : visibleWatermarks s' = visibleWatermarks s)
    (logged : ∀ eventId, Logged s' eventId → Logged s eventId ∨
      ∀ floor, replayFloorEventId (visibleWatermarks s) = some floor → floor < eventId) : CaughtUp s' := by
  intro eventId floor isLogged isFloor before
  rw [same] at isFloor
  rcases logged eventId isLogged with old | new
  · exact (caughtUp eventId floor old isFloor before).mono later
  · exact absurd before (String.not_le.mpr (new floor isFloor))

end Ledger

section Watermarks

variable {ext : Externals} {sums : Checksums} {s : Objects} {label : Label CompactorCall}

theorem replayFloorEventId_updateWatermarks (manifest : OrchestrationManifest) (events : LedgerEvents)
    (lastEventId : String) (mode : DurabilityMode) (now : Timestamp) :
    let updated := replayFloorEventId (updateWatermarks manifest events lastEventId mode now).2.watermarks
    updated = replayFloorEventId manifest.watermarks ∨ (events ≠ [] ∧ updated = some lastEventId) := by
  intro updated
  unfold updated updateWatermarks
  split
  · exact .inl rfl
  split
  · exact .inl rfl
  · rename_i some_ _
    have nonempty : events ≠ [] := by
      rintro rfl
      exact some_ rfl
    cases mode with
    | visible => exact .inr ⟨nonempty, rfl⟩
    | persisted =>
      cases visible : manifest.watermarks.lastVisibleEventId with
      | some floor => exact .inl (by simp [replayFloorEventId, visible])
      | none => exact .inr ⟨nonempty, by simp [replayFloorEventId]⟩

variable {events : LedgerEvents} {manifest : OrchestrationManifest}
  {pointer' : OrchestrationManifestPointer} {path : ObjectPath}

theorem Batched.found {paths : List String} (batched : Batched s paths events) {event : String × OrchestrationEvent}
    (member : event ∈ events) :
    event.1 ∈ paths ∧ ∃ author, s.At (.ledger event.1) 1 author event.2 := by
  induction batched with
  | nil => cases member
  | cons found _ ih =>
    obtain ⟨rfl, author, found⟩ := found
    rcases mem_cons.mp member with rfl | member
    · exact ⟨mem_cons_self, author, found⟩
    · exact ⟨mem_cons_of_mem _ (ih member).1, (ih member).2⟩

theorem inBatch_lastEventId {compactor : MicroCompactor} {paths : List String} {fencingToken : Option Nat}
    {lockPath : Option String} (batched : Batched s paths events) (store : Store)
    (nonempty : (foldBatch ext compactor store events).events ≠ []) :
    InBatch s (.compact compactor paths fencingToken lockPath) (foldBatch ext compactor store events).lastEventId := by
  have isLast := getLast?_eq_getLast_of_ne_nil nonempty
  have member := getLast_mem nonempty
  generalize (foldBatch ext compactor store events).events.getLast nonempty = last at isLast member
  have inEvents : last ∈ events := (mem_insertionSort _).mp member
  obtain ⟨isPath, author, found⟩ := batched.found inEvents
  refine ⟨last.1, isPath, author, last.2, found, ?_⟩
  simp [FoldedBatch.lastEventId, isLast]

theorem Derives.floor {call : CompactorCall} {manifest' : OrchestrationManifest}
    (derives : Derives ext s call manifest manifest') :
    replayFloorEventId manifest'.watermarks = replayFloorEventId manifest.watermarks ∨
      ∃ last, InBatch s call last ∧ replayFloorEventId manifest'.watermarks = some last := by
  obtain ⟨_, _, _, _, _, store, _, rfl, batched, compacts⟩ := derives
  obtain ⟨_, updated⟩ := compacts.watermarks
  rw [updated]
  refine (replayFloorEventId_updateWatermarks _ _ _ _ _).imp id fun ⟨nonempty, isLast⟩ => ⟨_, ?_, isLast⟩
  exact inBatch_lastEventId batched store nonempty

theorem Chain.visibleWatermarks_eq (chain : Chain ext sums s) {pointer : OrchestrationManifestPointer}
    (visible : s.At .pointer (s.version .pointer) label pointer)
    (found : s.At (.manifest pointer.manifestPath) 1 label manifest) : visibleWatermarks s = manifest.watermarks := by
  simp [visibleWatermarks, visible.get, chain.get_eq rfl found]

theorem visibleWatermarks_absent (absent : s.version .pointer = 0)
    (absentLegacy : s.version legacyManifest = 0) : visibleWatermarks s = {} := by
  simp [visibleWatermarks, get_eq_none.mpr absent, get_eq_none.mpr absentLegacy]

theorem Chain.floor_publish (chain : Chain ext sums s) (chain' : Chain ext sums (s.write .pointer label pointer'))
    (absentLegacy : s.version legacyManifest = 0) :
    let s' := s.write .pointer label pointer'
    replayFloorEventId (visibleWatermarks s') = replayFloorEventId (visibleWatermarks s) ∨
      ∃ last, InBatch s' label.call last ∧ replayFloorEventId (visibleWatermarks s') = some last := by
  intro s'
  have visible' : s'.At .pointer (s'.version .pointer) label pointer' := by
    rw [version_write_self]
    exact s.at_write_self .pointer label pointer'
  obtain ⟨_, found', _⟩ := chain'.published _ _ _ visible'
  rw [chain'.visibleWatermarks_eq visible' found']
  by_cases absent : s.version .pointer = 0
  · rw [visibleWatermarks_absent absent absentLegacy]
    have first : s'.At .pointer 1 label pointer' := by
      rwa [version_write_self, absent] at visible'
    obtain ⟨origin, isOrigin, same⟩ := chain'.first _ _ _ first found'
    have noWatermarks : origin.watermarks = {} := by
      rcases isOrigin with ⟨author, legacy⟩ | ⟨_, _, rfl⟩
      · have inside := legacy.le
        rw [version_write_ne _ _ _ (by simp), absentLegacy] at inside
        omega
      · rfl
    rw [← noWatermarks]
    rcases same with ⟨_, rfl⟩ | derives
    · exact .inl rfl
    · exact derives.floor
  · obtain ⟨_, _, visible⟩ := at_of_le (Nat.pos_of_ne_zero absent) (le_refl (s.version .pointer))
    obtain ⟨_, found, _⟩ := chain.published _ _ _ visible
    rw [chain.visibleWatermarks_eq visible found]
    have later := s.le_write .pointer label pointer'
    rw [version_write_self] at visible'
    exact (chain'.succeeds _ _ _ _ _ _ _ (visible.mono later) (found.mono later) visible' found').derives.floor

variable {value : Object path}

theorem inBatch_write (other : ∀ ledger, ObjectPath.ledger ledger ≠ path) {call : CompactorCall} {eventId : String}
    (inBatch : InBatch (s.write path label value) call eventId) :
    InBatch s call eventId := by
  obtain ⟨ledger, member, author, event, found, same⟩ := inBatch
  exact ⟨ledger, member, author, event, (at_write_ne (other ledger)).mp found, same⟩

theorem logged_write (other : ∀ ledger, ObjectPath.ledger ledger ≠ path) {eventId : String}
    (logged : Logged (s.write path label value) eventId) : Logged s eventId := by
  obtain ⟨ledger, author, event, found, same⟩ := logged
  exact ⟨ledger, author, event, (at_write_ne (other ledger)).mp found, same⟩

theorem CaughtUp.publish (caughtUp : CaughtUp s) (chain : Chain ext sums s)
    (chain' : Chain ext sums (s.write .pointer label pointer')) (covers : Covers s label.call)
    (absentLegacy : s.version legacyManifest = 0) :
    CaughtUp (s.write .pointer label pointer') := by
  have later := s.le_write .pointer label pointer'
  intro eventId floor isLogged isFloor before
  have wasLogged := logged_write (by simp) isLogged
  rcases chain.floor_publish chain' absentLegacy with same | ⟨last, inBatch, isLast⟩
  · exact (caughtUp eventId floor wasLogged (same ▸ isFloor) before).mono later
  · obtain rfl := Option.some.inj (isLast.symm.trans isFloor)
    rcases covers eventId last wasLogged (inBatch_write (by simp) inBatch) before with new | old
    · exact ⟨_, label, pointer', s.at_write_self .pointer label pointer', new.mono later⟩
    · exact old.mono later

theorem Chain.visibleWatermarks_write (chain : Chain ext sums s)
    (chain' : Chain ext sums (s.write path label value)) (other : path ≠ .pointer)
    (notLegacy : path ≠ legacyManifest) :
    visibleWatermarks (s.write path label value) = visibleWatermarks s := by
  unfold visibleWatermarks
  rw [get_write_ne _ _ _ other.symm]
  cases read : s.get .pointer with
  | none => rw [get_write_ne _ _ _ notLegacy.symm]
  | some pointer =>
    obtain ⟨_, visible⟩ := At.of_get read
    obtain ⟨_, found, _⟩ := chain.published _ _ _ visible
    have unchanged : ObjectPath.manifest pointer.manifestPath ≠ path := by
      rintro rfl
      have bound := chain'.immutable (.manifest pointer.manifestPath) rfl
      have present := found.le
      rw [version_write_self] at bound
      omega
    dsimp only
    rw [get_write_ne _ _ _ unchanged]

end Watermarks

section Selection

variable (floor : Option String) {paths : List String} {dedup : List (String × String)}

/-- Each path that is kept stands under its own event id. -/
def UnderOwnId (dedup : List (String × String)) : Prop := ∀ entry ∈ dedup, eventIdFromLedgerPath entry.2 = some entry.1

theorem selectEventPath_ok {path eventId : String} (named : eventIdFromLedgerPath path = some eventId) (own : UnderOwnId dedup) :
    ∃ kept, selectEventPath floor dedup path = .ok kept ∧ UnderOwnId kept ∧ dedup ⊆ kept ∧
      ((∀ least, floor = some least → least < eventId) → ∃ entry ∈ kept, entry.1 = eventId) := by
  rw [selectEventPath, named]
  dsimp only
  split
  · rename_i passed
    refine ⟨dedup, rfl, own, fun _ member => member, fun after => ?_⟩
    cases floor with
    | none => cases passed
    | some least => exact absurd (after least rfl) (of_decide_eq_true passed)
  · split
    · rename_i known
      obtain ⟨entry, member, same⟩ := any_eq_true.mp known
      exact ⟨dedup, rfl, own, fun _ member => member, fun _ => ⟨entry, member, of_decide_eq_true same⟩⟩
    · refine ⟨_, rfl, fun entry member => ?_, subset_append_left _ _, fun _ => ⟨(eventId, path), by simp, rfl⟩⟩
      rcases mem_append.mp member with old | new
      · exact own entry old
      · obtain rfl := mem_singleton.mp new
        exact named

theorem selectEventPath_foldlM (named : ∀ path ∈ paths, ∃ eventId, eventIdFromLedgerPath path = some eventId)
    (own : UnderOwnId dedup) :
    ∃ kept, paths.foldlM (selectEventPath floor) dedup = .ok kept ∧ UnderOwnId kept ∧ dedup ⊆ kept ∧
      ∀ path ∈ paths, ∀ eventId, eventIdFromLedgerPath path = some eventId →
        (∀ least, floor = some least → least < eventId) → ∃ entry ∈ kept, entry.1 = eventId := by
  induction paths generalizing dedup with
  | nil => exact ⟨dedup, rfl, own, fun _ member => member, nofun⟩
  | cons path paths ih =>
    obtain ⟨_, isNamed⟩ := named path mem_cons_self
    obtain ⟨_, selected, ownFirst, grown, keeps⟩ := selectEventPath_ok floor isNamed own
    obtain ⟨kept, rest, ownKept, grown', keepsRest⟩ := ih (fun path member => named path (mem_cons_of_mem _ member))
      ownFirst
    refine ⟨kept, ?_, ownKept, fun _ member => grown' (grown member), fun path' member eventId' isNamed' after => ?_⟩
    · rwa [foldlM_cons, selected]
    · rcases mem_cons.mp member with rfl | member
      · obtain rfl := Option.some.inj (isNamed.symm.trans isNamed')
        obtain ⟨entry, isEntry, same⟩ := keeps after
        exact ⟨entry, grown' isEntry, same⟩
      · exact keepsRest path' member eventId' isNamed' after

theorem selectRebuildEventPaths_complete (watermarks : Watermarks)
    (named : ∀ path ∈ paths, ∃ eventId, eventIdFromLedgerPath path = some eventId) :
    ∃ selected, selectRebuildEventPaths paths watermarks = .ok selected ∧
      ∀ path ∈ paths, ∀ eventId, eventIdFromLedgerPath path = some eventId →
        (∀ least, replayFloorEventId watermarks = some least → least < eventId) →
        ∃ path' ∈ selected, eventIdFromLedgerPath path' = some eventId := by
  have none : UnderOwnId [] := nofun
  obtain ⟨kept, selected, own, _, keeps⟩ := selectEventPath_foldlM (replayFloorEventId watermarks) named none
  refine ⟨(kept.insertionSort fun a b => a.1 ≤ b.1).map Prod.snd, ?_, fun path member eventId isNamed after => ?_⟩
  · rw [selectRebuildEventPaths, selected]
    rfl
  · obtain ⟨entry, isKept, rfl⟩ := keeps path member eventId isNamed after
    exact ⟨entry.2, mem_map.mpr ⟨entry, (mem_insertionSort _).mpr isKept, rfl⟩, own entry isKept⟩

end Selection

section Runs

variable {ext : Externals} {sums : Checksums} {P : Type}

theorem CaughtUp.write {w : CompactorWorld P} (caughtUp : CaughtUp w.store) (chain : Chain ext sums w.store) {p : P}
    {service : Service} {answers : (q : Core.Question) → Core.Answer q} {label : Label CompactorCall} {path : ObjectPath}
    {value : Object path} {precondition : WritePrecondition}
    {rest : Reply WriteResult → Program Object Core.Answer CompactorOutcome}
    (running : w.party p = .running label (.put path value precondition rest))
    (inOrder : InOrder w (.step p service answers)) (chain' : Chain ext sums (w.store.write path label value))
    (absentLegacy : (w.store.write path label value).version legacyManifest = 0) :
    CaughtUp (w.store.write path label value) := by
  have later := w.store.le_write path label value
  have notLegacy : path ≠ legacyManifest := by
    rintro rfl
    rw [version_write_self] at absentLegacy
    omega
  simp only [InOrder, running] at inOrder
  cases path with
  | pointer =>
    exact caughtUp.publish chain chain' inOrder absentLegacy
  | ledger path =>
    refine caughtUp.extend later (chain.visibleWatermarks_write chain' (by simp) notLegacy) fun eventId
      ⟨path', author, event, found, same⟩ => ?_
    by_cases here : path' = path
    · subst here
      rcases at_write_same.mp found with old | ⟨_, _, rfl⟩
      · exact .inl ⟨path', author, event, old, same⟩
      · exact .inr (same ▸ inOrder)
    · have other : ObjectPath.ledger path' ≠ .ledger path := fun same => here (ObjectPath.ledger.inj same)
      exact .inl ⟨path', author, event, (at_write_ne other).mp found, same⟩
  | manifest path | artifact tables | lock =>
    exact caughtUp.extend later (chain.visibleWatermarks_write chain' (by simp) notLegacy)
      fun eventId logged => .inl (logged_write (by simp) logged)

variable [DecidableEq P]

theorem caughtUp_of_reaches {s : Objects} {calls : Nat} (bootstrap : Bootstrap s calls) {w : CompactorWorld P}
    (reached : (compactorProtocol ext sums).Reaches (fun w action _ => InOrder w action) { store := s, calls } w)
    (absentLegacy : w.store.version legacyManifest = 0) : CaughtUp w.store := by
  have chains : ∀ w : CompactorWorld P, (compactorProtocol ext sums).Reaches (fun w action _ => InOrder w action)
      { store := s, calls } w → Chain ext sums w.store :=
    fun w reached => (sound_of_reaches bootstrap (reached.mono fun _ _ _ _ => trivial)).holds
  induction reached with
  | refl =>
    intro eventId floor _ isFloor
    rw [visibleWatermarks_absent bootstrap.pointer absentLegacy] at isFloor
    cases isFloor
  | step reached next inOrder ih =>
    rename_i w₁ w₂ action
    have chain₂ := chains w₂ (reached.step next inOrder)
    obtain same | ⟨p, _, _, label, path, value, _, _, rfl, running, _, written⟩ := Protocol.next_store next
    · rw [same] at absentLegacy ⊢
      exact ih absentLegacy
    · have absentBefore : w₁.store.version legacyManifest = 0 := by
        have grown := version_mono (w₁.store.le_write path label value) legacyManifest
        rw [← written, absentLegacy] at grown
        exact Nat.le_zero.mp grown
      rw [written] at absentLegacy chain₂ ⊢
      exact (ih absentBefore).write (chains w₁ reached) running inOrder chain₂ absentLegacy

/-- In a run whose batches leave no earlier event out, and whose events are appended after the
watermark, a rebuild that is given the whole ledger selects every event that is not part of the visible
state. -/
theorem rebuild_selects_unfolded {s : Objects} {calls : Nat} (bootstrap : Bootstrap s calls) {w : CompactorWorld P}
    (reached : (compactorProtocol ext sums).Reaches (fun w action _ => InOrder w action) { store := s, calls } w)
    (absentLegacy : w.store.version legacyManifest = 0) {paths : List String}
    (named : ∀ path ∈ paths, ∃ eventId, eventIdFromLedgerPath path = some eventId)
    (listed : ∀ path author event, w.store.At (.ledger path) 1 author event →
      path ∈ paths ∧ eventIdFromLedgerPath path = some event.eventId) :
    ∃ selected, selectRebuildEventPaths paths (visibleWatermarks w.store) = .ok selected ∧
      ∀ eventId, Logged w.store eventId → ¬ Folded w.store eventId →
        ∃ path ∈ selected, eventIdFromLedgerPath path = some eventId := by
  obtain ⟨selected, isSelected, complete⟩ := selectRebuildEventPaths_complete (visibleWatermarks w.store) named
  refine ⟨selected, isSelected, fun eventId logged unfolded => ?_⟩
  obtain ⟨path, author, event, found, rfl⟩ := logged
  obtain ⟨inPaths, isNamed⟩ := listed path author event found
  refine complete path inPaths event.eventId isNamed fun floor isFloor => ?_
  by_contra before
  exact unfolded (caughtUp_of_reaches bootstrap reached absentLegacy event.eventId floor
    ⟨path, author, event, found, rfl⟩ isFloor before)

end Runs

/-- The ledger holds no other events than these, by path and id. -/
def LedgerOf (s : Objects) (entries : List (String × String)) : Prop :=
  ∀ path author event, s.At (.ledger path) 1 author event → (path, event.eventId) ∈ entries

variable {s : Objects} {entries : List (String × String)} {label : Label CompactorCall}

theorem LedgerOf.write (ledger : LedgerOf s entries) {path : ObjectPath} {value : Object path}
    (other : ∀ ledger, ObjectPath.ledger ledger ≠ path) :
    LedgerOf (s.write path label value) entries :=
  fun ledgerPath author event found => ledger ledgerPath author event ((at_write_ne (other ledgerPath)).mp found)

theorem LedgerOf.append (ledger : LedgerOf s entries) {path : String} {event : OrchestrationEvent} :
    LedgerOf (s.write (.ledger path) label event) ((path, event.eventId) :: entries) := by
  intro path' author event' found
  by_cases here : path' = path
  · subst here
    rcases at_write_same.mp found with old | ⟨_, _, rfl⟩
    · exact mem_cons_of_mem _ (ledger path' author event' old)
    · exact mem_cons_self
  · have other : ObjectPath.ledger path' ≠ .ledger path := fun same => here (ObjectPath.ledger.inj same)
    exact mem_cons_of_mem _ (ledger path' author event' ((at_write_ne other).mp found))

/-- The first call that publishes anything decides what is folded. -/
theorem Folded.inBatch (absent : s.version .pointer = 0) {pointer : OrchestrationManifestPointer} {eventId : String}
    (folded : Folded (s.write .pointer label pointer) eventId) :
    InBatch (s.write .pointer label pointer) label.call eventId := by
  obtain ⟨_, _, _, visible, inBatch⟩ := folded
  rcases at_write_same.mp visible with old | ⟨_, rfl, _⟩
  · exact absurd (old.1.trans_le old.le) (by omega)
  · exact inBatch

/-- An event that is not in the ledger at the path of a batch is not part of the batch. -/
theorem LedgerOf.inBatch (ledger : LedgerOf s entries) {call : CompactorCall} {eventId : String}
    (inBatch : InBatch s call eventId) :
    ∃ path ∈ call.eventPaths, (path, eventId) ∈ entries := by
  obtain ⟨path, member, author, event, found, rfl⟩ := inBatch
  exact ⟨path, member, ledger path author event found⟩

def secondPath : String := orchestrationEventPath "2026-01-01" "02"

def twoEntries : List (String × String) := [(secondPath, "02"), (firstPath, "01")]

theorem ledgerOf_empty : LedgerOf {} [] := by
  intro path author event found
  simp [At] at found

theorem LedgerOf.listed (ledger : LedgerOf s twoEntries) (path : String) (author : Label CompactorCall)
    (event : OrchestrationEvent) (found : s.At (.ledger path) 1 author event) :
    path ∈ [firstPath, secondPath] ∧ eventIdFromLedgerPath path = some event.eventId := by
  have entry := ledger path author event found
  simp only [twoEntries, mem_cons, Prod.mk.injEq, not_mem_nil, or_false] at entry
  rcases entry with ⟨rfl, same⟩ | ⟨rfl, same⟩ <;> rw [same]
  · exact ⟨by simp, rfl⟩
  · exact ⟨by simp, rfl⟩

def twoAppended : CompactorWorld Unit :=
  sampleProtocol.alone () { store := {} }
    [callWith "" (.append "2026-01-01" (runTriggeredAs "01" "r1")),
     callWith "" (.append "2026-01-01" (runTriggeredAs "02" "r2"))]

theorem ledgerOf_twoAppended : LedgerOf twoAppended.store twoEntries := ledgerOf_empty.append.append

def outOfOrder : CompactorWorld Unit :=
  sampleProtocol.alone () twoAppended [callWith "a" (.compact .sample [secondPath] none none)]

theorem reaches_twoAppended : sampleProtocol.Reaches (fun _ _ _ => True) { store := {} } twoAppended :=
  Protocol.reaches_alone _ () (fun _ _ => rfl) (fun _ _ _ _ => trivial) _ rfl

/-- A rebuild passes over the event that was left out. -/
theorem rebuild_misses_unfolded : ∃ w : CompactorWorld Unit,
      sampleProtocol.Reaches (fun _ _ _ => True) { store := {} } w ∧
      (∀ path author event, w.store.At (.ledger path) 1 author event →
        path ∈ [firstPath, secondPath] ∧ eventIdFromLedgerPath path = some event.eventId) ∧
      selectRebuildEventPaths [firstPath, secondPath] (visibleWatermarks w.store) = .ok [] ∧
      Logged w.store "01" ∧ ¬ Folded w.store "01" := by
  have reached : sampleProtocol.Reaches (fun _ _ _ => True) twoAppended outOfOrder :=
    Protocol.reaches_alone _ () (fun _ _ => rfl) (fun _ _ _ _ => trivial) _ rfl
  have ledger : LedgerOf outOfOrder.store twoEntries := by
    exact ((ledgerOf_twoAppended.write (by simp)).write (by simp)).write (by simp)
  refine ⟨outOfOrder, reaches_twoAppended.trans reached, ledger.listed, rfl,
    ⟨firstPath, _, _, ⟨Nat.one_pos, rfl⟩, rfl⟩, ?_⟩
  intro folded
  obtain ⟨_, isBatch, entry⟩ := ledger.inBatch (folded.inBatch rfl)
  obtain rfl := mem_singleton.mp isBatch
  exact absurd entry (by decide)

theorem bootstrap_twoAppended : Bootstrap twoAppended.store 2 := by
  have sound := sound_of_reaches bootstrap_empty reaches_twoAppended
  exact ⟨rfl, sound.holds.immutable, sound.numbered⟩

theorem covers_first (ledger : LedgerOf s twoEntries) : Covers s firstCompaction := by
  rintro _ _ ⟨path, author, event, logged, rfl⟩ inBatch before
  obtain ⟨_, isBatch, entry'⟩ := ledger.inBatch inBatch
  obtain rfl := mem_singleton.mp isBatch
  have entry := ledger path author event logged
  simp only [twoEntries, mem_cons, Prod.mk.injEq, not_mem_nil, or_false] at entry entry'
  rcases entry' with ⟨same, _⟩ | ⟨_, rfl⟩
  · exact absurd same (by decide)
  · rcases entry with ⟨_, isSecond⟩ | ⟨_, isFirst⟩
    · rw [isSecond] at before
      exact absurd before (by decide)
    · rw [isFirst]
      exact .inl inBatch

def firstOfTwo : List (Action Core.Answer CompactorCall Unit) :=
  .start () firstCompaction :: replicate 16 (.step () .answered (Core.always 0 "a"))

theorem rebuild_selects_unfolded_second :
    ∃ w : CompactorWorld Unit, Folded w.store "01" ∧ ¬ Folded w.store "02" ∧
      ∃ selected, selectRebuildEventPaths [firstPath, secondPath] (visibleWatermarks w.store) = .ok selected ∧
        ∃ path ∈ selected, eventIdFromLedgerPath path = some "02" := by
  obtain ⟨w, ran⟩ : ∃ w, sampleProtocol.run { store := twoAppended.store, calls := 2 }
      firstOfTwo = some w := ⟨_, rfl⟩
  have reached : sampleProtocol.Reaches (fun w action _ => InOrder w action)
      { store := twoAppended.store, calls := 2 } w := by
    refine Protocol.reaches_of_allows ?_ ran
    iterate 15 refine And.intro trivial ?_
    refine And.intro (covers_first ?_) (And.intro trivial trivial)
    exact (ledgerOf_twoAppended.write (by simp)).write (by simp)
  have written : ∃ delta path manifest pointer, w.store = ((twoAppended.store.write
      (.artifact ⟨orchestrationL0Dir "a", "tables"⟩) ⟨2, firstCompaction⟩ delta).write (.manifest path)
      ⟨2, firstCompaction⟩ manifest).write .pointer ⟨2, firstCompaction⟩ pointer := by
    cases ran
    exact ⟨_, _, _, _, rfl⟩
  obtain ⟨_, path, _, _, written⟩ := written
  have ledger : LedgerOf w.store twoEntries := by
    rw [written]
    exact ((ledgerOf_twoAppended.write (by simp)).write (by simp)).write (by simp)
  have unfolded : ¬ Folded w.store "02" := by
    intro folded
    rw [written] at folded ledger
    obtain ⟨path, isBatch, entry⟩ := ledger.inBatch (folded.inBatch rfl)
    obtain rfl := mem_singleton.mp isBatch
    exact absurd entry (by decide)
  have named : ∀ path ∈ [firstPath, secondPath], ∃ eventId, eventIdFromLedgerPath path = some eventId :=
    forall_mem_cons.mpr ⟨⟨"01", rfl⟩, forall_mem_singleton.mpr ⟨"02", rfl⟩⟩
  obtain ⟨selected, isSelected, complete⟩ := rebuild_selects_unfolded bootstrap_twoAppended reached
    (by cases ran; rfl) named ledger.listed
  cases ran
  exact ⟨_, ⟨1, _, _, ⟨Nat.one_pos, rfl⟩, firstPath, mem_singleton_self _, _, _, ⟨Nat.one_pos, rfl⟩, rfl⟩, unfolded,
    selected, isSelected, complete "02" ⟨secondPath, _, _, ⟨Nat.one_pos, rfl⟩, rfl⟩ unfolded⟩

end Arco.Flow
