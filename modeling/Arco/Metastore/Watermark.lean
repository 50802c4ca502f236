import Arco.Metastore.Ledger

/-! The watermark of the metastore ledger under concurrent appends.

A watermark is complete if no event at or below its number can still become durable: each reservation that is in place
up to the number has its event, and no number that small will be reserved again.
-/

namespace Arco.Metastore.MetastoreLedger

open Arco.Catalog (CatalogError)
open Effects Option Objects

/-! ## Settled numbers -/

def Durable (s : Ledger) (eventId : String) : Prop := (s.current (.event eventId)).isSome = true

def Reserved (s : Ledger) (number : Nat) : Prop := ∃ eventId, s.Held (.sequence number) eventId

/-- A larger number was reserved, or an event that this one was reserved for is durable. -/
def Passed (s : Ledger) (number : Nat) : Prop :=
  (∃ n, number < n ∧ Reserved s n) ∨ ∃ eventId, s.Held (.sequence number) eventId ∧ Durable s eventId

/-- No event with this number or a smaller one will become durable any more. -/
structure Settled (s : Ledger) (number : Nat) : Prop where
  passed : Passed s number
  durable : ∀ n ≤ number, ∀ eventId, s.current (.sequence n) = some eventId → Durable s eventId

/-- What is known of the number that a watermark object names. -/
def Warranted (s : Ledger) : WatermarkObject → Nat → Prop
  | .latest, number => Settled s number
  | .pending, number => Reserved s number

structure Consistent (s : Ledger) : Prop where
  positive : ∀ n, Reserved s n → 1 ≤ n
  holders : ∀ n eventId other, s.Held (.sequence n) eventId → Durable s eventId →
    s.current (.sequence n) = some other → Durable s other
  watermarks : ∀ object watermark, s.current (.watermark object) = some watermark →
    Warranted s object watermark.sequence

/-- What the operations of the ledger do. -/
structure Advances (s s' : Ledger) : Prop where
  grows : ∀ k, s.revisions k <:+ s'.revisions k
  events : ∀ eventId event, s.current (.event eventId) = some event → s'.current (.event eventId) = some event
  reserves : ∀ n eventId, s'.current (.sequence n) = some eventId →
    s.current (.sequence n) = some eventId ∨ ¬ Passed s n
  writes : ∀ eventId event, s'.current (.event eventId) = some event → s.current (.event eventId) = some event ∨
    s.current (.event eventId) = none ∧ s.current (.sequence event.sequence) = some eventId
  watermarks : ∀ object watermark, s.current (.watermark object) = some watermark →
    ∃ watermark', s'.current (.watermark object) = some watermark' ∧ watermark.sequence ≤ watermark'.sequence

theorem Advances.refl (s : Ledger) : Advances s s where
  grows _ := List.suffix_rfl
  events _ _ found := found
  reserves _ _ found := .inl found
  writes _ _ found := .inl found
  watermarks _ watermark found := ⟨watermark, found, le_rfl⟩

variable {s s' : Ledger} {k : LedgerKey} {eventId : String} {number : Nat} {object : WatermarkObject}

theorem Passed.le {n : Nat} (passed : Passed s number) (below : n ≤ number) : Passed s n := by
  rcases Nat.lt_or_eq_of_le below with lt | rfl
  · obtain ⟨m, above, reserved⟩ | ⟨eventId, held, _⟩ := passed
    · exact .inl ⟨m, lt.trans above, reserved⟩
    · exact .inl ⟨number, lt, eventId, held⟩
  · exact passed

section

variable (advances : Advances s s')
include advances

theorem Advances.held {value : LedgerValue k} (held : s.Held k value) :
    s'.Held k value := (advances.grows k).subset held

theorem Advances.reserved {n : Nat} (reserved : Reserved s n) : Reserved s' n :=
  reserved.imp fun _ held => advances.held held

theorem Advances.durable (durable : Durable s eventId) : Durable s' eventId := by
  obtain ⟨event, found⟩ := isSome_iff_exists.mp durable
  exact isSome_iff_exists.mpr ⟨event, advances.events eventId event found⟩

theorem Advances.passed (passed : Passed s number) : Passed s' number :=
  passed.imp (fun ⟨n, above, reserved⟩ => ⟨n, above, advances.reserved reserved⟩)
    fun ⟨eventId, held, durable⟩ => ⟨eventId, advances.held held, advances.durable durable⟩

/-- A number that is passed is not reserved again. -/
theorem Advances.reserves_of_passed (passed : Passed s number) (found : s'.current (.sequence number) = some eventId) :
    s.current (.sequence number) = some eventId :=
  (advances.reserves number eventId found).resolve_right (not_not_intro passed)

theorem Advances.settled (settled : Settled s number) : Settled s' number where
  passed := advances.passed settled.passed
  durable n below eventId found := advances.durable <|
    settled.durable n below eventId (advances.reserves_of_passed (settled.passed.le below) found)

theorem Advances.warranted (warranted : Warranted s object number) : Warranted s' object number := by
  cases object with
  | latest => exact advances.settled warranted
  | pending => exact advances.reserved warranted

theorem Advances.durable_of_settled (settled : Settled s number) {event : MetastoreEvent}
    (found : s'.current (.event eventId) = some event) (below : event.sequence ≤ number) :
    s.current (.event eventId) = some event := by
  obtain old | ⟨absent, reserved⟩ := advances.writes eventId event found
  · exact old
  · have durable := settled.durable event.sequence below eventId reserved
    rw [Durable, absent] at durable
    cases durable

end

/-! ## The operations -/

/-- What an operation may do to the key that it changes. -/
def Permits (s s' : Ledger) : LedgerKey → Prop
  | .event eventId => s.current (.event eventId) = none ∧
      ∀ event, s'.current (.event eventId) = some event → s.current (.sequence event.sequence) = some eventId
  | .sequence n => ∀ eventId, s'.current (.sequence n) = some eventId → ¬ Passed s n
  | .watermark object => ∀ watermark, s.current (.watermark object) = some watermark →
      ∃ watermark', s'.current (.watermark object) = some watermark' ∧ watermark.sequence ≤ watermark'.sequence

theorem Advances.of_change (grows : ∀ k, s.revisions k <:+ s'.revisions k)
    (others : ∀ k', k' ≠ k → s'.current k' = s.current k') (permits : Permits s s' k) : Advances s s' := by
  refine ⟨grows, fun eventId event found => ?_, fun n eventId found => ?_, fun eventId event found => ?_,
    fun object watermark found => ?_⟩
  · by_cases here : .event eventId = k
    · subst here
      cases permits.1.symm.trans found
    · rwa [others _ here]
  · by_cases here : .sequence n = k
    · subst here
      exact .inr (permits eventId found)
    · exact .inl (others _ here ▸ found)
  · by_cases here : .event eventId = k
    · subst here
      exact .inr ⟨permits.1, permits.2 event found⟩
    · exact .inl (others _ here ▸ found)
  · by_cases here : .watermark object = k
    · subst here
      exact permits watermark found
    · exact ⟨watermark, (others _ here).trans found, le_rfl⟩

section

variable (consistent : Consistent s)
include consistent

theorem consistent_of_same (advances : Advances s s')
    (held : ∀ n eventId, s'.Held (.sequence n) eventId → s.Held (.sequence n) eventId)
    (holders : ∀ n eventId other, s.Held (.sequence n) eventId → Durable s' eventId →
      s'.current (.sequence n) = some other → Durable s' other)
    (watermarks : ∀ object, s'.current (.watermark object) = s.current (.watermark object)) : Consistent s' where
  positive n reserved := consistent.positive n (reserved.imp fun _ => held n _)
  holders n _ _ isHeld := holders n _ _ (held n _ isHeld)
  watermarks object watermark found := by
    rw [watermarks] at found
    exact advances.warranted (consistent.watermarks object watermark found)

theorem put_event {event : MetastoreEvent} (absent : s.current (.event eventId) = none)
    (reserved : s.current (.sequence event.sequence) = some eventId)
    (own : ∀ n other, s.Held (.sequence n) eventId → s.current (.sequence n) = some other → other = eventId) :
    Consistent (s.put (.event eventId) event) ∧ Advances s (s.put (.event eventId) event) := by
  have advances : Advances s (s.put (.event eventId) event) :=
    .of_change (grows_revise _) (fun _ => current_put_of_ne)
      ⟨absent, fun _ found => by rwa [← some.inj (current_put_self.symm.trans found)]⟩
  refine ⟨consistent_of_same consistent advances (fun _ _ => id) (fun n id other held durable found => ?_)
    fun _ => rfl, advances⟩
  by_cases same : id = eventId
  · subst same
    exact own n other held found ▸ durable
  · rw [Durable, current_put_of_ne (by simpa using same)] at durable
    exact advances.durable (consistent.holders n id other held durable found)

theorem delete_sequence :
    Consistent (s.delete (.sequence number)) ∧ Advances s (s.delete (.sequence number)) := by
  have advances : Advances s (s.delete (.sequence number)) :=
    .of_change grows_delete (fun _ => current_delete_of_ne) fun id found => by
      cases current_delete_self.symm.trans found
  refine ⟨consistent_of_same consistent advances (fun _ _ => held_delete.mp) (fun n id other held durable found => ?_)
    fun _ => current_delete_of_ne (by simp), advances⟩
  rw [Durable, current_delete_of_ne (by simp)] at durable
  by_cases same : n = number
  · subst same
    cases current_delete_self.symm.trans found
  · rw [current_delete_of_ne (by simpa using same)] at found
    exact advances.durable (consistent.holders n id other held durable found)

theorem put_sequence (positive : 1 ≤ number) (fresh : ¬ Passed s number) :
    Consistent (s.put (.sequence number) eventId) ∧ Advances s (s.put (.sequence number) eventId) := by
  have advances : Advances s (s.put (.sequence number) eventId) :=
    .of_change (grows_revise _) (fun _ => current_put_of_ne) fun _ _ => fresh
  refine ⟨⟨fun n reserved => ?_, fun n id other held durable found => ?_, fun object watermark found => ?_⟩, advances⟩
  · by_cases same : n = number
    · exact same ▸ positive
    · obtain ⟨id, held⟩ := reserved
      rw [held_put_of_ne (by simpa using same)] at held
      exact consistent.positive n ⟨id, held⟩
  · by_cases same : n = number
    · subst same
      obtain rfl | old := held_put_self.mp held
      · exact some.inj (current_put_self.symm.trans found) ▸ durable
      · exact absurd (.inr ⟨id, old, durable⟩) fresh
    · rw [held_put_of_ne (by simpa using same)] at held
      rw [current_put_of_ne (by simpa using same)] at found
      exact consistent.holders n id other held durable found
  · rw [current_put_of_ne (by simp)] at found
    exact advances.warranted (consistent.watermarks object watermark found)

theorem put_watermark {candidate : MetastoreLedgerWatermark}
    (warranted : Warranted s object candidate.sequence)
    (forward : ∀ watermark, s.current (.watermark object) = some watermark → watermark.sequence ≤ candidate.sequence) :
    Consistent (s.put (.watermark object) candidate) ∧ Advances s (s.put (.watermark object) candidate) := by
  have advances : Advances s (s.put (.watermark object) candidate) :=
    .of_change (grows_revise _) (fun _ => current_put_of_ne) fun watermark found =>
      ⟨candidate, current_put_self, forward watermark found⟩
  refine ⟨⟨consistent.positive, consistent.holders, fun object' watermark found => ?_⟩, advances⟩
  · by_cases same : object' = object
    · subst same
      rw [current_put_self] at found
      obtain rfl := some.inj found
      exact advances.warranted warranted
    · rw [current_put_of_ne (by simpa using same)] at found
      exact advances.warranted (consistent.watermarks object' watermark found)

end

/-! ## Calls -/

inductive LedgerCall where
  | nextSequence
  | append (event : MetastoreEvent)
  | latestWatermark

inductive LedgerAnswer where
  | sequence (number : Nat)
  | appended
  | watermark (watermark : Option MetastoreLedgerWatermark)

def callProgram (storage : StorageScope) : LedgerCall → LedgerProgram LedgerAnswer
  | .nextSequence => do return .sequence (← nextSequence)
  | .append event => do
    appendEvent storage event
    return .appended
  | .latestWatermark => do return .watermark (← latestWatermark)

/-- An event is appended with a number that was taken from `next_sequence`. -/
def protocol (storage : StorageScope) :
    Protocol (ObjectRes LedgerValue LedgerListing) (Except CatalogError LedgerAnswer) LedgerCall where
  program call := (callProgram storage call).run
  admits
    | returned, .append event => returned.any fun
      | (⟨_, .nextSequence⟩, .ok (.sequence number)) => number = event.sequence
      | _ => false
    | _, _ => true

/-- A number is reserved only while no larger one was reserved and no event that it was reserved for is durable. An event
is written only while its number is reserved for it, and no number that was is reserved for another event now. If there is
no watermark object yet, the watermark is taken from a reservation only if the events of all smaller reservations are
durable. -/
structure Orderly (call : LedgerCall) (op : LedgerOp) (s : Ledger) : Prop where
  reserves : ∀ number eventId precondition, op = .put (.sequence number) eventId precondition →
    s.current (.sequence number) = none → ¬ Passed s number
  writes : ∀ eventId event precondition, op = .put (.event eventId) event precondition →
    s.current (.event eventId) = none → s.current (.sequence event.sequence) = some eventId ∧
      ∀ n other, s.Held (.sequence n) eventId → s.current (.sequence n) = some other → other = eventId
  fallsBack : ∀ eventId, call = .latestWatermark → op = .head (.event eventId) → Durable s eventId →
    ∀ number, s.Held (.sequence number) eventId →
      (∀ watermark, s.current (.watermark .latest) = some watermark → watermark.sequence < number) →
      ∀ m < number, ∀ other, s.current (.sequence m) = some other → Durable s other

def contract : Contract LedgerOp Ledger LedgerCall where
  inv := Consistent
  guarantee := Advances
  may := Orderly
  refl := Advances.refl

abbrev Grown (s s' : Ledger) : Prop := contract.Grown s s'

def AtLeast (s : Ledger) (object : WatermarkObject) (number : Nat) : Prop :=
  ∃ watermark, s.current (.watermark object) = some watermark ∧ number ≤ watermark.sequence

section Grown

theorem grown_keeps (Known : Ledger → Prop) (step : ∀ {s s'}, Advances s s' → Known s → Known s')
    (consistent : Consistent s) (grown : Grown s s') (known : Known s) : Known s' :=
  Contract.Grown.keeps grown (fun _ _ advances known => step advances known) consistent known

variable (consistent : Consistent s) (grown : Grown s s')

include consistent grown

theorem grown_held {k : LedgerKey} {value : LedgerValue k} (held : s.Held k value) : s'.Held k value :=
  grown_keeps (·.Held k value) (fun advances => advances.held) consistent grown held

theorem grown_reserved {n : Nat} (reserved : Reserved s n) : Reserved s' n :=
  grown_keeps (Reserved · n) (fun advances => advances.reserved) consistent grown reserved

theorem grown_settled (settled : Settled s number) : Settled s' number :=
  grown_keeps (Settled · number) (fun advances => advances.settled) consistent grown settled

theorem grown_warranted (warranted : Warranted s object number) : Warranted s' object number :=
  grown_keeps (Warranted · object number) (fun advances => advances.warranted) consistent grown warranted

theorem grown_revisions (k : LedgerKey) : s.revisions k <:+ s'.revisions k := by
  refine grown_keeps (fun s' => s.revisions k <:+ s'.revisions k) ?_ consistent grown List.suffix_rfl
  intro _ _ advances known
  exact known.trans (advances.grows k)

theorem grown_atLeast (atLeast : AtLeast s object number) : AtLeast s' object number := by
  refine grown_keeps (AtLeast · object number) ?_ consistent grown atLeast
  rintro _ _ advances ⟨watermark, found, below⟩
  obtain ⟨watermark', found', forward⟩ := advances.watermarks object watermark found
  exact ⟨watermark', found', below.trans forward⟩

theorem grown_durable_of_settled (settled : Settled s number) {eventId : String} {event : MetastoreEvent}
    (found : s'.current (.event eventId) = some event) (below : event.sequence ≤ number) :
    s.current (.event eventId) = some event := by
  have known := grown_keeps (fun s' => (∀ event, s'.current (.event eventId) = some event →
    event.sequence ≤ number → s.current (.event eventId) = some event) ∧ Settled s' number) ?_ consistent grown
    ⟨fun _ found _ => found, settled⟩
  · exact known.1 event found below
  · rintro _ _ advances ⟨known, settled⟩
    refine ⟨fun event found below => ?_, advances.settled settled⟩
    exact known event (advances.durable_of_settled settled found below) below

end Grown

/-! ## Watermark objects -/

section Programs

variable {call : LedgerCall} {α : Type} {Q : α → Ledger → Prop}

abbrev Keeps (call : LedgerCall) (Q : α → Ledger → Prop) (x : LedgerProgram α) (s : Ledger) : Prop :=
  Attempts id listed contract call Q x s

theorem keeps_seq {β : Type} {x : LedgerProgram β} {f : β → LedgerProgram α} (known : β → Ledger → Prop)
    (consistent : Consistent s) (first : Keeps call known x s)
    (rest : ∀ b s', Grown s s' → Consistent s' → known b s' → Keeps call Q (f b) s') : Keeps call Q (x >>= f) s :=
  attempts_seq consistent first rest

variable {candidate : MetastoreLedgerWatermark} {allow reserved : Bool}
  {version upper current : Nat} {event : MetastoreEvent}

/-- What a program knows that has read a watermark object: it was not there when the program began, or what it was then
or later. -/
def MarkerRead (s : Ledger) (object : WatermarkObject) : Option (MetastoreLedgerWatermark × Nat) → Ledger → Prop
  | none, _ => ∀ number, ¬ AtLeast s object number
  | some (watermark, version), s' => ∃ between, Grown s between ∧ Consistent between ∧ Grown between s' ∧
      between.current (.watermark object) = some watermark ∧ version ≤ between.version (.watermark object)

theorem keeps_readWatermarkMarker (consistent : Consistent s) :
    Keeps call (MarkerRead s object) (readWatermarkMarker object) s := by
  -- An object is never deleted.
  have missing : ∀ s', Grown s s' → s'.current (.watermark object) = none → ∀ number, ¬ AtLeast s object number := by
    intro s' grown absent number atLeast
    obtain ⟨_, found, _⟩ := grown_atLeast consistent grown atLeast
    cases absent.symm.trans found
  refine attempts_headRaw fun s₁ grown₁ consistent₁ _ => ?_
  cases isHead : s₁.head (.watermark object) with
  | none => exact attempts_pure fun _ _ _ => missing s₁ grown₁ (by simpa [head] using isHead)
  | some version =>
    refine attempts_getRaw fun s₂ grown₂ consistent₂ _ => ?_
    cases isCurrent : s₂.current (.watermark object) with
    | none => exact attempts_pure fun _ _ _ => missing s₂ (grown₁.trans grown₂) isCurrent
    | some watermark =>
      obtain ⟨_, _, isVersion⟩ := map_eq_some_iff.mp isHead
      have older := (grown_revisions consistent₁ grown₂ (.watermark object)).length_le
      exact attempts_pure fun s' grown' _ => ⟨s₂, grown₁.trans grown₂, consistent₂, grown', isCurrent, isVersion ▸ older⟩

theorem keeps_canReplaceStalePendingWatermark {current : MetastoreLedgerWatermark} :
    Keeps call (fun _ _ => True) (canReplaceStalePendingWatermark current candidate) s := by
  unfold canReplaceStalePendingWatermark
  split
  · exact attempts_pure fun _ _ _ => trivial
  · refine attempts_headRaw fun s₁ _ _ _ => ?_
    cases s₁.head (.event current.eventId) with
    | some version => exact attempts_pure fun _ _ _ => trivial
    | none =>
      refine attempts_getRaw fun s₂ _ _ _ => ?_
      cases s₂.current (.sequence candidate.sequence) with
      | none | some eventId => exact attempts_pure fun _ _ _ => trivial

theorem keeps_mayReplace {current : Option (MetastoreLedgerWatermark × Nat)} (consistent : Consistent s) :
    Keeps call (fun replaces _ => if replaces then ∀ marker, current = some marker → marker.1.sequence ≤ candidate.sequence
      else ∃ marker, current = some marker ∧ candidate.sequence ≤ marker.1.sequence)
      (mayReplace allow candidate current) s := by
  cases current with
  | none => exact attempts_pure fun _ _ _ => by simp
  | some marker =>
    obtain ⟨current, version⟩ := marker
    unfold mayReplace
    simp only
    split
    · refine attempts_pure fun _ _ _ => ?_
      exact ⟨_, rfl, by simp only; omega⟩
    · rename_i notNewer
      have forward : current.sequence ≤ candidate.sequence := by omega
      split
      · split
        · refine keeps_seq _ consistent keeps_canReplaceStalePendingWatermark fun stale s' _ _ _ => ?_
          split
          · exact attempts_pure fun _ _ _ => by simpa using forward
          · exact attempts_throw
        · exact attempts_throw
      · exact attempts_pure fun _ _ _ => by simpa using forward

theorem keeps_updateWatermarkMarkerInner {retries : Nat} (consistent : Consistent s)
    (warranted : Warranted s object candidate.sequence) :
    Keeps call (fun _ s' => AtLeast s' object candidate.sequence)
      (updateWatermarkMarkerInner object candidate allow retries) s := by
  induction retries generalizing s with
  | zero => exact attempts_throw
  | succ retries ih =>
    refine keeps_seq _ consistent (keeps_readWatermarkMarker consistent) fun current s₁ grown₁ consistent₁ isRead => ?_
    refine keeps_seq _ consistent₁ (keeps_mayReplace consistent₁) fun replaces s₂ grown₂ consistent₂ known => ?_
    cases replaces with
    | false =>
      obtain ⟨⟨read, _⟩, rfl, above⟩ := known
      obtain ⟨between, -, consistent', further, isRead, _⟩ := isRead
      refine attempts_pure fun s' grown' _ => ?_
      obtain ⟨watermark, found, below⟩ := grown_atLeast consistent' (further.trans (grown₂.trans grown'))
        ⟨read, isRead, le_rfl⟩
      exact ⟨watermark, found, above.trans below⟩
    | true =>
      refine attempts_putRaw (fun s₃ grown₃ consistent₃ _ _ => ?_) fun s₃ grown₃ consistent₃ _ allowed => ?_
      · have grown : Grown s s₃ := (grown₁.trans grown₂).trans grown₃
        exact ih consistent₃ (grown_warranted consistent grown warranted)
      · have grown : Grown s s₃ := (grown₁.trans grown₂).trans grown₃
        have written := put_watermark consistent₃ (grown_warranted consistent grown warranted) fun watermark found => by
          -- What is replaced is what was read.
          cases current with
          | none => simp [preconditionFor, allows, found] at allowed
          | some marker =>
            obtain ⟨_, -, consistent', further, isRead, older⟩ := isRead
            have grows := grown_revisions consistent' (further.trans (grown₂.trans grown₃)) (.watermark object)
            rw [current_of_allows grows isRead older allowed] at found
            obtain rfl := some.inj found
            exact known marker rfl
        refine ⟨written.1, written.2, attempts_pure fun s' grown' _ => ?_⟩
        exact grown_atLeast written.1 grown' ⟨candidate, current_put_self, le_rfl⟩

/-! ## Sequence markers -/

theorem durable_of_head {eventId : String} (isHead : s.head (.event eventId) = some version) :
    Durable s eventId := by
  obtain ⟨event, found, _⟩ := map_eq_some_iff.mp isHead
  exact isSome_iff_exists.mpr ⟨event, found⟩

theorem Settled.le {number number' : Nat} (settled : Settled s number) (below : number' ≤ number) : Settled s number' where
  passed := settled.passed.le below
  durable n le := settled.durable n (le.trans below)

/-- The reservations below `bound` have their events, as far as they are below the reserved number `upper`. -/
structure Cleared (s : Ledger) (upper bound : Nat) : Prop where
  reserved : Reserved s upper
  durable : ∀ n < upper, n < bound → ∀ eventId, s.current (.sequence n) = some eventId → Durable s eventId

section

variable (consistent : Consistent s)
include consistent

theorem grown_cleared {bound : Nat} (grown : Grown s s') (cleared : Cleared s upper bound) :
    Cleared s' upper bound := by
  refine grown_keeps (Cleared · upper bound) ?_ consistent grown cleared
  intro s₁ s₂ advances ⟨reserved, durable⟩
  refine ⟨advances.reserved reserved, fun n below lt eventId found => advances.durable ?_⟩
  exact durable n below lt eventId (advances.reserves_of_passed (.inl ⟨upper, below, reserved⟩) found)

theorem keeps_scan {latest : Option MetastoreLedgerWatermark} {sequence count : Nat}
    (cleared : Cleared s upper sequence) (within : sequence + count ≤ upper + 1)
    (known : ∀ watermark, latest = some watermark → Settled s watermark.sequence) :
    Keeps call (fun result s' => ∀ watermark, result = some watermark → Settled s' watermark.sequence)
      (scan latest sequence count) s := by
  induction count generalizing s sequence latest with
  | zero =>
    exact attempts_pure fun s' grown _ watermark isLatest =>
      grown_settled consistent grown (known watermark isLatest)
  | succ count ih =>
    refine attempts_getRaw fun s₁ grown₁ consistent₁ _ => ?_
    have cleared₁ := grown_cleared consistent grown₁ cleared
    cases isMarker : s₁.current (.sequence sequence) with
    | none =>
      refine ih consistent₁ ⟨cleared₁.reserved, fun n le lt eventId found => ?_⟩ (by omega)
        fun watermark isLatest => grown_settled consistent grown₁ (known watermark isLatest)
      rcases Nat.lt_succ_iff_lt_or_eq.mp lt with lt | rfl
      · exact cleared₁.durable n le lt eventId found
      · cases isMarker.symm.trans found
    | some eventId =>
      refine attempts_headRaw fun s₂ grown₂ consistent₂ _ => ?_
      have grown := grown₁.trans grown₂
      cases isHead : s₂.head (.event eventId) with
      | none =>
        exact attempts_pure fun s' grown' _ watermark isLatest =>
          grown_settled consistent (grown.trans grown') (known watermark isLatest)
      | some version =>
        have cleared₂ := grown_cleared consistent grown cleared
        have held := grown_held consistent₁ grown₂ (held_of_current isMarker)
        have durable := durable_of_head isHead
        -- The number may be reserved for another event by now, whose event is durable too.
        have cleared' : ∀ n ≤ sequence, ∀ other, s₂.current (.sequence n) = some other → Durable s₂ other := by
          intro n le other found
          rcases Nat.lt_or_eq_of_le le with lt | rfl
          · exact cleared₂.durable n (by omega) lt other found
          · exact consistent₂.holders n eventId other held durable found
        refine ih consistent₂ ⟨cleared₂.reserved, fun n _ lt => cleared' n (by omega)⟩ (by omega) ?_
        rintro _ ⟨⟩
        exact ⟨.inr ⟨eventId, held, durable⟩, cleared'⟩

theorem keeps_firstDurable {sequences : List Nat} :
    Keeps call (fun result s' => ∀ watermark, result = some watermark → Reserved s' watermark.sequence ∧
      (call = .latestWatermark → Settled s' watermark.sequence)) (firstDurable sequences) s := by
  induction sequences generalizing s with
  | nil => exact attempts_pure fun _ _ _ => by simp
  | cons sequence rest ih =>
    refine attempts_getRaw fun s₁ grown₁ consistent₁ _ => ?_
    cases isMarker : s₁.current (.sequence sequence) with
    | none => exact attempts_throw
    | some eventId =>
      refine attempts_headRaw fun s₂ grown₂ consistent₂ may => ?_
      have held := grown_held consistent₁ grown₂ (held_of_current isMarker)
      cases isHead : s₂.head (.event eventId) with
      | none => exact ih consistent₂
      | some version =>
        have durable := durable_of_head isHead
        refine attempts_pure fun s' grown' _ => ?_
        rintro _ ⟨⟩
        refine ⟨grown_reserved consistent₂ grown' ⟨eventId, held⟩, fun isCall => ?_⟩
        refine grown_settled consistent₂ grown' ?_
        by_cases reached : ∃ watermark, s₂.current (.watermark .latest) = some watermark ∧ sequence ≤ watermark.sequence
        · obtain ⟨watermark, found, below⟩ := reached
          exact Settled.le (consistent₂.watermarks .latest watermark found) below
        · refine ⟨.inr ⟨eventId, held, durable⟩, fun n le other found => ?_⟩
          rcases Nat.lt_or_eq_of_le le with lt | rfl
          · refine may.fallsBack eventId isCall rfl durable sequence held (fun watermark isLatest => ?_) n lt other found
            by_contra below
            exact reached ⟨watermark, isLatest, by omega⟩
          · exact consistent₂.holders n eventId other held durable found

theorem keeps_latestWatermarkFromSequenceMarkers :
    Keeps call (fun result s' => ∀ watermark, result = some watermark → Reserved s' watermark.sequence ∧
      (call = .latestWatermark → Settled s' watermark.sequence)) latestWatermarkFromSequenceMarkers s := by
  refine keeps_seq (fun _ _ => True) consistent ?_ fun sequences s₁ _ consistent₁ _ => keeps_firstDurable consistent₁
  exact attempts_listRaw fun _ _ _ _ => attempts_pure fun _ _ _ => trivial

end

/-! ## The latest watermark -/

theorem reserved_max {left right : Nat} (isLeft : Reserved s left) (isRight : right ≠ 0 → Reserved s right) :
    Reserved s (max left right) := by
  rcases Nat.le_total right left with le | le
  · rwa [Nat.max_eq_left le]
  · rw [Nat.max_eq_right le]
    by_cases zero : right = 0
    · obtain rfl : left = 0 := by omega
      rwa [zero]
    · exact isRight zero

section

variable (consistent : Consistent s)
include consistent

theorem keeps_watermarkBound {isFirst : Bool} (reserved : Reserved s event.sequence) :
    Keeps call (fun bound s' => Reserved s' bound ∧ event.sequence ≤ bound) (watermarkBound event isFirst) s := by
  refine keeps_seq _ consistent (keeps_readWatermarkMarker consistent) fun pending s₁ grown₁ consistent₁ isRead => ?_
  have bounded : Reserved s₁ (max event.sequence ((pending.map fun marker => marker.1.sequence).getD 0)) := by
    refine reserved_max (grown_reserved consistent grown₁ reserved) fun nonzero => ?_
    cases pending with
    | none => exact absurd rfl nonzero
    | some marker =>
      obtain ⟨_, -, consistent', further, isRead, _⟩ := isRead
      exact grown_reserved consistent' further (consistent'.watermarks .pending _ isRead)
  split
  · refine keeps_seq _ consistent₁ (keeps_latestWatermarkFromSequenceMarkers consistent₁)
      fun discovered s₂ grown₂ consistent₂ known => attempts_pure fun s' grown' _ => ?_
    refine ⟨grown_reserved consistent₂ grown' (reserved_max (grown_reserved consistent₁ grown₂ bounded) fun nonzero => ?_),
      by omega⟩
    cases discovered with
    | none => exact absurd rfl nonzero
    | some watermark => exact (known watermark rfl).1
  · exact attempts_pure fun s' grown' _ => ⟨grown_reserved consistent₁ grown' bounded, by omega⟩

theorem cleared_saturatingSucc (reserved : Reserved s upper)
    (known : current = 0 ∨ Settled s current) : Cleared s upper (Core.saturatingSucc current) := by
  refine ⟨reserved, fun n _ lt eventId found => ?_⟩
  have le : n ≤ current := by
    unfold Core.saturatingSucc Core.maxU64 at lt
    omega
  rcases known with rfl | settled
  · have := consistent.positive n ⟨eventId, held_of_current found⟩
    omega
  · exact settled.durable n le eventId found

theorem keeps_contiguousDurableWatermarkAfter (reserved : Reserved s upper)
    (known : current = 0 ∨ Settled s current) (above : current < upper) :
    Keeps call (fun result s' => ∀ watermark, result = some watermark → Settled s' watermark.sequence)
      (contiguousDurableWatermarkAfter current upper) s := by
  refine keeps_scan consistent (cleared_saturatingSucc consistent reserved known) ?_ (by simp)
  unfold Core.saturatingSucc Core.maxU64
  omega

theorem keeps_updateLatestWatermark (reserved : Reserved s event.sequence) :
    Keeps call (fun _ s' => AtLeast s' .latest event.sequence) (updateLatestWatermark event) s := by
  refine keeps_seq _ consistent (keeps_readWatermarkMarker consistent) fun current s₁ grown₁ consistent₁ isRead => ?_
  refine keeps_seq _ consistent₁ (keeps_watermarkBound consistent₁ (grown_reserved consistent grown₁ reserved))
    fun upper s₂ grown₂ consistent₂ bound => ?_
  have positive := consistent.positive _ reserved
  -- What was read of the watermark object is still so later on.
  have isCurrent : ∀ marker, current = some marker →
      Settled s₂ marker.1.sequence ∧ AtLeast s₂ .latest marker.1.sequence := by
    rintro ⟨watermark, _⟩ rfl
    obtain ⟨_, -, consistent', further, isRead, _⟩ := isRead
    exact ⟨grown_settled consistent' (further.trans grown₂) (consistent'.watermarks .latest watermark isRead),
      grown_atLeast consistent' (further.trans grown₂) ⟨watermark, isRead, le_rfl⟩⟩
  split
  · rename_i le
    cases current with
    | none =>
      simp only [map_none, getD_none] at le
      omega
    | some marker =>
      simp only [map_some, getD_some] at le
      refine attempts_pure fun s' grown' _ => ?_
      obtain ⟨watermark, found, below⟩ := grown_atLeast consistent₂ grown' (isCurrent marker rfl).2
      exact ⟨watermark, found, by omega⟩
  · rename_i above
    have known : (current.map fun marker => marker.1.sequence).getD 0 = 0 ∨
        Settled s₂ ((current.map fun marker => marker.1.sequence).getD 0) := by
      cases current with
      | none => exact .inl rfl
      | some marker => exact .inr (isCurrent marker rfl).1
    refine keeps_seq _ consistent₂ (keeps_contiguousDurableWatermarkAfter consistent₂ bound.1 known (by omega))
      fun result s₃ grown₃ consistent₃ settled => ?_
    cases result with
    | none => exact attempts_throw
    | some candidate =>
      refine keeps_seq _ consistent₃ (keeps_updateWatermarkMarkerInner consistent₃ (settled candidate rfl))
        fun _ s₄ grown₄ consistent₄ ⟨watermark, found, _⟩ => ?_
      split
      · exact attempts_throw
      · refine attempts_pure fun s' grown' _ => ?_
        exact grown_atLeast consistent₄ grown' ⟨watermark, found, by omega⟩

/-- The watermark is complete, and is not below what the object named when the call was started. -/
theorem keeps_latestWatermark :
    Keeps .latestWatermark (fun result s' => ∀ watermark, result = some watermark → Settled s' watermark.sequence ∧
      ∀ number, AtLeast s .latest number → number ≤ watermark.sequence) latestWatermark s := by
  refine keeps_seq _ consistent (keeps_readWatermarkMarker consistent) fun pending s₁ grown₁ consistent₁ _ => ?_
  refine keeps_seq _ consistent₁ (keeps_readWatermarkMarker consistent₁) fun latest s₂ grown₂ consistent₂ isRead => ?_
  cases latest with
  | none =>
    -- Without the object, nothing was appended before.
    dsimp only
    split
    · exact attempts_throw
    · refine Attempts.mono ?_ (keeps_latestWatermarkFromSequenceMarkers consistent₂)
      intro result s' _ known watermark isResult
      exact ⟨(known watermark isResult).2 rfl, fun number atLeast =>
        absurd (grown_atLeast consistent grown₁ atLeast) (isRead number)⟩
  | some marker =>
    obtain ⟨watermark, version⟩ := marker
    obtain ⟨_, earlier, consistent', further, isRead, _⟩ := isRead
    dsimp only
    split
    · exact attempts_throw
    · refine attempts_headRaw fun s₃ grown₃ consistent₃ _ => ?_
      cases s₃.head (.event watermark.eventId) with
      | none => exact attempts_throw
      | some version =>
        refine attempts_pure fun s' grown' _ => ?_
        rintro _ ⟨⟩
        refine ⟨grown_settled consistent' (further.trans (grown₃.trans grown')) (consistent'.watermarks .latest _ isRead),
          fun number atLeast => ?_⟩
        obtain ⟨_, found, below⟩ := grown_atLeast consistent (grown₁.trans earlier) atLeast
        rw [isRead] at found
        obtain rfl := some.inj found
        exact below

end

/-! ## Appending -/

theorem keeps_reserve (positive : 1 ≤ event.sequence) :
    Keeps call (fun _ s' => Reserved s' event.sequence) (reserve event) s := by
  refine attempts_putRaw (fun s₁ _ _ _ _ => ?_) fun s₁ _ consistent₁ may allowed => ?_
  · refine attempts_getRaw fun s₂ _ consistent₂ _ => ?_
    cases isMarker : s₂.current (.sequence event.sequence) with
    | none => exact attempts_throw
    | some existing =>
      dsimp only
      split
      · exact attempts_pure fun s' grown' _ =>
          grown_reserved consistent₂ grown' ⟨existing, held_of_current isMarker⟩
      · exact attempts_throw
  · have written : Consistent (s₁.put (.sequence event.sequence) event.eventId) ∧ _ := put_sequence consistent₁ positive
      (may.reserves _ _ _ rfl (by simpa [allows] using allowed))
    refine ⟨written.1, written.2, attempts_pure fun s' grown' _ => ?_⟩
    exact grown_reserved written.1 grown' ⟨_, held_of_current current_put_self⟩

theorem keeps_giveUp {error : CatalogError} {Q : Unit → Ledger → Prop} :
    Keeps call Q (giveUp reserved event error) s := by
  unfold giveUp
  split
  · refine attempts_deleteRaw fun s₁ _ consistent₁ _ => ?_
    have deleted : Consistent (s₁.delete (.sequence event.sequence)) ∧ _ := delete_sequence consistent₁
    exact ⟨deleted.1, deleted.2, attempts_throw⟩
  · exact attempts_throw

theorem keeps_writeEvent : Keeps call (fun _ _ => True) (writeEvent reserved event) s := by
  refine attempts_tryPut (fun s₁ _ _ _ _ => ?_) (fun s₁ _ consistent₁ may allowed => ?_)
    fun _ _ _ _ _ => keeps_giveUp
  · refine attempts_getRaw fun s₂ _ _ _ => ?_
    cases s₂.current (.event event.eventId) with
    | none => exact attempts_throw
    | some existing =>
      dsimp only
      split
      · exact attempts_pure fun _ _ _ => trivial
      · exact keeps_giveUp
  · have absent : s₁.current (.event event.eventId) = none := by simpa [allows] using allowed
    obtain ⟨reserved, own⟩ := may.writes _ _ _ rfl absent
    have written := put_event consistent₁ absent reserved own
    exact ⟨written.1, written.2, attempts_pure fun _ _ _ => trivial⟩

theorem keeps_appendEvent {storage : StorageScope} (consistent : Consistent s) (positive : 1 ≤ event.sequence) :
    Keeps call (fun _ s' => AtLeast s' .latest event.sequence) (appendEvent storage event) s := by
  refine keeps_seq (fun _ _ => True) consistent ?_ fun _ s₁ _ consistent₁ _ => ?_
  · cases validateEventScope storage event with
    | ok _ => exact attempts_pure fun _ _ _ => trivial
    | error error => exact attempts_throw
  · refine keeps_seq _ consistent₁ (keeps_reserve positive) fun reserved s₂ _ consistent₂ isReserved => ?_
    refine attempts_headRaw fun s₃ grown₃ consistent₃ _ => ?_
    have isReserved₃ := grown_reserved consistent₂ grown₃ isReserved
    cases s₃.head (.event event.eventId) with
    | some version =>
      refine attempts_getRaw fun s₄ grown₄ consistent₄ _ => ?_
      cases s₄.current (.event event.eventId) with
      | none => exact attempts_throw
      | some existing =>
        dsimp only
        split
        · exact keeps_updateLatestWatermark consistent₄ (grown_reserved consistent₃ grown₄ isReserved₃)
        · exact keeps_giveUp
    | none =>
      refine keeps_seq _ consistent₃ (keeps_updateWatermarkMarkerInner consistent₃ isReserved₃)
        fun _ s₄ grown₄ consistent₄ _ => ?_
      refine keeps_seq _ consistent₄ keeps_writeEvent fun _ s₅ grown₅ consistent₅ _ => ?_
      exact keeps_updateLatestWatermark consistent₅ (grown_reserved consistent₃ (grown₄.trans grown₅) isReserved₃)

theorem keeps_getAll {ids : List String} : Keeps call (fun _ _ => True) (getAll ids) s := by
  induction ids generalizing s with
  | nil => exact attempts_pure fun _ _ _ => trivial
  | cons eventId rest ih =>
    refine attempts_getRaw fun s₁ _ consistent₁ _ => ?_
    cases s₁.current (.event eventId) with
    | none => exact attempts_throw
    | some event =>
      exact keeps_seq _ consistent₁ ih fun _ _ _ _ _ => attempts_pure fun _ _ _ => trivial

theorem keeps_nextSequence (consistent : Consistent s) :
    Keeps call (fun number _ => 1 ≤ number) nextSequence s := by
  refine keeps_seq (fun _ _ => True) consistent ?_ fun events s₁ _ consistent₁ _ => ?_
  · exact attempts_listRaw fun _ _ _ _ => keeps_getAll
  · refine keeps_seq (fun _ _ => True) consistent₁ ?_ fun reserved s₂ _ _ _ => ?_
    · exact attempts_listRaw fun _ _ _ _ => attempts_pure fun _ _ _ => trivial
    · refine attempts_pure fun _ _ _ => ?_
      unfold Core.saturatingSucc Core.maxU64
      omega

end Programs

end Arco.Metastore.MetastoreLedger
