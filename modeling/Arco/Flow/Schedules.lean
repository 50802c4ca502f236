import Arco.Flow.Readiness
import Arco.Flow.Reload

/-! Compaction schedules.

A schedule splits a list of events into batches and says how each batch is persisted. The
fold in memory and the state that is loaded after the schedule are compared batch by batch.
-/

namespace Arco.Flow

open Keyed

namespace FoldState

variable {s : FoldState} {now : Option Timestamp}

theorem tenantSecret_foldEvents (ext : Externals) (events : List OrchestrationEvent) :
    (foldEvents ext s events).tenantSecret = s.tenantSecret := by
  refine foldEvents_invariant (fun state => state.tenantSecret = s.tenantSecret) (fun state e same => ?_) rfl events
  refine foldEvent_cases ext state e same fun new => ?_
  obtain ⟨_, folded⟩ := foldEvent_of_new ext new
  rw [folded, ← same]
  exact (handled_apply ext state e.toEnvelope e.data).rest.2.1

/-- No row is old enough to be dropped. -/
def NoneExpired (s : FoldState) (retentionNow : Option Timestamp) : Prop :=
  ∀ now ∈ retentionNow, (∀ row ∈ s.sensorEvals.rows, now - retention ≤ row.evaluatedAt) ∧
    ∀ row ∈ s.idempotencyKeys.rows, now - retention ≤ row.recordedAt

instance (s : FoldState) (retentionNow : Option Timestamp) : Decidable (s.NoneExpired retentionNow) :=
  inferInstanceAs (Decidable (∀ now ∈ retentionNow, _))

theorem prune_of_noneExpired (noneExpired : s.NoneExpired now) : s.prune now = s := by
  cases now with
  | none => rfl
  | some now =>
    obtain ⟨evals, keys⟩ := noneExpired now rfl
    have sensorEvals : s.sensorEvals.filter (fun row => now - retention ≤ row.evaluatedAt) = s.sensorEvals :=
      Table.filter_eq_self fun row member => decide_eq_true (evals row member)
    have idempotencyKeys : s.idempotencyKeys.filter (fun row => now - retention ≤ row.recordedAt) = s.idempotencyKeys :=
      Table.filter_eq_self fun row member => decide_eq_true (keys row member)
    dsimp only [prune, pruneIdempotencyKeys, pruneSensorEvals]
    rw [sensorEvals, idempotencyKeys]

theorem mergeStates_of_empty (base : FoldState) {delta : FoldState} (empty : delta.deltaStateIsEmpty = true) :
    base.mergeStates delta = base := by
  simp only [deltaStateIsEmpty, Bool.and_eq_true, List.isEmpty_iff] at empty
  simp only [mergeStates, Table.merge, empty, List.foldl_nil]

end FoldState

def eventsOf (batches : List Batch) : List OrchestrationEvent := batches.flatMap (·.events)

namespace Store

open FoldState

variable {ext : Externals} {secret : List UInt8} {store : Store} {batch : Batch}

/-- No load and no compaction of the schedule meets a row that is old enough to be dropped. -/
def Retains (ext : Externals) (secret : List UInt8) : Store → List Batch → Prop
  | store, [] => store.merged.NoneExpired store.merged.retentionReferenceTimeForState
  | store, batch :: rest =>
    store.merged.NoneExpired store.merged.retentionReferenceTimeForState ∧
      (store.folded ext secret batch.events).NoneExpired (retentionReferenceTimeForEvents batch.events) ∧
      Retains ext secret (store.compact ext secret batch) rest

instance decidableRetains (ext : Externals) (secret : List UInt8) :
    (store : Store) → (batches : List Batch) → Decidable (Retains ext secret store batches)
  | store, [] => inferInstanceAs (Decidable (store.merged.NoneExpired _))
  | store, batch :: rest =>
    have := decidableRetains ext secret (store.compact ext secret batch) rest
    inferInstanceAs (Decidable (_ ∧ _ ∧ _))

theorem Retains.load {batches : List Batch} (retains : Retains ext secret store batches) :
    store.merged.NoneExpired store.merged.retentionReferenceTimeForState := by
  cases batches with
  | nil => exact retains
  | cons batch rest => exact retains.1

theorem opened_eq (load : store.merged.NoneExpired store.merged.retentionReferenceTimeForState) :
    store.opened secret = { store.merged.rebuildDependencyGraph with tenantSecret := secret } := by
  rw [opened, loadCurrentState, prune_of_noneExpired load]

theorem folded_eq (events : List OrchestrationEvent) (ordered : events.Pairwise fun a b => a.eventId < b.eventId) :
    store.folded ext secret events = foldEvents ext (store.opened secret) events := by
  rw [folded, (ordered.imp le_of_lt).insertionSort_eq]

theorem tables_merged_compact (load : store.merged.NoneExpired store.merged.retentionReferenceTimeForState)
    (retained : (store.folded ext secret batch.events).NoneExpired (retentionReferenceTimeForEvents batch.events)) :
    (store.compact ext secret batch).merged.tables = (store.folded ext secret batch.events).tables ∨
      (batch.persist = .delta ∧ (store.compact ext secret batch).merged.tables =
        ((store.opened secret).restored (store.folded ext secret batch.events)).tables) := by
  have opened : store.opened secret = { store.merged.rebuildDependencyGraph with tenantSecret := secret } :=
    opened_eq load
  unfold compact
  split
  · rename_i none
    left
    rw [folded, none, List.insertionSort_nil, foldEvents, List.foldl_nil, opened]
    rfl
  · have state : store.compacted ext secret batch.events = store.folded ext secret batch.events :=
      prune_of_noneExpired retained
    rw [state]
    cases persist : batch.persist with
    | collapse => exact .inl rfl
    | delta =>
      refine .inr ⟨rfl, ?_⟩
      generalize store.folded ext secret batch.events = after
      have stored : ∀ delta, (store.merged.mergeStates delta).tables = ((store.opened secret).mergeStates delta).tables := by
        intro delta
        rw [opened]
        rfl
      dsimp only
      split
      · rename_i empty
        rw [← mergeStates_of_empty store.merged empty, stored]
        rfl
      · have appended : ({ store with
            deltas := store.deltas ++ [(store.opened secret).deltaFromStates after] } : Store).merged =
              store.merged.mergeStates ((store.opened secret).deltaFromStates after) := List.foldl_concat _ _ _ _
        rw [appended, stored]
        rfl

def EachBatch (ext : Externals) (fine : FoldState → Batch → Prop) : FoldState → List Batch → Prop
  | _, [] => True
  | s, batch :: rest => fine s batch ∧ EachBatch ext fine (foldEvents ext s batch.events) rest

/-- The fold of a fine batch into a state in memory and into a loaded state that has the invariant: the two stay
alike, and a row that is removed from the loaded state is out of the scope. -/
structure Discipline (ext : Externals) (scope : Scope) (inv : FoldState → Prop) (fine : FoldState → Batch → Prop) :
    Prop where
  alike : ∀ s s' batch, fine s batch → s.Wired → inv s → inv s' → Alike scope s s' →
    Alike scope (foldEvents ext s batch.events) (foldEvents ext s' batch.events)
  held : ∀ s s' batch, fine s batch → Alike scope s s' →
    Alike scope (foldEvents ext s batch.events) (foldEvents ext s' batch.events) → batch.persist = .delta →
      ∀ id, scope.dispatches id → (foldEvents ext s' batch.events).dispatchOutbox.find id = none →
        s'.dispatchOutbox.find id = none
  folded : ∀ s s' batch, fine s batch → inv s' → inv (foldEvents ext s' batch.events)
  restored : ∀ s s', Restorable False s s' → inv s → inv s' → inv (s.restored s')
  tables : ∀ s m, m.tables = s.tables → inv s → inv m

/-- The loaded state agrees with the state in memory and is older than the events to come. -/
structure Tracks (secret : List UInt8) (scope : Scope) (inv : FoldState → Prop) (requests : List (String × String))
    (s : FoldState) (store : Store) (later : List OrchestrationEvent) : Prop where
  alike : Alike scope s (store.opened secret)
  wired : s.Wired
  memory : inv s
  loaded : inv (store.opened secret)
  precedes : Precedes requests (store.opened secret) later

variable {requests : List (String × String)} {later : List OrchestrationEvent} {s : FoldState} {scope : Scope}
  {inv : FoldState → Prop} {fine : FoldState → Batch → Prop}

theorem Tracks.compact (discipline : Discipline ext scope inv fine)
    (tracks : Tracks secret scope inv requests s store (batch.events ++ later)) (isFine : fine s batch)
    (load : store.merged.NoneExpired store.merged.retentionReferenceTimeForState)
    (retained : (store.folded ext secret batch.events).NoneExpired (retentionReferenceTimeForEvents batch.events))
    (reload : (store.compact ext secret batch).merged.NoneExpired
      (store.compact ext secret batch).merged.retentionReferenceTimeForState)
    (ordered : (batch.events ++ later).Pairwise fun a b => a.eventId < b.eventId)
    (unambiguous : scope.conflicts → UnambiguousConflicts requests)
    (listed : ∀ e ∈ batch.events, ∀ request ∈ e.runRequest, request ∈ requests) :
    Tracks secret scope inv requests (foldEvents ext s batch.events) (store.compact ext secret batch) later := by
  have alike := discipline.alike s _ batch isFine tracks.wired tracks.memory tracks.loaded tracks.alike
  have wired := wired_foldEvents ext tracks.wired batch.events
  have memory := discipline.folded s s batch isFine tracks.memory
  have invAfter := discipline.folded s _ batch isFine tracks.loaded
  have folded : store.folded ext secret batch.events = foldEvents ext (store.opened secret) batch.events :=
    folded_eq batch.events (List.pairwise_append.mp ordered).1
  have outbox : ∀ e ∈ batch.events, (store.opened secret).OutboxBelow e.eventId :=
    fun e member => tracks.precedes.outbox e (List.mem_append_left _ member)
  obtain ⟨restorable, after⟩ : Restorable scope.conflicts (store.opened secret)
      (foldEvents ext (store.opened secret) batch.events) ∧ _ :=
    Restorable.foldEvents (.refl _ _) tracks.precedes ordered outbox unambiguous listed
  have secretSame : (foldEvents ext s batch.events).tenantSecret = secret := by
    rw [← alike.tenantSecret, tenantSecret_foldEvents]
    rfl
  -- the rows that are stored after the compaction, as a state
  obtain ⟨persisted, stored, alikePersisted, invPersisted, precedes⟩ :
      ∃ persisted, (store.compact ext secret batch).merged.tables = persisted.tables ∧
        Alike scope (foldEvents ext s batch.events) persisted ∧ inv persisted ∧ Precedes requests persisted later := by
    rcases tables_merged_compact load retained with collapsed | ⟨isDelta, merged⟩
    · exact ⟨_, folded ▸ collapsed, alike, invAfter, after⟩
    · have held := discipline.held s _ batch isFine tracks.alike alike isDelta
      exact ⟨_, folded ▸ merged, alike.trans (restorable.alike_restored held),
        discipline.restored _ _ { restorable with conflicts := False.elim } tracks.loaded invAfter,
        tracks.precedes.of_append.restored after restorable⟩
  have opened : (store.compact ext secret batch).opened secret = _ := opened_eq reload
  refine ⟨?_, wired, memory, ?_, ?_⟩
  · rw [opened]
    exact alikePersisted.reopened wired stored secretSame
  · rw [opened]
    exact discipline.tables persisted _ stored invPersisted
  · rw [opened]
    exact precedes.of_tables stored

theorem Tracks.compactAll (discipline : Discipline ext scope inv fine) {batches : List Batch}
    (tracks : Tracks secret scope inv requests s store (eventsOf batches)) (fineAll : EachBatch ext fine s batches)
    (ordered : (eventsOf batches).Pairwise fun a b => a.eventId < b.eventId)
    (retains : Retains ext secret store batches) (unambiguous : scope.conflicts → UnambiguousConflicts requests)
    (listed : ∀ e ∈ eventsOf batches, ∀ request ∈ e.runRequest, request ∈ requests) :
    Tracks secret scope inv requests (foldEvents ext s (eventsOf batches)) (store.compactAll ext secret batches) [] := by
  induction batches generalizing s store with
  | nil => exact tracks
  | cons batch rest ih =>
    have split : eventsOf (batch :: rest) = batch.events ++ eventsOf rest := rfl
    rw [split] at ⊢
    obtain ⟨load, retained, retains'⟩ := retains
    obtain ⟨isFine, fineRest⟩ := fineAll
    have next := tracks.compact discipline isFine load retained retains'.load ordered unambiguous
      fun e member => listed e (List.mem_append_left _ member)
    rw [foldEvents, List.foldl_append]
    exact ih next fineRest (List.pairwise_append.mp ordered).2.1 retains'
      fun e member => listed e (List.mem_append_right _ member)

theorem opened_empty : ({} : Store).opened secret = { tenantSecret := secret } := rfl

theorem tracks_empty (secret : List UInt8) (scope : Scope) (requests : List (String × String))
    (later : List OrchestrationEvent) (start : inv { tenantSecret := secret }) :
    Tracks secret scope inv requests { tenantSecret := secret } {} later where
  alike := by
    exact .refl scope _
  wired := Lifecycle.wired_empty
  memory := start
  loaded := by
    exact start
  precedes := by
    rw [opened_empty]
    refine ⟨fun _ _ => ⟨?_, ?_, ?_, ?_⟩, fun _ _ k row found => ?_, fun k row found => ?_, ?_⟩
    · simp
    · simp
    · simp
    · simp
    · simp at found
    · simp at found
    · simp

end Store

end Arco.Flow
