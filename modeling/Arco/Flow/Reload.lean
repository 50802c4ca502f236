import Arco.Flow.Catalog
import Arco.Flow.Outbox

/-! What a load gives back of a batch whose events are in order.

`Precedes` holds of a state whose rows are all older than the events to come, and
`Restorable` of two states between which no row was lost to a merge. Only outbox rows that
were pruned, and conflicts that share an id, come back otherwise than they were written.
-/

namespace Arco.Flow

open Keyed Table

def OrchestrationEvent.runRequest (e : OrchestrationEvent) : Option (String × String) :=
  match e.data with
  | .runRequested p => some (p.runKey, e.eventId)
  | _ => none

/-- No two of these requests have the same conflict id. -/
def UnambiguousConflicts (requests : List (String × String)) : Prop :=
  ∀ one ∈ requests, ∀ other ∈ requests, conflictIdOf one.1 one.2 = conflictIdOf other.1 other.2 → one = other

namespace Automation

theorem conflicts_apply (ext : Externals) (secret : List UInt8) (a : Automation) (ev : Envelope)
    (data : OrchestrationEventData) :
    (a.apply ext secret ev data).runKeyConflicts = a.runKeyConflicts ∨
      ∃ p row, data = .runRequested p ∧ row.runKey = p.runKey ∧ row.conflictingEventId = ev.eventId ∧
        (a.apply ext secret ev data).runKeyConflicts = a.runKeyConflicts.upsert row := by
  cases data with
  | runRequested p =>
    dsimp only [apply, foldRunRequested]
    split
    · exact .inl rfl
    · split
      · split
        · exact .inr ⟨p, _, rfl, rfl, rfl, rfl⟩
        · exact .inl rfl
      · unfold correlateRunToSource
        repeat' split
        all_goals exact .inl rfl
  | backfillCreated p =>
    dsimp only [apply, foldBackfillCreated]
    split <;> exact .inl rfl
  | backfillChunkPlanned p =>
    dsimp only [apply, foldBackfillChunkPlanned, advancePlannedChunks]
    repeat' split
    all_goals exact .inl rfl
  | backfillStateChanged p =>
    dsimp only [apply, foldBackfillStateChanged]
    repeat' split
    all_goals exact .inl rfl
  | _ => exact .inl (apart_apply ext secret a ev rfl).runKeyConflicts

end Automation

namespace FoldState

variable {ext : Externals} {e : OrchestrationEvent} {s s' : FoldState} {requests : List (String × String)}
  {later : List OrchestrationEvent}

theorem conflicts_foldEvent (ext : Externals) (s : FoldState) (e : OrchestrationEvent) :
    (s.foldEvent ext e).runKeyConflicts = s.runKeyConflicts ∨
      ∃ row, e.runRequest = some (row.runKey, row.conflictingEventId) ∧ row.conflictingEventId = e.eventId ∧
        (s.foldEvent ext e).runKeyConflicts = s.runKeyConflicts.upsert row := by
  refine foldEvent_cases ext s e (.inl rfl) fun new => ?_
  rw [toAutomation_foldEvent ext s e new]
  rcases Automation.conflicts_apply ext s.tenantSecret s.toAutomation e.toEnvelope e.data with
    same | ⟨p, row, isEvent, runKey, eventId, written⟩
  · exact .inl same
  · refine .inr ⟨row, ?_, eventId, written⟩
    rw [OrchestrationEvent.runRequest, isEvent, runKey, eventId]

/-- Every row is older than the events to come, and every conflict is that of a listed request. -/
structure Precedes (requests : List (String × String)) (s : FoldState) (later : List OrchestrationEvent) : Prop where
  below : ∀ e ∈ later, s.Below e.eventId
  outbox : ∀ e ∈ later, s.OutboxBelow e.eventId
  indexed : s.Indexed
  conflicts : ∀ row ∈ s.runKeyConflicts.rows,
    (row.runKey, row.conflictingEventId) ∈ requests ∧ ∀ e ∈ later, row.conflictingEventId < e.eventId

theorem Precedes.notLate (precedes : Precedes requests s (e :: later)) : ¬ s.LateWrite e :=
  (precedes.below e (by simp)).not_lateWrite

theorem Precedes.foldEvent (precedes : Precedes requests s (e :: later)) (first : ∀ l ∈ later, e.eventId < l.eventId)
    (listed : ∀ request ∈ e.runRequest, request ∈ requests) : Precedes requests (s.foldEvent ext e) later where
  below l member := (precedes.below l (by simp [member])).foldEvent (first l member)
  outbox l member := (precedes.outbox l (by simp [member])).foldEvent (first l member)
  indexed := precedes.indexed.refreshes ((rises_foldEvent_iff ext s e).mpr precedes.notLate) (refreshes_foldEvent ext s e)
  conflicts row member := by
    have old : ∀ row ∈ s.runKeyConflicts.rows,
        (row.runKey, row.conflictingEventId) ∈ requests ∧ ∀ l ∈ later, row.conflictingEventId < l.eventId :=
      fun row before => ⟨(precedes.conflicts row before).1,
        fun l inLater => (precedes.conflicts row before).2 l (by simp [inLater])⟩
    rcases conflicts_foldEvent ext s e with same | ⟨_, request, eventId, written⟩
    · rw [same] at member
      exact old row member
    · rw [written, mem_rows_upsert] at member
      rcases member with rfl | ⟨before, _⟩
      · exact ⟨listed _ request, fun l inLater => eventId ▸ first l inLater⟩
      · exact old row before

structure Restorable (tracked : Prop) (base s : FoldState) : Prop where
  rises : Rises base s
  advances : Advances base s
  automation : Automation.Advances base.toAutomation s.toAutomation
  catalog : Rising CatalogRunIndexRow.rowVersion base.catalogRunIndex s.catalogRunIndex
  conflicts : tracked → Grows Eq base.runKeyConflicts s.runKeyConflicts
  outbox : OutboxRises base s

theorem Restorable.refl (tracked : Prop) (s : FoldState) : Restorable tracked s s where
  rises := .refl s
  advances := .refl s
  automation := .refl _
  catalog := .refl _ _
  conflicts _ := Grows.refl (fun _ => rfl) _
  outbox := .refl s

theorem Precedes.conflicts_grow (precedes : Precedes requests s (e :: later)) (unambiguous : UnambiguousConflicts requests)
    (listed : ∀ request ∈ e.runRequest, request ∈ requests) :
    Grows Eq s.runKeyConflicts (s.foldEvent ext e).runKeyConflicts := by
  rcases conflicts_foldEvent ext s e with same | ⟨row, request, eventId, written⟩
  · rw [same]
    exact Grows.refl (fun _ => rfl) _
  · rw [written]
    refine Grows.upsert (fun _ => rfl) _ _ fun old found => ?_
    obtain ⟨oldListed, before⟩ := precedes.conflicts old (mem_of_find found)
    have sameKey : old.key = row.key := key_of_find found
    have one := unambiguous _ oldListed _ (listed _ request) sameKey
    have sameId : old.conflictingEventId = e.eventId := (congrArg Prod.snd one).trans eventId
    exact absurd sameId (ne_of_lt (before e (by simp)))

variable {tracked : Prop} {base m : FoldState} {events : List OrchestrationEvent}

theorem Restorable.foldEvent (restorable : Restorable tracked base s) (precedes : Precedes requests s (e :: later))
    (outbox : base.OutboxBelow e.eventId) (unambiguous : tracked → UnambiguousConflicts requests)
    (listed : ∀ request ∈ e.runRequest, request ∈ requests) :
    Restorable tracked base (s.foldEvent ext e) := by
  have rises := (rises_foldEvent_iff ext s e).mpr precedes.notLate
  exact {
    rises := restorable.rises.trans rises
    advances := restorable.advances.trans (advances_foldEvent ext s e)
    automation := restorable.automation.trans (advances_automation_foldEvent ext s e)
    catalog := restorable.catalog.trans (precedes.indexed.rising rises (refreshes_foldEvent ext s e))
    conflicts := fun isTracked => Grows.trans (fun _ _ _ => Eq.trans) (restorable.conflicts isTracked)
      (precedes.conflicts_grow (unambiguous isTracked) listed)
    outbox := restorable.outbox.foldEvent outbox }

/-- Over a batch, with the events that follow it. -/
theorem Restorable.foldEvents (restorable : Restorable tracked base s)
    (precedes : Precedes requests s (events ++ later))
    (ordered : (events ++ later).Pairwise fun a b => a.eventId < b.eventId)
    (outbox : ∀ e ∈ events, base.OutboxBelow e.eventId) (unambiguous : tracked → UnambiguousConflicts requests)
    (listed : ∀ e ∈ events, ∀ request ∈ e.runRequest, request ∈ requests) :
    Restorable tracked base (FoldState.foldEvents ext s events) ∧
      Precedes requests (FoldState.foldEvents ext s events) later := by
  induction events generalizing s with
  | nil => exact ⟨restorable, precedes⟩
  | cons e rest ih =>
    obtain ⟨first, ordered'⟩ := List.pairwise_cons.mp ordered
    refine ih (restorable.foldEvent precedes (outbox e (by simp)) unambiguous (listed e (by simp)))
      (precedes.foldEvent first (listed e (by simp))) ordered' (fun l member => outbox l (by simp [member]))
      fun l member => listed l (by simp [member])

theorem merge_rising {K V : Type} [DecidableEq K] [DecidableEq V] {key : V → K} {version : V → String}
    {base current : Table key} (rising : Rising version base current) :
    base.merge (pickNewer version) (base.changed current) = current :=
  (merge_changed_iff (selects_pickNewer version) rising.keys).mpr fun k old row foundOld found =>
    (pickNewer_eq_right_iff version old row).mpr (rising.rows k old row foundOld found)

theorem merge_idempotencyKeys (advances : Advances s s') :
    s.idempotencyKeys.merge mergeIdempotencyKeyRows (s.idempotencyKeys.changed s'.idempotencyKeys) = s'.idempotencyKeys := by
  refine merge_rising ⟨advances.idempotencyKeys.keys, fun k old row foundOld found => ?_⟩
  rw [advances.idempotencyKeys.rows k old row foundOld found]

/-- An outbox row comes back as it was written; a row that was pruned comes back as it was before. -/
theorem find_outbox_reloaded (rises : OutboxRises s s') (id : String) :
    (s.reloaded s').dispatchOutbox.find id = (s'.dispatchOutbox.find id).or (s.dispatchOutbox.find id) := by
  have merged : (s.reloaded s').dispatchOutbox.find id = _ :=
    find_merge_changed (selects_pickNewer DispatchOutboxRow.rowVersion) id
  rw [merged]
  cases found : s'.dispatchOutbox.find id with
  | none => cases s.dispatchOutbox.find id <;> rfl
  | some row =>
    cases foundOld : s.dispatchOutbox.find id with
    | none => rfl
    | some old =>
      have newer := (pickNewer_eq_right_iff DispatchOutboxRow.rowVersion old row).mpr (rises id old row foundOld found)
      dsimp only
      split
      · rfl
      · rename_i differs
        rw [newer.resolve_left differs]
        rfl

def restored (s s' : FoldState) : FoldState :=
  { s.reloaded s' with
    taskDependencies := s'.taskDependencies
    taskDependents := s'.taskDependents
    tenantSecret := s'.tenantSecret }

/-- Within the scope, a load gives back the state that was persisted. -/
theorem Restorable.alike_restored {scope : Scope} (restorable : Restorable scope.conflicts s s')
    (kept : ∀ id, scope.dispatches id → s'.dispatchOutbox.find id = none → s.dispatchOutbox.find id = none) :
    Alike scope s' (s.restored s') := by
  obtain ⟨rises, advances, automation, catalog, conflicts, outbox⟩ := restorable
  have eqPick : ∀ a b : RunKeyIndexRow, a = b → mergeRunKeyIndexRows a b = b := by
    rintro a b rfl
    exact ite_self a
  exact {
    lifecycle := ⟨merge_rising rises.runs,
      (merge_changed_iff selects_mergeTaskRows rises.tasks.keys).mpr fun k old row foundOld found =>
        (mergeTaskRows_eq_right_iff old row).mpr (rises.tasks.rows k old row foundOld found),
      merge_rising rises.depSatisfaction, fun _ _ _ => Iff.rfl⟩
    automation := {
      scheduleDefinitions := merge_rising automation.scheduleDefinitions
      scheduleState := merge_rising automation.scheduleState
      scheduleTicks := merge_rising automation.scheduleTicks
      sensorState := merge_rising automation.sensorState
      sensorEvals := merge_rising automation.sensorEvals
      backfills := (merge_changed_iff selects_mergeBackfillRows rises.backfills.keys).mpr
        fun k old row foundOld found =>
          (mergeBackfillRows_eq_right_iff old row).mpr (rises.backfills.rows k old row foundOld found)
      backfillChunks := merge_rising automation.backfillChunks
      runKeyIndex := merge_changed selects_mergeRunKeyIndexRows eqPick automation.runKeyIndex
      runKeyConflicts := fun isTracked =>
        merge_changed (fun a _ => .inl rfl) (fun _ _ same => same) (conflicts isTracked) }
    timers := merge_rising advances.timers
    catalogRunIndex := merge_rising catalog
    partitionStatus := merge_rising advances.partitionStatus
    idempotencyKeys := fun key _ => congrArg (contains · key) (merge_idempotencyKeys advances)
    tenantSecret := rfl
    outbox := fun id member => by
      have found : (s.restored s').dispatchOutbox.find id = _ := find_outbox_reloaded outbox id
      rw [found]
      cases here : s'.dispatchOutbox.find id with
      | none => exact kept id member here
      | some row => rfl }

/-- A state that has the rows of `s'`, with the graph that is derived from them. -/
theorem Alike.reopened {scope : Scope} {s : FoldState} (alike : Alike scope s s') (wired : s.Wired)
    (tables : m.tables = s'.tables) {secret : List UInt8} (same : s.tenantSecret = secret) :
    Alike scope s { m.rebuildDependencyGraph with tenantSecret := secret } := by
  have edges : m.depSatisfaction = s.depSatisfaction :=
    (congrArg (fun t : FoldState => t.depSatisfaction) tables).trans alike.lifecycle.depSatisfaction
  exact {
    lifecycle := {
      runs := (congrArg (fun t : FoldState => t.runs) tables).trans alike.lifecycle.runs
      tasks := (congrArg (fun t : FoldState => t.tasks) tables).trans alike.lifecycle.tasks
      depSatisfaction := edges
      dependents := fun r u d => by
        rw [wired.dependents r u d, ← edges]
        exact mem_rebuilt_dependents r u d }
    automation := by
      have automation : m.tables.toAutomation = s'.tables.toAutomation := congrArg toAutomation tables
      have here : Automation.Alike scope.conflicts s.toAutomation m.tables.toAutomation :=
        automation.symm ▸ alike.automation
      exact here
    timers := (congrArg (fun t : FoldState => t.timers) tables).trans alike.timers
    catalogRunIndex := (congrArg (fun t : FoldState => t.catalogRunIndex) tables).trans alike.catalogRunIndex
    partitionStatus := (congrArg (fun t : FoldState => t.partitionStatus) tables).trans alike.partitionStatus
    idempotencyKeys := fun key settled =>
      (congrArg (fun t : FoldState => t.idempotencyKeys.contains key) tables).trans (alike.idempotencyKeys key settled)
    tenantSecret := same.symm
    outbox := fun id member =>
      (congrArg (fun t : FoldState => t.dispatchOutbox.find id) tables).trans (alike.outbox id member) }

theorem Precedes.of_append (precedes : Precedes requests s (events ++ later)) :
    Precedes requests s later where
  below e member := precedes.below e (List.mem_append_right _ member)
  outbox e member := precedes.outbox e (List.mem_append_right _ member)
  indexed := precedes.indexed
  conflicts row member := ⟨(precedes.conflicts row member).1,
    fun e inLater => (precedes.conflicts row member).2 e (List.mem_append_right _ inLater)⟩

theorem Precedes.restored (before : Precedes requests s later) (after : Precedes requests s' later)
    (restorable : Restorable tracked s s') : Precedes requests (s.restored s') later := by
  -- outside of the outbox and the conflicts the two states are the same
  have alike : Alike ⟨fun _ => False, False⟩ s' (s.restored s') :=
    Restorable.alike_restored { restorable with conflicts := False.elim } fun _ impossible => impossible.elim
  refine ⟨fun e member => ?_, fun e member k row found => ?_, ?_, fun row member => ?_⟩
  · have below := after.below e member
    exact ⟨alike.lifecycle.runs ▸ below.runs, alike.lifecycle.tasks ▸ below.tasks,
      alike.lifecycle.depSatisfaction ▸ below.depSatisfaction, alike.automation.backfills ▸ below.backfills⟩
  · have loaded : (s.restored s').dispatchOutbox.find k = _ := find_outbox_reloaded restorable.outbox k
    rw [loaded, Option.or_eq_some_iff] at found
    rcases found with here | ⟨_, old⟩
    · exact after.outbox e member k row here
    · exact before.outbox e member k row old
  · rw [Indexed, alike.catalogRunIndex, alike.lifecycle.runs, alike.lifecycle.tasks]
    exact after.indexed
  · have merged : (s.restored s').runKeyConflicts.find row.key = _ :=
      find_merge_changed (fun a _ => .inl rfl) row.key
    rw [find_of_mem member] at merged
    split at merged
    · rename_i old new foundOld found
      have kept : row = old := by
        split at merged
        · rename_i same
          exact (Option.some.inj merged).trans same.symm
        · exact Option.some.inj merged
      exact kept ▸ before.conflicts old (mem_of_find foundOld)
    · rename_i new _ found
      exact Option.some.inj merged ▸ after.conflicts new (mem_of_find found)
    · exact before.conflicts row (mem_of_find merged.symm)

theorem Precedes.of_tables (precedes : Precedes requests s later) (tables : m.tables = s.tables) :
    Precedes requests m later := by
  have here : Precedes requests m.tables later := by
    rw [tables]
    refine ⟨fun e member => ?_, precedes.outbox, precedes.indexed, precedes.conflicts⟩
    have below := precedes.below e member
    exact ⟨below.runs, below.tasks, below.depSatisfaction, below.backfills⟩
  refine ⟨fun e member => ?_, here.outbox, here.indexed, here.conflicts⟩
  have below := here.below e member
  exact ⟨below.runs, below.tasks, below.depSatisfaction, below.backfills⟩

end FoldState

end Arco.Flow
