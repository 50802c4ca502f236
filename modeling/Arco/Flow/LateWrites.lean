import Arco.Flow.Versions

/-! Late events.

A compaction may fold events whose ids are smaller than row versions that are already
stored. Some handlers then write a smaller version, and the merge of the delta prefers the
row that was there. `LateWrite` is the condition on the state before the event; without late
writes a reload gives back what the batch wrote.
-/

namespace Arco.Flow

open Keyed

namespace FoldState

open Table

variable {ext : Externals} {s s' : FoldState} {e : OrchestrationEvent}

/-- The row of a task is newer than the event. With equal versions the merge keeps a task that waits for
its retry. -/
def OlderThanTask (e : OrchestrationEvent) (t : TaskRow) : Prop :=
  e.eventId < t.rowVersion ∨ (e.eventId = t.rowVersion ∧ t.state = .retryWait ∧ e.data.leavesRetryWait = true)

/-- The event is applied and writes a row that is newer than itself. -/
structure LateWrite (s : FoldState) (e : OrchestrationEvent) : Prop where
  new : s.IsNew e
  late : (∃ t ∈ s.tasks.rows, s.WritesTask e t ∧ OlderThanTask e t) ∨
    (∃ run ∈ s.runs.rows, s.WritesRun e run ∧ e.eventId < run.rowVersion) ∨
    (∃ edge ∈ s.depSatisfaction.rows, s.WritesEdge e edge ∧ e.eventId < edge.rowVersion) ∨
    ∃ b ∈ s.backfills.rows, s.MovesBackfill e b ∧ e.eventId < b.rowVersion

theorem upTo_iff_of_stamped {t t' : TaskRow} (stamped : TaskRow.Stamped e t t') : t.UpTo t' ↔ ¬ OlderThanTask e t := by
  obtain ⟨version, rank⟩ := stamped
  unfold TaskRow.UpTo OlderThanTask
  rw [version]
  rcases lt_trichotomy t.rowVersion e.eventId with before | same | after
  · simp [before, not_lt_of_gt before, (ne_of_lt before).symm]
  · split at rank
    · rename_i leaves
      have falls : ¬ t.state.rank ≤ t'.state.rank := Nat.not_le.mpr rank
      simp only [same, lt_irrefl, true_and, false_or, falls, false_iff]
      exact not_not.mpr leaves
    · rename_i stays
      simp only [same, lt_irrefl, true_and, false_or, rank, stays, not_false_iff]
  · simp [after, not_lt_of_gt after, ne_of_gt after]

structure Stamped (s : FoldState) (e : OrchestrationEvent) (s' : FoldState) : Prop where
  tasks : StampsTasks e (s.WritesTask e) s.tasks s'.tasks
  runs : Stamps RunRow.rowVersion e.eventId (s.WritesRun e) s.runs s'.runs
  edges : Stamps DepSatisfactionRow.rowVersion e.eventId (s.WritesEdge e) s.depSatisfaction s'.depSatisfaction
  backfills : Automation.StampsBackfills e (s.MovesBackfill e) s.backfills s'.backfills

theorem stamped_foldEvent (ext : Externals) (new : s.IsNew e) : Stamped s e (s.foldEvent ext e) := by
  have lifecycle := toLifecycle_foldEvent ext s e new
  refine ⟨?_, ?_, ?_, ?_⟩
  · rw [lifecycle]
    exact stampsTasks_apply ext s e
  · rw [lifecycle]
    exact stamps_runs_apply ext s e
  · rw [lifecycle]
    exact stamps_edges_apply ext s e
  · rw [toAutomation_foldEvent ext s e new]
    exact Automation.stampsBackfills_apply ext _ _ e

structure SameRows (left right : FoldState) : Prop where
  runs : left.runs.Same right.runs
  tasks : left.tasks.Same right.tasks
  depSatisfaction : left.depSatisfaction.Same right.depSatisfaction
  timers : left.timers.Same right.timers
  backfills : left.backfills.Same right.backfills
  backfillChunks : left.backfillChunks.Same right.backfillChunks
  sensorState : left.sensorState.Same right.sensorState
  runKeyIndex : left.runKeyIndex.Same right.runKeyIndex

def reloaded (s s' : FoldState) : FoldState := s.mergeStates (s.deltaFromStates s')

structure Rises (s s' : FoldState) : Prop where
  runs : Rising RunRow.rowVersion s.runs s'.runs
  tasks : Grows TaskRow.UpTo s.tasks s'.tasks
  depSatisfaction : Rising DepSatisfactionRow.rowVersion s.depSatisfaction s'.depSatisfaction
  backfills : Grows BackfillRow.UpTo s.backfills s'.backfills

theorem Rises.refl (s : FoldState) : Rises s s where
  runs := .refl _ _
  tasks := .refl TaskRow.UpTo.refl _
  depSatisfaction := .refl _ _
  backfills := .refl BackfillRow.UpTo.refl _

theorem Rises.trans {s s' s'' : FoldState} (first : Rises s s') (second : Rises s' s'') : Rises s s'' where
  runs := first.runs.trans second.runs
  tasks := first.tasks.trans (fun _ _ _ => TaskRow.UpTo.trans) second.tasks
  depSatisfaction := first.depSatisfaction.trans second.depSatisfaction
  backfills := first.backfills.trans (fun _ _ _ => BackfillRow.UpTo.trans) second.backfills

structure Extends (s s' : FoldState) : Prop where
  runs : s.runs.keys <+: s'.runs.keys
  tasks : s.tasks.keys <+: s'.tasks.keys
  depSatisfaction : s.depSatisfaction.keys <+: s'.depSatisfaction.keys
  backfills : s.backfills.keys <+: s'.backfills.keys

theorem Rises.extends (rises : Rises s s') : Extends s s' :=
  ⟨rises.runs.keys, rises.tasks.keys, rises.depSatisfaction.keys, rises.backfills.keys⟩

theorem Stamped.extends (stamped : Stamped s e s') : Extends s s' :=
  ⟨stamped.runs.keys, stamped.tasks.keys, stamped.edges.keys, stamped.backfills.keys⟩

theorem same_merge_rising {K V : Type} [DecidableEq K] [DecidableEq V] {key : V → K} {version : V → String}
    {base current : Table key} (rising : Rising version base current) :
    (base.merge (pickNewer version) (base.changed current)).Same current :=
  (same_merge_changed_iff (selects_pickNewer version) (pickNewer_eq_right_iff version) rising.keys).mpr rising.rows

/-- A reload gives the rows back exactly if none of them has fallen. -/
theorem sameRows_reloaded_iff (extends_ : Extends s s') (advances : Advances s s')
    (automation : Automation.Advances s.toAutomation s'.toAutomation) :
    SameRows (s.reloaded s') s' ↔ Rises s s' := by
  have runs := same_merge_changed_iff (selects_pickNewer RunRow.rowVersion)
    (pickNewer_eq_right_iff RunRow.rowVersion) extends_.runs
  have tasks := same_merge_changed_iff selects_mergeTaskRows mergeTaskRows_eq_right_iff extends_.tasks
  have edges := same_merge_changed_iff (selects_pickNewer DepSatisfactionRow.rowVersion)
    (pickNewer_eq_right_iff DepSatisfactionRow.rowVersion) extends_.depSatisfaction
  have backfills := same_merge_changed_iff selects_mergeBackfillRows mergeBackfillRows_eq_right_iff
    extends_.backfills
  constructor
  · intro same
    exact ⟨⟨extends_.runs, runs.mp same.runs⟩, ⟨extends_.tasks, tasks.mp same.tasks⟩,
      ⟨extends_.depSatisfaction, edges.mp same.depSatisfaction⟩, ⟨extends_.backfills, backfills.mp same.backfills⟩⟩
  · intro rises
    have index : (s.runKeyIndex.merge mergeRunKeyIndexRows (s.runKeyIndex.changed s'.runKeyIndex)).Same s'.runKeyIndex := by
      rw [merge_changed selects_mergeRunKeyIndexRows _ automation.runKeyIndex]
      · exact fun _ => rfl
      · rintro a b rfl
        exact ite_self a
    exact {
      runs := runs.mpr rises.runs.rows
      tasks := tasks.mpr rises.tasks.rows
      depSatisfaction := edges.mpr rises.depSatisfaction.rows
      timers := same_merge_rising advances.timers
      backfills := backfills.mpr rises.backfills.rows
      backfillChunks := same_merge_rising automation.backfillChunks
      sensorState := same_merge_rising automation.sensorState
      runKeyIndex := index }

theorem Stamped.rises_iff (stamped : Stamped s e s') (new : s.IsNew e) : Rises s s' ↔ ¬ s.LateWrite e := by
  constructor
  · intro rises late
    rcases late.late with ⟨t, member, writes, older⟩ | ⟨run, member, writes, older⟩ | ⟨edge, member, writes, older⟩ |
      ⟨b, member, moves, older⟩
    · obtain ⟨t', found, upTo⟩ := rises.tasks.find_some (find_of_mem member)
      exact (upTo_iff_of_stamped (stamped.tasks.written _ t t' (find_of_mem member) found writes)).mp upTo older
    · obtain ⟨run', found, le⟩ := rises.runs.find_some (find_of_mem member)
      rw [stamped.runs.written _ run run' (find_of_mem member) found writes] at le
      exact not_lt.mpr le older
    · obtain ⟨edge', found, le⟩ := rises.depSatisfaction.find_some (find_of_mem member)
      rw [stamped.edges.written _ edge edge' (find_of_mem member) found writes] at le
      exact not_lt.mpr le older
    · obtain ⟨b', found, upTo⟩ := rises.backfills.find_some (find_of_mem member)
      obtain ⟨state, version⟩ := stamped.backfills.moved _ b b' (find_of_mem member) found moves
      rcases upTo with _ | ⟨_, le⟩
      · omega
      · rw [version] at le
        exact not_lt.mpr le older
  · intro notLate
    have inTime : ∀ {P : Prop}, (P → _) → ¬ P := fun late holds => notLate ⟨new, late holds⟩
    refine ⟨stamped.runs.grows (fun _ => le_refl _) fun run run' member writes version => ?_,
      ⟨stamped.tasks.keys, fun k t t' found found' => ?_⟩,
      stamped.edges.grows (fun _ => le_refl _) fun edge edge' member writes version => ?_,
      ⟨stamped.backfills.keys, fun k b b' found found' => ?_⟩⟩
    · rw [version]
      exact not_lt.mp (inTime fun older => .inr (.inl ⟨run, member, writes, older⟩))
    · by_cases writes : s.WritesTask e t
      · refine (upTo_iff_of_stamped (stamped.tasks.written k t t' found found' writes)).mpr ?_
        exact inTime fun older => .inl ⟨t, mem_of_find found, writes, older⟩
      · have carried := stamped.tasks.carried k t t' found found' writes
        exact .inr ⟨carried.version.symm, carried.rank⟩
    · rw [version]
      exact not_lt.mp (inTime fun older => .inr (.inr (.inl ⟨edge, member, writes, older⟩)))
    · by_cases moves : s.MovesBackfill e b
      · obtain ⟨state, version⟩ := stamped.backfills.moved k b b' found found' moves
        refine .inr ⟨state.symm, ?_⟩
        rw [version]
        exact not_lt.mp (inTime fun older => .inr (.inr (.inr ⟨b, mem_of_find found, moves, older⟩)))
      · rcases stamped.backfills.kept k b b' found found' moves with same | ⟨state, _⟩
        · exact same ▸ .refl b
        · exact .inl state

theorem extends_foldEvent (ext : Externals) (s : FoldState) (e : OrchestrationEvent) : Extends s (s.foldEvent ext e) :=
  foldEvent_cases ext s e (Rises.refl s).extends fun new => (stamped_foldEvent ext new).extends

theorem rises_foldEvent_iff (ext : Externals) (s : FoldState) (e : OrchestrationEvent) :
    Rises s (s.foldEvent ext e) ↔ ¬ s.LateWrite e := by
  cases new : s.idempotencyKeys.contains e.idempotencyKey with
  | true =>
    rw [foldEvent_of_known ext new]
    refine ⟨fun _ late => ?_, fun _ => .refl s⟩
    cases late.new.symm.trans new
  | false => exact (stamped_foldEvent ext new).rises_iff new

theorem rises_foldEvents {events : List OrchestrationEvent}
    (inTime : Throughout ext (fun s e => ¬ s.LateWrite e) s events) : Rises s (foldEvents ext s events) :=
  foldEvents_induction (Rises s) (fun s' e rises notLate => rises.trans ((rises_foldEvent_iff ext s' e).mpr notLate))
    (.refl s) inTime

theorem advances_foldEvents (ext : Externals) (s : FoldState) (events : List OrchestrationEvent) :
    Advances s (foldEvents ext s events) :=
  foldEvents_invariant (Advances s) (fun s' e advances => advances.trans (advances_foldEvent ext s' e)) (.refl s) events

theorem advances_automation_foldEvents (ext : Externals) (s : FoldState) (events : List OrchestrationEvent) :
    Automation.Advances s.toAutomation (foldEvents ext s events).toAutomation :=
  foldEvents_invariant (fun s' => Automation.Advances s.toAutomation s'.toAutomation)
    (fun s' e advances => advances.trans (advances_automation_foldEvent ext s' e)) (.refl _) events

structure Below (s : FoldState) (id : String) : Prop where
  runs : ∀ run ∈ s.runs.rows, run.rowVersion < id
  tasks : ∀ t ∈ s.tasks.rows, t.rowVersion < id
  depSatisfaction : ∀ edge ∈ s.depSatisfaction.rows, edge.rowVersion < id
  backfills : ∀ b ∈ s.backfills.rows, b.rowVersion < id

theorem Below.not_lateWrite (below : s.Below e.eventId) : ¬ s.LateWrite e := by
  rintro ⟨_, ⟨t, member, _, older | ⟨same, _⟩⟩ | ⟨run, member, _, older⟩ | ⟨edge, member, _, older⟩ |
    ⟨b, member, _, older⟩⟩
  · exact lt_asymm older (below.tasks t member)
  · exact absurd same.symm (ne_of_lt (below.tasks t member))
  · exact lt_asymm older (below.runs run member)
  · exact lt_asymm older (below.depSatisfaction edge member)
  · exact lt_asymm older (below.backfills b member)

theorem Stamped.below {id : String} (stamped : Stamped s e s') (below : s.Below id) (lt : e.eventId < id) :
    s'.Below id where
  runs run member := by
    rcases stamped.runs.version_cases member with same | ⟨old, before, same⟩
    · exact same ▸ lt
    · exact same ▸ below.runs old before
  tasks t member := by
    have found := find_of_mem member
    cases foundOld : s.tasks.find t.key with
    | none => exact stamped.tasks.added _ t foundOld found ▸ lt
    | some old =>
      by_cases writes : s.WritesTask e old
      · exact (stamped.tasks.written _ old t foundOld found writes).version ▸ lt
      · rw [(stamped.tasks.carried _ old t foundOld found writes).version]
        exact below.tasks old (mem_of_find foundOld)
  depSatisfaction edge member := by
    rcases stamped.edges.version_cases member with same | ⟨old, before, same⟩
    · exact same ▸ lt
    · exact same ▸ below.depSatisfaction old before
  backfills b member := by
    have found := find_of_mem member
    cases foundOld : s.backfills.find b.backfillId with
    | none => exact stamped.backfills.added _ b foundOld found ▸ lt
    | some old =>
      by_cases moves : s.MovesBackfill e old
      · exact (stamped.backfills.moved _ old b foundOld found moves).2 ▸ lt
      · rcases stamped.backfills.kept _ old b foundOld found moves with rfl | ⟨_, version⟩
        · exact below.backfills _ (mem_of_find foundOld)
        · exact version ▸ lt

theorem Below.foldEvent {id : String} (below : s.Below id) (lt : e.eventId < id) : (s.foldEvent ext e).Below id :=
  foldEvent_cases ext s e below fun new => (stamped_foldEvent ext new).below below lt

/-- A batch without late writes is loaded back in full. For a single event this is the exact condition. -/
theorem reload_keeps_batch (ext : Externals) (s : FoldState) :
    (∀ events, Throughout ext (fun s e => ¬ s.LateWrite e) s events →
        SameRows (s.reloaded (foldEvents ext s events)) (foldEvents ext s events)) ∧
      ∀ e, SameRows (s.reloaded (s.foldEvent ext e)) (s.foldEvent ext e) ↔ ¬ s.LateWrite e := by
  refine ⟨fun events inTime => ?_, fun e => ?_⟩
  · have rises := rises_foldEvents inTime
    exact (sameRows_reloaded_iff rises.extends (advances_foldEvents ext s events)
      (advances_automation_foldEvents ext s events)).mpr rises
  · rw [sameRows_reloaded_iff (extends_foldEvent ext s e) (advances_foldEvent ext s e)
      (advances_automation_foldEvent ext s e), rises_foldEvent_iff]

def heartbeatFirst : List OrchestrationEvent :=
  [.sample "01" (.planCreated .sample),
   .sample "02" (.dispatchRequested firstDispatch),
   .sample "03" (.taskStarted firstAttempt),
   .sample "05" (.taskHeartbeat { toAttemptRef := firstAttempt })]

theorem reload_keeps_batch_inOrder : SameRows
      ((foldEvents .constant {} heartbeatFirst).reloaded (foldEvents .constant (foldEvents .constant {} heartbeatFirst)
        [.sample "06" (.taskFinished (firstFinish .succeeded))]))
      (foldEvents .constant (foldEvents .constant {} heartbeatFirst)
        [.sample "06" (.taskFinished (firstFinish .succeeded))]) :=
  (reload_keeps_batch .constant _).1 _ ⟨Below.not_lateWrite ⟨by decide, by decide, by decide, by decide⟩, trivial⟩

/-- The completion is folded after the heartbeat and has a smaller id. -/
def lateCompletion : OrchestrationEvent :=
  .sample "04" (.taskFinished (firstFinish .succeeded))

theorem late_completion_lost : ¬ ∀ s, Reachable .constant s → ∀ events,
      SameRows (s.reloaded (foldEvents .constant s events)) (foldEvents .constant s events) := by
  intro kept
  have same := (kept _ ⟨[], heartbeatFirst, rfl⟩ [lateCompletion]).tasks ("run", "extract")
  have states := congrArg (Option.map TaskRow.state) same
  revert states
  decide

end FoldState

end Arco.Flow
