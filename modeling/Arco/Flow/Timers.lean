import Mathlib.Data.List.Permutation
import Arco.Flow.Dispatches

/-! The events of one timer, in every order.

Each of the three events creates the row of the timer if it comes first, and acknowledgements and
firings older than the row are passed over. `TimerEvents.fate` says what each event makes of the row;
whether the timer ends up fired is read off the six orders.
-/

namespace Arco.Flow

open Keyed Text List Table Option

def retryTimerId (runId taskKey : String) (attempt : Nat) (fireEpoch : Int) : String :=
  s!"timer:retry:{runId}:{taskKey}:{attempt}:{fireEpoch}"

def heartbeatTimerId (runId taskKey : String) (attempt : Nat) (fireEpoch : Int) : String :=
  s!"timer:heartbeat:{runId}:{taskKey}:{attempt}:{fireEpoch}"

def cronTimerId (scheduleId : String) (fireEpoch : Int) : String := s!"timer:cron:{scheduleId}:{fireEpoch}"

/-- The ids that the builders make from keys without a colon, an attempt of 32 bits and an epoch of 64. -/
inductive BuiltTimerId : String → Prop where
  | retry {runId taskKey : String} {attempt : Nat} {fireEpoch : Int} (run : ':' ∉ runId.toList)
      (task : ':' ∉ taskKey.toList) (small : attempt < 2 ^ 32) (low : -2 ^ 63 ≤ fireEpoch) (high : fireEpoch < 2 ^ 63) :
      BuiltTimerId (retryTimerId runId taskKey attempt fireEpoch)
  | heartbeat {runId taskKey : String} {attempt : Nat} {fireEpoch : Int} (run : ':' ∉ runId.toList)
      (task : ':' ∉ taskKey.toList) (small : attempt < 2 ^ 32) (low : -2 ^ 63 ≤ fireEpoch) (high : fireEpoch < 2 ^ 63) :
      BuiltTimerId (heartbeatTimerId runId taskKey attempt fireEpoch)
  | cron {scheduleId : String} {fireEpoch : Int} (schedule : ':' ∉ scheduleId.toList) (low : -2 ^ 63 ≤ fireEpoch)
      (high : fireEpoch < 2 ^ 63) : BuiltTimerId (cronTimerId scheduleId fireEpoch)

theorem colon_not_mem_toString_nat (n : Nat) : ':' ∉ (toString n).toList := fun member =>
  absurd (isDigit_of_mem_toString member) (by decide)

theorem colon_not_mem_toString_int (i : Int) : ':' ∉ (toString i).toList := by
  cases i with
  | ofNat n => exact colon_not_mem_toString_nat n
  | negSucc n =>
    rw [show toString (Int.negSucc n) = "-" ++ toString (n + 1) from rfl, String.toList_append]
    simpa using colon_not_mem_toString_nat (n + 1)

theorem splitString_cronTimerId {scheduleId : String} (schedule : ':' ∉ scheduleId.toList) (fireEpoch : Int) :
    splitString ':' (cronTimerId scheduleId fireEpoch) = ["timer", "cron", scheduleId, toString fireEpoch] := by
  have text : cronTimerId scheduleId fireEpoch =
      "timer" ++ String.singleton ':' ++ ("cron" ++ String.singleton ':' ++
        (scheduleId ++ String.singleton ':' ++ toString fireEpoch)) := by
    apply String.toList_inj.mp
    simp [cronTimerId, FoldState.toString_string]
  rw [text, splitString_append _ (by decide), splitString_append _ (by decide), splitString_append _ schedule,
    splitString_of_not_mem (colon_not_mem_toString_int fireEpoch)]

theorem splitString_taskTimerId (kind : String) {runId taskKey : String} (word : ':' ∉ kind.toList)
    (run : ':' ∉ runId.toList) (task : ':' ∉ taskKey.toList) (attempt : Nat) (fireEpoch : Int) :
    splitString ':' s!"timer:{kind}:{runId}:{taskKey}:{attempt}:{fireEpoch}" =
      ["timer", kind, runId, taskKey, toString attempt, toString fireEpoch] := by
  have text : s!"timer:{kind}:{runId}:{taskKey}:{attempt}:{fireEpoch}" =
      "timer" ++ String.singleton ':' ++ (kind ++ String.singleton ':' ++ (runId ++ String.singleton ':' ++
        (taskKey ++ String.singleton ':' ++ (toString attempt ++ String.singleton ':' ++ toString fireEpoch)))) := by
    apply String.toList_inj.mp
    simp [FoldState.toString_string]
  rw [text, splitString_append _ (by decide), splitString_append _ word, splitString_append _ run,
    splitString_append _ task, splitString_append _ (colon_not_mem_toString_nat attempt),
    splitString_of_not_mem (colon_not_mem_toString_int fireEpoch)]

theorem parseTimerId_of_parts {kind runId taskKey timerId : String} {attempt : Nat} {fireEpoch : Int}
    (parts : splitString ':' timerId = ["timer", kind, runId, taskKey, toString attempt, toString fireEpoch])
    (isKind : kind = "retry" ∨ kind = "heartbeat") (small : attempt < 2 ^ 32) (low : -2 ^ 63 ≤ fireEpoch)
    (high : fireEpoch < 2 ^ 63) : ∃ parsed, parseTimerId timerId = some parsed := by
  have number : parseU32 attempt.repr = some attempt := parseU32_toString small
  have epoch : parseI64 fireEpoch.repr = some fireEpoch := parseI64_toString low high
  rcases isKind with rfl | rfl <;> simp [parseTimerId, parts, parseTimerType, number, epoch]

theorem BuiltTimerId.parses {timerId : String} (built : BuiltTimerId timerId) :
    ∃ parsed, parseTimerId timerId = some parsed := by
  cases built with
  | retry run task small low high =>
    exact parseTimerId_of_parts (splitString_taskTimerId "retry" (by decide) run task _ _) (.inl rfl) small
      low high
  | heartbeat run task small low high =>
    exact parseTimerId_of_parts (splitString_taskTimerId "heartbeat" (by decide) run task _ _) (.inr rfl)
      small low high
  | @cron scheduleId fireEpoch schedule low high =>
    have epoch : parseI64 fireEpoch.repr = some fireEpoch := parseI64_toString low high
    simp [parseTimerId, splitString_cronTimerId schedule, parseTimerType, epoch]

inductive TimerStep where
  | requested
  | enqueued
  | fired
  deriving DecidableEq

/-- The three events of one timer. -/
structure TimerEvents where
  requested : Envelope
  enqueued : Envelope
  fired : Envelope
  request : TimerRequested
  acknowledgement : TimerEnqueued
  firing : TimerFired

namespace TimerEvents

def event (t : TimerEvents) : TimerStep → OrchestrationEvent
  | .requested => { t.requested with data := .timerRequested t.request }
  | .enqueued => { t.enqueued with data := .timerEnqueued t.acknowledgement }
  | .fired => { t.fired with data := .timerFired t.firing }

/-- The events are about one timer, with the keys that their data gives them and different ids. -/
structure Valid (ext : Externals) (t : TimerEvents) (timerId : String) : Prop where
  request : t.request.timerId = timerId
  acknowledgement : t.acknowledgement.timerId = timerId
  firing : t.firing.timerId = timerId
  keys : ∀ step, (t.event step).idempotencyKey = (t.event step).data.idempotencyKey ext
  distinct : ∀ a b, (t.event a).eventId = (t.event b).eventId → a = b

end TimerEvents

/-- What decides whether a timer is lost. -/
structure Fate where
  state : TimerState
  version : String
  fireAt : Timestamp

def TimerRow.fate (row : TimerRow) : Fate := ⟨row.state, row.rowVersion, row.fireAt⟩

def ParsedTimerId.fireAt (ext : Externals) (parsed : ParsedTimerId) (ev : Envelope) : Timestamp :=
  (ext.fromTimestamp parsed.fireEpoch).getD (ext.utcNow ev.eventId)

def TimerEvents.fate (ext : Externals) (t : TimerEvents) (parsed : ParsedTimerId) (now : Option Fate) :
    TimerStep → Option Fate
  | .requested => some <| match now with
    | some fate => { fate with fireAt := t.request.fireAt }
    | none => ⟨.scheduled, t.requested.eventId, t.request.fireAt⟩
  | .enqueued => some <| match now with
    | some fate => if t.enqueued.eventId ≤ fate.version then fate else { fate with version := t.enqueued.eventId }
    | none => ⟨.scheduled, t.enqueued.eventId, parsed.fireAt ext t.enqueued⟩
  | .fired => some <| match now with
    | some fate => if t.fired.eventId ≤ fate.version then fate else ⟨.fired, t.fired.eventId, fate.fireAt⟩
    | none => ⟨.fired, t.fired.eventId, parsed.fireAt ext t.fired⟩

namespace FoldState

variable {ext : Externals} {s : FoldState} {ev : Envelope} {t : TimerEvents} {timerId : String}
  {parsed : ParsedTimerId}

theorem setRetryNotBefore_frame (p : TimerRequested) : (s.setRetryNotBefore ev p).1.timers = s.timers ∧
      (s.setRetryNotBefore ev p).1.idempotencyKeys = s.idempotencyKeys := by
  unfold setRetryNotBefore
  split
  · split <;> exact ⟨rfl, rfl⟩
  · exact ⟨rfl, rfl⟩

theorem idempotencyKeys_upsertTimer (change : TimerRow → TimerRow) (created : Option TimerRow) :
    (s.upsertTimer ev timerId change created).1.idempotencyKeys = s.idempotencyKeys := by
  unfold upsertTimer
  split <;> (split <;> rfl)

theorem fate_upsertTimer {change : TimerRow → TimerRow} {row : TimerRow}
    (keeps : ∀ row, (change row).timerId = row.timerId) (named : row.timerId = timerId) :
    ((s.upsertTimer ev timerId change (some row)).1.timers.find timerId).map TimerRow.fate =
      some (match s.timers.find timerId with
        | some old => if ev.eventId ≤ old.rowVersion then old.fate else (change old).fate
        | none => row.fate) := by
  unfold upsertTimer
  cases found : s.timers.find timerId with
  | some old =>
    dsimp only
    split
    · rw [found]
      rfl
    · rw [find_upsert_of_key ((keeps old).trans (key_of_find found))]
      rfl
  | none =>
    rw [find_upsert_of_key named]
    rfl

theorem apply_timer (valid : t.Valid ext timerId) (parses : parseTimerId timerId = some parsed) (step : TimerStep) :
    ((s.apply ext (t.event step).toEnvelope (t.event step).data).1.timers.find timerId).map TimerRow.fate =
        t.fate ext parsed ((s.timers.find timerId).map TimerRow.fate) step ∧
      (s.apply ext (t.event step).toEnvelope (t.event step).data).1.idempotencyKeys = s.idempotencyKeys := by
  cases step with
  | requested =>
    obtain rfl := valid.request
    show ((s.foldTimerRequested t.requested t.request).1.timers.find t.request.timerId).map TimerRow.fate = _ ∧
      (s.foldTimerRequested t.requested t.request).1.idempotencyKeys = _
    unfold foldTimerRequested
    cases found : s.timers.find t.request.timerId with
    | some row =>
      have named : (fillTimer t.request row).timerId = t.request.timerId :=
        (key_of_find found : row.timerId = t.request.timerId)
      rw [(setRetryNotBefore_frame _).1, (setRetryNotBefore_frame _).2, find_upsert_of_key named]
      exact ⟨rfl, rfl⟩
    | none =>
      rw [(setRetryNotBefore_frame _).1, (setRetryNotBefore_frame _).2, find_upsert_of_key rfl]
      exact ⟨rfl, rfl⟩
  | enqueued =>
    obtain rfl := valid.acknowledgement
    show ((s.foldTimerEnqueued ext t.enqueued t.acknowledgement).1.timers.find _).map TimerRow.fate = _ ∧
      (s.foldTimerEnqueued ext t.enqueued t.acknowledgement).1.idempotencyKeys = _
    rw [foldTimerEnqueued, timerFromId, parses, map_some]
    refine ⟨(fate_upsertTimer (fun _ => ?_) ?_).trans ?_, idempotencyKeys_upsertTimer _ _⟩
    · rfl
    · rfl
    · cases s.timers.find t.acknowledgement.timerId <;> rfl
  | fired =>
    obtain rfl := valid.firing
    show ((s.foldTimerFired ext t.fired t.firing).1.timers.find _).map TimerRow.fate = _ ∧
      (s.foldTimerFired ext t.fired t.firing).1.idempotencyKeys = _
    rw [foldTimerFired, timerFromId, parses, map_some]
    refine ⟨(fate_upsertTimer (fun _ => ?_) ?_).trans ?_, idempotencyKeys_upsertTimer _ _⟩
    · rfl
    · rfl
    · cases s.timers.find t.firing.timerId <;> rfl

def keyLetter : TimerStep → Char
  | .requested => 'r'
  | .enqueued => 'a'
  | .fired => 'f'

theorem keyLetter_eq (valid : t.Valid ext timerId) (step : TimerStep) :
    (t.event step).idempotencyKey.toList[6]? = some (keyLetter step) := by
  rw [valid.keys step]
  cases step with
  | requested =>
    show s!"timer_req:{t.request.timerId}".toList[6]? = some 'r'
    simp [toString_string]
  | enqueued =>
    show s!"timer_ack:{t.acknowledgement.timerId}".toList[6]? = some 'a'
    simp [toString_string]
  | fired =>
    show s!"timer_fired:{t.firing.timerId}".toList[6]? = some 'f'
    simp [toString_string]

theorem key_injective (valid : t.Valid ext timerId) {a b : TimerStep}
    (same : (t.event a).idempotencyKey = (t.event b).idempotencyKey) : a = b := by
  have letters : keyLetter a = keyLetter b := by
    have := keyLetter_eq valid a
    rw [same, keyLetter_eq valid b] at this
    exact (some.inj this).symm
  cases a <;> cases b <;> first | rfl | exact absurd letters (by decide)

structure Untimed (s : FoldState) (t : TimerEvents) (timerId : String) : Prop where
  row : s.timers.find timerId = none
  keys : ∀ step, s.IsNew (t.event step)

section

variable (valid : t.Valid ext timerId) (parses : parseTimerId timerId = some parsed)
include valid parses

theorem fate_foldEvent {step : TimerStep} (new : s.IsNew (t.event step)) :
    ((s.foldEvent ext (t.event step)).timers.find timerId).map TimerRow.fate =
        t.fate ext parsed ((s.timers.find timerId).map TimerRow.fate) step ∧
      ∀ other, other ≠ step → (s.foldEvent ext (t.event step)).idempotencyKeys.contains (t.event other).idempotencyKey =
        s.idempotencyKeys.contains (t.event other).idempotencyKey := by
  obtain ⟨fate, keys⟩ := apply_timer (s := s) valid parses step
  rw [foldEvent, if_neg (by simp [new])]
  dsimp only
  split
  · obtain ⟨_, recorded⟩ := recordIdempotencyKey_eq
      (s.apply ext (t.event step).toEnvelope (t.event step).data).1 (t.event step).toEnvelope
    refine ⟨by rw [recorded]; exact fate, fun other different => ?_⟩
    have foreign : (t.event step).idempotencyKey ≠ (t.event other).idempotencyKey := fun same =>
      different (key_injective valid same).symm
    rw [contains_recordIdempotencyKey, keys, decide_eq_false foreign, Bool.or_false]
  · exact ⟨fate, fun other _ => by rw [keys]⟩

theorem fate_foldEvents {order : List TimerStep} (once : order.Nodup)
    (new : ∀ step ∈ order, s.IsNew (t.event step)) :
    ((foldEvents ext s (order.map t.event)).timers.find timerId).map TimerRow.fate =
      order.foldl (t.fate ext parsed) ((s.timers.find timerId).map TimerRow.fate) := by
  induction order generalizing s with
  | nil => rfl
  | cons step rest ih =>
    obtain ⟨fate, others⟩ := fate_foldEvent valid parses (new step mem_cons_self)
    obtain ⟨absent, once⟩ := nodup_cons.mp once
    have later : ∀ other ∈ rest, (s.foldEvent ext (t.event step)).IsNew (t.event other) :=
      fun other member => (others other (fun same => absent (same ▸ member))).trans
        (new other (mem_cons_of_mem _ member))
    rw [foldl_cons, ← fate]
    exact ih once later

end

def FiredAsRequested (s : FoldState) (t : TimerEvents) (timerId : String) : Prop :=
  ∃ row, s.timers.find timerId = some row ∧ row.state = .fired ∧ row.fireAt = t.request.fireAt

/-- The firing is newer than an acknowledgement folded before it, and than a request folded first. -/
def FiresLast (t : TimerEvents) (order : List TimerStep) : Prop :=
  (order.idxOf .enqueued < order.idxOf .fired → t.enqueued.eventId < t.fired.eventId) ∧
    (order.head? = some .requested → t.requested.eventId < t.fired.eventId)

theorem fate_orders (ext : Externals) (t : TimerEvents) (parsed : ParsedTimerId) {order : List TimerStep}
    (all : order.Perm [.requested, .enqueued, .fired]) :
    ∃ fate, order.foldl (t.fate ext parsed) none = some fate ∧ fate.fireAt = t.request.fireAt ∧
      (fate.state = .fired ↔ FiresLast t order) := by
  have orders : ∀ order ∈ [TimerStep.requested, .enqueued, .fired].permutations',
      order = [.requested, .enqueued, .fired] ∨ order = [.requested, .fired, .enqueued] ∨
      order = [.enqueued, .requested, .fired] ∨ order = [.enqueued, .fired, .requested] ∨
      order = [.fired, .requested, .enqueued] ∨ order = [.fired, .enqueued, .requested] := by decide
  rcases orders order (mem_permutations'.mpr all) with rfl | rfl | rfl | rfl | rfl | rfl
  all_goals
    simp +decide only [foldl_cons, foldl_nil, TimerEvents.fate, FiresLast, some.injEq,
      exists_eq_left', forall_const, false_imp_iff, true_and, and_true]
  -- what is left compares the versions of the row with the ids of the events
  all_goals grind

/-- The three events of a timer leave it fired, with the requested time, exactly when the firing is newer
than what it finds in the row. -/
theorem firedAsRequested_iff (ext : Externals) (s : FoldState) (t : TimerEvents) (timerId : String)
    (built : BuiltTimerId timerId) (valid : t.Valid ext timerId) (untimed : s.Untimed t timerId)
    (order : List TimerStep) (all : order.Perm [.requested, .enqueued, .fired]) :
    (foldEvents ext s (order.map t.event)).FiredAsRequested t timerId ↔ FiresLast t order := by
  obtain ⟨parsed, parses⟩ := built.parses
  have once : order.Nodup := all.nodup_iff.mpr (by decide)
  have folded := fate_foldEvents valid parses once fun step _ => untimed.keys step
  obtain ⟨_, result, fireAt, iff⟩ := fate_orders ext t parsed all
  rw [untimed.row, map_none, result] at folded
  obtain ⟨row, found, same⟩ := map_eq_some_iff.mp folded
  subst same
  rw [← iff]
  constructor
  · rintro ⟨_, found', state, _⟩
    cases found.symm.trans found'
    exact state
  · exact fun state => ⟨row, found, state, fireAt⟩

section Sample

def sampleTimerId : String := retryTimerId "run" "extract" 1 60

def sampleTimer (requested enqueued fired : String) : TimerEvents :=
  let request : TimerRequested := { timerId := sampleTimerId, timerType := .retry, fireAt := 60 }
  let acknowledgement : TimerEnqueued := { timerId := sampleTimerId, cloudTaskId := "t" }
  let firing : TimerFired := { timerId := sampleTimerId, timerType := .retry }
  { requested := (OrchestrationEvent.sample requested (.timerRequested request)).toEnvelope
    enqueued := (OrchestrationEvent.sample enqueued (.timerEnqueued acknowledgement)).toEnvelope
    fired := (OrchestrationEvent.sample fired (.timerFired firing)).toEnvelope
    request, acknowledgement, firing }

theorem sampleTimer_built : BuiltTimerId sampleTimerId :=
  .retry (by decide) (by decide) (by decide) (by decide) (by decide)

theorem sampleTimer_valid {requested enqueued fired : String}
    (distinct : requested ≠ enqueued ∧ enqueued ≠ fired ∧ requested ≠ fired) :
    (sampleTimer requested enqueued fired).Valid .constant sampleTimerId where
  request := rfl
  acknowledgement := rfl
  firing := rfl
  keys step := by cases step <;> rfl
  distinct a b same := by
    obtain ⟨first, second, third⟩ := distinct
    cases a <;> cases b <;> simp_all [sampleTimer, TimerEvents.event, OrchestrationEvent.sample,
      OrchestrationEvent.newWithTimestamp]

theorem sampleTimer_untimed (requested enqueued fired : String) :
    ({} : FoldState).Untimed (sampleTimer requested enqueued fired) sampleTimerId where
  row := rfl
  keys step := by cases step <;> rfl

theorem firedAsRequested_iff_inOrder :
    (foldEvents .constant {} ([.requested, .enqueued, .fired].map (sampleTimer "01" "02" "03").event)).FiredAsRequested
      (sampleTimer "01" "02" "03") sampleTimerId :=
  (firedAsRequested_iff .constant {} (sampleTimer "01" "02" "03") sampleTimerId sampleTimer_built
    (sampleTimer_valid (by decide)) (sampleTimer_untimed "01" "02" "03") [.requested, .enqueued, .fired]
    (Perm.refl _)).mpr ⟨fun _ => by decide, fun _ => by decide⟩

/-- A firing whose process has an earlier clock than the one that requested the timer. -/
theorem firing_lost : ¬ ∀ t : TimerEvents, ∀ timerId, BuiltTimerId timerId → t.Valid .constant timerId →
    ∀ order : List TimerStep, order.Perm [.requested, .enqueued, .fired] →
      (foldEvents .constant {} (order.map t.event)).FiredAsRequested t timerId := by
  intro fires
  obtain ⟨_, found, state, _⟩ := fires (sampleTimer "02" "03" "01") sampleTimerId sampleTimer_built
    (sampleTimer_valid (by decide)) [.requested, .enqueued, .fired] (Perm.refl _)
  have scheduled : ((foldEvents .constant {} ([.requested, .enqueued, .fired].map
      (sampleTimer "02" "03" "01").event)).timers.find sampleTimerId).map (·.state) = some .scheduled := by decide +kernel
  rw [found, map_some, state] at scheduled
  cases scheduled

end Sample

end FoldState

end Arco.Flow
