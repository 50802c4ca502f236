import Arco.Metastore.Watermark

/-! Runs of the metastore ledger: the watermark is complete as long as the ledger is used in order, and not otherwise. -/

namespace Arco.Metastore.MetastoreLedger

open Arco.Catalog (CatalogError)
open Effects Schedules

def Answered : LedgerCall → Ledger → Except CatalogError LedgerAnswer → Ledger → Prop
  | .nextSequence, _, .ok (.sequence number), _ => 1 ≤ number
  | .append event, _, .ok .appended, s => AtLeast s .latest event.sequence
  | .latestWatermark, start, .ok (.watermark (some watermark)), s =>
    Settled s watermark.sequence ∧ ∀ number, AtLeast start .latest number → number ≤ watermark.sequence
  | _, _, _, _ => True

theorem verified (storage : StorageScope) :
    contract.Verified (serveObjects listed) (protocol storage) Answered := by
  refine ⟨fun returned call s admitted consistent answered => ?_⟩
  have ends : ∀ {Q : LedgerAnswer → Ledger → Prop} {x : LedgerProgram LedgerAnswer}, Keeps call Q x s →
      (∀ answer s', Q answer s' → Answered call s (.ok answer) s') →
      x.run.Safe (serveObjects listed) contract call (Answered call s) s := by
    intro Q x keeps stronger
    refine Program.Safe.mono ?_ keeps
    intro result s' _ known
    cases result with
    | ok answer => exact stronger answer s' known
    | error error => cases call <;> exact trivial
  cases call with
  | nextSequence =>
    refine ends (keeps_seq _ consistent (keeps_nextSequence consistent) (Q := fun answer _ =>
      ∃ number, answer = .sequence number ∧ 1 ≤ number) fun number _ _ _ positive => ?_) ?_
    · exact attempts_pure fun _ _ _ => ⟨number, rfl, positive⟩
    · rintro _ _ ⟨number, rfl, positive⟩
      exact positive
  | append event =>
    obtain ⟨⟨_, result⟩, member, passed⟩ := List.any_eq_true.mp admitted
    have positive : 1 ≤ event.sequence := by
      split at passed
      · rename_i id number same
        obtain ⟨rfl, rfl⟩ := Prod.mk.inj same
        obtain ⟨_, known⟩ := answered _ member
        have isNumber : number = event.sequence := by simpa using passed
        exact isNumber ▸ known
      · cases passed
    refine ends (keeps_seq _ consistent (keeps_appendEvent consistent positive) (Q := fun answer s' =>
      answer = .appended ∧ AtLeast s' .latest event.sequence) fun _ s₁ _ consistent₁ atLeast => ?_) ?_
    · exact attempts_pure fun s' grown' _ => ⟨rfl, grown_atLeast consistent₁ grown' atLeast⟩
    · rintro _ _ ⟨rfl, atLeast⟩
      exact atLeast
  | latestWatermark =>
    refine ends (keeps_seq _ consistent (keeps_latestWatermark consistent) (Q := fun answer s' =>
      ∃ result, answer = .watermark result ∧ ∀ watermark, result = some watermark →
        Settled s' watermark.sequence ∧ ∀ number, AtLeast s .latest number → number ≤ watermark.sequence)
      fun result s₁ _ consistent₁ known => ?_) ?_
    · refine attempts_pure fun s' grown' _ => ⟨result, rfl, fun watermark isResult => ?_⟩
      exact ⟨grown_settled consistent₁ grown' (known watermark isResult).1, (known watermark isResult).2⟩
    · rintro _ _ ⟨result, rfl, known⟩
      cases result with
      | none => trivial
      | some watermark => exact known watermark rfl

abbrev LedgerWorld (P : Type) : Type :=
  World (ObjectRes LedgerValue LedgerListing) (Except CatalogError LedgerAnswer) LedgerCall P Ledger

abbrev LedgerAction (P : Type) : Type := Action LedgerCall P Storage.Service

/-- Of a world and a later one: no event at or below a watermark that was returned in the first becomes durable up to the
second, and a watermark that is asked for after the first is not below an event that was appended there. -/
structure Complete {P : Type} (w w' : LedgerWorld P) : Prop where
  durable : ∀ label watermark, (label, .ok (.watermark (some watermark))) ∈ w.returned → label.call = .latestWatermark →
    ∀ eventId event, w'.state.current (.event eventId) = some event → event.sequence ≤ watermark.sequence →
      w.state.current (.event eventId) = some event
  appended : ∀ label event, (label, .ok .appended) ∈ w.returned → label.call = .append event →
    ∀ label' watermark, (label', .ok (.watermark (some watermark))) ∈ w'.returned → label'.call = .latestWatermark →
      w.starts.length ≤ label'.id → event.sequence ≤ watermark.sequence

theorem consistent_empty : Consistent {} where
  positive _ := by simp [Reserved, Objects.Held]
  holders _ _ _ := by simp [Objects.Held]
  watermarks _ _ := by simp [Objects.current]

theorem complete_of_orderly {P : Type} [DecidableEq P] (storage : StorageScope) {w w' : LedgerWorld P}
    (first : (protocol storage).Reaches (serveObjects listed) contract.Meets { state := {} } w)
    (second : (protocol storage).Reaches (serveObjects listed) contract.Meets w w') : Complete w w' := by
  obtain ⟨sound, _, _⟩ := (verified storage).reaches (World.sound_initial consistent_empty) first
  obtain ⟨sound', grown, startsAfter⟩ := (verified storage).reaches sound second
  have consistent : Consistent w.state := sound.holds
  refine ⟨fun label watermark returned isCall eventId event found below => ?_,
    fun label event returned isCall label' watermark returned' isCall' late => ?_⟩
  · obtain ⟨start, _, answered⟩ := sound.returned _ returned
    have known := answered w.state .refl consistent
    rw [isCall] at known
    exact grown_durable_of_settled consistent grown known.1 found below
  · obtain ⟨_, _, answered⟩ := sound.returned _ returned
    have atLeast := answered w.state .refl consistent
    rw [isCall] at atLeast
    obtain ⟨start', isStart', answered'⟩ := sound'.returned _ returned'
    have known := answered' w'.state .refl sound'.holds
    rw [isCall'] at known
    exact known.2 _ (grown_atLeast consistent (startsAfter label'.id start' late isStart') atLeast)

def samplePrincipal : PrincipalRecord where
  principalId := "p"
  name := "p"
  principalKind := .user
  owner := "p"
  lifecycleState := .active
  updatedAtMs := 0

def sampleEvent (eventId : String) (sequence : Nat) : MetastoreEvent where
  scope := some { tenantId := "t", workspaceId := "w", metastoreId := "m" }
  eventId := eventId
  sequence := sequence
  mutation := .principalUpserted samplePrincipal

def sampleScope : StorageScope := { tenantId := "t", workspaceId := "w" }

/-- A test for `Orderly`, which looks at the known objects only. -/
def isOrderly (s : Ledger) : LedgerCall → LedgerOp → Bool
  | _, .put (.sequence number) _ _ => s.known.all fun
    | .sequence m => m ≤ number
    | .event eventId => (s.current (.event eventId)).isNone
    | _ => true
  | _, .put (.event eventId) event _ =>
    s.current (.sequence (MetastoreEvent.sequence event)) = some eventId ∧ s.known.all fun
      | .sequence m => (s.current (.sequence m)).all (· = eventId)
      | _ => true
  | .latestWatermark, .head (.event _) => (s.current (.watermark .latest)).any fun watermark => s.known.all fun
    | .sequence m => m ≤ watermark.sequence
    | _ => true
  | _, _ => true

theorem passes_of_held {s : Ledger} {test : LedgerKey → Bool} (passed : s.known.all test = true) {k : LedgerKey}
    {value : LedgerValue k} (held : s.Held k value) : test k = true :=
  List.all_eq_true.mp passed k (s.complete k (List.ne_nil_of_mem held))

theorem orderly_of_isOrderly {s : Ledger} {call : LedgerCall} {op : LedgerOp}
    (passed : isOrderly s call op = true) : Orderly call op s where
  reserves number eventId precondition isOp _ := by
    subst isOp
    rintro (⟨m, above, _, held⟩ | ⟨id, _, durable⟩)
    · have below := passes_of_held passed held
      simp only [decide_eq_true_eq] at below
      omega
    · obtain ⟨event, found⟩ := Option.isSome_iff_exists.mp durable
      have absent := passes_of_held passed (Objects.held_of_current found)
      simp [found] at absent
  writes eventId event precondition isOp _ := by
    subst isOp
    obtain ⟨reserved, all⟩ := of_decide_eq_true passed
    refine ⟨reserved, fun n other held found => ?_⟩
    have own := passes_of_held all held
    simpa [found] using own
  fallsBack eventId isCall isOp _ number held newer := by
    subst isCall isOp
    obtain ⟨watermark, isLatest, all⟩ := (Option.any_eq_true _ _).mp passed
    have reached := passes_of_held all held
    have above := newer watermark isLatest
    simp only [decide_eq_true_eq] at reached
    omega

def meetsOrder {P : Type} (w : LedgerWorld P) : LedgerAction P → Bool
  | .step p _ => match w.party p with
    | .running label (.call op _) => isOrderly w.state label.call op
    | _ => true
  | _ => true

theorem meets_of_meetsOrder {P : Type} {w : LedgerWorld P} {action : LedgerAction P} (passed : meetsOrder w action = true) :
    contract.Meets w action := by
  intro p choice label op rest isAction running
  subst isAction
  simp only [meetsOrder, running] at passed
  exact orderly_of_isOrderly passed

abbrev LedgerMove : Type := Move (LedgerWorld (Fin 3)) (LedgerAction (Fin 3))

def starts (party : Fin 3) (call : LedgerCall) : LedgerMove := .act (.start party call)

def steps (party : Fin 3) : LedgerMove := .act (.step party .answered)

def returns (party : Fin 3) : LedgerMove := Protocol.goOn party .answered

def answeredWatermark : Label LedgerCall × Except CatalogError LedgerAnswer → Option Nat
  | (⟨_, .latestWatermark⟩, .ok (.watermark (some watermark))) => some watermark.sequence
  | _ => none

def isAppended : Label LedgerCall × Except CatalogError LedgerAnswer → Bool
  | (⟨_, .append _⟩, .ok .appended) => true
  | _ => false

variable {answers : List (Label LedgerCall × Except CatalogError LedgerAnswer)}

theorem returned_of_answeredWatermark {sequence : Nat}
    (found : answers.any (fun x => answeredWatermark x = some sequence) = true) :
    ∃ label watermark, (label, .ok (.watermark (some watermark))) ∈ answers ∧ label.call = .latestWatermark ∧
      watermark.sequence = sequence := by
  obtain ⟨⟨_, _⟩, member, answered⟩ := List.any_eq_true.mp found
  unfold answeredWatermark at answered
  split at answered
  · rename_i id watermark same
    obtain ⟨rfl, rfl⟩ := Prod.mk.inj same
    exact ⟨_, watermark, member, rfl, by simpa using answered⟩
  · simp at answered

theorem returned_of_isAppended (found : answers.any isAppended = true) :
    ∃ label event, (label, .ok .appended) ∈ answers ∧ label.call = .append event := by
  obtain ⟨⟨_, _⟩, member, appended⟩ := List.any_eq_true.mp found
  unfold isAppended at appended
  split at appended
  · rename_i id event same
    obtain ⟨rfl, rfl⟩ := Prod.mk.inj same
    exact ⟨_, event, member, rfl⟩
  · cases appended

theorem exists_of_plays (check : LedgerWorld (Fin 3) → LedgerAction (Fin 3) → Bool) (first second : List LedgerMove)
    (test test' : LedgerWorld (Fin 3) → Bool)
    (passed : (play ((protocol sampleScope).next (serveObjects listed)) check 60 { state := {} } first).any (fun w =>
      test w && (play ((protocol sampleScope).next (serveObjects listed)) check 60 w second).any test') = true) :
    ∃ w w', (protocol sampleScope).Reaches (serveObjects listed) (fun w action => check w action = true) { state := {} } w ∧
      (protocol sampleScope).Reaches (serveObjects listed) (fun w action => check w action = true) w w' ∧
      test w = true ∧ test' w' = true := by
  obtain ⟨w, reached, both⟩ := Protocol.exists_of_play _ _ check 60 _ first _ passed
  obtain ⟨isTest, rest⟩ := Bool.and_eq_true_iff.mp both
  obtain ⟨w', reached', isTest'⟩ := Protocol.exists_of_play _ _ check 60 w second _ rest
  exact ⟨w, w', reached, reached', isTest, isTest'⟩

/-- The write of an event is lost, another event is appended with its number, and then the watermark is asked for. -/
theorem complete_of_orderly_append : ∃ w w' : LedgerWorld (Fin 3),
    (∃ label event, (label, .ok .appended) ∈ w.returned ∧ label.call = .append event) ∧
    (∃ label watermark, (label, .ok (.watermark (some watermark))) ∈ w'.returned ∧ label.call = .latestWatermark ∧
      watermark.sequence = 1) ∧ Complete w w' := by
  obtain ⟨w, w', first, second, isAppended, isWatermark⟩ := exists_of_plays meetsOrder
    [starts 0 .nextSequence, returns 0, starts 0 (.append (sampleEvent "a" 1)), steps 0, steps 0, steps 0, steps 0,
      .act (.step 0 .lost), returns 0, starts 0 (.append (sampleEvent "b" 1)), returns 0]
    [starts 1 .latestWatermark, returns 1]
    (fun w => w.returned.any isAppended) (fun w => w.returned.any fun x => answeredWatermark x = some 1)
    (by decide +kernel)
  refine ⟨w, w', returned_of_isAppended isAppended, returned_of_answeredWatermark isWatermark, ?_⟩
  exact complete_of_orderly sampleScope (first.mono fun _ _ => meets_of_meetsOrder)
    (second.mono fun _ _ => meets_of_meetsOrder)

/-- The watermark is asked for while there is no watermark object. The first event is reserved and not yet written when the
second one is written; the second is then taken for the watermark, and the first is written after that. -/
theorem late_event : ∃ w w' : LedgerWorld (Fin 3),
    (protocol sampleScope).Reaches (serveObjects listed) (fun _ _ => True) { state := {} } w ∧
    (protocol sampleScope).Reaches (serveObjects listed) (fun _ _ => True) w w' ∧ ¬ Complete w w' := by
  obtain ⟨w, w', first, second, isFirst, isSecond⟩ := exists_of_plays (fun _ _ => true)
    [starts 0 .latestWatermark, steps 0, steps 0,
      starts 1 .nextSequence, returns 1, starts 1 (.append (sampleEvent "a" 1)), steps 1,
      starts 2 .nextSequence, returns 2, starts 2 (.append (sampleEvent "b" 2)), returns 2, returns 0]
    [returns 1]
    (fun w => (w.returned.any fun x => answeredWatermark x = some 2) && (w.state.current (.event "a")).isNone)
    (fun w => (w.state.current (.event "a")).any fun event => event.sequence = 1) (by decide +kernel)
  refine ⟨w, w', first.mono fun _ _ _ => trivial, second.mono fun _ _ _ => trivial, fun complete => ?_⟩
  obtain ⟨isWatermark, absent⟩ := Bool.and_eq_true_iff.mp isFirst
  obtain ⟨label, watermark, returned, isCall, _⟩ := returned_of_answeredWatermark isWatermark
  obtain ⟨event, found, isOne⟩ := (Option.any_eq_true _ _).mp isSecond
  have before := complete.durable label watermark returned isCall "a" event found
    (by simp only [decide_eq_true_eq] at isOne; omega)
  rw [before] at absent
  cases absent

end Arco.Metastore.MetastoreLedger
