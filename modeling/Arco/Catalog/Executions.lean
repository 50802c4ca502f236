import Arco.Catalog.Materialization
import Arco.Data.Results

/-! The executions of a workspace as a machine.

Each operation is one step: an event file is appended, a compaction publishes its manifest, or the
collector deletes old event files. A compaction takes effect when it publishes; it may have missed
files that were appended while it was at work. Copies of files in quarantine are left out.
-/

namespace Arco.Catalog

open Arco.Core List ExecutionsManifest Except Results

structure Visible where
  manifest : ExecutionsManifest
  records : List MaterializationRecord := []

/-- A compaction of selected events. Without events it only notes the time, and only if some are late. -/
def Visible.compact (keys : IdempotencyKeys) (policy : UnknownEventPolicy) (work : CompactionWork)
    (files : List (String × EventFile)) (wroteNew : Bool) (now : Timestamp) (visible : Visible) :
    Except CatalogError Visible :=
  if work.eventsToProcess.isEmpty then
    .ok (if work.lateEvents.isEmpty then visible
      else { visible with manifest := visible.manifest.withoutEvents now })
  else do
    let folding ← foldFiles keys policy (.ofSnapshot visible.records) files
    pure {
      manifest := visible.manifest.withEvents work folding wroteNew now
      records := if 0 < folding.eventsApplied then folding.records else visible.records }

variable {keys : IdempotencyKeys} {policy : UnknownEventPolicy} {work : CompactionWork}
  {files : List (String × EventFile)} {visible visible' : Visible}

/-- When a manifest is published, what becomes of the watermark and of the time. -/
theorem Visible.compact_cases {wroteNew : Bool} {now : Timestamp}
    (compacted : visible.compact keys policy work files wroteNew now = .ok visible') :
    (work.eventsToProcess = [] ∧ work.lateEvents = [] ∧ visible' = visible) ∨
      (¬ (work.eventsToProcess = [] ∧ work.lateEvents = []) ∧ visible'.manifest.lastCompactionAt = some now ∧
        visible'.manifest.watermarkEventId = if work.eventsToProcess = [] then visible.manifest.watermarkEventId
          else work.newWatermarkEventId.or visible.manifest.watermarkEventId) := by
  unfold Visible.compact at compacted
  simp only [List.isEmpty_iff] at compacted
  by_cases noEvents : work.eventsToProcess = []
  · by_cases noneLate : work.lateEvents = []
    · simp only [noEvents, noneLate] at compacted
      exact .inl ⟨noEvents, noneLate, (ok.inj compacted).symm⟩
    · simp only [noEvents, noneLate] at compacted
      obtain rfl := ok.inj compacted
      exact .inr ⟨by simp [noneLate], rfl, by simp [noEvents, withoutEvents]⟩
  · simp only [noEvents, if_false, bind_eq_ok] at compacted
    obtain ⟨_, _, same⟩ := compacted
    obtain rfl := ok.inj same
    exact .inr ⟨by simp [noEvents], rfl, by simp [noEvents, withEvents]⟩

structure LedgerFile extends ObjectMeta where
  file : EventFile

/-- The folded files of each compaction, the latest first, are kept for reasoning only. -/
structure Executions where
  ledger : List LedgerFile := []
  visible : Visible
  batches : List (List (String × EventFile)) := []

/-- How a compaction finds its events. A listing may be incomplete or out of date. -/
inductive Selection where
  | listed (listing : List ObjectMeta)
  | explicit (eventPaths : List String)

inductive Operation where
  | append (path : String) (lastModified : Option Timestamp) (file : EventFile)
  | compact (unknown : UnknownEventPolicy) (late : LateEventPolicy) (selection : Selection) (wroteNew : Bool)
      (now : Timestamp)
  | collect (ledgerRetentionHours : Nat)

/-- Files that are older than the retention window, which ends with the last compaction. -/
def ExecutionsManifest.isOldLedgerEvent (manifest : ExecutionsManifest) (ledgerRetentionHours : Nat)
    (file : ObjectMeta) : Bool :=
  match manifest.lastCompactionAt, file.lastModified with
  | some watermark, some lastModified => lastModified < watermark - seconds (3600 * ledgerRetentionHours)
  | _, _ => false

namespace Executions

variable (executions : Executions)

def selectWork (late : LateEventPolicy) : Selection → Except CatalogError CompactionWork
  | .listed listing => .ok (executions.visible.manifest.listedWork listing)
  | .explicit eventPaths => do
    let eventPaths ← validateEventPaths .executions eventPaths
    pure (executions.visible.manifest.explicitWork late eventPaths)

def readEvent (path : String) : Except CatalogError (String × EventFile) :=
  match executions.ledger.find? fun entry => entry.path = path with
  | some entry => .ok (path, entry.file)
  | none => .error .storage

def readEvents (paths : List String) : Except CatalogError (List (String × EventFile)) :=
  paths.mapM executions.readEvent

def batch : Operation → List (String × EventFile)
  | .compact _ late selection _ _ =>
    match executions.selectWork late selection with
    | .ok work => (executions.readEvents work.eventsToProcess).toOption.getD []
    | .error _ => []
  | .append _ _ _ | .collect _ => []

def compact (keys : IdempotencyKeys) (unknown : UnknownEventPolicy) (late : LateEventPolicy) (selection : Selection)
    (wroteNew : Bool) (now : Timestamp) : Except CatalogError Executions := do
  let work ← executions.selectWork late selection
  let files ← executions.readEvents work.eventsToProcess
  let visible ← executions.visible.compact keys unknown work files wroteNew now
  pure { executions with visible, batches := files :: executions.batches }

def step (keys : IdempotencyKeys) : Operation → Except CatalogError Executions
  | .append path lastModified file =>
    if executions.ledger.any fun entry => entry.path = path then .ok executions
    else .ok { executions with ledger := ⟨⟨path, lastModified⟩, file⟩ :: executions.ledger }
  | .compact unknown late selection wroteNew now => executions.compact keys unknown late selection wroteNew now
  | .collect ledgerRetentionHours => .ok { executions with
      ledger := executions.ledger.filter fun entry =>
        !executions.visible.manifest.isOldLedgerEvent ledgerRetentionHours entry.toObjectMeta }

/-- An operation that fails changes nothing. -/
def next (keys : IdempotencyKeys) (operation : Operation) : Executions :=
  match executions.step keys operation with
  | .ok executions' => executions'
  | .error _ => executions

def run (keys : IdempotencyKeys) (operations : List Operation) : Executions :=
  operations.foldl (fun executions operation => executions.next keys operation) executions

/-- Runs whose steps all meet a condition on the state before them. -/
inductive Runs (keys : IdempotencyKeys) (condition : Executions → Operation → Prop) : Executions → Executions → Prop where
  | refl {executions : Executions} : Runs keys condition executions executions
  | step {executions executions' : Executions} (operation : Operation) :
      Runs keys condition executions executions' → condition executions' operation →
      Runs keys condition executions (executions'.next keys operation)

theorem runs_run (keys : IdempotencyKeys) (operations : List Operation) :
    Runs keys (fun _ _ => True) executions (executions.run keys operations) := by
  induction operations using reverseRecOn with
  | nil => exact .refl
  | append_singleton operations operation ih =>
    rw [run, foldl_append]
    exact ih.step operation trivial

variable {keys : IdempotencyKeys} {condition : Executions → Operation → Prop} {executions' : Executions}
  {files : List (String × EventFile)}

theorem Runs.invariant (inv : Executions → Prop)
    (keeps : ∀ executions operation, inv executions → condition executions operation → inv (executions.next keys operation))
    {executions : Executions} (runs : Runs keys condition executions executions') (holds : inv executions) :
    inv executions' := by
  induction runs with
  | refl => exact holds
  | step operation _ meets ih => exact keeps _ operation ih meets

inductive Takes (keys : IdempotencyKeys) : Operation → Executions → Prop where
  | duplicate {path : String} {lastModified : Option Timestamp} {file : EventFile} :
      Takes keys (.append path lastModified file) executions
  | append {path : String} {lastModified : Option Timestamp} {file : EventFile}
      (absent : ∀ entry ∈ executions.ledger, entry.path ≠ path) :
      Takes keys (.append path lastModified file)
        { executions with ledger := ⟨⟨path, lastModified⟩, file⟩ :: executions.ledger }
  | compact {unknown : UnknownEventPolicy} {late : LateEventPolicy} {selection : Selection} {wroteNew : Bool}
      {now : Timestamp} {work : CompactionWork} {files : List (String × EventFile)} {visible : Visible}
      (selected : executions.selectWork late selection = .ok work)
      (found : executions.readEvents work.eventsToProcess = .ok files)
      (compacted : executions.visible.compact keys unknown work files wroteNew now = .ok visible) :
      Takes keys (.compact unknown late selection wroteNew now)
        { executions with visible, batches := files :: executions.batches }
  | collect {hours : Nat} :
      Takes keys (.collect hours) { executions with
        ledger := executions.ledger.filter fun entry =>
          !executions.visible.manifest.isOldLedgerEvent hours entry.toObjectMeta }

variable {executions} in
theorem takes_of_step {operation : Operation} (stepped : executions.step keys operation = .ok executions') :
    executions.Takes keys operation executions' := by
  cases operation with
  | append path lastModified file =>
    simp only [step] at stepped
    split at stepped
    · cases stepped
      exact .duplicate
    · rename_i absent
      cases stepped
      exact .append (by simpa using absent)
  | compact unknown late selection wroteNew now =>
    simp only [step, compact, bind_eq_ok] at stepped
    obtain ⟨_, selected, _, found, _, compacted, same⟩ := stepped
    cases same
    exact .compact selected found compacted
  | collect hours =>
    cases stepped
    exact .collect

variable {executions} in
theorem batch_of_compact {unknown : UnknownEventPolicy} {late : LateEventPolicy} {selection : Selection}
    {wroteNew : Bool} {now : Timestamp} {work : CompactionWork}
    (selected : executions.selectWork late selection = .ok work)
    (found : executions.readEvents work.eventsToProcess = .ok files) :
    executions.batch (.compact unknown late selection wroteNew now) = files := by
  simp only [batch, selected, found]
  rfl

/-- A step that has an effect is one of a successful operation. -/
theorem Runs.invariant_of_takes (inv : Executions → Prop)
    (keeps : ∀ executions operation executions', inv executions → condition executions operation →
      executions.Takes keys operation executions' → inv executions')
    {executions : Executions} (runs : Runs keys condition executions executions') (holds : inv executions) :
    inv executions' := by
  refine runs.invariant inv (fun executions operation holds meets => ?_) holds
  unfold next
  cases stepped : executions.step keys operation with
  | error error => exact holds
  | ok executions' => exact keeps executions operation executions' holds meets (takes_of_step stepped)

theorem readEvents_spec {executions : Executions} {paths : List String}
    (found : executions.readEvents paths = .ok files) :
    Forall₂ (fun path file => file.1 = path ∧ ∃ entry ∈ executions.ledger, entry.path = path ∧ entry.file = file.2)
      paths files := by
  refine (mapM_eq_ok.mp found).imp fun path file isRead => ?_
  unfold readEvent at isRead
  split at isRead
  · rename_i entry isFound
    cases isRead
    exact ⟨rfl, entry, mem_of_find?_eq_some isFound, by simpa using find?_some isFound, rfl⟩
  · cases isRead

end Executions

theorem Executions.watermark_of_selectWork {executions : Executions} {late : LateEventPolicy} {selection : Selection}
    (selected : executions.selectWork late selection = .ok work) (noEvents : work.eventsToProcess = []) :
    work.newWatermarkEventId.or executions.visible.manifest.watermarkEventId =
      executions.visible.manifest.watermarkEventId := by
  cases selection with
  | listed listing =>
    obtain rfl := ok.inj selected
    simp only [listedWork] at noEvents ⊢
    simp [noEvents]
  | explicit eventPaths =>
    obtain ⟨_, _, same⟩ := bind_eq_ok.mp selected
    obtain rfl := ok.inj same
    simp only [explicitWork] at noEvents ⊢
    simp only [noEvents, advanceWatermark]
    cases executions.visible.manifest.watermarkEventId <;> rfl

def foldedEvents (keys : IdempotencyKeys) (files : List (String × EventFile)) : List MaterializationEvent :=
  files.filterMap fun file => (parseEventFile keys file.1 file.2).toOption

theorem eq_of_foldFiles {folding folding' : Folding} (folded : foldFiles keys policy folding files = .ok folding') :
    folding' = (foldedEvents keys files).foldl Folding.apply folding := by
  induction files generalizing folding with
  | nil =>
    cases folded
    rfl
  | cons file files ih =>
    simp only [foldFiles, foldlM_cons, bind_eq_ok] at folded
    obtain ⟨_, first, rest⟩ := folded
    rw [ih rest]
    unfold foldFile at first
    cases parsed : parseEventFile keys file.1 file.2 with
    | ok event =>
      rw [parsed] at first
      cases first
      simp [foldedEvents, parsed, Except.toOption]
    | error unusable =>
      rw [parsed] at first
      cases policy with
      | reject => cases first
      | quarantine =>
        cases first
        simp [foldedEvents, parsed, Except.toOption]

def upsertBatch (records : List MaterializationRecord) (events : List MaterializationEvent) : List MaterializationRecord :=
  let folding := events.foldl Folding.apply (.ofSnapshot records)
  if 0 < folding.eventsApplied then folding.records else records

theorem Visible.records_of_compact {wroteNew : Bool} {now : Timestamp}
    (isBatch : work.eventsToProcess.length = files.length)
    (compacted : visible.compact keys policy work files wroteNew now = .ok visible') :
    visible'.records = upsertBatch visible.records (foldedEvents keys files) := by
  unfold Visible.compact at compacted
  split at compacted
  · rename_i isEmpty
    rw [isEmpty_iff.mp isEmpty] at isBatch
    obtain rfl := length_eq_zero_iff.mp isBatch.symm
    split at compacted <;> cases compacted <;> rfl
  · simp only [bind_eq_ok] at compacted
    obtain ⟨_, folded, same⟩ := compacted
    cases same
    rw [eq_of_foldFiles folded]
    rfl

namespace Executions

variable {executions : Executions}

def IsEvent (keys : IdempotencyKeys) (entry : LedgerFile) : Prop :=
  ∃ event, parseEventFile keys entry.path entry.file = .ok event

/-- A file was in the batch of a compaction. -/
def Folded (executions : Executions) (entry : LedgerFile) : Prop :=
  ∃ batch ∈ executions.batches, (entry.path, entry.file) ∈ batch

theorem folded_cons {files : List (String × EventFile)} {visible : Visible} {entry : LedgerFile} :
    Folded { executions with visible, batches := files :: executions.batches } entry ↔
      (entry.path, entry.file) ∈ files ∨ executions.Folded entry := by
  simp [Folded]

theorem not_folded_of_path {entry : LedgerFile}
    (absent : entry.path ∉ executions.batches.flatMap fun batch => batch.map Prod.fst) : ¬ executions.Folded entry := by
  rintro ⟨batch, isBatch, isFile⟩
  exact absent (mem_flatMap.mpr ⟨batch, isBatch, mem_map.mpr ⟨_, isFile, rfl⟩⟩)

section Samples

def sampleKeys : IdempotencyKeys := fun _ _ record => record.assetId

def fresh : Executions := { visible := { manifest := { updatedAt := 0 } } }

def sampleRecord (assetId : String) : MaterializationRecord := { materializationId := "m1", assetId }

def sampleFile (assetId : String) (position : Nat) : EventFile := .enveloped {
  idempotencyKey := assetId
  source := "worker"
  sequencePosition := some position
  payload := .ok (sampleRecord assetId) }

def compactPaths (paths : List String) (now : Timestamp) : Operation :=
  .compact .reject .process (.explicit paths) true now

def firstId : EventId := ⟨"01J00000000000000000000001", by decide, rfl⟩

def secondId : EventId := ⟨"01J00000000000000000000002", by decide, rfl⟩

def eventFile (id : EventId) (lastModified : Timestamp) (file : EventFile) : LedgerFile :=
  ⟨⟨CatalogDomain.executions.ledgerEvent id.text, some lastModified⟩, file⟩

def firstFile : LedgerFile := eventFile firstId 1 (sampleFile "orders" 1)

def secondFile : LedgerFile := eventFile secondId 2 (sampleFile "customers" 2)

def appendFile (entry : LedgerFile) : Operation := .append entry.path entry.lastModified entry.file

end Samples

/-! ## The collector of old event files

It deletes the files that were modified some time before the last compaction, whether that compaction
or an earlier one has read them or not.
-/

variable {hours : Nat}

/-- Whatever event a compaction leaves unfolded was not modified before the retention window that ends with the
compaction, and neither is an event that is appended after it. -/
def LeavesRecent (keys : IdempotencyKeys) (hours : Nat) (executions : Executions) (operation : Operation) : Prop :=
  match operation with
  | .append _ lastModified _ => ∀ compacted ∈ executions.visible.manifest.lastCompactionAt, ∀ modified ∈ lastModified,
      compacted - seconds (3600 * hours) ≤ modified
  | .compact _ late selection _ now => ∀ work, executions.selectWork late selection = .ok work →
      ¬ (work.eventsToProcess = [] ∧ work.lateEvents = []) →
      ∀ entry ∈ executions.ledger, IsEvent keys entry → ¬ executions.Folded entry →
        (entry.path, entry.file) ∉ executions.batch operation →
        ∀ modified ∈ entry.lastModified, now - seconds (3600 * hours) ≤ modified
  | .collect ledgerRetentionHours => hours ≤ ledgerRetentionHours

/-- The invariant: no event that is not folded is older than the retention window. -/
def Retained (keys : IdempotencyKeys) (hours : Nat) (executions : Executions) : Prop :=
  ∀ entry ∈ executions.ledger, IsEvent keys entry → ¬ executions.Folded entry →
    ∀ compacted ∈ executions.visible.manifest.lastCompactionAt, ∀ modified ∈ entry.lastModified,
      compacted - seconds (3600 * hours) ≤ modified

theorem Retained.takes (retained : Retained keys hours executions) {operation : Operation} {executions' : Executions}
    (leaves : LeavesRecent keys hours executions operation) (takes : executions.Takes keys operation executions') :
    Retained keys hours executions' := by
  cases takes with
  | duplicate => exact retained
  | append absent =>
    intro entry member isEvent unfolded
    obtain rfl | old := mem_cons.mp member
    · exact leaves
    · exact retained entry old isEvent unfolded
  | collect => exact fun entry member => retained entry (mem_filter.mp member).1
  | compact selected found compacted =>
    intro entry member isEvent unfolded
    obtain ⟨_, notBefore⟩ := not_or.mp (mt folded_cons.mpr unfolded)
    obtain ⟨_, _, rfl⟩ | ⟨published, isTime, _⟩ := Visible.compact_cases compacted
    · exact retained entry member isEvent notBefore
    · rw [isTime]
      rintro _ ⟨⟩
      exact leaves _ selected published entry member isEvent notBefore (by rwa [batch_of_compact selected found])

theorem not_lt_cutoff {compacted modified : Int} {ledgerRetentionHours : Nat} (longer : hours ≤ ledgerRetentionHours)
    (recent : compacted - seconds (3600 * hours) ≤ modified) :
    ¬ modified < compacted - seconds (3600 * ledgerRetentionHours) := by
  simp only [seconds] at recent ⊢
  omega

theorem not_isOldLedgerEvent {manifest : ExecutionsManifest} {file : ObjectMeta} {ledgerRetentionHours : Nat}
    (longer : hours ≤ ledgerRetentionHours)
    (recent : ∀ compacted ∈ manifest.lastCompactionAt, ∀ modified ∈ file.lastModified,
      compacted - seconds (3600 * hours) ≤ modified) : manifest.isOldLedgerEvent ledgerRetentionHours file = false := by
  unfold isOldLedgerEvent
  split
  · rename_i compacted modified isCompacted isModified
    have bound := recent compacted isCompacted modified isModified
    exact decide_eq_false (not_lt_cutoff longer bound)
  · rfl

/-- The collector only deletes folded events, in every run in which compactions leave no old event unfolded. -/
theorem collect_keeps_unfolded {start executions : Executions} (isEmpty : start.ledger = [])
    (runs : Runs keys (LeavesRecent keys hours) start executions) {ledgerRetentionHours : Nat}
    (longer : hours ≤ ledgerRetentionHours) {entry : LedgerFile} (member : entry ∈ executions.ledger)
    (isEvent : IsEvent keys entry)
    (deleted : entry ∉ (executions.next keys (.collect ledgerRetentionHours)).ledger) : executions.Folded entry := by
  have retained : Retained keys hours executions :=
    runs.invariant_of_takes (Retained keys hours) (fun _ _ _ retained leaves takes => retained.takes leaves takes)
      (by simp [Retained, isEmpty])
  by_contra unfolded
  refine deleted (mem_filter.mpr ⟨member, ?_⟩)
  rw [not_isOldLedgerEvent longer (retained entry member isEvent unfolded)]
  rfl

theorem collect_keeps_unfolded_first : ∃ executions : Executions, firstFile ∈ executions.ledger ∧
      firstFile ∉ (executions.next sampleKeys (.collect 1)).ledger ∧ executions.Folded firstFile := by
  obtain ⟨executions, runs, isLedger, isDeleted⟩ : ∃ executions,
      Runs sampleKeys (LeavesRecent sampleKeys 1) fresh executions ∧ executions.ledger = [firstFile] ∧
        (executions.next sampleKeys (.collect 1)).ledger = [] := by
    refine ⟨_, ((Runs.refl : Runs sampleKeys (LeavesRecent sampleKeys 1) fresh fresh).step
      (appendFile firstFile) (by rintro _ ⟨⟩)).step (compactPaths [firstFile.path] (seconds 7200)) ?_, rfl, rfl⟩
    rintro work selected _ entry member _ _ outside
    obtain rfl := mem_singleton.mp member
    exact absurd (mem_singleton.mpr rfl) outside
  have member : firstFile ∈ executions.ledger := by simp [isLedger]
  have deleted : firstFile ∉ (executions.next sampleKeys (.collect 1)).ledger := by simp [isDeleted]
  exact ⟨executions, member, deleted, collect_keeps_unfolded rfl runs le_rfl member ⟨_, rfl⟩ deleted⟩

/-- The notification of the first event is lost, and two days after the compaction of the second one it is gone. -/
theorem collect_loses_event :
    ∃ executions : Executions, Runs sampleKeys (fun _ _ => True) fresh executions ∧ firstFile ∈ executions.ledger ∧
      IsEvent sampleKeys firstFile ∧ firstFile ∉ (executions.next sampleKeys (.collect 48)).ledger ∧
      ¬ executions.Folded firstFile := by
  obtain ⟨executions, runs, isLedger, isBatches, isDeleted⟩ : ∃ executions,
      Runs sampleKeys (fun _ _ => True) fresh executions ∧ executions.ledger = [secondFile, firstFile] ∧
        executions.batches = [[(secondFile.path, secondFile.file)]] ∧
        (executions.next sampleKeys (.collect 48)).ledger = [] :=
    ⟨_, runs_run fresh sampleKeys [appendFile firstFile, appendFile secondFile,
      compactPaths [secondFile.path] (seconds (3600 * 49))], rfl, rfl, rfl⟩
  refine ⟨executions, runs, by simp [isLedger], ⟨_, rfl⟩, by simp [isDeleted], not_folded_of_path ?_⟩
  rw [isBatches]
  decide +kernel

end Executions

end Arco.Catalog
