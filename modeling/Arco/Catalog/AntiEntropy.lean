import Arco.Catalog.Executions
import Mathlib.Data.Set.Finite.Basic
import Mathlib.Data.String.Basic

/-! The anti-entropy job looks for events of the ledger whose notification was lost.

It goes through the ledger page by page and compares each event with the watermark and the time of the
last compaction. A scan visits what stays in the ledger meanwhile once; whether an event that was not
folded is told apart depends on the order of earlier compactions.
-/

namespace Arco.Catalog

open Arco.Core List Option CatalogDomain ObjectMeta LedgerFile

structure AntiEntropyCursor where
  token : Option String := none
  lastPath : Option String := none
  objectsScanned : Nat := 0
  completedScans : Nat := 0

namespace AntiEntropyCursor

def advance (cursor : AntiEntropyCursor) (nextToken lastPath : Option String) : AntiEntropyCursor :=
  { cursor with token := nextToken, lastPath }

def completeScan (cursor : AntiEntropyCursor) : AntiEntropyCursor :=
  { token := none, lastPath := none, objectsScanned := 0, completedScans := cursor.completedScans + 1 }

end AntiEntropyCursor

structure AntiEntropyResult where
  objectsScanned : Nat
  scanComplete : Bool
  missedPaths : List String

def isMissed (manifest : ExecutionsManifest) (file : ObjectMeta) : Bool :=
  manifest.isAfterWatermark file.path || manifest.modifiedSince file

def sortMeta (listing : List ObjectMeta) : List ObjectMeta := listing.insertionSort fun a b => a.path ≤ b.path

/-- Where a binary search for the last path ends: after that path, or where it would be. -/
def startIndex (lastPath : Option String) (metas : List ObjectMeta) : Nat :=
  match lastPath with
  | none => 0
  | some lastPath => (metas.takeWhile fun file => file.path ≤ lastPath).length

def isJson (path : String) : Bool := (Text.pathExtension path).any (Text.eqIgnoreAsciiCase · "json")

def missedIn (manifest : ExecutionsManifest) (page : List ObjectMeta) : List String :=
  (page.filter fun file => isJson file.path && isMissed manifest file).map path

/-- One pass over at most `maxObjectsPerRun` objects, with the cursor for the next one. -/
def runPass (maxObjectsPerRun : Nat) (manifest : ExecutionsManifest) (listing : List ObjectMeta)
    (cursor : AntiEntropyCursor) : AntiEntropyCursor × AntiEntropyResult :=
  let metas := sortMeta listing
  let start := startIndex cursor.lastPath metas
  let page := if maxObjectsPerRun = 0 then [] else (metas.drop start).take maxObjectsPerRun
  let scanComplete : Bool := metas.length ≤ start + page.length
  let scanned := { cursor with objectsScanned := min (cursor.objectsScanned + page.length) maxU64 }
  let cursor' :=
    if scanComplete then scanned.completeScan
    else match page.getLast? with
      | some file => scanned.advance (some file.path) (some file.path)
      | none => cursor
  (cursor', ⟨page.length, scanComplete, missedIn manifest page⟩)

def scan (maxObjectsPerRun : Nat) (manifest : ExecutionsManifest) (listing : List ObjectMeta) :
    (passes : Nat) → AntiEntropyCursor → List AntiEntropyResult
  | 0, _ => []
  | passes + 1, cursor =>
    let (cursor', result) := runPass maxObjectsPerRun manifest listing cursor
    if result.scanComplete then [result] else result :: scan maxObjectsPerRun manifest listing passes cursor'

def Finished (results : List AntiEntropyResult) : Prop := (results.getLast?.any AntiEntropyResult.scanComplete) = true

instance (results : List AntiEntropyResult) : Decidable (Finished results) := inferInstanceAs (Decidable (_ = true))

/-- What a pass reads: the limit, the watermark, the ledger, with one object at a path, and the cursor. -/
structure AntiEntropyJob where
  maxObjectsPerRun : Nat
  manifest : ExecutionsManifest
  listing : List ObjectMeta
  distinct : (listing.map path).Nodup
  cursor : AntiEntropyCursor

/-- Whether a path is still to be visited. -/
def ahead (lastPath : Option String) (path : String) : Bool := lastPath.all (· < path)

theorem ahead_trans {lastPath : Option String} {next path : String} (isAhead : ahead lastPath next = true)
    (later : ahead (some next) path = true) : ahead lastPath path = true := by
  simp only [ahead, Option.all_eq_true, decide_eq_true_eq, some.injEq, forall_eq'] at *
  exact fun last isLast => (isAhead last isLast).trans later

namespace AntiEntropyJob

variable (job : AntiEntropyJob)

def runPass : AntiEntropyCursor × AntiEntropyResult :=
  Catalog.runPass job.maxObjectsPerRun job.manifest job.listing job.cursor

/-- The objects that the pass visits. -/
def page : List ObjectMeta :=
  if job.maxObjectsPerRun = 0 then []
  else ((sortMeta job.listing).drop (startIndex job.cursor.lastPath (sortMeta job.listing))).take job.maxObjectsPerRun

def rest : List ObjectMeta := (sortMeta job.listing).filter fun file => ahead job.cursor.lastPath file.path

variable {job}

theorem ordered : (sortMeta job.listing).Pairwise fun a b => a.path < b.path := by
  have sorted : (sortMeta job.listing).Pairwise fun a b => a.path ≤ b.path := pairwise_insertionSort _ _
  have nodup : ((sortMeta job.listing).map path).Nodup :=
    ((perm_insertionSort _ job.listing).map path).nodup_iff.mpr job.distinct
  exact sorted.imp₂ (fun _ _ least other => lt_of_le_of_ne least other) (pairwise_map.mp nodup)

theorem mem_rest {file : ObjectMeta} :
    file ∈ job.rest ↔ file ∈ job.listing ∧ ahead job.cursor.lastPath file.path = true := by
  rw [rest, mem_filter, sortMeta, mem_insertionSort]

theorem drop_startIndex {metas : List ObjectMeta} (ordered : metas.Pairwise fun a b => a.path < b.path)
    (lastPath : Option String) :
    metas.drop (startIndex lastPath metas) = metas.filter fun file => ahead lastPath file.path := by
  cases lastPath with
  | none => simp [startIndex, ahead]
  | some last =>
    simp only [startIndex, ahead, all_some]
    induction metas with
    | nil => rfl
    | cons file rest ih =>
      obtain ⟨least, ordered⟩ := pairwise_cons.mp ordered
      by_cases passed : file.path ≤ last
      · rw [filter_cons_of_neg (by simpa only [decide_eq_true_eq, not_lt] using passed)]
        simpa [passed] using ih ordered
      · have later : ∀ other ∈ file :: rest, decide (last < other.path) = true := by
          intro other member
          rcases mem_cons.mp member with rfl | inRest
          · exact decide_eq_true (not_le.mp passed)
          · exact decide_eq_true ((not_le.mp passed).trans (least other inRest))
        rw [filter_eq_self.mpr later]
        simp [passed]

theorem page_eq : job.page = job.rest.take job.maxObjectsPerRun := by
  rw [page, drop_startIndex ordered]
  by_cases isZero : job.maxObjectsPerRun = 0
  · simp [isZero]
  · simp [isZero, rest]

theorem scanComplete_iff : job.runPass.2.scanComplete = true ↔ job.rest.length ≤ job.maxObjectsPerRun := by
  change decide ((sortMeta job.listing).length ≤
    startIndex job.cursor.lastPath (sortMeta job.listing) + job.page.length) = true ↔ _
  rw [page_eq, rest, ← drop_startIndex ordered]
  simp only [length_take, length_drop, decide_eq_true_eq]
  omega

theorem lastPath_of_complete (complete : job.runPass.2.scanComplete = true) : job.runPass.1.lastPath = none :=
  congrArg AntiEntropyCursor.lastPath (if_pos complete)

theorem lastPath_of_incomplete (incomplete : job.runPass.2.scanComplete = false) :
    job.runPass.1.lastPath = (job.page.getLast?.map path).or job.cursor.lastPath := by
  refine (congrArg AntiEntropyCursor.lastPath (if_neg (Bool.eq_false_iff.mp incomplete))).trans ?_
  change AntiEntropyCursor.lastPath (match job.page.getLast? with | some file => _ | none => _) = _
  cases job.page.getLast? with
  | none | some file => rfl

/-- The last pass visits what is ahead of the cursor, and a pass before it what the cursor moves over. -/
theorem mem_page {file : ObjectMeta} :
    file ∈ job.page ↔ file ∈ job.listing ∧ ahead job.cursor.lastPath file.path = true ∧
      (job.runPass.2.scanComplete = true ∨ ahead job.runPass.1.lastPath file.path = false) := by
  rw [← and_assoc, ← mem_rest]
  by_cases complete : job.runPass.2.scanComplete = true
  · rw [page_eq, take_of_length_le (scanComplete_iff.mp complete)]
    simp [complete]
  rw [lastPath_of_incomplete (Bool.eq_false_iff.mpr complete), or_iff_right complete]
  rcases eq_nil_or_concat' job.page with isNil | ⟨front, last, isFront⟩
  · rw [isNil]
    simp only [not_mem_nil, false_iff, not_and]
    exact fun member => by simp [(mem_rest.mp member).2]
  · have split : job.rest = (front ++ [last]) ++ job.rest.drop job.maxObjectsPerRun := by
      rw [← isFront, page_eq, take_append_drop]
    have parts := job.ordered.filter fun file => ahead job.cursor.lastPath file.path
    rw [← rest, split] at parts
    obtain ⟨first, _, apart⟩ := pairwise_append.mp parts
    rw [split, isFront]
    simp only [getLast?_concat, map_some, some_or, ahead, all_some, decide_eq_false_iff_not, not_lt]
    constructor
    · intro visited
      refine ⟨mem_append_left _ visited, ?_⟩
      rcases mem_append.mp visited with earlier | isLast
      · exact ((pairwise_append.mp first).2.2 file earlier last (by simp)).le
      · rw [mem_singleton.mp isLast]
    · rintro ⟨member, passed⟩
      rcases mem_append.mp member with visited | later
      · exact visited
      · exact absurd (apart last (by simp) file later) (not_lt.mpr passed)

theorem lastPath_moves (incomplete : job.runPass.2.scanComplete = false) :
    (job.maxObjectsPerRun = 0 ∧ job.runPass.1.lastPath = job.cursor.lastPath) ∨
      ∃ file ∈ job.listing, ahead job.cursor.lastPath file.path = true ∧ job.runPass.1.lastPath = some file.path := by
  rw [lastPath_of_incomplete incomplete]
  rcases eq_nil_or_concat' job.page with isNil | ⟨front, last, isFront⟩
  · refine .inl ⟨?_, by rw [isNil]; rfl⟩
    have more : ¬ job.rest.length ≤ job.maxObjectsPerRun := fun ends => by simp [scanComplete_iff.mpr ends] at incomplete
    rw [page_eq] at isNil
    rcases take_eq_nil_iff.mp isNil with isZero | isEmpty
    · exact isZero
    · simp [isEmpty] at more
  · obtain ⟨member, isAhead, _⟩ := mem_page.mp (isFront ▸ mem_append_right front mem_cons_self)
    exact .inr ⟨last, member, isAhead, by rw [isFront, getLast?_concat]; rfl⟩

def Lists (job : AntiEntropyJob) (path : String) : Prop := path ∈ job.listing.map ObjectMeta.path

def visited (job : AntiEntropyJob) : List String := job.page.map path

theorem count_visited {path : String} (lists : job.Lists path) :
    job.visited.count path = if ahead job.cursor.lastPath path = true ∧
      (job.runPass.2.scanComplete = true ∨ ahead job.runPass.1.lastPath path = false) then 1 else 0 := by
  have nodup : job.visited.Nodup := by
    rw [visited, page_eq]
    exact pairwise_map.mpr (((job.ordered.filter _).take).imp ne_of_lt)
  rw [nodup.count]
  refine if_congr ?_ rfl rfl
  obtain ⟨_, member, rfl⟩ := mem_map.mp lists
  constructor
  · intro visited
    obtain ⟨_, inPage, isPath⟩ := mem_map.mp visited
    exact isPath ▸ (mem_page.mp inPage).2
  · exact fun passed => mem_map_of_mem (mem_page.mpr ⟨member, passed⟩)

def Consecutive (jobs : Nat → AntiEntropyJob) : Prop := ∀ pass, (jobs (pass + 1)).cursor = (jobs pass).runPass.1

def again (job : AntiEntropyJob) (pass : Nat) : AntiEntropyJob :=
  (fun job => { job with cursor := job.runPass.1 })^[pass] job

theorem again_consecutive (job : AntiEntropyJob) : Consecutive job.again := fun pass => by
  rw [again, Function.iterate_succ_apply']
  rfl

theorem again_reads (job : AntiEntropyJob) (pass : Nat) :
    (job.again pass).maxObjectsPerRun = job.maxObjectsPerRun ∧ (job.again pass).listing = job.listing := by
  induction pass generalizing job with
  | zero => exact ⟨rfl, rfl⟩
  | succ pass ih => exact ih _

theorem finite_again (job : AntiEntropyJob) : {path | ∃ pass, (job.again pass).Lists path}.Finite := by
  simpa [Lists, job.again_reads] using finite_toSet (job.listing.map ObjectMeta.path)

section

variable {jobs : Nat → AntiEntropyJob} (consecutive : Consecutive jobs)
include consecutive

theorem count_flatMap (atStart : (jobs 0).cursor.lastPath = none) {passes : Nat} {path : String}
    (lists : ∀ pass < passes, (jobs pass).Lists path)
    (incomplete : ∀ pass < passes, (jobs pass).runPass.2.scanComplete = false) :
    ((range passes).flatMap fun pass => (jobs pass).visited).count path =
      if ahead (jobs passes).cursor.lastPath path = true then 0 else 1 := by
  induction passes with
  | zero => simp [atStart, ahead]
  | succ passes ih =>
    have passed := ih (fun pass before => lists pass (by omega)) (fun pass before => incomplete pass (by omega))
    have unfinished := incomplete passes (Nat.lt_succ_self passes)
    rw [range_succ, flatMap_append, count_append, passed, flatMap_singleton,
      count_visited (lists passes (Nat.lt_succ_self passes)), unfinished, consecutive passes]
    -- What is behind the cursor stays behind it.
    have behind : ahead (jobs passes).cursor.lastPath path = false →
        ahead (jobs passes).runPass.1.lastPath path = false := by
      intro isBehind
      rcases lastPath_moves unfinished with ⟨_, stays⟩ | ⟨_, _, isAhead, isNext⟩
      · rwa [stays]
      · refine Bool.eq_false_iff.mpr fun later => Bool.eq_false_iff.mp isBehind (ahead_trans isAhead ?_)
        rwa [← isNext]
    grind

theorem exists_complete (positive : ∀ pass, 0 < (jobs pass).maxObjectsPerRun)
    (finite : {path | ∃ pass, (jobs pass).Lists path}.Finite) : ∃ pass, (jobs pass).runPass.2.scanComplete = true := by
  by_contra never
  have moves : ∀ pass, ∃ file ∈ (jobs pass).listing, ahead (jobs pass).cursor.lastPath file.path = true ∧
      (jobs pass).runPass.1.lastPath = some file.path := by
    intro pass
    have incomplete := Bool.eq_false_iff.mpr fun complete => never ⟨pass, complete⟩
    exact (lastPath_moves incomplete).resolve_left fun stays => (positive pass).ne' stays.1
  choose file listed isAhead isLast using moves
  have increases : StrictMono fun pass => (file pass).path := strictMono_nat_of_lt_succ fun pass => by
    have later := isAhead (pass + 1)
    rw [consecutive, isLast pass] at later
    exact of_decide_eq_true later
  refine Set.infinite_of_injective_forall_mem increases.injective ?_ finite
  exact fun pass => ⟨pass, mem_map_of_mem (listed pass)⟩

end

/-- A third object is written after the first pass. -/
def growing : Nat → AntiEntropyJob
  | 0 => ⟨1, { updatedAt := 0 }, [⟨"b", none⟩, ⟨"a", none⟩], by decide, {}⟩
  | pass + 1 => ⟨1, { updatedAt := 0 }, [⟨"c", none⟩, ⟨"b", none⟩, ⟨"a", none⟩], by decide, (growing pass).runPass.1⟩

theorem finished_cons {result : AntiEntropyResult} {results : List AntiEntropyResult}
    (incomplete : result.scanComplete = false) : Finished (result :: results) ↔ Finished results := by
  unfold Finished
  rw [getLast?_cons]
  cases results.getLast? with
  | none => simp [incomplete]
  | some last => simp

theorem scan_succ (job : AntiEntropyJob) (passes : Nat) :
    scan job.maxObjectsPerRun job.manifest job.listing (passes + 1) job.cursor =
      if job.runPass.2.scanComplete then [job.runPass.2]
      else job.runPass.2 :: scan job.maxObjectsPerRun job.manifest job.listing passes job.runPass.1 := rfl

theorem finished_scan {pass : Nat} (complete : (job.again pass).runPass.2.scanComplete = true) :
    Finished (scan job.maxObjectsPerRun job.manifest job.listing (pass + 1) job.cursor) := by
  induction pass generalizing job with
  | zero =>
    rwa [scan_succ, if_pos (show job.runPass.2.scanComplete = true from complete)]
  | succ pass ih =>
    rw [scan_succ]
    cases first : job.runPass.2.scanComplete with
    | true => exact first
    | false => exact (finished_cons first).mpr (@ih { job with cursor := job.runPass.1 } complete)

theorem mem_missedPaths_scan {passes : Nat}
    (finished : Finished (scan job.maxObjectsPerRun job.manifest job.listing passes job.cursor)) {file : ObjectMeta}
    (member : file ∈ job.listing) (isAhead : ahead job.cursor.lastPath file.path = true)
    (json : isJson file.path = true) (missed : isMissed job.manifest file = true) :
    file.path ∈ (scan job.maxObjectsPerRun job.manifest job.listing passes job.cursor).flatMap
      AntiEntropyResult.missedPaths := by
  induction passes generalizing job with
  | zero => simp [scan, Finished] at finished
  | succ passes ih =>
    have reported (visited : file ∈ job.page) : file.path ∈ job.runPass.2.missedPaths := by
      exact mem_map_of_mem (mem_filter.mpr ⟨visited, by simp [json, missed]⟩)
    rw [scan_succ] at finished ⊢
    cases first : job.runPass.2.scanComplete with
    | true => simpa using reported (mem_page.mpr ⟨member, isAhead, .inl first⟩)
    | false =>
      rw [first, if_neg Bool.false_ne_true, finished_cons first] at finished
      rw [if_neg Bool.false_ne_true, flatMap_cons, mem_append]
      cases later : ahead job.runPass.1.lastPath file.path with
      | true => exact .inr (@ih { job with cursor := job.runPass.1 } finished member later missed)
      | false => exact .inl (reported (mem_page.mpr ⟨member, isAhead, .inr later⟩))

end AntiEntropyJob

theorem isJson_ledgerEvent (id : EventId) : isJson (executions.ledgerEvent id.text) = true := by
  have isPath : (executions.ledgerEvent id.text).toList =
      "ledger".toList ++ '/' :: ("executions".toList ++ '/' :: (id.text.toList ++ '.' :: "json".toList)) := by
    simp only [ledgerEvent, asStr]
    simp [toString]
  have noSlash : '/' ∉ id.text.toList ++ '.' :: "json".toList := by
    intro member
    obtain isDigit | isEnding := mem_append.mp member
    · exact absurd (id.isAlphanum_of_mem isDigit) (by decide)
    · revert isEnding
      decide
  have parts : Text.splitString '/' (executions.ledgerEvent id.text) =
      ["ledger", "executions"] ++ [String.ofList (id.text.toList ++ '.' :: "json".toList)] := by
    rw [Text.splitString, isPath, Text.splitChars_append _ (by decide), Text.splitChars_append _ (by decide),
      Text.splitChars_of_not_mem noSlash]
    rfl
  rw [isJson, Text.pathExtension_of_split parts (by simpa using id.nonempty) (by decide) (by decide)]
  decide

namespace Executions

variable {keys : IdempotencyKeys} {executions : Executions}

/-- The name is above a watermark, or the file was modified after a compaction. -/
def Recognizable (watermark : Option String) (compactedAt : Option Timestamp) (file : ObjectMeta) : Prop :=
  (∀ name ∈ watermark, name < fileName file.path) ∨
    ∃ compacted ∈ compactedAt, ∃ modified ∈ file.lastModified, compacted < modified

theorem isMissed_iff {manifest : ExecutionsManifest} {file : ObjectMeta} :
    isMissed manifest file = true ↔ Recognizable manifest.watermarkEventId manifest.lastCompactionAt file := by
  unfold isMissed ExecutionsManifest.isAfterWatermark ExecutionsManifest.modifiedSince Recognizable
  cases manifest.watermarkEventId <;> cases manifest.lastCompactionAt <;> cases file.lastModified <;> simp

/-- An event is appended with a name above the watermark, or is modified after the last compaction. Whatever
event a compaction leaves unfolded has a name above the new watermark, or is modified after the compaction. -/
def LeavesRecognizable (keys : IdempotencyKeys) (executions : Executions) (operation : Operation) : Prop :=
  match operation with
  | .append path lastModified _ =>
    Recognizable executions.visible.manifest.watermarkEventId executions.visible.manifest.lastCompactionAt
      ⟨path, lastModified⟩
  | .compact _ late selection _ now => ∀ work, executions.selectWork late selection = .ok work →
      ¬ (work.eventsToProcess = [] ∧ work.lateEvents = []) →
      ∀ entry ∈ executions.ledger, IsEvent keys entry → ¬ executions.Folded entry →
        (entry.path, entry.file) ∉ executions.batch operation →
        Recognizable (work.newWatermarkEventId.or executions.visible.manifest.watermarkEventId) (some now)
          entry.toObjectMeta
  | .collect _ => True

/-- The invariant: each event that is not folded is recognized. -/
structure Noticed (keys : IdempotencyKeys) (executions : Executions) : Prop where
  distinct : (executions.ledger.map fun entry => entry.path).Nodup
  recognized : ∀ entry ∈ executions.ledger, IsEvent keys entry → ¬ executions.Folded entry →
    isMissed executions.visible.manifest entry.toObjectMeta = true

theorem Noticed.takes (noticed : Noticed keys executions) {operation : Operation} {executions' : Executions}
    (leaves : LeavesRecognizable keys executions operation) (takes : executions.Takes keys operation executions') :
    Noticed keys executions' := by
  cases takes with
  | duplicate => exact noticed
  | append absent =>
    refine ⟨nodup_cons.mpr ⟨?_, noticed.distinct⟩, fun entry member isEvent unfolded => ?_⟩
    · rintro member
      obtain ⟨entry, isEntry, same⟩ := mem_map.mp member
      exact absent entry isEntry same
    · obtain rfl | old := mem_cons.mp member
      · exact isMissed_iff.mpr leaves
      · exact noticed.recognized entry old isEvent unfolded
  | collect =>
    refine ⟨noticed.distinct.sublist (Sublist.map _ filter_sublist), fun entry member => ?_⟩
    exact noticed.recognized entry (mem_filter.mp member).1
  | compact selected found compacted =>
    refine ⟨noticed.distinct, fun entry member isEvent unfolded => ?_⟩
    obtain ⟨_, notBefore⟩ := not_or.mp (mt folded_cons.mpr unfolded)
    obtain ⟨_, _, rfl⟩ | ⟨published, isTime, isWatermark⟩ := Visible.compact_cases compacted
    · exact noticed.recognized entry member isEvent notBefore
    · have recognizable := leaves _ selected published entry member isEvent notBefore
        (by rwa [batch_of_compact selected found])
      refine isMissed_iff.mpr ?_
      rw [isTime, isWatermark]
      split
      · rename_i noEvents
        rwa [watermark_of_selectWork selected noEvents] at recognizable
      · exact recognizable

/-- A full scan reports every event that is not folded, in every run whose operations leave such events
recognizable; and a full scan comes to its end. -/
theorem anti_entropy_complete {start executions : Executions} (isEmpty : start.ledger = [])
    (runs : Runs keys (LeavesRecognizable keys) start executions) (maxObjectsPerRun : Nat) (cursor : AntiEntropyCursor)
    (atStart : cursor.lastPath = none) :
    (∀ passes, Finished (scan maxObjectsPerRun executions.visible.manifest
        (executions.ledger.map toObjectMeta) passes cursor) →
      ∀ entry ∈ executions.ledger, ∀ id : EventId, entry.path = CatalogDomain.executions.ledgerEvent id.text →
        IsEvent keys entry → ¬ executions.Folded entry →
        entry.path ∈ (scan maxObjectsPerRun executions.visible.manifest
          (executions.ledger.map toObjectMeta) passes cursor).flatMap AntiEntropyResult.missedPaths) ∧
      (0 < maxObjectsPerRun → ∃ passes, Finished (scan maxObjectsPerRun executions.visible.manifest
        (executions.ledger.map toObjectMeta) passes cursor)) := by
  have noticed : Noticed keys executions :=
    runs.invariant_of_takes (Noticed keys) (fun _ _ _ noticed leaves takes => noticed.takes leaves takes)
      ⟨by simp [isEmpty], by simp [isEmpty]⟩
  let job : AntiEntropyJob := ⟨maxObjectsPerRun, executions.visible.manifest,
    executions.ledger.map toObjectMeta, by simpa [Function.comp_def] using noticed.distinct, cursor⟩
  constructor
  · intro passes finished entry member id isPath isEvent unfolded
    have json : isJson entry.path = true := isPath ▸ isJson_ledgerEvent id
    exact @AntiEntropyJob.mem_missedPaths_scan job passes finished entry.toObjectMeta (mem_map.mpr ⟨entry, member, rfl⟩)
      (by simp [job, atStart, ahead]) json (noticed.recognized entry member isEvent unfolded)
  · intro positive
    obtain ⟨pass, complete⟩ := AntiEntropyJob.exists_complete job.again_consecutive
      (fun pass => (job.again_reads pass).1 ▸ positive) job.finite_again
    exact ⟨pass + 1, AntiEntropyJob.finished_scan complete⟩

theorem anti_entropy_complete_second :
    ∃ executions : Executions, secondFile ∈ executions.ledger ∧ ¬ executions.Folded secondFile ∧
      ∃ passes, secondFile.path ∈ (scan 1 executions.visible.manifest
        (executions.ledger.map toObjectMeta) passes {}).flatMap AntiEntropyResult.missedPaths := by
  obtain ⟨executions, runs, isLedger, isBatches⟩ : ∃ executions,
      Runs sampleKeys (LeavesRecognizable sampleKeys) fresh executions ∧
        executions.ledger = [secondFile, firstFile] ∧ executions.batches = [[(firstFile.path, firstFile.file)]] := by
    refine ⟨_, ((((Runs.refl : Runs sampleKeys (LeavesRecognizable sampleKeys) fresh fresh).step
      (appendFile firstFile) (.inl (by decide +kernel))).step (appendFile secondFile) (.inl (by decide +kernel))).step
      (compactPaths [firstFile.path] 10) ?_), rfl, rfl⟩
    rintro _ selected _ _ member _ _ outside
    obtain rfl := Except.ok.inj selected
    obtain rfl | isFirst := mem_cons.mp member
    · exact .inl (by decide +kernel)
    · obtain rfl := mem_singleton.mp isFirst
      exact absurd (mem_singleton.mpr rfl) outside
  have unfolded : ¬ executions.Folded secondFile := not_folded_of_path (by rw [isBatches]; decide +kernel)
  have member : secondFile ∈ executions.ledger := by simp [isLedger]
  obtain ⟨reported, ends⟩ := anti_entropy_complete rfl runs 1 {} rfl
  obtain ⟨passes, finished⟩ := ends Nat.one_pos
  exact ⟨executions, member, unfolded, passes,
    reported passes finished secondFile member secondId rfl ⟨_, rfl⟩ unfolded⟩

/-- The notification of the first event is lost. The compaction of the second one moves the watermark over both. -/
theorem anti_entropy_misses : ∃ executions : Executions, Runs sampleKeys (fun _ _ => True) fresh executions ∧
      Finished (scan 1000 executions.visible.manifest (executions.ledger.map toObjectMeta) 1 {}) ∧
      firstFile ∈ executions.ledger ∧ IsEvent sampleKeys firstFile ∧ ¬ executions.Folded firstFile ∧
      (scan 1000 executions.visible.manifest (executions.ledger.map toObjectMeta) 1 {}).flatMap
        AntiEntropyResult.missedPaths = [] :=
  ⟨_, runs_run fresh sampleKeys [appendFile firstFile, appendFile secondFile, compactPaths [secondFile.path] 10],
    by decide +kernel, mem_cons_of_mem _ mem_cons_self, ⟨_, rfl⟩,
    not_folded_of_path (by decide +kernel), by decide +kernel⟩

end Executions

end Arco.Catalog
