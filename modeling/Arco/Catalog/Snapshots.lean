import Arco.Catalog.Executions
import Arco.Catalog.Tier2

/-! Which snapshot a published manifest of executions names.

The name of a snapshot file is made of its version and the last event in it, and a file that is there
already is kept. Two compactions that have read the same manifest and end with the same event agree
on the name, but not necessarily on the content.
-/

namespace Arco.Catalog.Tier2

open Storage Arco.Core Fallible Store CatalogDomain

/-! ## What a manifest should name -/

/-- The work of a call on top of a manifest, with its policy for unknown events. A listing can be any. -/
inductive Selects : Call → ExecutionsManifest → UnknownEventPolicy → CompactionWork → Prop where
  | listed (compactor : Compactor) (manifest : ExecutionsManifest) (listing : List ObjectMeta) :
      Selects (.compact compactor .executions) manifest compactor.unknownEventPolicy (manifest.listedWork listing)
  | explicit (compactor : Compactor) (manifest : ExecutionsManifest) {paths eventPaths : List String} :
      validateEventPaths .executions paths = .ok eventPaths →
      Selects (.compactExplicit compactor .executions paths) manifest compactor.unknownEventPolicy
        (manifest.explicitWork compactor.lateEventPolicy eventPaths)

def Contents (s : Objects) (manifest : ExecutionsManifest) (records : List MaterializationRecord) : Prop :=
  match manifest.snapshotPath with
  | some path => ∃ author, s.At (.snapshot path) 1 author records
  | none => records = []

def EventFiles (s : Objects) (paths : List String) (files : List (String × EventFile)) : Prop :=
  List.Forall₂ (fun path file => file.1 = path ∧ ∃ author, s.At (.ledger path) 1 author file.2) paths files

def Completes (keys : IdempotencyKeys) (s : Objects) (call : Call) (before after : ExecutionsManifest) : Prop :=
  ∃ policy work files existing records wroteNew now, Selects call before policy work ∧
    EventFiles s work.eventsToProcess files ∧ Contents s before existing ∧ Contents s after records ∧
    Visible.compact keys policy work files wroteNew now ⟨before, existing⟩ = .ok ⟨after, records⟩

section Later

variable {keys : IdempotencyKeys} {s s' : Objects}
  {manifest : ExecutionsManifest} {records : List MaterializationRecord}

theorem Contents.mono (contents : Contents s manifest records) (later : s ≤ s') : Contents s' manifest records := by
  unfold Contents at contents ⊢
  cases named : manifest.snapshotPath with
  | none => simpa [named] using contents
  | some path =>
    simp only [named] at contents
    exact contents.imp fun _ found => found.mono later

theorem Contents.congr {manifest' : ExecutionsManifest} (contents : Contents s manifest records)
    (same : manifest'.snapshotPath = manifest.snapshotPath) :
    Contents s manifest' records := by
  unfold Contents at ⊢
  rwa [same]

theorem EventFiles.mono {paths : List String} {files : List (String × EventFile)} (found : EventFiles s paths files)
    (later : s ≤ s') : EventFiles s' paths files :=
  List.Forall₂.imp (fun _ _ ⟨same, author, isFile⟩ => ⟨same, author, isFile.mono later⟩) found

theorem Completes.mono {call : Call} {before after : ExecutionsManifest} (completes : Completes keys s call before after)
    (later : s ≤ s') : Completes keys s' call before after := by
  obtain ⟨policy, work, files, existing, records, wroteNew, now, selects, found, base, named, compacted⟩ := completes
  exact ⟨policy, work, files, existing, records, wroteNew, now, selects, found.mono later, base.mono later,
    named.mono later, compacted⟩

end Later

def ObjectPath.immutable : ObjectPath → Bool
  | .snapshot _ | .ledger _ => true
  | .root | .manifest _ | .quarantine _ => false

structure Complete (keys : IdempotencyKeys) (s : Objects) : Prop where
  immutable : ∀ path, path.immutable = true → s.version path ≤ 1
  named : ∀ path i author manifest, s.At (.manifest path) i author manifest → ∃ records, Contents s manifest records
  follows : ∀ path i author manifest author₀ manifest₀, s.At (.manifest path) (i + 1) author manifest →
    s.At (.manifest path) i author₀ manifest₀ → Completes keys s author.call manifest₀ manifest

namespace Complete

variable {keys : IdempotencyKeys} {s : Objects}

theorem write (complete : Complete keys s) (path : ObjectPath) (author : Label Call) (value : Object path)
    (other : ∀ p, path ≠ .manifest p) (absent : path.immutable = true → s.version path = 0) :
    Complete keys (s.write path author value) := by
  have grows := s.le_write path author value
  constructor
  case immutable =>
    intro path' isImmutable
    exact version_write_le (complete.immutable path' isImmutable) fun same => same ▸ absent (same ▸ isImmutable)
  case named =>
    intro p i by_ manifest found
    obtain ⟨records, contents⟩ := complete.named p i by_ manifest ((at_write_ne (other p).symm).mp found)
    exact ⟨records, contents.mono grows⟩
  case follows =>
    intro p i by_ manifest by₀ manifest₀ found found₀
    exact (complete.follows p i by_ manifest by₀ manifest₀ ((at_write_ne (other p).symm).mp found)
      ((at_write_ne (other p).symm).mp found₀)).mono grows

theorem publish (complete : Complete keys s) {path : String} {author author₀ : Label Call}
    {manifest manifest₀ : ExecutionsManifest} (current : s.At (.manifest path) (s.version (.manifest path)) author₀ manifest₀)
    (completes : Completes keys s author.call manifest₀ manifest) :
    Complete keys (s.write (.manifest path) author manifest) := by
  have grows := s.le_write (.manifest path) author manifest
  constructor
  case immutable =>
    intro path' isImmutable
    have other : path' ≠ .manifest path := by
      rintro rfl
      cases isImmutable
    rw [version_write_ne s author manifest other]
    exact complete.immutable path' isImmutable
  case named =>
    intro p i by_ manifest' found
    by_cases here : p = path
    · subst here
      obtain old | ⟨_, _, rfl⟩ := at_write_same.mp found
      · exact (complete.named p i by_ manifest' old).imp fun _ contents => contents.mono grows
      · obtain ⟨_, _, _, _, records, _, _, _, _, _, named, _⟩ := completes
        exact ⟨records, named.mono grows⟩
    · have old := (at_write_ne (by simpa using here)).mp found
      exact (complete.named p i by_ manifest' old).imp fun _ contents => contents.mono grows
  case follows =>
    intro p i by_ manifest' by₀ manifest₀' found found₀
    by_cases here : p = path
    · subst here
      obtain old | ⟨_, rfl, rfl⟩ := at_write_same.mp found
      · obtain old₀ | ⟨_, _, _⟩ := at_write_same.mp found₀
        · exact (complete.follows p i by_ manifest' by₀ manifest₀' old old₀).mono grows
        · have bound := old.le
          omega
      · obtain rfl : i = s.version (.manifest p) := by omega
        obtain ⟨rfl, rfl⟩ := found₀.unique (current.mono grows)
        exact completes.mono grows
    · exact (complete.follows p i by_ manifest' by₀ manifest₀' ((at_write_ne (by simpa using here)).mp found)
        ((at_write_ne (by simpa using here)).mp found₀)).mono grows

end Complete

/-! ## Compactors keep it -/

def pendingSnapshot {α : Type} : Program Object Answer α → Option (String × List MaterializationRecord)
  | .put (.snapshot path) records _ _ => some (path, records)
  | _ => none

/-- Nothing is at a path, or the file there has these records. -/
def Fits (s : Objects) (path : String) (records : List MaterializationRecord) : Prop :=
  ∀ existing ∈ s.get (.snapshot path), existing = records

/-- A snapshot file is only written where no other snapshot is. -/
def Disjoint {α : Type} (conduct : Conduct Object Answer α (Label Call)) : Prop :=
  ∀ program s, conduct.may program s → ∀ pending ∈ pendingSnapshot program, Fits s pending.1 pending.2

theorem Disjoint.under {α β : Type} {conduct : Conduct Object Answer β (Label Call)} (disjoint : Disjoint conduct)
    (f : α → Program Object Answer β) : Disjoint (conduct.under f) := by
  intro program s may pending isPending
  refine disjoint (program.bind f) s may pending ?_
  unfold pendingSnapshot at isPending
  split at isPending
  · exact isPending
  · cases isPending

section Programs

variable {keys : IdempotencyKeys} {label : Label Call} {s : Objects}

def Read (current : Current) (s : Objects) : Prop :=
  ∃ read author, current.version ≤ read ∧ s.At (.manifest current.path) read author current.manifest

variable {current : Current} {conduct : Conduct Object Answer (Except CatalogError CompactionResult) (Label Call)}
  {compactor : Compactor}

theorem Read.mono {s s' : Objects} (isRead : Read current s) (later : s ≤ s') : Read current s' := by
  obtain ⟨read, author, bound, found⟩ := isRead
  exact ⟨read, author, bound, found.mono later⟩

theorem safe_utcNow {conduct} : Keeps (Complete keys) conduct label utcNow s := fun _ _ _ _ => trivial

theorem safe_listMeta {conduct} (directory : String) :
    Keeps (Complete keys) conduct label (listMeta directory) s := fun _ _ _ _ => trivial

theorem safe_readManifestWithVersion {conduct} (complete : Complete keys s) :
    Safe (Complete keys) conduct label Read readManifestWithVersion s := by
  refine safe_seq complete safe_get fun root s₁ _ complete₁ _ => ?_
  refine safe_seq complete₁ safe_head fun head s₂ _ complete₂ ⟨_, isHead⟩ => ?_
  cases head with
  | none => exact safe_throw _
  | some version =>
    refine safe_bind safe_get fun manifest s₃ ⟨later, author, current⟩ => ?_
    refine safe_pure ⟨_, author, ?_, current⟩
    -- The version may be older than the manifest, but not newer.
    exact (head_eq_some.mp isHead).1 ▸ version_mono later.le _

theorem safe_publishManifest {conduct} {manifest : ExecutionsManifest} (isRead : Read current s)
    (completes : Completes keys s label.call current.manifest manifest) :
    Keeps (Complete keys) conduct label (publishManifest current manifest) s := by
  obtain ⟨read, _, bound, found⟩ := isRead
  refine safe_bind (safe_put_keeps fun s₁ later allowed => ?_) fun result s₂ _ => ?_
  · have isCurrent := (allows_matchesVersion.mp allowed).1
    have still := found.mono later.le
    obtain rfl : read = s₁.version (.manifest current.path) := le_antisymm still.le (isCurrent.le.trans bound)
    exact later.inv.publish still (completes.mono later.le)
  · cases result with
    | success version => exact safe_pure trivial
    | preconditionFailed version => exact safe_throw _

theorem safe_quarantineEventBytes {conduct} (path : String) (file : EventFile) :
    Keeps (Complete keys) conduct label (quarantineEventBytes path file) s := by
  refine safe_bind (safe_put_keeps fun s₁ later _ => ?_) fun _ _ _ => safe_pure trivial
  exact later.inv.write (.quarantine _) label file (by simp) (by simp [ObjectPath.immutable])

theorem safe_quarantineAll {conduct} (paths : List String) :
    Keeps (Complete keys) conduct label (quarantineAll paths) s := by
  induction paths generalizing s with
  | nil => exact safe_pure trivial
  | cons path paths ih =>
    exact safe_bind safe_get fun file s₁ _ => safe_bind (safe_quarantineEventBytes path file) fun _ _ _ => ih

theorem safe_handleLateEvents {conduct} (compactor : Compactor) (paths : List String) :
    Keeps (Complete keys) conduct label (compactor.handleLateEvents paths) s := by
  unfold Compactor.handleLateEvents
  cases compactor.lateEventPolicy with
  | quarantine => exact safe_quarantineAll paths
  | skip | log | process => exact safe_pure trivial

theorem safe_readSnapshotRecords {conduct} (manifest : ExecutionsManifest) :
    Safe (Complete keys) conduct label (fun existing s' => Contents s' manifest existing)
      (readSnapshotRecords manifest.snapshotPath) s := by
  cases named : manifest.snapshotPath with
  | none => exact safe_pure (by simp [Contents, named])
  | some path =>
    refine (safe_get (k := ObjectPath.snapshot path)).mono fun existing s' ⟨later, author, current⟩ => ?_
    simp only [Contents, named]
    exact ⟨author, current.once (later.inv.immutable _ rfl)⟩

theorem safe_foldEvents {conduct}
    (compactor : Compactor) (paths : List String) (folding : Folding) (complete : Complete keys s) :
    Safe (Complete keys) conduct label (fun folding' s' => ∃ files, EventFiles s' paths files ∧
        foldFiles keys compactor.unknownEventPolicy folding files = .ok folding')
      (compactor.foldEvents keys paths folding) s := by
  induction paths generalizing s folding with
  | nil => exact safe_pure ⟨[], .nil, rfl⟩
  | cons path paths ih =>
    refine safe_seq complete safe_get fun file s₁ _ complete₁ ⟨_, author, current⟩ => ?_
    have isFile := current.once (complete₁.immutable _ rfl)
    cases parsed : parseEventFile keys path file with
    | ok event =>
      refine ((ih (folding.apply event) complete₁).remember complete₁).mono fun folding' s' ⟨later, _, files, found, folded⟩ => ?_
      refine ⟨(path, file) :: files, .cons ⟨rfl, author, isFile.mono later⟩ found, ?_⟩
      exact (foldFiles_cons files (by simp [foldFile, parsed])).trans folded
    | error unusable =>
      cases isPolicy : compactor.unknownEventPolicy with
      | reject => exact safe_throw _
      | quarantine =>
        refine safe_seq complete₁ (safe_quarantineEventBytes path file) fun _ s₂ later₂ complete₂ _ => ?_
        refine ((ih folding complete₂).remember complete₂).mono fun folding' s' ⟨later, _, files, found, folded⟩ => ?_
        refine ⟨(path, file) :: files, .cons ⟨rfl, author, isFile.mono (later₂.trans later)⟩ found, ?_⟩
        rw [isPolicy] at folded
        exact (foldFiles_cons files (by simp [foldFile, parsed])).trans folded

theorem safe_putSnapshot {conduct}
    (disjoint : Disjoint conduct) (path : String) (records : List MaterializationRecord) :
    Safe (Complete keys) conduct label
      (fun _ s' => ∃ author, s'.At (.snapshot path) 1 author records) (putRaw (.snapshot path) records .doesNotExist) s := by
  refine safe_put_may (fun s₁ next later _ allowed => ⟨?_, label, ?_⟩) fun s₁ next later may refused => ?_
  · exact later.inv.write (.snapshot path) label records (by simp) fun _ => allows_doesNotExist.mp allowed
  · have written := s₁.at_write_self (.snapshot path) label records
    rwa [allows_doesNotExist.mp allowed] at written
  · have present : s₁.version (.snapshot path) ≠ 0 := by
      intro absent
      simp [allows, absent] at refused
    cases read : s₁.get (.snapshot path) with
    | none => exact absurd (get_eq_none.mp read) present
    | some existing =>
      obtain rfl : existing = records := disjoint _ s₁ may (path, records) rfl existing read
      obtain ⟨author, current⟩ := get_eq_some.mp read
      exact ⟨author, current.once (later.inv.immutable _ rfl)⟩

theorem safe_writeSnapshot {conduct}
    (disjoint : Disjoint conduct) (manifest : ExecutionsManifest) (work : CompactionWork) (folding : Folding) :
    Safe (Complete keys) conduct label (fun _ s' => 0 < folding.eventsApplied →
        ∃ author, s'.At (.snapshot (manifest.nextSnapshotPath work.eventsToProcess)) 1 author folding.records)
      (Compactor.writeSnapshot manifest work folding) s := by
  unfold Compactor.writeSnapshot
  by_cases applied : 0 < folding.eventsApplied
  · rw [if_pos applied]
    refine safe_bind (safe_putSnapshot (disjoint.under _) _ _) fun result s₁ written => ?_
    cases result with
    | success version | preconditionFailed version => exact safe_pure fun _ => written
  · rw [if_neg applied]
    exact safe_pure fun isApplied => absurd isApplied applied

theorem safe_compactEvents (disjoint : Disjoint conduct) {work : CompactionWork} (complete : Complete keys s)
    (isRead : Read current s) (selects : Selects label.call current.manifest compactor.unknownEventPolicy work)
    (hasEvents : ¬ work.eventsToProcess.isEmpty = true) :
    Keeps (Complete keys) conduct label (compactor.compactEvents keys current work) s := by
  refine safe_seq complete (safe_readSnapshotRecords current.manifest) fun existing s₁ later₁ complete₁ base => ?_
  refine safe_seq complete₁ (safe_foldEvents compactor _ _ complete₁) fun folding s₂ later₂ complete₂ ⟨files, found, folded⟩ => ?_
  refine safe_seq complete₂ (safe_writeSnapshot (disjoint.under _) current.manifest work folding)
    fun wroteNew s₃ later₃ complete₃ written => ?_
  refine safe_seq complete₃ safe_utcNow fun now s₄ later₄ complete₄ _ => ?_
  refine safe_bind (safe_publishManifest ?_ ?_) fun _ _ _ => safe_pure trivial
  · exact isRead.mono (((later₁.trans later₂).trans later₃).trans later₄)
  · have base₂ := base.mono later₂
    have toEnd := later₃.trans later₄
    refine ⟨_, work, files, existing, if 0 < folding.eventsApplied then folding.records else existing, wroteNew, now,
      selects, found.mono toEnd, base₂.mono toEnd, ?_, ?_⟩
    case refine_2 =>
      rw [Visible.compact, if_neg hasEvents, folded]
      rfl
    by_cases applied : 0 < folding.eventsApplied
    · simp only [ExecutionsManifest.withEvents, if_pos applied]
      exact (written applied).imp fun _ isFile => isFile.mono later₄
    · rw [if_neg applied]
      exact (base₂.mono toEnd).congr (by simp [ExecutionsManifest.withEvents, applied])

theorem safe_compactDomainWithEvents (disjoint : Disjoint conduct) {work : CompactionWork}
    (complete : Complete keys s) (isRead : Read current s)
    (selects : Selects label.call current.manifest compactor.unknownEventPolicy work) :
    Keeps (Complete keys) conduct label (compactor.compactDomainWithEvents keys current work) s := by
  refine safe_seq complete (safe_handleLateEvents compactor _) fun _ s₁ later₁ complete₁ _ => ?_
  by_cases isEmpty : work.eventsToProcess.isEmpty = true
  · rw [if_pos isEmpty]
    by_cases noneLate : work.lateEvents.isEmpty = true
    · rw [if_pos noneLate]
      exact safe_pure trivial
    · rw [if_neg noneLate]
      refine safe_seq complete₁ safe_utcNow fun now s₂ later₂ complete₂ _ => ?_
      have isRead₂ := isRead.mono (later₁.trans later₂)
      refine safe_bind (safe_publishManifest isRead₂ ?_) fun _ _ _ => safe_pure trivial
      -- Nothing is folded, and the manifest names the same snapshot.
      obtain ⟨_, _, _, found⟩ := isRead₂
      obtain ⟨existing, base⟩ := complete₂.named _ _ _ _ found
      refine ⟨_, work, [], existing, existing, false, now, selects, ?_, base, base.congr rfl, ?_⟩
      · rw [List.isEmpty_iff.mp isEmpty]
        exact .nil
      · rw [Visible.compact, if_pos isEmpty, if_neg noneLate]
  · rw [if_neg isEmpty]
    exact safe_compactEvents disjoint complete₁ (isRead.mono later₁) selects isEmpty

theorem safe_retrying (disjoint : Disjoint conduct) {attempt : Tier2M CompactionResult} (complete : Complete keys s)
    (safe : ∀ (conduct : Conduct Object Answer (Except CatalogError CompactionResult) (Label Call)) s,
      Disjoint conduct → Complete keys s → Keeps (Complete keys) conduct label attempt s)
    (attempts : Nat) :
    Keeps (Complete keys) conduct label (compactor.retrying attempt attempts) s := by
  induction attempts generalizing s with
  | zero => exact safe_throw _
  | succ attempts ih =>
    refine safe_handle complete (fun f => safe _ s (disjoint.under f) complete) fun error s₁ _ complete₁ => ?_
    cases error with
    | casFailed message =>
      dsimp only
      split
      · exact ih complete₁
      · exact safe_throw _
    | _ => exact safe_throw _

theorem safe_compactDomainOnce (disjoint : Disjoint conduct) (isCall : label.call = .compact compactor .executions)
    (complete : Complete keys s) :
    Keeps (Complete keys) conduct label (compactor.compactDomainOnce keys) s := by
  refine safe_seq complete (safe_readManifestWithVersion complete) fun current s₁ _ complete₁ isRead => ?_
  refine safe_seq complete₁ (safe_listMeta _) fun listing s₂ later₂ complete₂ _ => ?_
  refine safe_compactDomainWithEvents disjoint complete₂ (isRead.mono later₂) ?_
  rw [isCall]
  exact .listed compactor current.manifest listing

theorem safe_compactDomainExplicitOnce (disjoint : Disjoint conduct) {paths eventPaths : List String}
    (isCall : label.call = .compactExplicit compactor .executions paths)
    (valid : validateEventPaths .executions paths = .ok eventPaths) (complete : Complete keys s) :
    Keeps (Complete keys) conduct label (compactor.compactDomainExplicitOnce keys eventPaths) s := by
  refine safe_seq complete (safe_readManifestWithVersion complete) fun current s₁ _ complete₁ isRead => ?_
  refine safe_compactDomainWithEvents disjoint complete₁ isRead ?_
  rw [isCall]
  exact .explicit compactor current.manifest valid

theorem safe_compactDomain (disjoint : Disjoint conduct) {domain : CatalogDomain}
    (isCall : label.call = .compact compactor domain) (complete : Complete keys s) :
    Keeps (Complete keys) conduct label (compactor.compactDomain keys domain) s := by
  unfold Compactor.compactDomain
  by_cases other : domain ≠ .executions
  · rw [if_pos other]
    exact safe_throw _
  · rw [if_neg other]
    obtain rfl := not_not.mp other
    exact safe_retrying disjoint complete
      (fun conduct s disjoint complete => safe_compactDomainOnce disjoint isCall complete) _

theorem safe_compactDomainExplicit (disjoint : Disjoint conduct) {domain : CatalogDomain} {paths : List String}
    (isCall : label.call = .compactExplicit compactor domain paths) (complete : Complete keys s) :
    Keeps (Complete keys) conduct label (compactor.compactDomainExplicit keys domain paths) s := by
  unfold Compactor.compactDomainExplicit
  by_cases other : domain ≠ .executions
  · rw [if_pos other]
    exact safe_throw _
  · rw [if_neg other]
    obtain rfl := not_not.mp other
    refine safe_ofExcept_bind fun eventPaths valid => ?_
    exact safe_retrying disjoint complete
      (fun conduct s disjoint complete => safe_compactDomainExplicitOnce disjoint isCall valid complete) _

theorem safe_appendEvent {conduct} (path : String) (file : EventFile) :
    Keeps (Complete keys) conduct label (appendEvent path file) s := by
  refine safe_bind (safe_put_keeps fun s₁ later allowed => ?_) fun _ _ _ => safe_pure trivial
  exact later.inv.write (.ledger path) label file (by simp) fun _ => allows_doesNotExist.mp allowed

theorem safe_program {conduct} (disjoint : Disjoint conduct) (complete : Complete keys s) :
    Keeps (Complete keys) conduct label (label.call.program keys) s := by
  cases isCall : label.call with
  | append path file =>
    exact safe_bind (safe_appendEvent path file) fun _ _ _ => safe_pure trivial
  | compact compactor domain =>
    exact safe_bind (safe_compactDomain (disjoint.under _) isCall complete) fun _ _ _ => safe_pure trivial
  | compactExplicit compactor domain paths =>
    exact safe_bind (safe_compactDomainExplicit (disjoint.under _) isCall complete) fun _ _ _ =>
      safe_pure trivial

theorem verified {conduct} (relies : ∀ p s s', conduct.rely p s s') (disjoint : Disjoint conduct) :
    (protocol keys).Verified (fun _ => conduct) (Complete keys) (fun _ _ _ => True) where
  relyRefl _ p s := relies p s s
  relyTrans _ p s _ s'' _ _ := relies p s s''
  postStable _ _ _ _ _ _ _ := trivial
  calls _ _ _ _ complete _ _ := Program.Safe.mono (fun _ _ _ => trivial) (safe_program disjoint complete)

end Programs

/-! ## Runs -/

/-- A workspace before the first compaction: its manifests were written once, and their snapshots are there. -/
structure Bootstrap (s : Objects) (calls : Nat) : Prop where
  immutable : ∀ path, path.immutable = true → s.version path ≤ 1
  initialized : ∀ path, s.version (.manifest path) ≤ 1
  named : ∀ path i author manifest, s.At (.manifest path) i author manifest → ∃ records, Contents s manifest records
  numbered : ∀ path version label value, s.At path version label value → label.id < calls

theorem Bootstrap.complete (keys : IdempotencyKeys) {s : Objects} {calls : Nat} (bootstrap : Bootstrap s calls) :
    Complete keys s where
  immutable := bootstrap.immutable
  named := bootstrap.named
  follows path i author manifest author₀ manifest₀ found found₀ := by
    have positive := found₀.1
    have bound := found.le
    have once := bootstrap.initialized path
    omega

section Runs

variable {P : Type} [DecidableEq P]

/-- Whoever is about to write a snapshot file finds nothing at its path, or the same records. -/
def snapshotsFit (w : Tier2World P) : Action Answer Call P → Bool
  | .step p _ _ =>
    match w.party p with
    | .running _ rest => (pendingSnapshot rest).all fun (path, records) =>
      (w.store.get (.snapshot path)).all fun existing => existing = records
    | .idle _ => true
  | _ => true

def fitting : Conduct Object Answer (Except CatalogError Outcome) (Label Call) where
  rely _ _ _ := True
  may p s := ∀ pending ∈ pendingSnapshot p, Fits s pending.1 pending.2

omit [DecidableEq P] in
theorem respects_fitting {w w' : Tier2World P} {action : Action Answer Call P} (fit : snapshotsFit w action = true) :
    Protocol.Respects (fun _ => fitting) w action w' := by
  refine ⟨fun _ _ _ _ _ => trivial, ?_⟩
  rintro p _ _ _ _ rfl running _ isPending _ isExisting
  simp only [snapshotsFit, running] at fit
  rw [Option.mem_def.mp isPending] at fit
  simp only [Option.all_some] at fit
  rw [Option.mem_def.mp isExisting] at fit
  simpa using fit

theorem complete_of_reaches {keys : IdempotencyKeys} {s : Objects} {calls : Nat} (bootstrap : Bootstrap s calls)
    {w : Tier2World P}
    (reached : (protocol keys).Reaches (fun w action _ => snapshotsFit w action = true) { store := s, calls } w) :
    Complete keys w.store := by
  have verified : (protocol keys).Verified (fun _ => fitting) (Complete keys) (fun _ _ _ => True) :=
    verified (fun _ _ _ => trivial) fun _ _ may => may
  exact (verified.reaches (Protocol.sound_initial (bootstrap.complete keys) bootstrap.numbered)
    (reached.mono fun _ _ _ fit => respects_fitting fit)).1.holds

/-- In every run in which snapshot files are only written where there is no other snapshot, each manifest
names the records of the one before it with the events of its compaction folded into them. -/
theorem published_snapshots_complete {keys : IdempotencyKeys} {s : Objects} {calls : Nat} (bootstrap : Bootstrap s calls)
    {w : Tier2World P}
    (reached : (protocol keys).Reaches (fun w action _ => snapshotsFit w action = true) { store := s, calls } w)
    {path : String} {i : Nat} {author author₀ : Label Call} {manifest manifest₀ : ExecutionsManifest}
    (before : w.store.At (.manifest path) i author₀ manifest₀)
    (published : w.store.At (.manifest path) (i + 1) author manifest) :
    Completes keys w.store author.call manifest₀ manifest :=
  (complete_of_reaches bootstrap reached).follows path i author manifest author₀ manifest₀ published before

end Runs

/-! ## A snapshot that is left over -/

section Samples

def plainKeys : IdempotencyKeys := fun _ _ record => record.materializationId

def orders : MaterializationRecord := { materializationId := "m1", assetId := "orders" }

def customers : MaterializationRecord := { materializationId := "m2", assetId := "customers" }

def ordersPath : String := "ledger/executions/01.json"

def customersPath : String := "ledger/executions/02.json"

def initialized : Objects :=
  (({} : Objects).write .root ⟨0, .append "" (.unreadable "")⟩ {}).write (.manifest executions.manifest)
    ⟨0, .append "" (.unreadable "")⟩ { updatedAt := 0 }

def sampleAnswers : (q : Question) → Answer q
  | .now => 1
  | .listMeta _ => [⟨ordersPath, some 0⟩, ⟨customersPath, some 0⟩]

def steps (count : Nat) (party : Bool) : List (Action Answer Call Bool) :=
  List.replicate count (.step party .answered sampleAnswers)

def appends : List (Action Answer Call Bool) :=
  .start false (.append ordersPath (.legacy orders)) :: steps 2 false ++
    .start false (.append customersPath (.legacy customers)) :: steps 2 false

def oneCompaction : List (Action Answer Call Bool) :=
  appends ++ .start true (.compactExplicit {} .executions [ordersPath, customersPath]) :: steps 9 true

/-- A compaction of both events ends before it publishes a manifest; one of the second event follows. -/
def leftOver : List (Action Answer Call Bool) :=
  appends ++ .start true (.compactExplicit {} .executions [ordersPath, customersPath]) :: steps 6 true ++
    .crash true :: .start false (.compactExplicit {} .executions [customersPath]) :: steps 8 false

theorem initialized_at {path : ObjectPath} {version : Nat} {label : Label Call} {value : Object path}
    (found : initialized.At path version label value) :
    version = 1 ∧ label.id = 0 ∧ path.immutable = false ∧ ∀ p, path = .manifest p →
      value ≍ ({ updatedAt := 0 } : ExecutionsManifest) := by
  by_cases isManifest : path = .manifest executions.manifest
  · subst isManifest
    obtain old | ⟨rfl, rfl, rfl⟩ := at_write_same.mp found
    · rw [at_write_ne (by simp)] at old
      simp [At] at old
    · exact ⟨rfl, rfl, rfl, fun _ _ => HEq.rfl⟩
  · rw [initialized, at_write_ne isManifest] at found
    by_cases isRoot : path = .root
    · subst isRoot
      obtain old | ⟨rfl, rfl, rfl⟩ := at_write_same.mp found
      · simp [At] at old
      · exact ⟨rfl, rfl, rfl, by simp⟩
    · rw [at_write_ne isRoot] at found
      simp [At] at found

theorem bootstrap_initialized : Bootstrap initialized 1 := by
  have versions : ∀ path, initialized.version path ≤ 1 := by
    intro path
    by_contra more
    obtain ⟨label, value, found⟩ := at_of_le (s := initialized) (k := path) Nat.two_pos (by omega)
    cases (initialized_at found).1
  constructor
  case immutable => exact fun path _ => versions path
  case initialized => exact fun path => versions (.manifest path)
  case named =>
    intro path i author manifest found
    obtain ⟨_, _, _, isManifest⟩ := initialized_at found
    obtain rfl := eq_of_heq (isManifest path rfl)
    exact ⟨[], rfl⟩
  case numbered =>
    intro path version label value found
    rw [(initialized_at found).2.1]
    exact Nat.one_pos

end Samples

theorem published_snapshots_complete_one :
    ∃ (w : Tier2World Bool) (author : Label Call) (manifest manifest₀ : ExecutionsManifest),
      manifest.watermarkEventId = some "02.json" ∧ Completes plainKeys w.store author.call manifest₀ manifest := by
  obtain ⟨w, ran⟩ : ∃ w, (protocol plainKeys).run { store := initialized, calls := 1 } oneCompaction = some w := ⟨_, rfl⟩
  have reached : (protocol plainKeys).Reaches (fun w action _ => snapshotsFit w action = true)
      { store := initialized, calls := 1 } w := by
    refine Protocol.reaches_of_allows ?_ ran
    iterate 16 refine And.intro rfl ?_
    trivial
  have before : w.store.At (.manifest executions.manifest) 1 ⟨0, .append "" (.unreadable "")⟩
      { updatedAt := 0 } := by
    cases ran
    exact ⟨Nat.one_pos, rfl⟩
  obtain ⟨author, manifest, published, isWatermark⟩ : ∃ author manifest,
      w.store.At (.manifest executions.manifest) 2 author manifest ∧
        manifest.watermarkEventId = some "02.json" := by
    cases ran
    exact ⟨_, _, ⟨Nat.two_pos, rfl⟩, rfl⟩
  exact ⟨w, author, manifest, _, isWatermark, published_snapshots_complete bootstrap_initialized reached before published⟩

/-- The second compaction publishes the snapshot of the first one, with an event that it has not processed. -/
theorem published_snapshot_left_over :
    ∃ (w : Tier2World Bool) (author author₀ : Label Call) (manifest manifest₀ : ExecutionsManifest),
      (protocol plainKeys).Reaches (fun _ _ _ => True) { store := initialized, calls := 1 } w ∧
        w.store.At (.manifest executions.manifest) 1 author₀ manifest₀ ∧
        w.store.At (.manifest executions.manifest) 2 author manifest ∧
        ¬ Completes plainKeys w.store author.call manifest₀ manifest := by
  obtain ⟨w, ran⟩ : ∃ w, (protocol plainKeys).run { store := initialized, calls := 1 } leftOver = some w := ⟨_, rfl⟩
  have before : w.store.At (.manifest executions.manifest) 1 ⟨0, .append "" (.unreadable "")⟩
      { updatedAt := 0 } := by
    cases ran
    exact ⟨Nat.one_pos, rfl⟩
  obtain ⟨author, manifest, published, isCall, isPath⟩ : ∃ author manifest,
      w.store.At (.manifest executions.manifest) 2 author manifest ∧
        author.call = .compactExplicit {} .executions [customersPath] ∧
        manifest.snapshotPath = some "state/executions/snapshot_v1_02.parquet" := by
    cases ran
    exact ⟨_, _, ⟨Nat.two_pos, rfl⟩, rfl, rfl⟩
  obtain ⟨label, isFile⟩ : ∃ label, w.store.At (.ledger customersPath) 1 label (.legacy customers) := by
    cases ran
    exact ⟨_, Nat.one_pos, rfl⟩
  obtain ⟨_, isSnapshot⟩ : ∃ label,
      w.store.At (.snapshot "state/executions/snapshot_v1_02.parquet") 1 label [orders, customers] := by
    cases ran
    exact ⟨_, Nat.one_pos, rfl⟩
  refine ⟨w, author, _, manifest, _, Protocol.reaches_of_run (fun _ _ _ _ => trivial) ran, before, published, ?_⟩
  rintro ⟨_, _, files, existing, records, _, _, selects, found, base, named, compacted⟩
  rw [isCall] at selects
  cases selects with
  | explicit _ _ valid =>
    obtain rfl := Except.ok.inj valid
    obtain rfl : existing = [] := base
    -- The one event that was processed.
    cases found with
    | @cons _ file _ files isEvent rest =>
      cases rest
      obtain ⟨_, _, isFile'⟩ := isEvent
      obtain ⟨_, _⟩ := file
      obtain ⟨_, rfl⟩ := isFile'.unique isFile
      obtain rfl : records = [customers] := Visible.records_of_compact rfl compacted
      simp only [Contents, isPath] at named
      obtain ⟨_, isSnapshot'⟩ := named
      have same := (isSnapshot'.unique isSnapshot).2
      revert same
      decide

/-! ## The compactors refine the machine of executions

A write of an event file is an append, and a write of a manifest is a compaction; all other steps
change nothing that the machine knows of.
-/

open Executions

def Lists (executions : Executions) (s : Objects) : Prop :=
  ∀ p, s.get (.ledger p) = (executions.ledger.find? fun entry => entry.path = p).map LedgerFile.file

/-- The state of the machine that a store stands for. The times of modification are those that storage reports. -/
structure Represents (path : String) (modified : String → Option Timestamp) (s : Objects) (executions : Executions) :
    Prop where
  manifest : ∃ author, s.At (.manifest path) (s.version (.manifest path)) author executions.visible.manifest
  contents : Contents s executions.visible.manifest executions.visible.records
  ledger : Lists executions s
  times : ∀ entry ∈ executions.ledger, entry.lastModified = modified entry.path

theorem Contents.unique {s : Objects} {manifest : ExecutionsManifest} {records records' : List MaterializationRecord}
    (contents : Contents s manifest records) (contents' : Contents s manifest records') : records = records' := by
  unfold Contents at contents contents'
  cases named : manifest.snapshotPath with
  | none =>
    simp only [named] at contents contents'
    rw [contents, contents']
  | some path =>
    simp only [named] at contents contents'
    obtain ⟨_, found⟩ := contents
    obtain ⟨_, found'⟩ := contents'
    exact (found.unique found').2

namespace Represents

variable {keys : IdempotencyKeys} {path : String} {modified : String → Option Timestamp} {s : Objects}
  {executions : Executions}

theorem readEvents_eq (complete : Complete keys s)
    (ledger : Lists executions s) {paths : List String} {files : List (String × EventFile)} (found : EventFiles s paths files) :
    executions.readEvents paths = .ok files := by
  refine Results.mapM_eq_ok.mpr (found.imp fun p file ⟨isPath, author, isFile⟩ => ?_)
  have read := isFile.get_of_le (complete.immutable (.ledger p) rfl)
  rw [ledger p] at read
  obtain ⟨_, isEntry, isContent⟩ := Option.map_eq_some_iff.mp read
  obtain ⟨_, _⟩ := file
  subst isPath isContent
  simp [readEvent, isEntry]

section

variable (represents : Represents path modified s executions)
include represents

theorem write (written : ObjectPath) (author : Label Call)
    (value : Object written) (notManifest : written ≠ .manifest path) (notLedger : ∀ p, written ≠ .ledger p) :
    Represents path modified (s.write written author value) executions where
  manifest := by
    obtain ⟨by_, current⟩ := represents.manifest
    rw [version_write_ne s author value notManifest.symm]
    exact ⟨by_, current.mono (s.le_write written author value)⟩
  contents := represents.contents.mono (s.le_write written author value)
  ledger p := by
    rw [get_write_ne s author value (notLedger p).symm]
    exact represents.ledger p
  times := represents.times

theorem append (p : String) (author : Label Call) (file : EventFile) (absent : s.version (.ledger p) = 0) :
    Represents path modified (s.write (.ledger p) author file)
      (executions.next keys (.append p (modified p) file)) := by
  have grows := s.le_write (.ledger p) author file
  have unlisted : executions.ledger.find? (fun entry => entry.path = p) = none := by
    have missing := represents.ledger p
    rwa [get_eq_none.mpr absent, eq_comm, Option.map_eq_none_iff] at missing
  have isNext : executions.next keys (.append p (modified p) file) =
      { executions with ledger := ⟨⟨p, modified p⟩, file⟩ :: executions.ledger } := by
    have fresh : executions.ledger.any (fun entry => entry.path = p) = false := by
      simpa using unlisted
    simp [next, step, fresh]
  rw [isNext]
  constructor
  case manifest =>
    obtain ⟨by_, current⟩ := represents.manifest
    exact ⟨by_, current.mono grows⟩
  case contents => exact represents.contents.mono grows
  case ledger =>
    intro p'
    by_cases here : p' = p
    · subst here
      simp [get_write_self]
    · rw [get_write_ne s (k := .ledger p) author file (by simpa using here), represents.ledger,
        List.find?_cons_of_neg]
      simpa using Ne.symm here
  case times => simpa using represents.times

/-- What a manifest says about the one before it is what the machine does. -/
theorem compact {author : Label Call}
    {manifest : ExecutionsManifest} (complete : Complete keys (s.write (.manifest path) author manifest)) :
    ∃ operation, Represents path modified (s.write (.manifest path) author manifest)
      (executions.next keys operation) := by
  have grows := s.le_write (.manifest path) author manifest
  have written := s.at_write_self (.manifest path) author manifest
  obtain ⟨author₀, current⟩ := represents.manifest
  obtain ⟨policy, work, files, _, records, wroteNew, now, selects, found, base, named, compacted⟩ :=
    complete.follows path _ author manifest author₀ _ written (current.mono grows)
  obtain rfl := base.unique (represents.contents.mono grows)
  have ledger : Lists executions (s.write (.manifest path) author manifest) := represents.ledger
  obtain ⟨late, selection, selected⟩ : ∃ late selection, executions.selectWork late selection = .ok work := by
    generalize author.call = call at selects
    cases selects with
    | listed compactor _ listing => exact ⟨.log, .listed listing, rfl⟩
    | explicit compactor _ valid =>
      exact ⟨compactor.lateEventPolicy, .explicit _, Results.bind_eq_ok.mpr ⟨_, valid, rfl⟩⟩
  have isNext : executions.next keys (.compact policy late selection wroteNew now) =
      { executions with visible := ⟨manifest, records⟩, batches := files :: executions.batches } := by
    have stepped : executions.step keys (.compact policy late selection wroteNew now) =
        .ok { executions with visible := ⟨manifest, records⟩, batches := files :: executions.batches } := by
      simp only [step, Executions.compact, Results.bind_eq_ok]
      exact ⟨work, selected, files, readEvents_eq complete ledger found, _, compacted, rfl⟩
    simp only [next, stepped]
  refine ⟨.compact policy late selection wroteNew now, ?_⟩
  rw [isNext]
  constructor
  case manifest =>
    rw [version_write_self]
    exact ⟨author, written⟩
  case contents => exact named
  case ledger => exact ledger
  case times => exact represents.times

end

/-- Each step of the compactors is at most one step of the machine. -/
theorem step {P : Type} [DecidableEq P] {w w' : Tier2World P} {action : Action Answer Call P}
    (represents : Represents path modified w.store executions) (next : (protocol keys).next w action = some w')
    (complete : Complete keys w'.store) :
    Represents path modified w'.store executions ∨
      ∃ operation, Represents path modified w'.store (executions.next keys operation) := by
  obtain same | ⟨_, _, _, author, written, value, _, _, _, _, _, isStore⟩ := Protocol.next_store next
  · exact .inl (same ▸ represents)
  · rw [isStore] at complete ⊢
    cases written with
    | ledger p =>
      have once := complete.immutable (.ledger p) rfl
      rw [version_write_self] at once
      exact .inr ⟨_, represents.append p author value (by omega)⟩
    | manifest p =>
      by_cases here : p = path
      · subst here
        exact .inr (represents.compact complete)
      · exact .inl (represents.write (.manifest p) author value (by simpa using here) (by simp))
    | root => exact .inl (represents.write .root author value (by simp) (by simp))
    | snapshot p => exact .inl (represents.write (.snapshot p) author value (by simp) (by simp))
    | quarantine p => exact .inl (represents.write (.quarantine p) author value (by simp) (by simp))

end Represents

/-- Every run of the compactors, in which snapshot files are only written where there is no other snapshot,
is a run of the machine. -/
theorem refines_executions {P : Type} [DecidableEq P] {keys : IdempotencyKeys} {path : String}
    {modified : String → Option Timestamp} {s : Objects} {calls : Nat} (bootstrap : Bootstrap s calls)
    {executions : Executions} (represents : Represents path modified s executions) {w : Tier2World P}
    (reached : (protocol keys).Reaches (fun w action _ => snapshotsFit w action = true) { store := s, calls } w) :
    ∃ executions', Runs keys (fun _ _ => True) executions executions' ∧
      Represents path modified w.store executions' := by
  induction reached with
  | refl => exact ⟨executions, .refl, represents⟩
  | step before next fit ih =>
    obtain ⟨executions', runs, represents'⟩ := ih
    have complete := complete_of_reaches bootstrap (before.step next fit)
    obtain same | ⟨operation, stepped⟩ := represents'.step next complete
    · exact ⟨executions', runs, same⟩
    · exact ⟨_, runs.step operation trivial, stepped⟩

theorem refines_executions_one : ∃ (w : Tier2World Bool) (executions : Executions),
    (protocol plainKeys).run { store := initialized, calls := 1 } oneCompaction = some w ∧
      Runs plainKeys (fun _ _ => True) fresh executions ∧
      Represents CatalogDomain.executions.manifest (fun _ => none) w.store executions := by
  obtain ⟨w, ran⟩ : ∃ w, (protocol plainKeys).run { store := initialized, calls := 1 } oneCompaction = some w := ⟨_, rfl⟩
  have represents : Represents executions.manifest (fun _ => none) initialized fresh :=
    ⟨⟨_, Nat.one_pos, rfl⟩, rfl, fun _ => rfl, by simp [fresh]⟩
  refine ⟨w, (refines_executions bootstrap_initialized represents (Protocol.reaches_of_allows ?_ ran)).imp fun _ => .intro ran⟩
  iterate 16 refine And.intro rfl ?_
  trivial

end Arco.Catalog.Tier2
