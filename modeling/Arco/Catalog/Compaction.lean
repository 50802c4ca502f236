import Arco.Catalog.ManifestChain
import Mathlib.Data.List.DropRight

/-! What the programs of the catalog domain do, one specification for each.

The chain of manifests is kept in any case. The specifications leave open what else is to hold of the
history and what a caller keeps in mind; the results about the system differ in what they ask of a
pointer before it is written.
-/

namespace Arco.Catalog.Tier1

open Storage
open Arco.Core (Timestamp)
open Arco.Flow Fallible List Store Text

variable {W : Type}

abbrev Valid (sums : Checksums) (extra : Objects W → Prop) (s : Objects W) : Prop := Chain sums s ∧ extra s

/-- What holds besides the chain survives new files and new manifests, and what a party keeps in mind
survives the steps of others and its own writes, except that of the pointer. -/
structure Setting (sums : Checksums) (extra : Objects W → Prop) (terms : Terms Object Question W) (label : W)
    (kept : Objects W → Prop) : Prop where
  frame : Frame (Valid sums extra) terms.rely label (· = .pointer) kept
  files : ∀ s directory table (rows : List table.Row), Valid sums extra s → s.version (.file directory table) = 0 →
    extra (s.write (.file directory table) label rows)
  manifests : ∀ s path (manifest : CatalogDomainManifest), Valid sums extra s → s.version (.manifest path) = 0 →
    extra (s.write (.manifest path) label manifest)

/-- A party in the setting ends with the postcondition. -/
abbrev Setting.Meets {sums : Checksums} {extra : Objects W → Prop} {terms : Terms Object Question W} {label : W}
    {kept : Objects W → Prop} (_ : Setting sums extra terms label kept) {ε α : Type} (post : α → Objects W → Prop)
    (x : Fallible Object Answer ε α) (s : Objects W) : Prop := Fallible.Meets (Valid sums extra) terms label post x s

/-- A storage error can be taken for an empty file. -/
def Unreadable (terms : Terms Object Question W) : Prop := ∃ s, terms.asks .unreadable s

/-! ## What is read -/

structure Snapshot (s : Objects W) (snapshotPath : String) (state : CatalogState) : Prop where
  empty : isEmptySnapshot snapshotPath = true → state = {}
  files : isEmptySnapshot snapshotPath = false →
    ∀ table, Holds s (.file (trimSlashes snapshotPath) table) (state.rows table)

def Batched (s : Objects W) (paths : List String) (events : List ParsedCatalogDdlEvent) : Prop :=
  Forall₂ (fun path payload => ∃ event : CatalogEvent, Holds s (.ledger path) event ∧ event.payload = payload)
    paths events

/-- A pointer that was read and its manifest. The version that was read before it is not a later one. -/
structure Known (s : Objects W) (visible : Visible) : Prop where
  pointer : ∃ read author, visible.version ≤ read ∧ s.At .pointer read author visible.pointer
  manifest : Holds s (.manifest visible.pointer.manifestPath) visible.manifest

section Growth

variable {s s' : Objects W} {state state' : CatalogState}

theorem Snapshot.mono {snapshotPath : String} (snapshot : Snapshot s snapshotPath state) (later : s ≤ s') :
    Snapshot s' snapshotPath state :=
  ⟨snapshot.empty, fun nonempty table => (snapshot.files nonempty table).mono later⟩

theorem CatalogState.ext_rows (same : ∀ table, state.rows table = state'.rows table) : state = state' := by
  cases state with
  | mk catalogs namespaces tables columns commits =>
    cases state' with
    | mk catalogs' namespaces' tables' columns' commits' =>
      obtain rfl : catalogs = catalogs' := same .catalogs
      obtain rfl : namespaces = namespaces' := same .namespaces
      obtain rfl : tables = tables' := same .tables
      obtain rfl : columns = columns' := same .columns
      obtain rfl : commits = commits' := same .commits
      rfl

theorem Snapshot.unique {snapshotPath : String} (left : Snapshot s snapshotPath state)
    (right : Snapshot s snapshotPath state') : state = state' := by
  cases isEmpty : isEmptySnapshot snapshotPath with
  | true => rw [left.empty isEmpty, right.empty isEmpty]
  | false => exact CatalogState.ext_rows fun table => (left.files isEmpty table).unique (right.files isEmpty table)

theorem Batched.mono {paths : List String} {events : List ParsedCatalogDdlEvent} (batched : Batched s paths events)
    (later : s ≤ s') : Batched s' paths events :=
  batched.imp fun _ _ ⟨event, found, same⟩ => ⟨event, found.mono later, same⟩

theorem Known.mono {visible : Visible} (known : Known s visible) (later : s ≤ s') : Known s' visible where
  pointer := by
    obtain ⟨read, author, order, found⟩ := known.pointer
    exact ⟨read, author, order, found.mono later⟩
  manifest := known.manifest.mono later

theorem Known.current {visible : Visible} (known : Known s visible) (unchanged : s.version .pointer = visible.version) :
    ∃ author, s.At .pointer (s.version .pointer) author visible.pointer := by
  obtain ⟨_, author, _, found⟩ := known.pointer
  exact ⟨author, (found.current le_rfl (by omega)).2⟩

end Growth

/-! ## Reading -/

variable {sums : Checksums} {extra : Objects W → Prop} {terms : Terms Object Question W} {label : W}
  {kept : Objects W → Prop} {s : Objects W}

section Reading

variable {ε : Type}

theorem meets_checked {α β : Type} {report : String → ε} {result : Except String α} {post : β → Objects W → Prop}
    {f : α → Fallible Object Answer ε β}
    (second : ∀ a, result = .ok a → Meets (Valid sums extra) terms label post (f a) s) :
    Meets (Valid sums extra) terms label post (checked report result >>= f) s := by
  refine meets_ofExcept_bind fun a isOk => ?_
  cases result with
  | ok b => exact second a (congrArg _ (Except.ok.inj isOk))
  | error message => cases isOk

variable (setting : Setting sums extra terms label kept) (valid : Valid sums extra s) (mind : kept s)

include setting mind

theorem meets_ask (question : Question) : setting.Meets (fun _ s' => kept s')
      (ask question : Fallible Object Answer ε (Answer question)) s :=
  (setting.frame.meets_ask mind).mono fun _ _ known => known.1

theorem meets_getRaw {path : ObjectPath} (isImmutable : path.immutable = true) :
    setting.Meets (fun value s' => kept s' ∧ Holds s' path value) (getRaw path) s := by
  refine ⟨fun conduct honors => ?_⟩
  refine Program.safe_get fun s' later _ => ⟨fun author value current => ?_, fun _ => trivial, trivial⟩
  exact ⟨setting.frame.keep honors mind later, later.inv.1.holds isImmutable current⟩

theorem meets_findRaw {path : ObjectPath} (isImmutable : path.immutable = true) :
    setting.Meets (fun found s' => kept s' ∧ (∀ value, found = some value → Holds s' path value) ∧
      ∀ value, Holds s path value → found = some value) (findRaw path) s := by
  refine ⟨fun conduct honors s' later may => ?_⟩
  refine ⟨⟨setting.frame.keep honors mind later, fun value found => ?_, fun value held => ?_⟩, trivial⟩
  · exact later.inv.1.holds_of_get isImmutable found
  · have bound := later.inv.1.immutable path isImmutable
    obtain ⟨_, found⟩ := held.mono later.le
    exact found.get_of_le bound

theorem meets_readCatalogs (directory : String) : setting.Meets (fun rows s' => kept s' ∧
      ∀ catalogs, Holds s (.file directory .catalogs) catalogs → rows = catalogs ∨ Unreadable terms)
      (readCatalogs directory) s := by
  refine ⟨fun conduct honors => ?_⟩
  refine Program.safe_get fun s' later _ => ⟨fun author value current => ?_, fun missing => ?_,
    fun s'' later' may answer => ?_⟩
  · have held := later.inv.1.holds rfl current
    exact ⟨setting.frame.keep honors mind later, fun catalogs found => .inl (held.unique (found.mono later.le))⟩
  · refine ⟨setting.frame.keep honors mind later, fun catalogs found => ?_⟩
    exact absurd (found.mono later.le).positive (by omega)
  · refine ⟨setting.frame.keep honors (setting.frame.keep honors mind later) later', fun catalogs _ => ?_⟩
    exact .inr ⟨s'', honors.asks _ _ _ may⟩

theorem meets_readRows (directory : String) (table : SnapshotTable) : setting.Meets (fun rows s' => kept s' ∧
      ∀ rows', Holds s (.file directory table) rows' → rows = rows') (readRows directory table) s := by
  refine ⟨fun conduct honors => ?_⟩
  refine safe_bind ((meets_findRaw setting mind rfl).safe _ (honors.under _)) fun found s' known => ?_
  refine safe_pure ⟨known.1, fun rows held => ?_⟩
  rw [known.2.2 rows held]
  rfl

include valid

theorem meets_loadCatalogState (snapshotPath : String) : setting.Meets (fun state s' => kept s' ∧
      ∀ state', Snapshot s snapshotPath state' → state = state' ∨ Unreadable terms)
      (loadCatalogState snapshotPath) s := by
  unfold loadCatalogState
  split
  · rename_i isEmpty
    exact meets_pure ⟨mind, fun state' snapshot => .inl (snapshot.empty isEmpty).symm⟩
  · rename_i nonempty
    refine (meets_readCatalogs setting mind _).seq valid fun catalogs s₁ later₁ valid₁ ⟨mind₁, first⟩ => ?_
    refine (meets_readRows setting mind₁ _ .namespaces).seq valid₁ fun namespaces s₂ later₂ valid₂ ⟨mind₂, second⟩ => ?_
    refine (meets_readRows setting mind₂ _ .tables).seq valid₂ fun tables s₃ later₃ valid₃ ⟨mind₃, third⟩ => ?_
    refine (meets_readRows setting mind₃ _ .columns).seq valid₃ fun columns s₄ later₄ valid₄ ⟨mind₄, fourth⟩ => ?_
    refine (meets_readRows setting mind₄ _ .commits).seq valid₄ fun commits s₅ later₅ valid₅ ⟨mind₅, fifth⟩ => ?_
    refine meets_pure ⟨mind₅, fun state' snapshot => ?_⟩
    have files := snapshot.files (by simpa using nonempty)
    have upto₂ := later₁.trans later₂
    have upto₃ := upto₂.trans later₃
    -- each file was there before the first was read
    rcases first _ (files .catalogs) with same | unreadable
    · refine .inl ?_
      rw [same, second _ ((files .namespaces).mono later₁), third _ ((files .tables).mono upto₂),
        fourth _ ((files .columns).mono upto₃), fifth _ ((files .commits).mono (upto₃.trans later₄))]
      rfl
    · exact .inr unreadable

theorem meets_readVisible (fencingToken : Nat) : setting.Meets (fun visible s' => kept s' ∧ Known s' visible ∧
      visible.pointer.epoch ≤ fencingToken ∧ s.version .pointer ≤ visible.version) (readVisible fencingToken) s := by
  refine (setting.frame.meets_head mind).mapError.seq valid fun head s₁ later₁ valid₁ ⟨mind₁, read⟩ => ?_
  cases head with
  | none => exact meets_throw _
  | some version =>
    obtain ⟨_, _⟩ := head_eq_some.mp read
    refine (setting.frame.meets_get mind₁).mapError.seq valid₁ fun pointer s₂ later₂ valid₂ ⟨mind₂, author, current⟩ => ?_
    split
    · exact meets_throw _
    · rename_i fresh
      refine (meets_getRaw setting mind₂ rfl).mapError.seq valid₂ fun manifest s₃ later₃ valid₃ ⟨mind₃, held⟩ => ?_
      have order := version_mono later₂ .pointer
      have start := version_mono later₁ .pointer
      refine meets_pure ⟨mind₃, ⟨⟨_, author, ?_, current.mono later₃⟩, held⟩, Nat.le_of_not_lt fresh, ?_⟩ <;>
        dsimp only <;> omega

omit valid

theorem meets_readCatalogEvent (path : String) : setting.Meets (fun payload s' => kept s' ∧
      ∃ event : CatalogEvent, Holds s' (.ledger path) event ∧ event.payload = payload) (readCatalogEvent path) s := by
  refine ⟨fun conduct honors => ?_⟩
  refine safe_bind ((meets_getRaw setting mind rfl).mapError.safe _ (honors.under _)) fun event s' ⟨mind', held⟩ => ?_
  exact safe_ofExcept_bind fun _ _ => safe_pure ⟨mind', event, held, rfl⟩

include valid

theorem meets_applyEvents (paths : List String) (state : CatalogState) :
    setting.Meets (fun result s' => kept s' ∧ Batched s' paths result.2 ∧
      state.applyAll result.2 = .ok result.1) (applyEvents paths state) s := by
  induction paths generalizing s state with
  | nil => exact meets_pure ⟨mind, .nil, rfl⟩
  | cons path paths ih =>
    refine (meets_readCatalogEvent setting mind path).seq valid fun event s₁ later₁ valid₁ ⟨mind₁, read⟩ => ?_
    refine meets_checked fun state' applied => ?_
    refine (ih valid₁ mind₁ state').seq valid₁ fun result s₂ later₂ _ ⟨mind₂, batched, all⟩ => ?_
    obtain ⟨event', held, same⟩ := read
    refine meets_pure ⟨mind₂, .cons ⟨event', held.mono later₂, same⟩ batched, ?_⟩
    rwa [CatalogState.applyAll, foldlM_cons, applied]

variable {headError : StorageError → ε} {idError : String → ε}

theorem meets_nextAvailableFrom {before : Nat} (fuel : Nat) {candidate : String}
    (rises : ∃ number, IsNumber candidate number ∧ before < number) :
    setting.Meets (fun manifestId s' => kept s' ∧
      ∃ number, IsNumber manifestId number ∧ before < number) (nextAvailableFrom headError idError fuel candidate) s := by
  induction fuel generalizing s candidate with
  | zero => exact meets_throw _
  | succ fuel ih =>
    refine (setting.frame.meets_head mind).mapError.seq valid fun head s₁ later₁ valid₁ ⟨mind₁, read⟩ => ?_
    cases head with
    | none => exact meets_pure ⟨mind₁, rises⟩
    | some version =>
      refine meets_checked fun next isNext => ?_
      obtain ⟨number, isNumber, above⟩ := rises
      obtain ⟨_, isNumber', isSucc⟩ := nextManifestId_ok isNext
      obtain rfl := isNumber.unique isNumber'
      exact ih valid₁ mind₁ ⟨number + 1, isSucc, Nat.lt_succ_of_lt above⟩

theorem meets_nextAvailableManifestId (previous : String) : setting.Meets (fun manifestId s' => kept s' ∧
      ∃ before number, IsNumber previous before ∧ IsNumber manifestId number ∧ before < number)
      (nextAvailableManifestId headError idError previous) s := by
  refine meets_checked fun next isNext => ?_
  obtain ⟨before, isBefore, isSucc⟩ := nextManifestId_ok isNext
  refine (meets_nextAvailableFrom setting valid mind Core.maxU64 ⟨before + 1, isSucc, Nat.lt_succ_self before⟩).mono ?_
  rintro _ _ ⟨mind', number, isNumber, above⟩
  exact ⟨mind', before, number, isBefore, isNumber, above⟩

theorem meets_reserveCommit (reserved : Option ReservedCatalogCommit) (previous : CatalogDomainManifest) :
    setting.Meets (fun _ s' => kept s') (reserveCommit sums.toUlids reserved previous) s := by
  refine (meets_ask setting mind .ulid).seq valid fun _ s₁ _ valid₁ mind₁ => ?_
  refine meets_checked fun _ _ => ?_
  exact (meets_ask setting mind₁ .now).seq valid₁ fun _ s₂ _ _ mind₂ => meets_pure mind₂

theorem meets_revalidateLock (fencingToken : Nat) :
    setting.Meets (fun _ s' => kept s') (revalidateLock fencingToken) s := by
  refine (setting.frame.meets_find mind).mapError.seq valid fun lock s₁ _ valid₁ ⟨mind₁, _⟩ => ?_
  cases lock with
  | none => exact meets_throw _
  | some lockInfo =>
    refine (meets_ask setting mind₁ .now).seq valid₁ fun now s₂ _ valid₂ mind₂ => ?_
    split
    · exact meets_throw _
    · exact meets_pure mind₂

end Reading

/-! ## Snapshot directories -/

theorem toList_snapshotAttemptDir (version : Nat) (attemptId : String) :
    (snapshotAttemptDir .catalog version attemptId).toList = "snapshots".toList ++ '/' :: ("catalog".toList ++ '/' ::
      (('v' :: Nat.toDigits 10 version) ++ '/' :: ("attempts".toList ++ '/' :: (attemptId.toList ++ ['/'])))) := by
  simp only [snapshotAttemptDir, CatalogDomain.asStr]
  simp [toString]

theorem trimSlashes_ensureDir (directory : String) : trimSlashes (ensureDir directory) = trimSlashes directory := by
  simp [ensureDir, trimSlashes, dropWhile_idempotent]

theorem ensureDir_eq_self {directory : String} (front : List Char) (last : Char)
    (chars : directory.toList = front ++ [last, '/']) (other : last ≠ '/') : ensureDir directory = directory := by
  have trimmed : trimSlashes directory = String.ofList (front ++ [last]) := by simp [trimSlashes, chars, other]
  rw [ensureDir, trimmed, ← String.toList_inj, String.toList_append, chars]
  simp

variable {version number : Nat} {manifest : CatalogDomainManifest}

theorem isEmptySnapshot_attempt (positive : 0 < version) {manifestId : String}
    (isNumber : IsNumber manifestId number) :
    isEmptySnapshot (ensureDir (snapshotAttemptDir .catalog version manifestId)) = false := by
  have chars := toList_snapshotAttemptDir version manifestId
  have noSlash : '/' ∉ manifestId.toList := by
    intro member
    exact absurd (all_eq_true.mp isNumber.digits.2 _ member) (by decide)
  have noSlash' : '/' ∉ 'v' :: Nat.toDigits 10 version := by
    intro member
    rcases mem_cons.mp member with isV | isDigit
    · exact absurd isV (by decide)
    · exact absurd (Nat.isDigit_of_mem_toDigits (by decide) (by decide) isDigit) (by decide)
  have parts : splitString '/' (snapshotAttemptDir .catalog version manifestId) =
      ["snapshots", "catalog", String.ofList ('v' :: Nat.toDigits 10 version), "attempts", manifestId, ""] := by
    rw [splitString, chars, splitChars_append _ (by decide), splitChars_append _ (by decide),
      splitChars_append _ noSlash', splitChars_append _ (by decide), splitChars_append _ noSlash]
    simp [splitChars]
  have isDirectory : ensureDir (snapshotAttemptDir .catalog version manifestId) =
      snapshotAttemptDir .catalog version manifestId := by
    obtain ⟨digit, isLast, isDigit⟩ := isNumber.last_digit
    obtain ⟨front, isFront⟩ := getLast?_eq_some_iff.mp isLast
    refine ensureDir_eq_self ("snapshots".toList ++ '/' :: ("catalog".toList ++ '/' ::
      (('v' :: Nat.toDigits 10 version) ++ '/' :: ("attempts".toList ++ '/' :: front)))) digit ?_ ?_
    · rw [chars, isFront]
      simp
    · rintro rfl
      exact absurd isDigit (by decide)
  have notZero : String.ofList ('v' :: Nat.toDigits 10 version) ≠ "v0" := by
    intro same
    have digits : Nat.toDigits 10 version = Nat.toDigits 10 0 := by simpa [← String.toList_inj] using same
    have values := congrArg (Nat.ofDigitChars 10 · 0) digits
    simp only [Nat.ofDigitChars_ten_toDigits] at values
    omega
  have notId : manifestId ≠ "v0" := by
    rintro rfl
    exact absurd isNumber.digits.2 (by decide)
  have nonempty : snapshotAttemptDir .catalog version manifestId ≠ "" := by
    intro isEmpty
    rw [isEmpty] at chars
    cases chars
  rw [isDirectory, isEmptySnapshot, parts]
  generalize String.ofList ('v' :: Nat.toDigits 10 version) = part at notZero
  simp [nonempty, notZero, notId]

/-! ## Writing -/

section Writing

variable (setting : Setting sums extra terms label kept) (valid : Valid sums extra s) (mind : kept s)

include setting mind

theorem meets_putFile (directory : String) (table : SnapshotTable) (rows : List table.Row) :
    setting.Meets
      (Written (Valid sums extra) terms kept s label (.file directory table) rows .doesNotExist)
      (putRaw (.file directory table) rows .doesNotExist) s := by
  refine setting.frame.meets_put mind fun s' _ valid' _ _ allowed => ?_
  have absent := allows_doesNotExist.mp allowed
  exact ⟨valid'.1.write (.file directory table) label rows (by simp) (by simp) fun _ => absent,
    setting.files s' directory table rows valid' absent⟩

theorem meets_putManifest {manifest : CatalogDomainManifest} {number : Nat}
    (isNumber : IsNumber manifest.manifestId number) (positive : 0 < number) :
    setting.Meets (Written (Valid sums extra) terms kept s label
      (.manifest (CatalogDomain.catalog.manifestSnapshot manifest.manifestId)) manifest .doesNotExist)
      (putRaw (.manifest (CatalogDomain.catalog.manifestSnapshot manifest.manifestId)) manifest .doesNotExist) s := by
  refine setting.frame.meets_put mind fun s' _ valid' _ _ allowed => ?_
  have absent := allows_doesNotExist.mp allowed
  refine ⟨valid'.1.write_manifest label manifest absent ⟨number, isNumber⟩ fun isInitial => ?_,
    setting.manifests s' _ manifest valid' absent⟩
  have isZero := isNumber.unique (isInitial ▸ isNumber_initialManifestId)
  omega

include valid

theorem meets_putStateIfAbsent (directory : String) (table : SnapshotTable) (rows : List table.Row) :
    setting.Meets (fun _ s' => kept s' ∧ Holds s' (.file directory table) rows)
      (putStateIfAbsent directory table rows) s := by
  refine (meets_putFile setting mind directory table rows).mapError.seq valid fun result s₁ later₁ valid₁ written => ?_
  cases result with
  | success version =>
    obtain ⟨s₀, _, _, mind₀, _, allowed, _, rfl⟩ := written
    refine meets_pure ⟨setting.frame.write s₀ (.file directory table) rows (by simp) mind₀, ?_⟩
    exact holds_write_self label (allows_doesNotExist.mp allowed) rows
  | preconditionFailed version =>
    refine (meets_getRaw setting written.1 rfl).mapError.seq valid₁ fun existing s₂ later₂ _ ⟨mind₂, held⟩ => ?_
    split
    · rename_i same
      exact meets_pure ⟨mind₂, same ▸ held⟩
    · exact meets_throw _

theorem meets_writeCatalogSnapshotInDir (version : Nat) (snapshotDir : String) (state : CatalogState) :
    setting.Meets (fun info s' => kept s' ∧ info.version = version ∧
      info.path = ensureDir snapshotDir ∧ ∀ table, Holds s' (.file (trimSlashes snapshotDir) table) (state.rows table))
      (writeCatalogSnapshotInDir version snapshotDir state) s := by
  refine (meets_putStateIfAbsent setting valid mind _ .catalogs _).seq valid fun _ s₁ _ valid₁ ⟨mind₁, first⟩ => ?_
  refine (meets_putStateIfAbsent setting valid₁ mind₁ _ .namespaces _).seq valid₁ fun _ s₂ later₂ valid₂ ⟨mind₂, second⟩ => ?_
  refine (meets_putStateIfAbsent setting valid₂ mind₂ _ .tables _).seq valid₂ fun _ s₃ later₃ valid₃ ⟨mind₃, third⟩ => ?_
  refine (meets_putStateIfAbsent setting valid₃ mind₃ _ .columns _).seq valid₃ fun _ s₄ later₄ valid₄ ⟨mind₄, fourth⟩ => ?_
  refine (meets_putStateIfAbsent setting valid₄ mind₄ _ .commits _).seq valid₄ fun _ s₅ later₅ valid₅ ⟨mind₅, fifth⟩ => ?_
  refine (meets_ask setting mind₅ .now).seq valid₅ fun _ s₆ later₆ _ mind₆ => ?_
  have since₄ := later₅.trans later₆
  have since₃ := later₄.trans since₄
  have since₂ := later₃.trans since₃
  refine meets_pure ⟨mind₆, rfl, rfl, fun table => ?_⟩
  cases table with
  | catalogs => exact first.mono (later₂.trans since₂)
  | namespaces => exact second.mono since₂
  | tables => exact third.mono since₃
  | columns => exact fourth.mono since₄
  | commits => exact fifth.mono later₆

end Writing

/-! ## Publication -/

/-- A party is about to publish a manifest that follows a visible one. -/
structure Ready (sums : Checksums) (s : Objects W) (fencingToken start : Nat) (visible : Visible)
    (pointer : DomainManifestPointer) (manifest : CatalogDomainManifest) : Prop where
  known : Known s visible
  current : s.version .pointer = visible.version
  start : start ≤ visible.version
  fenced : visible.pointer.epoch ≤ fencingToken
  epoch : pointer.epoch = fencingToken
  held : Holds s (.manifest pointer.manifestPath) manifest
  sameId : pointer.manifestId = manifest.manifestId
  linked : Linked sums visible.pointer.manifestPath visible.manifest manifest

theorem Ready.chain {fencingToken start : Nat} {visible : Visible} {pointer : DomainManifestPointer}
    (ready : Ready sums s fencingToken start visible pointer manifest) (chain : Chain sums s) (writer : W) :
    Chain sums (s.write .pointer writer pointer) := by
  obtain ⟨_, current⟩ := ready.known.current ready.current
  exact chain.publish writer current ready.known.manifest ready.held ready.sameId ready.linked

/-- The snapshot of a manifest is that of the visible one with the events of a batch applied. -/
structure Compacts (sums : Checksums) (extra : Objects W → Prop) (terms : Terms Object Question W) (s : Objects W)
    (visible : Visible) (batch : List String) (manifest : CatalogDomainManifest) : Prop where
  snapshotVersion : manifest.snapshotVersion = visible.manifest.snapshotVersion + 1
  watermarkEventId : manifest.watermarkEventId = maxEventIdFromPaths batch
  applied : ∃ s₀ before events after record, s₀ ≤ s ∧ Valid sums extra s₀ ∧ Known s₀ visible ∧
    (∀ state, Snapshot s₀ visible.manifest.snapshotPath state → before = state ∨ Unreadable terms) ∧
    Batched s batch events ∧ before.applyAll events = .ok after ∧
    Snapshot s manifest.snapshotPath { after with commits := after.commits ++ [record] }

theorem Compacts.mono {s' : Objects W} {visible : Visible} {batch : List String}
    (compacts : Compacts sums extra terms s visible batch manifest) (later : s ≤ s') :
    Compacts sums extra terms s' visible batch manifest where
  snapshotVersion := compacts.snapshotVersion
  watermarkEventId := compacts.watermarkEventId
  applied := by
    obtain ⟨s₀, before, events, after, record, earlier, valid, known, loaded, batched, applied, snapshot⟩ := compacts.applied
    exact ⟨s₀, before, events, after, record, earlier.trans later, valid, known, loaded, batched.mono later, applied,
      snapshot.mono later⟩

theorem snapshot_of_attempt (positive : 0 < version) {manifestId : String} (isNumber : IsNumber manifestId number)
    {state : CatalogState}
    (held : ∀ table, Holds s (.file (trimSlashes (snapshotAttemptDir .catalog version manifestId)) table) (state.rows table)) :
    Snapshot s (ensureDir (snapshotAttemptDir .catalog version manifestId)) state := by
  have nonempty := isEmptySnapshot_attempt positive isNumber
  exact ⟨fun isEmpty => by simp [nonempty] at isEmpty, fun _ => by rwa [trimSlashes_ensureDir]⟩

/-- What a compaction that ends without an error has found or done. -/
inductive Compacted (sums : Checksums) (extra : Objects W → Prop) (terms : Terms Object Question W) (label : W)
    (kept : Objects W → Prop) (fencingToken start : Nat) (eventPaths : List String) (s : Objects W) : Prop where
  | unchanged (visible : Visible) (mind : kept s) (known : Known s visible) (start : start ≤ visible.version)
      (fenced : visible.pointer.epoch ≤ fencingToken)
      (none : visible.manifest.unapplied eventPaths = [])
  | published (s₀ : Objects W) (visible : Visible) (pointer : DomainManifestPointer) (manifest : CatalogDomainManifest)
      (valid : Valid sums extra s₀) (mind : kept s₀) (puts : terms.puts .pointer pointer s₀)
      (ready : Ready sums s₀ fencingToken start visible pointer manifest)
      (some : visible.manifest.unapplied eventPaths ≠ [])
      (compacts : Compacts sums extra terms s₀ visible
        (visible.manifest.unapplied eventPaths) manifest)
      (written : s = s₀.write .pointer label pointer)

def Publishes (sums : Checksums) (extra : Objects W → Prop) (terms : Terms Object Question W) (label : W)
    (kept : Objects W → Prop) (fencingToken start : Nat) (eventPaths : List String) : Prop :=
  ∀ s visible pointer manifest, Valid sums extra s → kept s → terms.puts .pointer pointer s →
    Ready sums s fencingToken start visible pointer manifest →
    visible.manifest.unapplied eventPaths ≠ [] →
    Compacts sums extra terms s visible
      (visible.manifest.unapplied eventPaths) manifest →
    extra (s.write .pointer label pointer)

section Compacting

variable (setting : Setting sums extra terms label kept) (fencingToken : Nat)

include setting

theorem meets_prepareCommit (valid : Valid sums extra s) (mind : kept s) {visible : Visible} (known : Known s visible)
    (batch : List String) (reserved : Option ReservedCatalogCommit) :
    setting.Meets (fun result s' => kept s' ∧ result.2.epoch = fencingToken ∧
      Linked sums visible.pointer.manifestPath visible.manifest result.2 ∧
      Compacts sums extra terms s' visible batch result.2) (prepareCommit sums fencingToken visible batch reserved) s := by
  refine (meets_loadCatalogState setting valid mind _).mapError.seq valid fun before s₁ later₁ valid₁ ⟨mind₁, loaded⟩ => ?_
  refine (meets_applyEvents setting valid₁ mind₁ batch before).seq valid₁
    fun result s₂ later₂ valid₂ ⟨mind₂, batched, applied⟩ => ?_
  obtain ⟨after, events⟩ := result
  refine (meets_reserveCommit setting valid₂ mind₂ reserved _).seq valid₂ fun commit s₃ later₃ valid₃ mind₃ => ?_
  refine (meets_nextAvailableManifestId setting valid₃ mind₃ _).seq valid₃
    fun manifestId s₄ later₄ valid₄ ⟨mind₄, before', number, isBefore, isNumber, above⟩ => ?_
  refine meets_checked fun record _ => ?_
  refine (meets_writeCatalogSnapshotInDir setting valid₄ mind₄ _ _ _).seq valid₄
    fun info s₅ later₅ valid₅ ⟨mind₅, isVersion, isPath, held⟩ => ?_
  refine meets_checked fun _ validated => meets_pure ⟨mind₅, rfl, ?_, ?_⟩
  · exact ⟨rfl, rfl, CatalogDomainManifest.advances_of_validateSuccession validated,
      before', number, isBefore, isNumber, above⟩
  · have since₂ := (later₃.trans later₄).trans later₅
    have since := (later₁.trans later₂).trans since₂
    refine ⟨isVersion, rfl, s, before, events, after, record, since, valid, known, loaded, batched.mono since₂, applied, ?_⟩
    have snapshot := snapshot_of_attempt (Nat.succ_pos visible.manifest.snapshotVersion) isNumber held
    rwa [← isPath] at snapshot

variable {fencingToken} {start : Nat}

theorem meets_syncCompactAttempts {eventPaths : List String}
    (publish : Publishes sums extra terms label kept fencingToken start eventPaths) (attempts : Nat)
    (valid : Valid sums extra s) (mind : kept s) (since : start ≤ s.version .pointer)
    (reserved : Option ReservedCatalogCommit) :
    setting.Meets (fun _ s' => Compacted sums extra terms label kept fencingToken start eventPaths s')
      (syncCompactAttempts sums fencingToken eventPaths attempts reserved) s := by
  induction attempts generalizing s reserved with
  | zero => exact meets_throw _
  | succ attempts ih =>
    refine (meets_readVisible setting valid mind fencingToken).seq valid
      fun visible s₁ later₁ valid₁ ⟨mind₁, known, fenced, order⟩ => ?_
    have start₁ : start ≤ visible.version := since.trans order
    dsimp only
    split
    · rename_i isEmpty
      exact meets_pure (.unchanged visible mind₁ known start₁ fenced (isEmpty_iff.mp isEmpty))
    · rename_i some
      refine (meets_prepareCommit setting fencingToken valid₁ mind₁ known _ reserved).seq valid₁
        fun result s₂ later₂ valid₂ ⟨mind₂, epoch, linked, compacts⟩ => ?_
      obtain ⟨commit, manifest⟩ := result
      obtain ⟨_, _, _, isNumber, _⟩ := linked.number
      refine (meets_putManifest setting mind₂ isNumber (by omega)).mapError.seq valid₂
        fun result s₃ later₃ valid₃ written => ?_
      have since₃ := (since.trans (version_mono later₁ _)).trans (version_mono (later₂.trans later₃) _)
      cases result with
      | preconditionFailed version =>
        dsimp only
        split
        · exact meets_throw _
        · exact ih valid₃ written.1 since₃ (.some commit)
      | success version =>
        obtain ⟨s₀, _, _, mind₀, _, allowed, _, rfl⟩ := written
        have absent := allows_doesNotExist.mp allowed
        have held : Holds _ (.manifest _) manifest := holds_write_self (s := s₀) label absent manifest
        have mind₃ := setting.frame.write s₀ (.manifest (CatalogDomain.catalog.manifestSnapshot manifest.manifestId))
          manifest (by simp) mind₀
        refine (meets_ask setting mind₃ .now).seq valid₃ fun updatedAt s₄ later₄ valid₄ mind₄ => ?_
        refine (meets_revalidateLock setting valid₄ mind₄ fencingToken).seq valid₄ fun _ s₅ later₅ valid₅ mind₅ => ?_
        -- the manifest exists by now, and the pointer is only replaced if it is still the one that was read
        have ready : ∀ s', s₅ ≤ s' → s'.version .pointer = visible.version →
            Ready sums s' fencingToken start visible (visible.successorPointer sums fencingToken manifest updatedAt)
              manifest := fun s' later current => {
          known := known.mono ((((later₂.trans later₃).trans later₄).trans later₅).trans later)
          current := current
          start := start₁
          fenced := fenced
          epoch := rfl
          held := held.mono ((later₄.trans later₅).trans later)
          sameId := rfl
          linked := linked }
        have compacts₅ := compacts.mono ((later₃.trans later₄).trans later₅)
        have nonempty : visible.manifest.unapplied eventPaths ≠ [] :=
          fun isNil => some (isEmpty_iff.mpr isNil)
        refine (setting.frame.meets_put mind₅ fun s' later valid' mind' puts allowed => ?_).mapError.seq valid₅
          fun result s₆ later₆ valid₆ written => ?_
        · have isReady := ready s' later (allows_matchesVersion.mp allowed).1
          exact ⟨isReady.chain valid'.1 label,
            publish s' visible _ manifest valid' mind' puts isReady nonempty (compacts₅.mono later)⟩
        · cases result with
          | success version =>
            obtain ⟨s', later, valid', mind', puts, allowed, _, isWritten⟩ := written
            have isReady := ready s' later (allows_matchesVersion.mp allowed).1
            exact meets_pure (.published s' visible _ manifest valid' mind' puts isReady nonempty (compacts₅.mono later)
              isWritten)
          | preconditionFailed version =>
            have since₆ := since₃.trans (version_mono ((later₄.trans later₅).trans later₆) _)
            exact ih valid₆ written.1 since₆ (.some commit)

theorem meets_syncCompact {requested : List String}
    (publish : ∀ eventPaths, validatePaths requested = .ok eventPaths →
      Publishes sums extra terms label kept fencingToken start eventPaths)
    (valid : Valid sums extra s) (mind : kept s) (since : start ≤ s.version .pointer) :
    setting.Meets (fun _ s' => ∃ eventPaths, validatePaths requested = .ok eventPaths ∧
      Compacted sums extra terms label kept fencingToken start eventPaths s')
      (syncCompact sums fencingToken requested) s := by
  refine meets_checked fun eventPaths validated => ?_
  split
  · exact meets_throw _
  · refine (meets_revalidateLock setting valid mind fencingToken).seq valid fun _ s₁ later₁ valid₁ mind₁ => ?_
    have since₁ := since.trans (version_mono later₁ _)
    refine (meets_syncCompactAttempts setting (publish eventPaths validated) casMaxRetries valid₁ mind₁ since₁ none).mono ?_
    exact fun _ _ compacted => ⟨eventPaths, validated, compacted⟩

end Compacting

end Arco.Catalog.Tier1
