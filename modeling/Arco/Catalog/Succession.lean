import Arco.Catalog.Bootstrap
import Arco.Catalog.Ledger

/-! Any number of writers and compactors of one catalog, and the manifests that they make visible.

A call of the writer is a sequence of the calls here: it takes the lock, appends events and asks for
their compaction. Locks are not relied upon, so the lock may hold any record at any time.
-/

namespace Arco.Catalog.Tier1

open Storage
open Arco.Core (LockInfo)

inductive CatalogCall where
  | initializeCatalog (writerEpoch fuel : Nat)
  | update (writerEpoch : Nat) (change : CatalogDomainManifest → Except CatalogError CatalogDomainManifest)
      (attempts : Nat)
  | syncCompact (fencingToken : Nat) (eventPaths : List String)
  | append (payload : ParsedCatalogDdlEvent) (source : String) (previousEventId : Option EventId)
  | lock (lockInfo : LockInfo)

inductive CatalogOutcome where
  | initialized (result : Except CatalogError Unit)
  | updated (result : Except CatalogError CommitRecord)
  | compacted (result : Except Tier1CompactionError Tier1CompactionResult)
  | appended (result : Except CatalogError EventId)
  | locked (result : Except StorageError WriteResult)

def CatalogCall.program (sums : Checksums) : CatalogCall → Program Object Answer CatalogOutcome
  | .initializeCatalog writerEpoch fuel =>
    (Tier1.initializeCatalog sums writerEpoch fuel).run.bind fun result => .done (.initialized result)
  | .update writerEpoch change attempts =>
    (updateInner sums writerEpoch change attempts).run.bind fun result => .done (.updated result)
  | .syncCompact fencingToken eventPaths =>
    (Tier1.syncCompact sums fencingToken eventPaths).run.bind fun result => .done (.compacted result)
  | .append payload source previousEventId =>
    (appendLedgerEventAfter sums payload source previousEventId).run.bind fun result => .done (.appended result)
  | .lock lockInfo => (putRaw .lock lockInfo .none).run.bind fun result => .done (.locked result)

def catalogProtocol (sums : Checksums) : Protocol Object Answer CatalogOutcome CatalogCall where
  program := CatalogCall.program sums
  follows _ _ := true

abbrev CatalogWorld (P : Type) : Type := World Object Answer CatalogOutcome CatalogCall P

/-- Each visible manifest names the one that was visible just before it and carries its hash; ids,
epochs and snapshot versions do not fall. -/
structure Succession {W : Type} (sums : Checksums) (s : Objects W) : Prop where
  links : ∀ version author pointer author' pointer', s.At .pointer version author pointer →
    s.At .pointer (version + 1) author' pointer' → ∃ previous manifest,
      s.get (.manifest pointer.manifestPath) = some previous ∧ s.get (.manifest pointer'.manifestPath) = some manifest ∧
      manifest.previousManifestPath = some pointer.manifestPath ∧
      manifest.parentHash = some (sums.manifestHash previous)
  ascends : ∀ version version' author author' pointer pointer', version < version' →
    s.At .pointer version author pointer → s.At .pointer version' author' pointer' → ∃ previous manifest,
      s.get (.manifest pointer.manifestPath) = some previous ∧ s.get (.manifest pointer'.manifestPath) = some manifest ∧
      previous.Advances manifest

theorem CatalogDomainManifest.Advances.trans {first second third : CatalogDomainManifest}
    (before : first.Advances second) (after : second.Advances third) : first.Advances third where
  manifestId := by
    obtain ⟨number₁, number₂, isNumber₁, isNumber₂, le⟩ := before.manifestId
    obtain ⟨number₂', number₃, isNumber₂', isNumber₃, le'⟩ := after.manifestId
    obtain rfl : number₂ = number₂' := Except.ok.inj (isNumber₂.symm.trans isNumber₂')
    exact ⟨number₁, number₃, isNumber₁, isNumber₃, le.trans le'⟩
  epoch := before.epoch.trans after.epoch
  snapshotVersion := before.snapshotVersion.trans after.snapshotVersion

theorem Chain.ascending {W : Type} {sums : Checksums} {s : Objects W} (chain : Chain sums s) {version version' : Nat}
    {author author' : W} {pointer pointer' : DomainManifestPointer} (order : version < version')
    (found : s.At .pointer version author pointer) (found' : s.At .pointer version' author' pointer') :
    ∃ previous manifest, Holds s (.manifest pointer.manifestPath) previous ∧
      Holds s (.manifest pointer'.manifestPath) manifest ∧ previous.Advances manifest := by
  induction version', order using Nat.le_induction generalizing author' pointer' with
  | base =>
    obtain ⟨previous, manifest, held, held', _, linked⟩ := chain.linked version author pointer author' pointer' found found'
    exact ⟨previous, manifest, held, held', linked.advances⟩
  | succ between order ih =>
    have bound := found'.le
    obtain ⟨author₁, pointer₁, found₁⟩ := Store.at_of_le (s := s) (k := .pointer) (show 0 < between by omega) (by omega)
    obtain ⟨previous, _, held, held₁, advances⟩ := ih found₁
    obtain ⟨_, manifest, held₂, held', _, linked⟩ :=
      chain.linked between author₁ pointer₁ author' pointer' found₁ found'
    obtain rfl := held₁.unique held₂
    exact ⟨previous, manifest, held, held', advances.trans linked.advances⟩

section Runs

variable {sums : Checksums} {P : Type} [DecidableEq P]

theorem honors_free {α W : Type} : (Conduct.free : Conduct Object Answer α W).Honors {} :=
  ⟨fun _ _ _ _ => trivial, fun _ _ _ _ _ _ => trivial, fun _ _ _ _ => trivial⟩

theorem setting_free {W : Type} (label : W) : Setting sums (fun _ => True) {} label fun _ => True where
  frame := .always
  files _ _ _ _ _ _ := trivial
  manifests _ _ _ _ _ := trivial

theorem catalogProtocol_verified :
    (catalogProtocol sums).Verified (fun _ => Conduct.free) (Valid sums fun _ => True) (fun _ _ _ => True) where
  relyRefl _ _ _ := trivial
  relyTrans _ _ _ _ _ _ _ := trivial
  postStable _ _ _ _ _ _ _ := trivial
  calls _ label s _ valid _ _ := by
    have setting : Setting sums _ _ label _ := setting_free label
    cases label.call with
    | initializeCatalog writerEpoch fuel =>
      exact (meets_initializeCatalog setting (fun _ _ _ _ _ => trivial)
        (fun _ _ _ => trivial) valid writerEpoch fuel).run (f := CatalogOutcome.initialized)
        honors_free fun _ _ _ => trivial
    | update writerEpoch change attempts =>
      exact (meets_updateInner setting (fun _ _ _ _ _ _ _ _ => trivial)
        (fun _ => trivial) valid change attempts).run (f := CatalogOutcome.updated)
        honors_free fun _ _ _ => trivial
    | syncCompact fencingToken eventPaths =>
      exact (meets_syncCompact setting (fun _ _ _ _ _ _ _ _ _ _ _ _ => trivial) valid trivial
        (Nat.zero_le _)).run (f := CatalogOutcome.compacted)
        honors_free fun _ _ _ => trivial
    | append payload source previousEventId =>
      exact (meets_appendLedgerEventAfter setting payload source
        (fun _ _ _ _ _ _ => trivial) valid trivial previousEventId).run (f := CatalogOutcome.appended)
        honors_free fun _ _ _ => trivial
    | lock lockInfo =>
      refine (setting.frame.meets_put trivial fun s' _ valid' _ _ _ => ⟨?_, trivial⟩).run
        (f := CatalogOutcome.locked) honors_free fun _ _ _ => trivial
      exact valid'.1.write .lock label lockInfo (by simp) (by simp) (by simp [ObjectPath.immutable])

theorem chain_of_reaches {w : CatalogWorld P}
    (reached : (catalogProtocol sums).Reaches (fun _ _ _ => True) { store := {} } w) : Chain sums w.store :=
  ((catalogProtocol_verified.reaches (Protocol.sound_empty ⟨Chain.empty, trivial⟩) reached.free).1).holds.1

end Runs

/-- An id is counted up by one more digit. -/
def Checksums.constant : Checksums where
  parse text := if plain : text ≠ "" ∧ text.toList.all Char.isAlphanum = true then some ⟨text, plain.1, plain.2⟩ else none
  increment id := some ⟨id.text ++ "0", by simp, by simpa using id.alphanumeric⟩
  parse_text parsed := by
    obtain ⟨_, isId⟩ := Option.dite_none_right_eq_some.mp parsed
    exact congrArg EventId.text (Option.some.inj isId).symm
  lt_increment next := by
    have longer : ([] : List Char) < ['0'] := by decide
    rw [← Option.some.inj next, String.lt_iff_toList_lt]
    simpa using List.append_left_lt longer
  pointerHash _ := "pointer"
  manifestHash _ := "manifest"
  idempotencyKey _ := "key"

def answering (now : Core.Timestamp) (ulid : EventId) (uuid : String) : (q : Question) → Answer q
  | .now => now
  | .ulid => ulid
  | .uuid => uuid
  | .unreadable => ()

def firstEventId : EventId := ⟨"00000000000000000000000001", by decide, rfl⟩

def secondEventId : EventId := ⟨"00000000000000000000000002", by decide, rfl⟩

def catalogCreated (id name : String) : ParsedCatalogDdlEvent := .v2 (.catalogCreated { id, name })

def heldLock (sequenceNumber : Nat) : LockInfo := { holderId := "holder", expiresAt := 100, acquiredAt := 0, sequenceNumber }

/-- A workspace is set up, a catalog is created in it, and its manifest is updated directly. -/
def firstCommits : List (CatalogCall × Answers Answer) :=
  [.lock (heldLock 1), .initializeCatalog 1 1, .append (catalogCreated "1" "main") "writer" none,
   .syncCompact 1 [CatalogDomain.catalog.ledgerEvent firstEventId.text], .update 1 .ok 3].map
    fun call => (call, fun _ => answering 0 firstEventId "uuid")

end Arco.Catalog.Tier1
