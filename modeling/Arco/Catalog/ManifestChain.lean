import Arco.Catalog.Tier1

/-! The history of the catalog domain of a workspace.

Manifests, snapshot files and events of the ledger are written once. The pointer is replaced over and
over; the manifest that it makes visible names the one before it. Everything is said about histories
in general, whoever wrote them.
-/

namespace Arco.Catalog.Tier1

open Storage CatalogDomain
open Arco.Core (Timestamp)
open Arco.Flow (parseManifestId initialManifestId)
open List Store CatalogDomain

abbrev Objects (W : Type) : Type := Store Object W

variable {W : Type}

def ObjectPath.immutable : ObjectPath → Bool
  | .manifest _ | .file _ _ | .ledger _ => true
  | .lock | .root | .pointer | .marker _ => false

def Holds (s : Objects W) (path : ObjectPath) (value : Object path) : Prop := ∃ author, s.At path 1 author value

section Holding

variable {s s' : Objects W} {path : ObjectPath} {value : Object path}

theorem Holds.mono (found : Holds s path value) (later : s ≤ s') : Holds s' path value :=
  found.imp fun _ found => found.mono later

theorem Holds.unique {value' : Object path} (left : Holds s path value) (right : Holds s path value') :
    value = value' := by
  obtain ⟨_, found⟩ := left
  obtain ⟨_, found'⟩ := right
  exact (found.unique found').2

theorem Holds.positive (found : Holds s path value) : 0 < s.version path := by
  obtain ⟨_, found⟩ := found
  exact found.le

theorem holds_write_self (writer : W) (absent : s.version path = 0) (value : Object path) :
    Holds (s.write path writer value) path value := by
  have written := s.at_write_self path writer value
  rw [absent] at written
  exact ⟨writer, written⟩

theorem holds_write_ne {path' : ObjectPath} {value' : Object path'} {writer : W} (other : path ≠ path') :
    Holds (s.write path' writer value') path value ↔ Holds s path value :=
  exists_congr fun _ => at_write_ne other

theorem holds_write_fresh {value' : Object path} {writer : W} (absent : s.version path = 0) :
    Holds (s.write path writer value') path value ↔ value = value' :=
  ⟨fun found => found.unique (holds_write_self writer absent value'), fun same => same ▸ holds_write_self writer absent _⟩

end Holding

theorem toList_manifestSnapshot (manifestId : String) : (catalog.manifestSnapshot manifestId).toList =
      "manifests/".toList ++ ("catalog/".toList ++ manifestId.toList ++ ".json".toList) := by
  simp only [manifestSnapshot, asStr]
  simp [toString]

variable {manifestId : String} {number : Nat}

theorem manifestSnapshot_injective {manifestId' : String}
    (same : catalog.manifestSnapshot manifestId = catalog.manifestSnapshot manifestId') :
    manifestId = manifestId' := by
  have chars := congrArg String.toList same
  simp only [toList_manifestSnapshot, append_cancel_right_eq, append_cancel_left_eq] at chars
  exact String.toList_inj.mp chars

def IsNumber (manifestId : String) (number : Nat) : Prop := parseManifestId manifestId = .ok number

theorem IsNumber.unique {number' : Nat} (left : IsNumber manifestId number)
    (right : IsNumber manifestId number') : number = number' := Except.ok.inj (left.symm.trans right)

theorem isNumber_initialManifestId : IsNumber initialManifestId 0 := by unfold IsNumber; decide

section

variable (isNumber : IsNumber manifestId number)
include isNumber

theorem IsNumber.digits :
    manifestId.toList.length = Flow.manifestIdWidth ∧ manifestId.toList.all Char.isDigit = true := by
  unfold IsNumber parseManifestId at isNumber
  split at isNumber
  · cases isNumber
  · rename_i wellFormed
    simpa only [not_or, not_not] using wellFormed

theorem IsNumber.last_digit : ∃ digit, manifestId.toList.getLast? = some digit ∧ digit.isDigit = true := by
  obtain ⟨length, digits⟩ := isNumber.digits
  cases last : manifestId.toList.getLast? with
  | none =>
    rw [getLast?_eq_none_iff.mp last] at length
    exact absurd length (by decide)
  | some digit => exact ⟨digit, rfl, all_eq_true.mp digits digit (mem_of_getLast? last)⟩

theorem not_legacy_suffix (front : List Char) : ¬ ".manifest.json".toList <:+ front ++ manifestId.toList ++ ".json".toList := by
  rintro ⟨_, same⟩
  obtain ⟨digit, isLast, isDigit⟩ := isNumber.last_digit
  have split : ".manifest.json".toList = ".manifest".toList ++ ".json".toList := by decide
  rw [split, ← append_assoc, append_cancel_right_eq] at same
  have last := congrArg getLast? same
  rw [getLast?_append, getLast?_append, isLast] at last
  have isT : digit = 't' := by simpa [eq_comm] using last
  rw [isT] at isDigit
  exact absurd isDigit (by decide)

theorem isLegacyDomainManifestPath_manifestSnapshot :
    isLegacyDomainManifestPath (catalog.manifestSnapshot manifestId) = false := by
  have stripped : Text.stripPrefix "manifests/" (catalog.manifestSnapshot manifestId) =
      some (String.ofList ("catalog/".toList ++ manifestId.toList ++ ".json".toList)) :=
    Text.stripPrefix_eq_some.mpr (by rw [toList_manifestSnapshot]; simp)
  have noDomain : legacyDomain (catalog.manifestSnapshot manifestId) = none := by
    rw [legacyDomain, stripped, Option.bind_some]
    refine Text.stripSuffix_eq_none ?_
    have chars := String.toList_ofList (l := "catalog/".toList ++ manifestId.toList ++ ".json".toList)
    rw [chars]
    exact not_legacy_suffix isNumber _
  rw [isLegacyDomainManifestPath, noDomain]

theorem legacyManifestCandidatePath_ne (rootPath : String) :
    legacyManifestCandidatePath rootPath ≠ catalog.manifestSnapshot manifestId := by
  intro same
  have ending : ".manifest.json".toList <:+ (legacyManifestCandidatePath rootPath).toList := by
    unfold legacyManifestCandidatePath
    split
    · simp only [domainManifestStr, String.toList_append]
      exact suffix_append _ _
    · exact ⟨"manifests/catalog".toList, by decide⟩
  rw [same, toList_manifestSnapshot, ← append_assoc, ← append_assoc] at ending
  exact not_legacy_suffix isNumber _ ending

end

structure Linked (sums : Checksums) (previousPath : String) (previous manifest : CatalogDomainManifest) : Prop where
  previousManifestPath : manifest.previousManifestPath = some previousPath
  parentHash : manifest.parentHash = some (sums.manifestHash previous)
  advances : previous.Advances manifest
  number : ∃ before after, IsNumber previous.manifestId before ∧ IsNumber manifest.manifestId after ∧ before < after

structure Chain (sums : Checksums) (s : Objects W) : Prop where
  immutable : ∀ path, path.immutable = true → s.version path ≤ 1
  named : ∀ path manifest, Holds s (.manifest path) manifest →
    path = catalog.manifestSnapshot manifest.manifestId ∧ ∃ number, IsNumber manifest.manifestId number
  initial : ∀ manifest, Holds s (.manifest (catalog.manifestSnapshot initialManifestId)) manifest →
    ∃ updatedAt, manifest = { updatedAt }
  first : ∀ author pointer, s.At .pointer 1 author pointer →
    (∃ updatedAt, pointer = { updatedAt }) ∧ ∃ manifest, Holds s (.manifest pointer.manifestPath) manifest
  linked : ∀ version author pointer author' pointer', s.At .pointer version author pointer →
    s.At .pointer (version + 1) author' pointer' → ∃ previous manifest, Holds s (.manifest pointer.manifestPath) previous ∧
      Holds s (.manifest pointer'.manifestPath) manifest ∧ pointer'.manifestId = manifest.manifestId ∧
      Linked sums pointer.manifestPath previous manifest

namespace Chain

variable {sums : Checksums} {s : Objects W} {path : ObjectPath} {author : W} {pointer : DomainManifestPointer}

section

variable (chain : Chain sums s) (isImmutable : path.immutable = true)
include chain isImmutable

variable {value : Object path}

theorem holds (current : s.At path (s.version path) author value) : Holds s path value := by
  have positive := current.1
  have bound := chain.immutable path isImmutable
  rw [show s.version path = 1 by omega] at current
  exact ⟨author, current⟩

theorem holds_of_get (read : s.get path = some value) : Holds s path value := by
  obtain ⟨_, current⟩ := At.of_get read
  exact chain.holds isImmutable current

theorem get_of_holds (held : Holds s path value) : s.get path = some value := by
  obtain ⟨_, found⟩ := held
  exact found.get_of_le (chain.immutable path isImmutable)

end

theorem first_or_later {version : Nat} (found : s.At .pointer version author pointer) :
    version = 1 ∨ ∃ before author' pointer', version = before + 1 ∧ s.At .pointer before author' pointer' := by
  have positive := found.1
  have inside := found.le
  by_cases isFirst : version = 1
  · exact .inl isFirst
  · obtain ⟨author', pointer', found'⟩ := at_of_le (s := s) (k := .pointer) (show 0 < version - 1 by omega) (by omega)
    exact .inr ⟨version - 1, author', pointer', by omega, found'⟩

section

variable (chain : Chain sums s)
include chain

theorem of_pointer {s' : Objects W} (later : s ≤ s')
    (same : ∀ version author pointer, s'.At .pointer version author pointer → s.At .pointer version author pointer)
    (immutable : ∀ path, path.immutable = true → s'.version path ≤ 1)
    (named : ∀ path manifest, Holds s' (.manifest path) manifest → Holds s (.manifest path) manifest ∨
      path = catalog.manifestSnapshot manifest.manifestId ∧ (∃ number, IsNumber manifest.manifestId number) ∧
        (manifest.manifestId = initialManifestId → ∃ updatedAt, manifest = { updatedAt })) : Chain sums s' where
  immutable := immutable
  named path manifest held := by
    rcases named path manifest held with old | ⟨isPath, isNumber, _⟩
    · exact chain.named path manifest old
    · exact ⟨isPath, isNumber⟩
  initial manifest held := by
    rcases named _ manifest held with old | ⟨isPath, _, isInitial⟩
    · exact chain.initial manifest old
    · exact isInitial (manifestSnapshot_injective isPath).symm
  first author pointer found := by
    obtain ⟨isInitial, manifest, held⟩ := chain.first author pointer (same _ _ _ found)
    exact ⟨isInitial, manifest, held.mono later⟩
  linked version author pointer author' pointer' before after := by
    obtain ⟨previous, manifest, held, held', sameId, linked⟩ :=
      chain.linked version author pointer author' pointer' (same _ _ _ before) (same _ _ _ after)
    exact ⟨previous, manifest, held.mono later, held'.mono later, sameId, linked⟩

theorem version_write_le (writer : W) (value : Object path)
    (fresh : path.immutable = true → s.version path = 0) (path' : ObjectPath) (isImmutable : path'.immutable = true) :
    (s.write path writer value).version path' ≤ 1 :=
  Store.version_write_le (chain.immutable path' isImmutable) fun same => same ▸ fresh (same ▸ isImmutable)

/-- Objects other than pointers and manifests do not matter, as long as they are not written twice. -/
theorem write (path : ObjectPath) (writer : W) (value : Object path) (other : path ≠ .pointer)
    (noManifest : ∀ manifestPath, path ≠ .manifest manifestPath) (fresh : path.immutable = true → s.version path = 0) :
    Chain sums (s.write path writer value) :=
  chain.of_pointer (s.le_write path writer value) (fun _ _ _ found => (at_write_ne other.symm).mp found)
    (chain.version_write_le writer value fresh)
    fun manifestPath _ held => .inl ((holds_write_ne (noManifest manifestPath).symm).mp held)

theorem write_manifest (writer : W) (manifest : CatalogDomainManifest)
    (absent : s.version (.manifest (catalog.manifestSnapshot manifest.manifestId)) = 0)
    (isNumber : ∃ number, IsNumber manifest.manifestId number)
    (initial : manifest.manifestId = initialManifestId → ∃ updatedAt, manifest = { updatedAt }) :
    Chain sums (s.write (.manifest (catalog.manifestSnapshot manifest.manifestId)) writer manifest) := by
  refine chain.of_pointer (s.le_write (.manifest _) writer manifest) (fun _ _ _ found => (at_write_ne (by simp)).mp found)
    (chain.version_write_le writer manifest fun _ => absent) fun path manifest' held => ?_
  by_cases here : path = catalog.manifestSnapshot manifest.manifestId
  · subst here
    rw [(holds_write_fresh absent).mp held]
    exact .inr ⟨rfl, isNumber, initial⟩
  · exact .inl ((holds_write_ne (by simpa using here)).mp held)

theorem write_first (writer : W) (absent : s.version .pointer = 0) {updatedAt : Timestamp}
    (held : ∃ manifest, Holds s (.manifest (catalog.manifestSnapshot initialManifestId)) manifest) :
    Chain sums (s.write .pointer writer { updatedAt }) where
  immutable := chain.version_write_le writer _ (by simp [ObjectPath.immutable])
  named path manifest held := chain.named path manifest ((holds_write_ne (by simp)).mp held)
  initial manifest held := chain.initial manifest ((holds_write_ne (by simp)).mp held)
  first author pointer found := by
    rcases at_write_same.mp found with old | ⟨_, _, rfl⟩
    · exact absurd old.le (by omega)
    · exact ⟨⟨updatedAt, rfl⟩, held.imp fun _ held => held.mono (s.le_write .pointer writer _)⟩
  linked version author pointer author' pointer' before after := by
    have bound := after.le
    have positive := before.1
    rw [version_write_self, absent] at bound
    omega

theorem publish (writer : W) {pointer' : DomainManifestPointer}
    {previous manifest : CatalogDomainManifest} (current : s.At .pointer (s.version .pointer) author pointer)
    (held : Holds s (.manifest pointer.manifestPath) previous)
    (held' : Holds s (.manifest pointer'.manifestPath) manifest)
    (sameId : pointer'.manifestId = manifest.manifestId)
    (linked : Linked sums pointer.manifestPath previous manifest) : Chain sums (s.write .pointer writer pointer') where
  immutable := chain.version_write_le writer _ (by simp [ObjectPath.immutable])
  named path manifest held := chain.named path manifest ((holds_write_ne (by simp)).mp held)
  initial manifest held := chain.initial manifest ((holds_write_ne (by simp)).mp held)
  first author' pointer'' found := by
    have positive := current.1
    rcases at_write_same.mp found with old | ⟨_, _⟩
    · obtain ⟨isInitial, manifest, held⟩ := chain.first author' pointer'' old
      exact ⟨isInitial, manifest, held.mono (s.le_write .pointer writer pointer')⟩
    · omega
  linked version author₁ pointer₁ author₂ pointer₂ before after := by
    have grown := s.le_write .pointer writer pointer'
    have bound := after.le
    rw [version_write_self] at bound
    have known := (at_write_same.mp before).resolve_right fun isLast => by omega
    rcases at_write_same.mp after with old | ⟨_, _, rfl⟩
    · obtain ⟨previous, manifest, held, held', sameId, linked⟩ :=
        chain.linked version author₁ pointer₁ author₂ pointer₂ known old
      exact ⟨previous, manifest, held.mono grown, held'.mono grown, sameId, linked⟩
    · obtain rfl : version = s.version .pointer := by omega
      obtain ⟨_, rfl⟩ := current.unique known
      exact ⟨previous, manifest, held.mono grown, held'.mono grown, sameId, linked⟩

end

theorem empty : Chain sums ({} : Objects W) where
  immutable _ _ := Nat.zero_le 1
  named _ _ held := absurd held.positive (Nat.lt_irrefl 0)
  initial _ held := absurd held.positive (Nat.lt_irrefl 0)
  first _ _ found := absurd found.le (Nat.not_succ_le_zero 0)
  linked version _ _ _ _ _ found := absurd found.le (Nat.not_succ_le_zero version)

end Chain

end Arco.Catalog.Tier1
