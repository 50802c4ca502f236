import Mathlib.Data.List.TakeWhile
import Arco.Catalog.Paths
import Arco.Data.Percent
import Arco.Data.Segments

/-! Governed paths: the canonical form of a storage URI.

A canonical path is a list of segments, and one path contains another if its segments are a prefix. The
canonical URI is read back as the same path unless a decoded segment has a percent sign.
-/

namespace Arco.Governance

open Arco.Catalog (CatalogError)
open Results Segments List Text Except Percent

structure GovernedPath where
  scheme : String
  authority : Option String
  path : String
  deriving DecidableEq

def validation (message : String) : CatalogError := .validation message

def percentDecode (value : String) : Except CatalogError String :=
  (decode value).mapError fun
    | .incomplete => validation "incomplete percent encoding"
    | .invalid => validation "invalid percent encoding"
    | .notUtf8 => validation "percent-decoded path is not UTF-8"

def canonicalSegment (rawSegment : String) : Except CatalogError String := do
  let segment ← percentDecode rawSegment
  refuse (segment = "." ∨ segment = "..") (validation "path traversal segments are not allowed")
  refuse ('/' ∈ segment.toList ∨ '\\' ∈ segment.toList) (validation "encoded path separators are not allowed")
  return segment

/-- The part of `canonical_path` behind the loop. -/
def joinSegments (segments : List String) (absolute : Bool) : String :=
  let canonical := "/" ++ "/".intercalate segments
  let canonical := if canonical.toList.getLast? = some '/' then canonical else canonical ++ "/"
  if absolute ∧ canonical.toList.head? ≠ some '/' then "/" ++ canonical else canonical

def canonicalPath (path : String) (absolute : Bool) : Except CatalogError String := do
  let segments ← ((splitString '/' path).filter (· ≠ "")).mapM canonicalSegment
  return joinSegments segments absolute

def parseCloudUri (scheme rest : String) : Except CatalogError GovernedPath := do
  let (authority, path) := (splitOnce '/' rest).getD (rest, "")
  refuse (authority = "") (validation "cloud URI authority must not be empty")
  return {
    scheme
    authority := some (toAsciiLowercase authority)
    path := ← canonicalPath path false }

def parseFileUri (rest : String) : Except CatalogError GovernedPath := do
  return { scheme := "file", authority := none, path := ← canonicalPath rest true }

namespace GovernedPath

def parse (raw : String) : Except CatalogError GovernedPath :=
  match splitOnceString "://" raw with
  | none => .error (validation "path must include a URI scheme")
  | some (scheme, rest) =>
    let scheme := toAsciiLowercase scheme
    if scheme = "gs" ∨ scheme = "s3" ∨ scheme = "abfss" then parseCloudUri scheme rest
    else if scheme = "file" then parseFileUri rest
    else .error (validation s!"unsupported URI scheme '{scheme}'")

def canonicalUri (path : GovernedPath) : String :=
  match path.authority with
  | none => s!"{path.scheme}://{path.path}"
  | some authority => s!"{path.scheme}://{authority}{path.path}"

def contains (path candidate : GovernedPath) : Bool :=
  path.scheme = candidate.scheme ∧ path.authority = candidate.authority ∧ path.path.toList <+: candidate.path.toList

def overlaps (path other : GovernedPath) : Bool :=
  path.scheme = other.scheme ∧ path.authority = other.authority ∧
    (other.path.toList <+: path.path.toList ∨ path.path.toList <+: other.path.toList)

end GovernedPath

example : (GovernedPath.parse "S3://Bucket//a/%7Eb").map GovernedPath.canonicalUri = .ok "s3://bucket/a/~b/" := by
  decide +kernel

variable {segment raw rest : String} {segments : List (List Char)} {path : GovernedPath}

theorem percentDecode_eq_ok {value : String} :
    percentDecode value = .ok segment ↔ decode value = .ok segment := by
  unfold percentDecode
  cases decode value with
  | error error | ok decoded => simp [Except.mapError]

/-- What a segment of a canonical path is. -/
structure IsSegment (segment : List Char) : Prop where
  filled : segment ≠ []
  noSlash : '/' ∉ segment
  noBackslash : '\\' ∉ segment
  noTraversal : segment ≠ ['.'] ∧ segment ≠ ['.', '.']

theorem canonicalSegment_eq_ok (filled : raw ≠ "") :
    canonicalSegment raw = .ok segment ↔ decode raw = .ok segment ∧ IsSegment segment.toList := by
  simp only [canonicalSegment, bind_eq_ok, percentDecode_eq_ok, refuse_eq_ok, pure, Except.pure, ok.injEq,
    decide_eq_false_iff_not, not_or]
  constructor
  · rintro ⟨segment, decoded, -, ⟨noDot, noDots⟩, -, ⟨noSlash, noBackslash⟩, rfl⟩
    refine ⟨decoded, ?_, noSlash, noBackslash, ?_, ?_⟩
    · intro empty
      obtain rfl : segment = "" := String.toList_inj.mp empty
      exact filled (decode_eq_empty decoded)
    · exact fun same => noDot (String.toList_inj.mp same)
    · exact fun same => noDots (String.toList_inj.mp same)
  · rintro ⟨decoded, isSegment⟩
    refine ⟨segment, decoded, (), ⟨?_, ?_⟩, (), ⟨isSegment.noSlash, isSegment.noBackslash⟩, rfl⟩
    · rintro rfl
      exact isSegment.noTraversal.1 rfl
    · rintro rfl
      exact isSegment.noTraversal.2 rfl

def pathOf (segments : List (List Char)) : String := String.ofList ('/' :: closed '/' segments)

def Decodes (raw segments : List (List Char)) : Prop :=
  Forall₂ (fun raw segment => decode (String.ofList raw) = .ok (String.ofList segment) ∧ IsSegment segment)
    raw segments

theorem Decodes.isSegment {raw : List (List Char)} (decodes : Decodes raw segments) :
    ∀ segment ∈ segments, IsSegment segment := by
  induction decodes with
  | nil => simp
  | cons first _ ih => exact forall_mem_cons.mpr ⟨first.2, ih⟩

theorem nonempty_splitString (path : String) :
    (splitString '/' path).filter (· ≠ "") = (parts '/' path.toList).map String.ofList := by
  rw [splitString, filter_map, parts]
  congr 1
  refine filter_congr fun segment _ => ?_
  simp

theorem join_closed (areSegments : ∀ segment ∈ segments, IsSegment segment) :
    (if ('/' :: ['/'].intercalate segments).getLast? = some '/' then '/' :: ['/'].intercalate segments
      else '/' :: ['/'].intercalate segments ++ ['/']) = '/' :: closed '/' segments := by
  by_cases empty : segments = []
  · subst empty
    rfl
  · have free : ∀ segment ∈ segments, '/' ∉ segment := fun segment member => (areSegments segment member).noSlash
    have notEnded : ¬ ('/' :: ['/'].intercalate segments).getLast? = some '/' := by
      intro last
      refine (areSegments [] (splitChars_intercalate empty free ▸ nil_mem_splitChars ?_)).filled rfl
      rw [getLast?_cons] at last
      cases isLast : (['/'].intercalate segments).getLast? with
      | none => exact .inl (getLast?_eq_none_iff.mp isLast)
      | some c =>
        rw [isLast] at last
        exact .inr last
    rw [if_neg notEnded, cons_append, intercalate_append empty]

theorem joinSegments_eq (areSegments : ∀ segment ∈ segments, IsSegment segment) (absolute : Bool) :
    joinSegments (segments.map String.ofList) absolute = pathOf segments := by
  have chars : ("/" ++ "/".intercalate (segments.map String.ofList)).toList = '/' :: ['/'].intercalate segments := by
    simp
  unfold joinSegments
  generalize "/" ++ "/".intercalate (segments.map String.ofList) = text at chars
  have closed : (if text.toList.getLast? = some '/' then text else text ++ "/") = pathOf segments := by
    rw [← String.toList_inj, apply_ite String.toList, String.toList_append, chars]
    exact (join_closed areSegments).trans String.toList_ofList.symm
  simp only [closed]
  -- The path starts with a slash already.
  simp [pathOf]

theorem mapM_canonicalSegment {raw : List (List Char)} (filled : ∀ segment ∈ raw, segment ≠ []) {segments : List String} :
    (raw.map String.ofList).mapM canonicalSegment = .ok segments ↔ Decodes raw (segments.map String.toList) := by
  have each : ∀ {raw : List Char} {segment : String}, raw ≠ [] → (canonicalSegment (String.ofList raw) = .ok segment ↔
      decode (String.ofList raw) = .ok (String.ofList segment.toList) ∧ IsSegment segment.toList) := by
    intro raw segment filled
    rw [String.ofList_toList]
    exact canonicalSegment_eq_ok (by simpa using filled)
  rw [mapM_eq_ok, Decodes, forall₂_map_left_iff, forall₂_map_right_iff]
  constructor
  · intro decodes
    exact ((forall₂_and_left _ _).mpr ⟨filled, decodes⟩).imp fun _ _ both => (each both.1).mp both.2
  · intro decodes
    exact ((forall₂_and_left _ _).mpr ⟨filled, decodes⟩).imp fun _ _ both => (each both.1).mpr both.2

theorem canonicalPath_eq_ok {path canonical : String} {absolute : Bool} :
    canonicalPath path absolute = .ok canonical ↔
      ∃ segments, Decodes (parts '/' path.toList) segments ∧ canonical = pathOf segments := by
  have filled : ∀ segment ∈ parts '/' path.toList, segment ≠ [] := fun _ member => (mem_parts.mp member).2
  simp only [canonicalPath, nonempty_splitString, bind_eq_ok, mapM_canonicalSegment filled, pure, Except.pure,
    ok.injEq]
  constructor
  · rintro ⟨segments, decodes, rfl⟩
    refine ⟨_, decodes, ?_⟩
    rw [← joinSegments_eq decodes.isSegment absolute]
    simp
  · rintro ⟨segments, decodes, rfl⟩
    refine ⟨segments.map String.ofList, ?_, joinSegments_eq decodes.isSegment absolute⟩
    simpa using decodes

/-- A URI as it is written: a cloud URI has an authority, and a file URI has none. -/
structure Address where
  scheme : List Char
  authority : Option (List Char)
  tail : List Char
  deriving DecidableEq

namespace Address

def chars (address : Address) : List Char :=
  address.scheme ++ "://".toList ++ (address.authority.getD [] ++ address.tail)

def isCloud (scheme : List Char) : Bool :=
  scheme.map Char.toLower = "gs".toList ∨ scheme.map Char.toLower = "s3".toList ∨
    scheme.map Char.toLower = "abfss".toList

def isFile (scheme : List Char) : Bool := scheme.map Char.toLower = "file".toList

inductive Valid : Address → Prop where
  | cloud {scheme authority tail : List Char} (isCloud : isCloud scheme = true) (some : authority ≠ [])
      (free : '/' ∉ authority) (behind : tail = [] ∨ tail.head? = .some '/') :
      Valid { scheme, authority := .some authority, tail }
  | file {scheme tail : List Char} (isFile : isFile scheme = true) : Valid { scheme, authority := none, tail }

def read (raw : List Char) : Option Address := do
  let (scheme, rest) ← splitOnceChars "://".toList raw
  if isCloud scheme then
    if rest.takeWhile (· ≠ '/') = [] then none
    else some { scheme, authority := rest.takeWhile (· ≠ '/'), tail := rest.dropWhile (· ≠ '/') }
  else if isFile scheme then some { scheme, authority := none, tail := rest }
  else none

theorem head?_dropWhile (rest : List Char) :
    rest.dropWhile (· ≠ '/') = [] ∨ (rest.dropWhile (· ≠ '/')).head? = some '/' := by
  have stops := head?_dropWhile_not (· ≠ '/') rest
  cases isHead : (rest.dropWhile (· ≠ '/')).head? with
  | none => exact .inl (head?_eq_none_iff.mp isHead)
  | some c =>
    rw [isHead] at stops
    exact .inr (by simpa using stops)

theorem of_read {raw : List Char} {address : Address} (found : read raw = some address) :
    address.Valid ∧ raw = address.chars := by
  obtain ⟨⟨_, rest⟩, split, found⟩ := Option.bind_eq_some_iff.mp found
  have isRaw := eq_append_of_splitOnceChars split
  simp only at found
  split at found
  · rename_i isCloud
    split at found
    · cases found
    · rename_i some
      obtain rfl := Option.some.inj found
      refine ⟨.cloud isCloud some ?_ ?_, ?_⟩
      · intro member
        simpa using mem_takeWhile_imp member
      · exact head?_dropWhile rest
      · rw [isRaw, chars, Option.getD_some, takeWhile_append_dropWhile]
  · split at found
    · rename_i isFile
      obtain rfl := Option.some.inj found
      exact ⟨.file isFile, isRaw⟩
    · cases found

variable {scheme : List Char}

theorem colon_not_mem (known : isCloud scheme = true ∨ isFile scheme = true) : ':' ∉ scheme := by
  rw [← mem_map_toLower (by decide)]
  simp only [isCloud, isFile, decide_eq_true_eq] at known
  obtain (lower | lower | lower) | lower := known
  all_goals
    rw [lower]
    decide

theorem not_isFile (cloud : isFile scheme = true) : isCloud scheme = false := by
  simp only [isFile, decide_eq_true_eq] at cloud
  simp [isCloud, cloud]

theorem split_chars (known : isCloud scheme = true ∨ isFile scheme = true) (rest : List Char) :
    splitOnceChars "://".toList (scheme ++ "://".toList ++ rest) = some (scheme, rest) :=
  splitOnceChars_append (colon_not_mem known) rest

theorem span_authority {authority tail : List Char} (free : '/' ∉ authority) (behind : tail = [] ∨ tail.head? = some '/') :
    (authority ++ tail).takeWhile (· ≠ '/') = authority ∧ (authority ++ tail).dropWhile (· ≠ '/') = tail := by
  have before : ∀ c ∈ authority, decide (c ≠ '/') = true := by
    intro c member
    exact decide_eq_true fun same => free (same ▸ member)
  rw [takeWhile_append_of_pos before, dropWhile_append_of_pos before]
  obtain rfl | first := behind
  · simp
  · obtain ⟨_, rfl⟩ := head?_eq_some_iff.mp first
    simp

theorem read_chars {address : Address} (valid : address.Valid) : read address.chars = some address := by
  cases valid with
  | @cloud scheme authority tail cloud some free behind =>
    obtain ⟨taken, dropped⟩ := span_authority free behind
    simp only [read, chars, Option.getD_some, split_chars (.inl cloud), Option.bind_eq_bind, Option.bind_some, cloud,
      taken, dropped, some, if_true, if_false]
  | @file scheme tail file =>
    simp only [read, chars, Option.getD_none, nil_append, split_chars (.inr file), Option.bind_eq_bind,
      Option.bind_some, not_isFile file, file, if_true, Bool.false_eq_true, if_false]

def governed (address : Address) (segments : List (List Char)) : GovernedPath where
  scheme := String.ofList (address.scheme.map Char.toLower)
  authority := address.authority.map fun authority => String.ofList (authority.map Char.toLower)
  path := pathOf segments

end Address

theorem splitOnce_eq : (splitOnce '/' rest).getD (rest, "") =
      (String.ofList (rest.toList.takeWhile (· ≠ '/')), String.ofList (rest.toList.dropWhile (· ≠ '/')).tail) := by
  unfold splitOnce
  cases isTail : rest.toList.dropWhile (· ≠ '/') with
  | nil =>
    have whole := takeWhile_append_dropWhile (p := (· ≠ '/')) (l := rest.toList)
    rw [isTail, append_nil] at whole
    rw [whole]
    simp
  | cons c path => simp

theorem parts_tail {tail : List Char} (behind : tail = [] ∨ tail.head? = some '/') : parts '/' tail.tail = parts '/' tail := by
  obtain rfl | first := behind
  · rfl
  · obtain ⟨_, rfl⟩ := head?_eq_some_iff.mp first
    simp [parts, splitChars]

theorem toAsciiLowercase_eq_iff {chars : List Char} {text : String} :
    toAsciiLowercase (String.ofList chars) = text ↔ chars.map Char.toLower = text.toList := by
  rw [toAsciiLowercase, String.toList_ofList, ← String.toList_inj, String.toList_ofList]

theorem parseCloudUri_eq_ok {scheme : String} :
    parseCloudUri scheme rest = .ok path ↔ rest.toList.takeWhile (· ≠ '/') ≠ [] ∧
      ∃ segments, Decodes (parts '/' (rest.toList.dropWhile (· ≠ '/'))) segments ∧
        path = ⟨scheme, some (String.ofList ((rest.toList.takeWhile (· ≠ '/')).map Char.toLower)), pathOf segments⟩ := by
  have behind := Address.head?_dropWhile rest.toList
  rw [parseCloudUri, splitOnce_eq]
  simp only [bind_eq_ok, refuse_eq_ok, canonicalPath_eq_ok, String.toList_ofList, parts_tail behind, toAsciiLowercase,
    decide_eq_false_iff_not, pure, Except.pure, ok.injEq]
  constructor
  · rintro ⟨_, some, _, ⟨segments, decodes, rfl⟩, rfl⟩
    exact ⟨fun empty => some (by rw [empty, String.ofList_nil]), segments, decodes, rfl⟩
  · rintro ⟨some, segments, decodes, rfl⟩
    exact ⟨(), fun empty => some (by simpa using empty), _, ⟨segments, decodes, rfl⟩, rfl⟩

theorem parseFileUri_eq_ok : parseFileUri rest = .ok path ↔
      ∃ segments, Decodes (parts '/' rest.toList) segments ∧ path = ⟨"file", none, pathOf segments⟩ := by
  simp only [parseFileUri, bind_eq_ok, canonicalPath_eq_ok, pure, Except.pure, ok.injEq]
  constructor
  · rintro ⟨_, ⟨segments, decodes, rfl⟩, rfl⟩
    exact ⟨segments, decodes, rfl⟩
  · rintro ⟨segments, decodes, rfl⟩
    exact ⟨_, ⟨segments, decodes, rfl⟩, rfl⟩

theorem parse_eq_ok : GovernedPath.parse raw = .ok path ↔ ∃ address, Address.read raw.toList = some address ∧
        ∃ segments, Decodes (parts '/' address.tail) segments ∧ path = address.governed segments := by
  unfold GovernedPath.parse splitOnceString Address.read
  cases splitOnceChars "://".toList raw.toList with
  | none => simp
  | some split =>
    obtain ⟨scheme, rest⟩ := split
    simp only [Option.map_some, toAsciiLowercase_eq_iff, Option.bind_eq_bind, Option.bind_some]
    by_cases cloud : Address.isCloud scheme = true
    · rw [if_pos (by simpa [Address.isCloud] using cloud), if_pos cloud, parseCloudUri_eq_ok, String.toList_ofList]
      by_cases some : rest.takeWhile (· ≠ '/') = []
      · rw [if_pos some]
        simp only [some, ne_eq, not_true_eq_false, false_and, reduceCtorEq, exists_false]
      · rw [if_neg some]
        simp only [ne_eq, some, not_false_eq_true, true_and, Option.some.injEq, Address.governed, toAsciiLowercase,
          exists_eq_left', Option.map_some, String.toList_ofList]
    · rw [if_neg (by simpa [Address.isCloud] using cloud), if_neg cloud]
      by_cases file : Address.isFile scheme = true
      · have lower : scheme.map Char.toLower = "file".toList := by simpa [Address.isFile] using file
        rw [if_pos lower, if_pos file, parseFileUri_eq_ok, String.toList_ofList]
        simp [Address.governed, lower]
      · rw [if_neg (by simpa [Address.isFile] using file), if_neg file]
        simp

namespace GovernedPath

def address (path : GovernedPath) : Address where
  scheme := path.scheme.toList
  authority := path.authority.map String.toList
  tail := path.path.toList

theorem canonicalUri_chars (path : GovernedPath) : path.canonicalUri.toList = path.address.chars := by
  unfold canonicalUri
  cases authority : path.authority with
  | none | some authority' => simp [Address.chars, address, authority, ToString.toString]

theorem overlaps_comm (path other : GovernedPath) : path.overlaps other = other.overlaps path := by
  refine decide_eq_decide.mpr ?_
  rw [eq_comm (a := path.scheme), eq_comm (a := path.authority), or_comm]

theorem contains_self : path.contains path = true := by
  simp [contains]

theorem canonicalUri_starts {path candidate : GovernedPath} (inside : path.contains candidate = true) :
    path.canonicalUri.toList <+: candidate.canonicalUri.toList := by
  simp only [contains, decide_eq_true_eq] at inside
  obtain ⟨scheme, authority, isPrefix⟩ := inside
  rw [canonicalUri_chars, canonicalUri_chars, Address.chars, Address.chars]
  simp only [address, scheme, authority]
  exact (prefix_append_right_inj _).mpr ((prefix_append_right_inj _).mpr isPrefix)

end GovernedPath

theorem Address.address_governed (a : Address) :
    (a.governed segments).address = {
      scheme := a.scheme.map Char.toLower
      authority := a.authority.map (map Char.toLower)
      tail := '/' :: closed '/' segments } := by
  cases a with
  | mk scheme authority tail => cases authority <;> simp [governed, GovernedPath.address, pathOf]

theorem Address.valid_governed {a : Address} (valid : a.Valid) (segments : List (List Char)) :
    (a.governed segments).address.Valid := by
  rw [address_governed]
  cases valid with
  | cloud cloud some free _ =>
    refine .cloud ?_ (by simpa using some) ?_ (.inr rfl)
    · simpa only [isCloud, map_toLower_map_toLower] using cloud
    · rwa [mem_map_toLower (by decide)]
  | file file =>
    refine .file ?_
    simpa only [isFile, map_toLower_map_toLower] using file

theorem parts_path (areSegments : ∀ segment ∈ segments, IsSegment segment) :
    parts '/' ('/' :: closed '/' segments) = segments := by
  have inside := parts_closed (fun _ member => (areSegments _ member).noSlash)
    (fun _ member => (areSegments _ member).filled) ([] : List Char)
  simpa [parts, splitChars] using inside

theorem Address.governed_governed (a : Address) {others : List (List Char)}
    (areSegments : ∀ segment ∈ segments, IsSegment segment) (areOthers : ∀ segment ∈ others, IsSegment segment) :
    a.governed segments = (a.governed segments).address.governed others ↔ segments = others := by
  constructor
  · intro same
    have paths := String.ofList_injective (congrArg GovernedPath.path same)
    exact closed_injective (fun _ member => (areSegments _ member).noSlash)
      (fun _ member => (areOthers _ member).noSlash) (cons.inj paths).2
  · rintro rfl
    rw [address_governed]
    cases a with
    | mk scheme authority tail =>
      cases authority <;> simp only [governed, Option.map_none, Option.map_some, map_toLower_map_toLower]

theorem decodes_self_iff (areSegments : ∀ segment ∈ segments, IsSegment segment) :
    Decodes segments segments ↔ '%' ∉ '/' :: closed '/' segments := by
  have absent : '%' ∉ '/' :: closed '/' segments ↔ ∀ segment ∈ segments, '%' ∉ segment := by
    simp [closed]
  rw [absent, Decodes, forall₂_same]
  refine forall₂_congr fun segment member => ?_
  rw [decode_eq_self_iff, String.toList_ofList]
  exact and_iff_left (areSegments segment member)

theorem Decodes.eq_of_not_mem {raw : List (List Char)} (decodes : Decodes raw segments)
    (absent : ∀ segment ∈ raw, '%' ∉ segment) : segments = raw := by
  induction decodes with
  | nil => rfl
  | @cons raw segment _ _ first _ ih =>
    obtain ⟨_, absent⟩ := forall_mem_cons.mp absent
    have itself : decode (String.ofList raw) = .ok (String.ofList raw) := by
      rwa [decode_eq_self_iff, String.toList_ofList]
    rw [itself] at first
    rw [ih absent, String.ofList_injective (ok.inj first.1)]

/-- A percent sign does not come out of decoding if there was none. -/
theorem percent_not_mem_path (parsed : GovernedPath.parse raw = .ok path) (absent : '%' ∉ raw.toList) :
    '%' ∉ path.path.toList := by
  obtain ⟨a, isRead, segments, decodes, rfl⟩ := parse_eq_ok.mp parsed
  have inTail : '%' ∉ a.tail := by
    intro member
    rw [(Address.of_read isRead).2] at absent
    exact absent (mem_append_right _ (mem_append_right _ member))
  have written := decodes.eq_of_not_mem fun segment isSegment inside =>
    inTail (mem_of_mem_parts isSegment inside (by decide))
  rw [show (a.governed segments).path.toList = '/' :: closed '/' segments from String.toList_ofList,
    ← decodes_self_iff decodes.isSegment]
  exact written ▸ decodes

/-- The canonical URI is read back as the path, unless it has a percent sign. -/
theorem parse_canonicalUri (parsed : GovernedPath.parse raw = .ok path) :
    GovernedPath.parse path.canonicalUri = .ok path ↔ '%' ∉ path.path.toList := by
  obtain ⟨a, isRead, segments, decodes, rfl⟩ := parse_eq_ok.mp parsed
  have isReadBack := Address.read_chars (Address.valid_governed (Address.of_read isRead).1 segments)
  have areSegments := decodes.isSegment
  rw [parse_eq_ok, GovernedPath.canonicalUri_chars, isReadBack]
  simp only [Option.some.injEq, exists_eq_left']
  rw [show (a.governed segments).address.tail = '/' :: closed '/' segments from String.toList_ofList,
    show (a.governed segments).path.toList = '/' :: closed '/' segments from String.toList_ofList,
    parts_path areSegments, ← decodes_self_iff areSegments]
  constructor
  · rintro ⟨_, isOther, same⟩
    rwa [← (a.governed_governed areSegments isOther.isSegment).mp same] at isOther
  · intro isSame
    exact ⟨segments, isSame, (a.governed_governed areSegments areSegments).mpr rfl⟩

example : GovernedPath.parse "s3://b/100%25" = .ok ⟨"s3", some "b", "/100%/"⟩ := by decide +kernel

end Arco.Governance
