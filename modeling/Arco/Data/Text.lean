import Mathlib.Algebra.Ring.Int.Defs
import Mathlib.Algebra.Ring.Nat
import Mathlib.Data.List.Basic

/-! String functions of the Rust standard library, on lists of characters so that they
compute in the kernel. -/

namespace Text

open List Option String

def splitChars (separator : Char) : List Char → List (List Char)
  | [] => [[]]
  | c :: rest =>
    if c = separator then [] :: splitChars separator rest
    else match splitChars separator rest with
      | [] => [[c]]
      | first :: others => (c :: first) :: others

def splitString (separator : Char) (s : String) : List String :=
  (splitChars separator s.toList).map ofList

def splitOnce (separator : Char) (s : String) : Option (String × String) :=
  match s.toList.dropWhile (· ≠ separator) with
  | [] => none
  | _ :: rest => some (ofList (s.toList.takeWhile (· ≠ separator)), ofList rest)

def splitOnceChars (pattern : List Char) : List Char → Option (List Char × List Char)
  | [] => if pattern = [] then some ([], []) else none
  | c :: rest =>
    if pattern.isPrefixOf (c :: rest) then some ([], (c :: rest).drop pattern.length)
    else (splitOnceChars pattern rest).map fun (before, after) => (c :: before, after)

/-- `str::split_once`, for a pattern that is a string. -/
def splitOnceString (pattern s : String) : Option (String × String) :=
  (splitOnceChars pattern.toList s.toList).map fun (before, after) => (ofList before, ofList after)

/-- `str::to_ascii_lowercase`. -/
def toAsciiLowercase (s : String) : String := ofList (s.toList.map Char.toLower)

/-- `str::to_ascii_uppercase`. -/
def toAsciiUppercase (s : String) : String := ofList (s.toList.map Char.toUpper)

def parseDigits : Nat → List Char → Option Nat
  | value, [] => some value
  | value, c :: rest => if c.isDigit then parseDigits (value * 10 + (c.toNat - '0'.toNat)) rest else none

def parseDecimal : List Char → Option Nat
  | [] => none
  | c :: rest => parseDigits 0 (c :: rest)

/-- `str::parse::<u32>`. -/
def parseU32 (s : String) : Option Nat :=
  let digits := match s.toList with
    | '+' :: rest => rest
    | chars => chars
  (parseDecimal digits).filter (· < 2 ^ 32)

/-- `str::parse::<i64>`. -/
def parseI64 (s : String) : Option Int :=
  match s.toList with
  | '-' :: rest => ((parseDecimal rest).filter (· ≤ 2 ^ 63)).map fun n => -(n : Int)
  | '+' :: rest => ((parseDecimal rest).filter (· < 2 ^ 63)).map fun n => (n : Int)
  | chars => ((parseDecimal chars).filter (· < 2 ^ 63)).map fun n => (n : Int)

/-- `char::is_whitespace`. -/
def isWhitespace (c : Char) : Bool :=
  let n := c.toNat
  (9 ≤ n ∧ n ≤ 13) ∨ n = 0x20 ∨ n = 0x85 ∨ n = 0xA0 ∨ n = 0x1680 ∨ (0x2000 ≤ n ∧ n ≤ 0x200A) ∨ n = 0x2028 ∨
    n = 0x2029 ∨ n = 0x202F ∨ n = 0x205F ∨ n = 0x3000

/-- `str::trim`. -/
def trim (s : String) : String :=
  ofList ((s.toList.dropWhile isWhitespace).reverse.dropWhile isWhitespace).reverse

/-- `str::strip_prefix`. -/
def stripPrefix (start s : String) : Option String :=
  if start.toList.isPrefixOf s.toList then some (ofList (s.toList.drop start.toList.length)) else none

/-- `str::strip_suffix`. -/
def stripSuffix (ending s : String) : Option String :=
  if ending.toList.isSuffixOf s.toList then
    some (ofList (s.toList.take (s.toList.length - ending.toList.length)))
  else none

def afterLast (separator : Char) (s : String) : String :=
  ofList (s.toList.reverse.takeWhile (· ≠ separator)).reverse

/-- The extension of the last component of a path: what follows its last dot, if something precedes it. -/
def pathExtension (path : String) : Option String :=
  match ((splitString '/' path).filter fun part => part ≠ "" ∧ part ≠ ".").getLast? with
  | none | some ".." => none
  | some fileName =>
    match (fileName.toList.reverse.dropWhile (· ≠ '.')).tail with
    | [] => none
    | _ => some (afterLast '.' fileName)

/-- `str::eq_ignore_ascii_case`. -/
def eqIgnoreAsciiCase (a b : String) : Bool := a.toList.map Char.toLower = b.toList.map Char.toLower

def zeroPadded (width value : Nat) : String := ofList ((Nat.toDigits 10 value).leftpad width '0')

variable {chars front pattern : List Char} {c separator d : Char}

theorem parseDigits_of_isDigit (digits : ∀ c ∈ chars, c.isDigit = true) (value : Nat) :
    parseDigits value chars = some (Nat.ofDigitChars 10 chars value) := by
  induction chars generalizing value with
  | nil => rfl
  | cons c rest ih =>
    simp only [parseDigits, digits c mem_cons_self, if_true, Nat.ofDigitChars_cons]
    rw [ih fun c member => digits c (mem_cons_of_mem _ member), Nat.mul_comm]

theorem isDigit_of_mem_toString {n : Nat} (member : c ∈ (toString n).toList) : c.isDigit = true := by
  rw [show (toString n).toList = Nat.toDigits 10 n from toList_ofList] at member
  exact Nat.isDigit_of_mem_toDigits (by decide) (by decide) member

theorem parseDecimal_toString (n : Nat) :
    parseDecimal (toString n).toList = some n ∧ ∃ c rest, (toString n).toList = c :: rest ∧ c.isDigit = true := by
  have digits : (toString n).toList = Nat.toDigits 10 n := toList_ofList
  cases chars : (toString n).toList with
  | nil => exact absurd (digits.symm.trans chars) Nat.toDigits_ne_nil
  | cons c rest =>
    refine ⟨?_, c, rest, rfl, isDigit_of_mem_toString (n := n) (by rw [chars]; exact mem_cons_self)⟩
    rw [parseDecimal, ← chars, parseDigits_of_isDigit fun _ => isDigit_of_mem_toString, digits,
      Nat.ofDigitChars_ten_toDigits]

theorem toString_injective : Function.Injective (toString : Nat → String) := by
  intro n m same
  have parsed := (parseDecimal_toString n).1
  rw [same, (parseDecimal_toString m).1] at parsed
  exact (some.inj parsed).symm

theorem parseU32_toString {n : Nat} (small : n < 2 ^ 32) : parseU32 (toString n) = some n := by
  obtain ⟨parsed, c, _, chars, digit⟩ := parseDecimal_toString n
  unfold parseU32
  split
  · rename_i sign
    cases chars.symm.trans sign
    exact absurd digit (by decide)
  · dsimp only
    rw [parsed, filter_some, if_pos (by simpa using small)]

theorem parseI64_toString {i : Int} (low : -2 ^ 63 ≤ i) (high : i < 2 ^ 63) : parseI64 (toString i) = some i := by
  cases i with
  | ofNat n =>
    obtain ⟨parsed, c, _, chars, digit⟩ := parseDecimal_toString n
    have text : (toString (Int.ofNat n)).toList = (toString n).toList := rfl
    rw [parseI64, text]
    split
    · rename_i sign
      cases chars.symm.trans sign
      exact absurd digit (by decide)
    · rename_i sign
      cases chars.symm.trans sign
      exact absurd digit (by decide)
    · have small : n < 2 ^ 63 := by
        rw [Int.ofNat_eq_natCast] at high
        omega
      rw [parsed, filter_some, if_pos (by simpa using small)]
      rfl
  | negSucc n =>
    have text : (toString (Int.negSucc n)).toList = '-' :: (toString (n + 1)).toList := by
      rw [show toString (Int.negSucc n) = "-" ++ toString (n + 1) from rfl, toList_append]
      rfl
    have small : n + 1 ≤ 2 ^ 63 := by
      omega
    rw [parseI64, text]
    split
    · rename_i same
      obtain rfl := (cons.inj same).2
      rw [(parseDecimal_toString (n + 1)).1, filter_some, if_pos (by simpa using small)]
      rfl
    · rename_i same
      exact absurd (cons.inj same).1 (by decide)
    · rename_i other _
      exact absurd rfl (other _)

theorem append_cons_injective {front' back back' : List Char} (free : separator ∉ front) (free' : separator ∉ front')
    (same : front ++ separator :: back = front' ++ separator :: back') : front = front' ∧ back = back' := by
  induction front generalizing front' with
  | nil => cases front' <;> grind
  | cons c rest ih => cases front' <;> grind

theorem stripPrefix_eq_some {start s rest : String} :
    stripPrefix start s = some rest ↔ s.toList = start.toList ++ rest.toList := by
  unfold stripPrefix
  split
  · rename_i starts
    obtain ⟨_, isText⟩ := isPrefixOf_iff_prefix.mp starts
    rw [← isText, drop_left, append_cancel_left_eq, some.injEq, ← toList_inj, toList_ofList]
  · rename_i otherwise
    refine ⟨nofun, fun isText => absurd ( isPrefixOf_iff_prefix.mpr ?_) otherwise⟩
    exact isText ▸ prefix_append _ _

theorem stripSuffix_eq_none {ending s : String} (otherwise : ¬ ending.toList <:+ s.toList) :
    stripSuffix ending s = none := by
  rw [stripSuffix, if_neg]
  rwa [isSuffixOf_iff_suffix]

theorem splitChars_of_not_mem (absent : separator ∉ chars) : splitChars separator chars = [chars] := by
  induction chars with
  | nil => rfl
  | cons c rest ih =>
    simp only [mem_cons, not_or] at absent
    simp [splitChars, Ne.symm absent.1, ih absent.2]

theorem splitChars_append (back : List Char) (absent : separator ∉ front) :
    splitChars separator (front ++ separator :: back) = front :: splitChars separator back := by
  induction front with
  | nil => simp [splitChars]
  | cons c rest ih =>
    simp only [mem_cons, not_or] at absent
    simp [splitChars, Ne.symm absent.1, ih absent.2]

theorem splitString_append {front : String} (back : String) (absent : separator ∉ front.toList) :
    splitString separator (front ++ singleton separator ++ back) = front :: splitString separator back := by
  have chars : (front ++ singleton separator ++ back).toList = front.toList ++ separator :: back.toList := by
    simp
  rw [splitString, chars, splitChars_append _ absent, map_cons, ofList_toList]
  rfl

theorem splitString_of_not_mem {s : String} (absent : separator ∉ s.toList) :
    splitString separator s = [s] := by
  rw [splitString, splitChars_of_not_mem absent, map_singleton, ofList_toList]

theorem eq_append_of_splitOnceChars {before after : List Char}
    (split : splitOnceChars pattern chars = some (before, after)) : chars = before ++ pattern ++ after := by
  induction chars generalizing before with
  | nil =>
    rw [splitOnceChars] at split
    split at split
    · rename_i empty
      simp_all
    · cases split
  | cons c rest ih =>
    rw [splitOnceChars] at split
    split at split
    · rename_i isPrefix
      obtain ⟨rfl, rfl⟩ := Prod.mk.inj (some.inj split)
      rw [nil_append, prefix_iff_eq_append.mp ( isPrefixOf_iff_prefix.mp isPrefix)]
    · obtain ⟨⟨_, _⟩, isRest, same⟩ := map_eq_some_iff.mp split
      obtain ⟨rfl, rfl⟩ := Prod.mk.inj same
      rw [ih isRest]
      rfl

theorem splitOnceChars_append {first : Char} (absent : first ∉ front) (back : List Char) :
    splitOnceChars (first :: pattern) (front ++ first :: pattern ++ back) = some (front, back) := by
  induction front with
  | nil => simp [splitOnceChars]
  | cons c rest ih =>
    simp only [mem_cons, not_or] at absent
    rw [cons_append, cons_append, splitOnceChars, if_neg (by simp [absent.1]), ih absent.2]
    rfl

@[simp]
theorem toLower_toLower : c.toLower.toLower = c.toLower := by
  have notUpper : ¬ (c.toLower.val ≥ 'A'.val ∧ c.toLower.val ≤ 'Z'.val) := by
    unfold Char.toLower
    split
    · grind [UInt32.toNat_add, Char.toNat_val]
    · assumption
  rw [Char.toLower.eq_def c.toLower, dif_neg notUpper]

theorem toLower_eq_iff (small : d.val.toNat < 65) : c.toLower = d ↔ c = d := by
  unfold Char.toLower
  split
  · rename_i upper
    have low : 65 ≤ c.val.toNat := UInt32.le_iff_toNat_le.mp upper.1
    have high : c.val.toNat ≤ 90 := UInt32.le_iff_toNat_le.mp upper.2
    have toNat : c.val.toNat = c.toNat := Char.toNat_val
    constructor
    · rintro rfl
      simp at small
      omega
    · rintro rfl
      omega
  · rfl

theorem mem_map_toLower (small : d.val.toNat < 65) : d ∈ chars.map Char.toLower ↔ d ∈ chars := by
  simp [toLower_eq_iff small]

theorem map_toLower_map_toLower :
    (chars.map Char.toLower).map Char.toLower = chars.map Char.toLower := by
  simp

theorem pathExtension_of_split {path : String} {directories : List String} {name ending : List Char}
    (parts : splitString '/' path = directories ++ [ofList (name ++ '.' :: ending)]) (hasName : name ≠ [])
    (hasEnding : ending ≠ []) (noDot : '.' ∉ ending) : pathExtension path = some (ofList ending) := by
  have endsOtherwise : ∀ chars : List Char, chars.getLast? = some '.' → name ++ '.' :: ending ≠ chars := by
    rintro _ isLast rfl
    rw [getLast?_append, getLast?_cons] at isLast
    obtain ⟨_, isEnding⟩ := ne_none_iff_exists'.mp (mt getLast?_eq_none_iff.mp hasEnding)
    simp only [isEnding, some_or, some.injEq] at isLast
    exact noDot (isLast ▸ mem_of_getLast? isEnding)
  have notThis : ∀ text : String, text.toList.getLast? = some '.' → ofList (name ++ '.' :: ending) ≠ text := by
    rintro _ isLast rfl
    exact endsOtherwise _ isLast (by simp)
  have isLast : ((splitString '/' path).filter fun part => part ≠ "" ∧ part ≠ ".").getLast? =
      some (ofList (name ++ '.' :: ending)) := by
    have isName : ofList (name ++ '.' :: ending) ≠ "" := by
      intro isEmpty
      have := congrArg String.toList isEmpty
      simp at this
    have notDot := notThis "." rfl
    rw [parts]
    generalize ofList (name ++ '.' :: ending) = fileName at isName notDot
    simp [isName, notDot]
  have behind : (name ++ '.' :: ending).reverse = ending.reverse ++ '.' :: name.reverse := by simp
  have passed : ∀ c ∈ ending.reverse, decide (c ≠ '.') = true := by
    intro c member
    rw [decide_eq_true_eq]
    rintro rfl
    exact noDot (mem_reverse.mp member)
  rw [pathExtension, isLast]
  split
  · cases ‹some _ = none›
  · rename_i same
    exact absurd (some.inj same) (notThis ".." rfl)
  · rename_i fileName _ same
    obtain rfl := some.inj same
    simp only [toList_ofList, behind, dropWhile_append_of_pos passed, afterLast,
      takeWhile_append_of_pos passed]
    cases isName : name.reverse with
    | nil => simp [hasName] at isName
    | cons c rest => simp

end Text
