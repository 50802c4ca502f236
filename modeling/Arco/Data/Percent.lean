import Mathlib.Data.String.Basic
import Arco.Data.Results

/-! Percent decoding, on the bytes of a text.

A text without a percent sign is its own decoding, and no other text is: each sequence that is decoded
makes the text shorter.
-/

namespace Percent

open Results (bind_eq_ok)
open List UInt8 String

inductive DecodeError where
  | incomplete
  | invalid
  | notUtf8

def hexValue (value : UInt8) : Except DecodeError UInt8 :=
  if 48 ≤ value ∧ value ≤ 57 then .ok (value - 48)
  else if 97 ≤ value ∧ value ≤ 102 then .ok (value - 97 + 10)
  else if 65 ≤ value ∧ value ≤ 70 then .ok (value - 65 + 10)
  else .error .invalid

def sign : UInt8 := 37

def decodeBytes : List UInt8 → Except DecodeError (List UInt8)
  | [] => .ok []
  | byte :: rest =>
    if byte = sign then
      match rest with
      | high :: low :: rest => do
        let high ← hexValue high
        let low ← hexValue low
        let decoded ← decodeBytes rest
        .ok ((high * 16 + low) :: decoded)
      | [_] | [] => .error .incomplete
    else do
      let decoded ← decodeBytes rest
      .ok (byte :: decoded)

def bytes (text : String) : List UInt8 := text.toByteArray.data.toList

def ofBytes (bytes : List UInt8) : Except DecodeError String :=
  match fromUTF8? bytes.toByteArray with
  | some text => .ok text
  | none => .error .notUtf8

def decode (text : String) : Except DecodeError String := do
  let decoded ← decodeBytes (bytes text)
  ofBytes decoded

variable {encoded : List UInt8} {text : String}

theorem decodeBytes_of_not_mem (absent : sign ∉ encoded) : decodeBytes encoded = .ok encoded := by
  induction encoded with
  | nil => rfl
  | cons byte rest ih =>
    rw [mem_cons, not_or] at absent
    rw [decodeBytes.eq_def]
    simp only [if_neg (Ne.symm absent.1), ih absent.2]
    rfl

theorem length_decodeBytes {decoded : List UInt8} (ends : decodeBytes encoded = .ok decoded) :
    decoded.length ≤ encoded.length ∧ (sign ∈ encoded → decoded.length < encoded.length) := by
  fun_induction decodeBytes encoded generalizing decoded with
  | case1 =>
    obtain rfl := Except.ok.inj ends
    simp
  | case2 high low rest ih =>
    obtain ⟨_, _, ends⟩ := bind_eq_ok.mp ends
    obtain ⟨_, _, ends⟩ := bind_eq_ok.mp ends
    obtain ⟨decoded', isRest, ends⟩ := bind_eq_ok.mp ends
    obtain rfl := Except.ok.inj ends
    have shorter := (ih isRest).1
    simp only [length_cons]
    omega
  | case3 | case4 => cases ends
  | case5 byte rest other ih =>
    obtain ⟨_, isRest, ends⟩ := bind_eq_ok.mp ends
    obtain rfl := Except.ok.inj ends
    obtain ⟨shorter, strictly⟩ := ih isRest
    refine ⟨by simpa using shorter, fun member => ?_⟩
    obtain same | later := mem_cons.mp member
    · exact absurd same.symm other
    · simpa using strictly later

theorem decodeBytes_eq_nil (ends : decodeBytes encoded = .ok []) : encoded = [] := by
  rw [decodeBytes.eq_def] at ends
  split at ends
  · rfl
  · split at ends
    · split at ends
      · obtain ⟨_, _, ends⟩ := bind_eq_ok.mp ends
        obtain ⟨_, _, ends⟩ := bind_eq_ok.mp ends
        obtain ⟨_, _, ends⟩ := bind_eq_ok.mp ends
        cases ends
      · cases ends
      · cases ends
    · obtain ⟨_, _, ends⟩ := bind_eq_ok.mp ends
      cases ends

theorem bytes_eq : bytes text = text.toList.flatMap utf8EncodeChar := by
  rw [bytes, ← utf8Encode_toList, utf8Encode, data_toByteArray]

theorem sign_mem_utf8EncodeChar {c : Char} : sign ∈ utf8EncodeChar c ↔ c = '%' := by
  have isSign : c = '%' ↔ c.val.toNat = 37 := by
    constructor
    · rintro rfl
      rfl
    · intro same
      exact Char.ext (UInt32.toNat_inj.mp same)
  have small : c.val.toNat < 0x110000 := by
    have valid := c.valid
    omega
  rw [isSign, utf8EncodeChar]
  -- The bytes of a longer sequence are 128 and above.
  split
  · simp only [sign, mem_singleton, ← UInt8.toNat_inj, toNat_ofNat', reduceToNat]
    omega
  · split
    · simp only [sign, mem_cons, not_mem_nil, or_false, ← UInt8.toNat_inj, toNat_ofNat', reduceToNat]
      omega
    · split
      · simp only [sign, mem_cons, not_mem_nil, or_false, ← UInt8.toNat_inj, toNat_ofNat', reduceToNat]
        omega
      · simp only [sign, mem_cons, not_mem_nil, or_false, ← UInt8.toNat_inj, toNat_ofNat', reduceToNat]
        omega

theorem sign_mem_bytes : sign ∈ bytes text ↔ '%' ∈ text.toList := by
  rw [bytes_eq, mem_flatMap]
  simp [sign_mem_utf8EncodeChar]

theorem bytes_injective {left right : String} (same : bytes left = bytes right) : left = right := by
  refine toByteArray_inj.mp (ByteArray.ext ?_)
  exact Array.toList_inj.mp same

theorem ofBytes_eq_ok : ofBytes encoded = .ok text ↔ encoded = bytes text := by
  have back : (bytes text).toByteArray = text.toByteArray := ByteArray.ext (by simp [bytes])
  constructor
  · intro found
    unfold ofBytes fromUTF8? at found
    split at found
    · rename_i text' isText
      obtain rfl := Except.ok.inj found
      obtain ⟨valid, isText⟩ := Option.dite_none_right_eq_some.mp isText
      obtain rfl := Option.some.inj isText
      simp [bytes, fromUTF8]
    · cases found
  · rintro rfl
    have valid : (bytes text).toByteArray.IsValidUTF8 := back ▸ text.isValidUTF8
    unfold ofBytes fromUTF8?
    rw [dif_pos valid]
    exact congrArg Except.ok (toByteArray_inj.mp back)

theorem decode_eq_empty (ends : decode text = .ok "") : text = "" := by
  obtain ⟨_, ends, isText⟩ := bind_eq_ok.mp ends
  obtain rfl := ofBytes_eq_ok.mp isText
  exact bytes_injective (decodeBytes_eq_nil ends)

/-- A text is its own decoding if and only if it has no percent sign. -/
theorem decode_eq_self_iff : decode text = .ok text ↔ '%' ∉ text.toList := by
  rw [← sign_mem_bytes, decode, bind_eq_ok]
  simp only [ofBytes_eq_ok]
  constructor
  · rintro ⟨_, ends, rfl⟩ member
    exact absurd ((length_decodeBytes ends).2 member) (lt_irrefl _)
  · intro absent
    exact ⟨_, decodeBytes_of_not_mem absent, rfl⟩

end Percent
