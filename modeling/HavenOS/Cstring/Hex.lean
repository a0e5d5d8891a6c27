/-
int_to_hex as a numeral: its text is the eight digits of the value taken unsigned, so it can be read
back, and texts are ordered as the values are.
-/
import HavenOS.Cstring.Number
import HavenOS.Lib.Numeral
import Mathlib.Data.List.GetD

namespace HavenOS

open Numeral

/-- The digits 0-9A-F, and how one is read. -/
def hexadecimal : Alphabet UInt8 16 where
  char d := hexChars.getD d 0
  read c := if 48 ≤ c ∧ c ≤ 57 then some (c - 48).toNat else if 65 ≤ c ∧ c ≤ 70 then some (c - 55).toNat else none
  read_char := by decide

/-! ## The eight digits -/

/-- A nibble is a digit in base 16. -/
theorem hexDigit_eq (uValue : UInt32) {i : Nat} (hi : i < 8) :
    hexDigit uValue i = hexadecimal.char (uValue.toNat / 16 ^ i % 16) := by
  have hshift : (4 * i).toUInt32.toNat % 32 = 4 * i := by
    rw [Nat.toUInt32_eq, UInt32.toNat_ofNat']
    omega
  have hpow : 2 ^ (4 * i) = 16 ^ i := by rw [Nat.pow_mul]
  rw [hexDigit, UInt32.toNat_and, UInt32.toNat_shiftRight, hshift, Nat.shiftRight_eq_div_pow, hpow]
  exact congrArg (hexChars.getD · 0) (Nat.and_two_pow_sub_one_eq_mod _ 4)

theorem intToHex_places (value : Int32) (buffer : Store Nat UInt8) :
    (intToHex value buffer).read 8 = hexadecimal.text (places 16 8 value.toUInt32.toNat) := by
  rw [← Store.take_read _ (show 8 ≤ 9 by decide), intToHex_read, List.take_left' (by simp),
    places_eq_map, Alphabet.text,
    List.map_map]
  refine List.map_congr_left fun k hk => ?_
  rw [hexDigit_eq _ (by have := List.mem_range.1 hk; omega)]
  rfl

theorem intToHexLoop_log (uValue : UInt32) : ∀ (i p : Nat) (out : Store Nat UInt8),
    (intToHexLoop uValue i p out).log = (List.range' p (i + 1)).reverse ++ out.log
  | 0, _, _ => rfl
  | i + 1, p, out => by
    rw [intToHexLoop, intToHexLoop_log uValue i (p + 1), List.range'_succ (s := p),
      List.reverse_cons, List.append_assoc]
    rfl

theorem mem_intToHex_log (value : Int32) (f : Nat → UInt8) (k : Nat) : k ∈ (intToHex value (.fresh f)).log ↔ k < 9 := by
  rw [intToHex, intToHexLoop_log]
  simp [Store.fresh]

theorem intToHex_val (value : Int32) (buffer : Store Nat UInt8) {k : Nat} (hk : k < 9) :
    (intToHex value buffer).val k = (hexText value).getD k 0 := by
  have hread := congrArg (fun text => text[k]?) (intToHex_read value buffer)
  simp only [Store.getElem?_read, if_pos hk, ← hexText_eq] at hread
  rcases Nat.lt_or_eq_of_le (Nat.le_of_lt_succ hk) with hlt | rfl
  · rw [List.getElem?_append_left (by rwa [hexText_length])] at hread
    rw [List.getD_eq_getElem?_getD, ← hread]
    rfl
  · rw [List.getElem?_append_right (by rw [hexText_length]), hexText_length] at hread
    rw [List.getD_eq_default _ _ (by rw [hexText_length])]
    exact Option.some.inj hread

/-! ## Round trip -/

/-- What `int_to_hex` does to a buffer. -/
structure HexRendering (value : Int32) (buffer buffer' : Store Nat UInt8) : Prop where
  stores : buffer'.log = (List.range 9).reverse ++ buffer.log
  others : ∀ k ≥ 9, buffer'.val k = buffer.val k
  chars : ∀ c ∈ buffer'.read 8, c ∈ hexChars
  nul : buffer'.val 8 = 0
  value : (hexadecimal.parse (buffer'.read 8)).map Int.ofNat = some (value.toInt % 2 ^ 32)

theorem hexadecimal_char_mem : ∀ d < 16, hexadecimal.char d ∈ hexChars := by decide

theorem intToHex_rendering (value : Int32) (buffer : Store Nat UInt8) :
    HexRendering value buffer (intToHex value buffer) := by
  have hlt := places_lt (show 0 < 16 by decide) value.toUInt32.toNat 8
  constructor
  · rw [intToHex, intToHexLoop_log, List.range_eq_range']
  · intro k hk
    rw [intToHex, intToHexLoop_val, if_neg (by omega), if_neg (by omega)]
  · intro c hc
    rw [intToHex_places] at hc
    obtain ⟨d, hd, rfl⟩ := List.mem_map.1 hc
    exact hexadecimal_char_mem d (hlt d hd)
  · rw [intToHex, intToHexLoop_val, if_neg (by omega), if_pos rfl]
  · have hbound : value.toUInt32.toNat < 16 ^ 8 := value.toUInt32.toNat_lt
    rw [intToHex_places, hexadecimal.parse_text (by simp [places]) hlt, value_places,
      Nat.mod_eq_of_lt hbound, Option.map_some,
      ← toNat_toUInt32]
    rfl

/-- `int_to_hex` writes nine bytes, eight digits that are read back as the value modulo 2^32 and a NUL;
different values have different texts, and the texts are ordered as the values taken unsigned. -/
theorem hex_round_trip : (∀ value buffer, HexRendering value buffer (intToHex value buffer)) ∧
    (∀ value value' buffer buffer',
      (intToHex value buffer).read 8 = (intToHex value' buffer').read 8 → value = value') ∧
    ∀ value value' buffer buffer',
      (intToHex value buffer).read 8 < (intToHex value' buffer').read 8 ↔ value.toUInt32 < value'.toUInt32 := by
  have hlt := places_lt (show 0 < 16 by decide)
  refine ⟨intToHex_rendering, ?_, ?_⟩
  · intro value value' buffer buffer' h
    have hvalue := (intToHex_rendering value buffer).value
    rw [h, (intToHex_rendering value' buffer').value, Option.some.injEq] at hvalue
    have hlow := value.le_toInt
    have hlow' := value'.le_toInt
    have hhigh := value.toInt_lt
    have hhigh' := value'.toInt_lt
    exact Int32.toInt_inj.1 (by omega)
  · intro value value' buffer buffer'
    have hbound : value.toUInt32.toNat < 16 ^ 8 := value.toUInt32.toNat_lt
    have hbound' : value'.toUInt32.toNat < 16 ^ 8 := value'.toUInt32.toNat_lt
    rw [intToHex_places, intToHex_places, hexadecimal.text_lt_iff (by decide) (hlt _ 8) (hlt _ 8),
      ← value_lt_iff (by decide) (by rw [places_length, places_length]) (hlt _ 8) (hlt _ 8), value_places, value_places,
      Nat.mod_eq_of_lt hbound, Nat.mod_eq_of_lt hbound', UInt32.lt_iff_toNat_lt]

end HavenOS
