/-
int_to_str as a numeral: for every number but the least one its text is the canonical decimal rendering,
which is read back as the number. The least number has no opposite, and its text is no numeral.
-/
import HavenOS.Cstring.Number
import HavenOS.Lib.Fuel
import HavenOS.Lib.Numeral

namespace HavenOS

open Numeral

/-- The digits 0-9, and how one is read. -/
def decimal : Alphabet UInt8 10 where
  char d := d.toUInt8 + 48
  read c := if 48 ≤ c ∧ c ≤ 57 then some (c - 48).toNat else none
  read_char := by decide

/-- A number as it is read: an optional minus sign and digits. -/
def parseInt : List UInt8 → Option Int
  | [] => none
  | c :: s => if c = 45 then (decimal.parse s).map fun n => -Int.ofNat n else (decimal.parse (c :: s)).map Int.ofNat

/-- The text is a minus sign, for negative numbers, and the digits without leading zeros. -/
def IsDecimal (n : Int) (text : List UInt8) : Prop :=
  ∃ ds, Canonical 10 ds ∧ value 10 ds = n.natAbs ∧ text = (if n < 0 then [45] else []) ++ decimal.text ds

theorem decimal_char_ne_minus : ∀ d < 10, decimal.char d ≠ 45 := by decide

theorem IsDecimal.parseInt {n : Int} {text : List UInt8} (h : IsDecimal n text) : parseInt text = some n := by
  obtain ⟨ds, ⟨hlt, hne, -⟩, hvalue, rfl⟩ := h
  have hparse := decimal.parse_text hne hlt
  rw [hvalue] at hparse
  by_cases hneg : n < 0
  · rw [if_pos hneg, List.singleton_append, HavenOS.parseInt, if_pos rfl, hparse, Option.map_some]
    exact congrArg some (by rw [Int.ofNat_eq_natCast]; omega)
  · rw [if_neg hneg, List.nil_append]
    cases ds with
    | nil => exact absurd rfl hne
    | cons d ds =>
      rw [Alphabet.text, List.map_cons] at *
      rw [HavenOS.parseInt, if_neg (decimal_char_ne_minus d (hlt d List.mem_cons_self)), hparse, Option.map_some]
      exact congrArg some (by rw [Int.ofNat_eq_natCast]; omega)

/-! ## Termination -/

/-- The digit loop on fuel. -/
def digitLoopWithin : Nat → Int32 → Nat → Store Nat UInt8 → Option (Nat × Store Nat UInt8)
  | 0, _, _, _ => none
  | fuel + 1, num, i, buffer =>
    let buffer := buffer.set i (num % 10 + 48).toUInt32.toUInt8
    if num / 10 ≠ 0 then digitLoopWithin fuel (num / 10) (i + 1) buffer else some (i + 1, buffer)

/-- The loop of `strreverse` on fuel. -/
def strreverseWithin : Nat → Nat → Nat → Store Nat UInt8 → Option (Store Nat UInt8)
  | 0, _, _, _ => none
  | fuel + 1, start, «end», str =>
    if start < «end» then
      let temp := str.val start
      strreverseWithin fuel (start + 1) («end» - 1) ((str.set start (str.val «end»)).set «end» temp)
    else some str

/-- `int_to_str` with loops on fuel. -/
def intToStrWithin (fuel : Nat) (num : Int32) (buffer : Store Nat UInt8) : Option (Store Nat UInt8) :=
  let isNegative : Bool := num < 0
  let num := if isNegative then -num else num
  (digitLoopWithin fuel num 0 buffer).bind fun (i, buffer) =>
  let (i, buffer) := if isNegative then (i + 1, buffer.set i 45) else (i, buffer)
  strreverseWithin fuel 0 (i - 1) (buffer.set i 0)

theorem digitLoopWithin_eq : ∀ (rounds extra : Nat) (num : Int32) (i : Nat) (buffer : Store Nat UInt8),
    0 < rounds → num.toInt.natAbs < 10 ^ rounds →
      digitLoopWithin (rounds + extra) num i buffer = some (digitLoop rounds num i buffer)
  | 0, _, _, _, _, h, _ => absurd h (Nat.lt_irrefl 0)
  | rounds + 1, extra, num, i, buffer, _, h => by
    rw [Nat.add_right_comm, digitLoopWithin, digitLoop]
    by_cases hdone : num / 10 = 0
    · simp only [hdone, ne_eq, not_true_eq_false, if_false]
    · simp only [ne_eq, hdone, not_false_eq_true, if_true]
      obtain ⟨hpos, hlt⟩ := quotient_digits h hdone
      exact digitLoopWithin_eq rounds extra (num / 10) (i + 1) _ hpos hlt

theorem strreverseWithin_eq : ∀ (n extra start «end» : Nat) (str : Store Nat UInt8), «end» ≤ start + 2 * n →
    strreverseWithin (n + 1 + extra) start «end» str = some (strreverseLoop n start «end» str)
  | 0, extra, start, «end», str, h => by
    rw [Nat.add_right_comm, strreverseWithin, strreverseLoop, if_neg (by omega)]
  | n + 1, extra, start, «end», str, h => by
    rw [Nat.add_right_comm, strreverseWithin, strreverseLoop]
    split
    · rw [← strreverseWithin_eq n extra (start + 1) («end» - 1) _ (by omega), Nat.add_right_comm]
    · rfl

theorem digitLoop_settles (num : Int32) (i : Nat) (buffer : Store Nat UInt8) :
    Settles (fun fuel => digitLoopWithin fuel num i buffer) (digitLoop 10 num i buffer) := by
  refine ⟨10, fun fuel hfuel => ?_⟩
  obtain ⟨extra, rfl⟩ := Nat.exists_eq_add_of_le hfuel
  have hlow := num.le_toInt
  have hhigh := num.toInt_lt
  exact digitLoopWithin_eq 10 extra num i buffer (by decide) (by omega)

theorem strreverse_settles (str : Store Nat UInt8) (length : Nat) :
    Settles (fun fuel => strreverseWithin fuel 0 (length - 1) str) (strreverse str length) := by
  refine ⟨length + 1, fun fuel hfuel => ?_⟩
  obtain ⟨extra, rfl⟩ := Nat.exists_eq_add_of_le hfuel
  exact strreverseWithin_eq length extra 0 (length - 1) str (by omega)

theorem intToStr_settles (num : Int32) (buffer : Store Nat UInt8) :
    Settles (fun fuel => intToStrWithin fuel num buffer) (intToStr num buffer) :=
  (digitLoop_settles _ 0 buffer).bind (strreverse_settles _ _)

/-! ## The digits -/

theorem digitChar_eq {num : Int32} (hnum : 0 ≤ num.toInt) : digitChar num = decimal.char (num.toInt.toNat % 10) := by
  have hrem : (num % 10).toInt = (num.toInt.toNat % 10 : Nat) := by
    rw [Int32.toInt_mod, Int.tmod_eq_emod_of_nonneg hnum]
    show num.toInt % 10 = _
    omega
  have hlt : num.toInt.toNat % 10 < 10 := Nat.mod_lt _ (by decide)
  unfold digitChar
  rw [← Int32.ofInt_toInt (num % 10), hrem]
  generalize num.toInt.toNat % 10 = d at hlt
  interval_cases d <;> decide

/-- What comes out of the digit loop is the numeral, its last digit first. -/
theorem digits_reverse : ∀ (rounds : Nat) (num : Int32), 0 < rounds → 0 ≤ num.toInt → num.toInt.natAbs < 10 ^ rounds →
    (digits rounds num).reverse = decimal.text (ofNat 10 num.toInt.toNat)
  | 0, _, h, _, _ => absurd h (Nat.lt_irrefl 0)
  | rounds + 1, num, _, hnum, h => by
    have hquot : (num / 10).toInt = (num.toInt.toNat / 10 : Nat) := by
      rw [toInt_div_ten, Int.tdiv_eq_ediv_of_nonneg hnum]
      omega
    rw [digits, List.reverse_cons, ofNat_eq (by decide), Alphabet.text, List.map_append,
      List.map_singleton, digitChar_eq hnum]
    by_cases hdone : num / 10 = 0
    · have hzero : num.toInt.toNat / 10 = 0 := by
        rw [hdone] at hquot
        exact (Int.ofNat_inj.1 hquot).symm
      simp only [hdone, hzero, ne_eq, not_true_eq_false, if_false, List.reverse_nil, List.map_nil]
    · obtain ⟨hpos, hlt⟩ := quotient_digits h hdone
      have hmore : num.toInt.toNat / 10 ≠ 0 := fun e => hdone (Int32.toInt_inj.1 (by rw [hquot, e]; rfl))
      simp only [ne_eq, hdone, hmore, not_false_eq_true, if_true]
      rw [digits_reverse rounds (num / 10) hpos (by omega) hlt, hquot, Int.toNat_natCast]
      rfl

theorem toInt_magnitude {num : Int32} (h : num ≠ Int32.minValue) : (magnitude num).toInt = num.toInt.natAbs := by
  have hmin : num.toInt ≠ -2 ^ 31 := fun e => h (Int32.toInt_inj.1 e)
  have hlow := num.le_toInt
  have hhigh := num.toInt_lt
  unfold magnitude
  split
  · rename_i hneg
    have hneg : num.toInt < 0 := Int32.lt_iff_toInt_lt.1 hneg
    rw [Int32.toInt_neg, Int.bmod_eq_of_le] <;> omega
  · rename_i hneg
    have hneg : ¬ num.toInt < 0 := fun e => hneg (Int32.lt_iff_toInt_lt.2 e)
    omega

theorem decText_isDecimal {num : Int32} (h : num ≠ Int32.minValue) : IsDecimal num.toInt (decText num) := by
  have hmagnitude := toInt_magnitude h
  have hlow := num.le_toInt
  have hhigh := num.toInt_lt
  have hneg : num < 0 ↔ num.toInt < 0 := Int32.lt_iff_toInt_lt
  refine ⟨ofNat 10 num.toInt.natAbs, ofNat_canonical (by decide) _, value_ofNat 10 _, ?_⟩
  rw [decText_eq, reversedText, List.reverse_append, digits_reverse 10 _ (by decide) (by omega) (by omega), hmagnitude,
    Int.toNat_natCast]
  simp only [hneg]
  split <;> rfl

/-! ## The rendering -/

/-- What `int_to_str` does to a buffer. -/
structure DecimalRendering (num : Int32) (buffer buffer' : Store Nat UInt8) : Prop where
  terminates : Settles (fun fuel => intToStrWithin fuel num buffer) buffer'
  stores : (intToStr num buffer.forget).Inside (· < 12)
  closed : 0 ∈ buffer'.read 12
  decimal : IsDecimal num.toInt (cstr (buffer'.read 12))
  value : parseInt (cstr (buffer'.read 12)) = some num.toInt

theorem text_intToStr (num : Int32) (buffer : Store Nat UInt8) :
    cstr ((intToStr num buffer).read 12) = decText num := by
  rw [cstr_intToStr le_rfl, decText_eq]

theorem intToStr_closed (num : Int32) (buffer : Store Nat UInt8) : 0 ∈ (intToStr num buffer).read 12 := by
  have hlen := reversedText_length_le num
  apply List.mem_of_mem_take (i := (reversedText num).length + 1)
  rw [Store.take_read _ (by omega), intToStr_read]
  exact List.mem_append_right _ List.mem_cons_self

theorem intToStr_rendering {num : Int32} (h : num ≠ Int32.minValue) (buffer : Store Nat UInt8) :
    DecimalRendering num buffer (intToStr num buffer) where
  terminates := intToStr_settles num buffer
  stores := inside_intToStr (fun _ hk => hk) num (Store.inside_forget _ buffer)
  closed := intToStr_closed num buffer
  decimal := by rw [text_intToStr]; exact decText_isDecimal h
  value := by rw [text_intToStr]; exact (decText_isDecimal h).parseInt

/-- The digits of the least number are negative, and so its text cannot be read. -/
theorem parseInt_minValue : parseInt (decText Int32.minValue) = none := by decide

theorem parseInt_eq_none_iff (num : Int32) : parseInt (decText num) = none ↔ num = Int32.minValue := by
  constructor
  · intro hnone
    by_contra h
    rw [(decText_isDecimal h).parseInt] at hnone
    cases hnone
  · rintro rfl
    exact parseInt_minValue

/-- `int_to_str` makes the canonical decimal rendering of every number but the least, and different
texts of different numbers. -/
theorem decimal_rendering_iff (num : Int32) (buffer : Store Nat UInt8) :
    (DecimalRendering num buffer (intToStr num buffer) ↔ num ≠ Int32.minValue) ∧
    ∀ num' buffer', cstr ((intToStr num buffer).read 12) = cstr ((intToStr num' buffer').read 12) → num = num' := by
  refine ⟨⟨?_, fun h => intToStr_rendering h buffer⟩, ?_⟩
  · rintro h rfl
    have hvalue := h.value
    rw [text_intToStr, parseInt_minValue] at hvalue
    cases hvalue
  · intro num' buffer' htext
    rw [text_intToStr, text_intToStr] at htext
    by_cases hmin : num = Int32.minValue
    · rw [hmin]
      exact ((parseInt_eq_none_iff num').1 (htext ▸ (parseInt_eq_none_iff num).2 hmin)).symm
    · have hmin' : num' ≠ Int32.minValue :=
        fun e => hmin ((parseInt_eq_none_iff num).1 (htext ▸ (parseInt_eq_none_iff num').2 e))
      have hparse := (decText_isDecimal hmin).parseInt
      rw [htext, (decText_isDecimal hmin').parseInt, Option.some.injEq] at hparse
      exact (Int32.toInt_inj.1 hparse).symm

/-- The text of -2147483648 ends in signs that are no digits. -/
theorem minValue_not_decimal :
    ¬ DecimalRendering (-2147483648) (.fresh fun _ => 0) (intToStr (-2147483648) (.fresh fun _ => 0)) := by
  intro h
  exact absurd h.value (by decide)

end HavenOS
