/-
The texts of C strings: what `strcmp` decides, what `strslice` and `int_to_hex` leave in their
buffers.
-/
import HavenOS.Cstring.Basic
import Mathlib.Algebra.Group.Int.Defs

namespace HavenOS

/-! ## C strings -/

theorem cstr_cons {c : UInt8} (hc : c ≠ 0) (str : List UInt8) : cstr (c :: str) = c :: cstr str := by
  simp [cstr, hc]

theorem cstr_eq_nil_iff (str : List UInt8) : cstr str = [] ↔ str.headD 0 = 0 := by
  cases str with
  | nil => exact ⟨fun _ => rfl, fun _ => rfl⟩
  | cons c str => by_cases hc : c = 0 <;> simp [cstr, hc]

theorem cstr_of_head_ne {str : List UInt8} (h : str.headD 0 ≠ 0) : cstr str = str.headD 0 :: cstr str.tail := by
  cases str with
  | nil => exact absurd rfl h
  | cons c str => exact cstr_cons h str

theorem notMem_cstr (str : List UInt8) : 0 ∉ cstr str := by
  intro h
  have := List.mem_takeWhile_imp h
  simp at this

theorem cstr_append_nul {s : List UInt8} (hs : 0 ∉ s) (rest : List UInt8) : cstr (s ++ 0 :: rest) = s := by
  unfold cstr
  rw [List.takeWhile_append_of_pos (by intro c hc; simpa using fun e : c = 0 => hs (e ▸ hc))]
  simp

theorem strcmpExit_eq_zero_iff (c1 c2 : UInt8) : strcmpExit c1 c2 = 0 ↔ (c1 = 0 ↔ c2 = 0) := by
  unfold strcmpExit
  by_cases h1 : c1 = 0 <;> by_cases h2 : c2 = 0 <;> simp [h1, h2]

/-- `strcmp` gives 0 exactly for equal C strings. -/
theorem strcmp_eq_zero_iff (str1 str2 : List UInt8) : strcmp str1 str2 = 0 ↔ cstr str1 = cstr str2 := by
  induction str1 generalizing str2 with
  | nil =>
    rw [strcmp, strcmpExit_eq_zero_iff, eq_comm (a := cstr []), show cstr [] = [] by rfl, cstr_eq_nil_iff]
    exact ⟨fun h => h.1 rfl, fun h => ⟨fun _ => h, fun _ => rfl⟩⟩
  | cons c1 str1 ih =>
    rw [strcmp]
    -- the loop ends where either string does; it was a match if both do
    by_cases h1 : c1 = 0
    · have hnil : cstr (c1 :: str1) = [] := (cstr_eq_nil_iff _).2 h1
      rw [if_neg (fun h => h.1 h1), strcmpExit_eq_zero_iff, hnil, eq_comm (a := []), cstr_eq_nil_iff]
      exact ⟨fun h => h.1 h1, fun h => ⟨fun _ => h, fun _ => h1⟩⟩
    · by_cases h2 : str2.headD 0 = 0
      · rw [if_neg (fun h => h.2 h2), strcmpExit_eq_zero_iff, (cstr_eq_nil_iff str2).2 h2, cstr_eq_nil_iff]
        exact ⟨fun h => h.2 h2, fun h => absurd h h1⟩
      · rw [if_pos ⟨h1, h2⟩, cstr_of_head_ne h2, cstr_cons h1, List.cons.injEq]
        by_cases heq : c1 = str2.headD 0
        · rw [if_neg (not_not_intro heq), ih, and_iff_right heq]
        · rw [if_pos heq]
          exact ⟨fun h => absurd h (by decide), fun h => absurd h.1 heq⟩

/-! ## Slices -/

/-- The slice loop stores the text it reads, from index `j` on, and a NUL after it. -/
theorem strsliceLoop_val (text : List UInt8) (h0 : 0 ∉ text) :
    ∀ (pre post : List UInt8) (j : Nat) (out : Store Nat UInt8)
    (i : Nat), (strsliceLoop (pre ++ text ++ post) text.length pre.length j out).val i =
      if j ≤ i ∧ i ≤ j + text.length then (text ++ [0]).getD (i - j) 0 else out.val i := by
  induction text with
  | nil =>
    intro pre post j out i
    rw [List.length_nil, strsliceLoop, Store.set_val]
    by_cases hi : i = j
    · rw [if_pos hi, if_pos (by omega), hi, Nat.sub_self]; rfl
    · rw [if_neg hi, if_neg (by omega)]
  | cons c text ih =>
    intro pre post j out i
    have hc : c ≠ 0 := fun e => h0 (e ▸ List.mem_cons_self)
    have hread : (pre ++ c :: text ++ post).getD pre.length 0 = c := by simp
    have hstr : pre ++ c :: text ++ post = (pre ++ [c]) ++ text ++ post := by simp
    rw [List.length_cons, strsliceLoop, hread, if_neg hc, hstr, show pre.length + 1 = (pre ++ [c]).length by simp,
      ih (fun h => h0 (List.mem_cons_of_mem _ h)), Store.set_val]
    by_cases hi : i = j
    · rw [if_neg (by omega), if_pos hi, if_pos (by omega), hi, Nat.sub_self]; rfl
    · rw [if_neg hi]
      by_cases hin : j + 1 ≤ i ∧ i ≤ j + 1 + text.length
      · rw [if_pos hin, if_pos (by omega), show i - j = i - (j + 1) + 1 by omega]; rfl
      · rw [if_neg hin, if_neg (by omega)]

/-- A slice with inclusive bounds is the text between them, closed by a NUL. -/
theorem strslice_read (pre text post : List UInt8) (h0 : 0 ∉ text) (hne : text ≠ []) (out : Store Nat UInt8) :
    (strslice (pre ++ text ++ post) pre.length (pre.length + text.length - 1) out).read (text.length + 1) =
      text ++ [0] := by
  have hpos := List.length_pos_iff.2 hne
  rw [strslice, show pre.length + text.length - 1 + 1 - pre.length = text.length by omega]
  apply List.ext_getElem?
  intro i
  rw [Store.getElem?_read, strsliceLoop_val text h0]
  by_cases hi : i < text.length + 1
  · rw [if_pos hi, if_pos (by omega), Nat.sub_zero, List.getD_eq_getElem?_getD,
      List.getElem?_eq_getElem (by simpa using hi)]
    rfl
  · rw [if_neg hi, List.getElem?_eq_none (by simpa using hi)]

/-! ## Numbers -/

/-- An `int` taken unsigned. -/
theorem toNat_toUInt32 (value : Int32) : (value.toUInt32.toNat : Int) = value.toInt % 2 ^ 32 := by
  have hbound := value.toUInt32.toNat_lt
  rw [Int32.toInt, BitVec.toInt_eq_toNat_bmod, show (2 ^ 32 : Int) = (2 ^ 32 : Nat) by rfl, Int.bmod_emod]
  exact (Int.emod_eq_of_lt (Int.natCast_nonneg _) (by omega)).symm

/-- The text `int_to_str` makes of a number. -/
def decText (num : Int32) : List UInt8 := cstr ((intToStr num (.fresh fun _ => 0)).read 32)

/-- The text `int_to_hex` makes of a number. -/
def hexText (value : Int32) : List UInt8 := cstr ((intToHex value (.fresh fun _ => 0)).read 9)

/-- The digit of nibble `i`. -/
def hexDigit (uValue : UInt32) (i : Nat) : UInt8 := hexChars.getD ((uValue >>> (4 * i).toUInt32) &&& 0xF).toNat 0

theorem hexDigit_ne_zero (uValue : UInt32) (i : Nat) : hexDigit uValue i ≠ 0 := by
  have hdigits : ∀ n < 16, hexChars.getD n 0 ≠ 0 := by decide
  refine hdigits _ ?_
  rw [UInt32.toNat_and]
  exact Nat.and_lt_two_pow _ (show (0xF : UInt32).toNat < 2 ^ 4 by decide)

/-- `int_to_hex` writes the digits from the highest nibble down, then the NUL. -/
theorem intToHexLoop_val (uValue : UInt32) : ∀ (i p : Nat) (out : Store Nat UInt8) (k : Nat),
    (intToHexLoop uValue i p out).val k =
      if p ≤ k ∧ k < p + i then hexDigit uValue (p + i - 1 - k) else if k = p + i then 0 else out.val k
  | 0, p, out, k => by
    rw [intToHexLoop, Store.set_val, if_neg (c := p ≤ k ∧ k < p + 0) (by omega)]
    rfl
  | i + 1, p, out, k => by
    rw [intToHexLoop, intToHexLoop_val uValue i (p + 1), Store.set_val]
    by_cases hk : k = p
    · rw [if_neg (by omega), if_neg (by omega), if_pos hk, if_pos (by omega), show p + (i + 1) - 1 - k = i by omega]
      rfl
    · rw [if_neg hk]
      refine if_congr (by omega) ?_ (if_congr (by omega) rfl rfl)
      rw [show p + 1 + i = p + (i + 1) by omega]

/-- Whatever its buffer held, `int_to_hex` leaves eight digits and a NUL. -/
theorem intToHex_read (value : Int32) (buffer : Store Nat UInt8) :
    (intToHex value buffer).read 9 = ((List.range 8).map fun k => hexDigit value.toUInt32 (7 - k)) ++ [0] := by
  apply List.ext_getElem (by simp)
  intro k hk _
  simp only [Store.read_length] at hk
  simp only [Store.read, List.getElem_map, List.getElem_range, intToHex, intToHexLoop_val]
  by_cases h8 : k < 8
  · rw [if_pos (by omega), List.getElem_append_left (by simpa using h8)]
    simp
  · obtain rfl : k = 8 := by omega
    rfl

theorem hexText_eq (value : Int32) : hexText value = (List.range 8).map fun k => hexDigit value.toUInt32 (7 - k) := by
  rw [hexText, intToHex_read, cstr_append_nul]
  intro h
  obtain ⟨k, -, hk⟩ := List.mem_map.1 h
  exact hexDigit_ne_zero _ _ hk

@[simp] theorem hexText_length (value : Int32) : (hexText value).length = 8 := by simp [hexText_eq]

end HavenOS
