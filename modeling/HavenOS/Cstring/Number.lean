/-
The text `int_to_str` makes: the digits as they come out of its loop, the sign, and the reversal.
-/
import HavenOS.Cstring.Text
import Mathlib.Algebra.Group.Nat.Defs
import Mathlib.Tactic.IntervalCases

namespace HavenOS

/-! ## Reversing -/

theorem strreverseLoop_val : ∀ (n start «end» : Nat) (str : Store Nat UInt8) (k : Nat), «end» ≤ start + 2 * n →
    (strreverseLoop n start «end» str).val k =
      if start ≤ k ∧ k ≤ «end» then str.val (start + «end» - k) else str.val k
  | 0, start, «end», str, k, h => by
    rw [strreverseLoop]
    split
    · congr 1; omega
    · rfl
  | n + 1, start, «end», str, k, h => by
    rw [strreverseLoop]
    by_cases hlt : start < «end»
    · simp only [if_pos hlt]
      rw [strreverseLoop_val n _ _ _ _ (by omega)]
      simp only [Store.set_val]
      by_cases hin : start + 1 ≤ k ∧ k ≤ «end» - 1
      · rw [if_pos hin, if_neg (by omega), if_neg (by omega), if_pos (by omega)]
        congr 1; omega
      · rw [if_neg hin]
        by_cases hend : k = «end»
        · rw [if_pos hend, if_pos (by omega)]
          congr 1; omega
        · rw [if_neg hend]
          by_cases hstart : k = start
          · rw [if_pos hstart, if_pos (by omega)]
            congr 1; omega
          · rw [if_neg hstart, if_neg (by omega)]
    · rw [if_neg hlt]
      split
      · congr 1; omega
      · rfl

theorem inside_strreverseLoop (P : Nat → Prop) : ∀ (n start «end» : Nat) (str : Store Nat UInt8),
    (∀ k ≤ «end», P k) → str.Inside P → (strreverseLoop n start «end» str).Inside P
  | 0, _, _, _, _, hstr => hstr
  | n + 1, start, «end», str, hP, hstr => by
    rw [strreverseLoop]
    split
    · rename_i hlt
      refine inside_strreverseLoop P n _ _ _ (fun k hk => hP k (by omega)) ?_
      rw [Store.inside_set, Store.inside_set]
      exact ⟨hP _ le_rfl, hP _ (by omega), hstr⟩
    · exact hstr

theorem strreverse_val (str : Store Nat UInt8) (length k : Nat) :
    (strreverse str length).val k = if k < length then str.val (length - 1 - k) else str.val k := by
  rw [strreverse, strreverseLoop_val _ _ _ _ _ (by omega)]
  by_cases hk : k < length
  · rw [if_pos (by omega), if_pos hk]
    congr 1; omega
  · rw [if_neg hk]
    split
    · congr 1; omega
    · rfl

/-! ## Hexadecimal -/

/-- `int_to_hex` stores its eight digits and the NUL, nothing else. -/
theorem inside_intToHexLoop (P : Nat → Prop) (uValue : UInt32) : ∀ (i p : Nat) (out : Store Nat UInt8),
    (∀ k ≤ i, P (p + k)) → out.Inside P → (intToHexLoop uValue i p out).Inside P
  | 0, p, out, hP, hout => by
    rw [intToHexLoop, Store.inside_set]
    exact ⟨hP 0 le_rfl, hout⟩
  | i + 1, p, out, hP, hout => by
    rw [intToHexLoop]
    refine inside_intToHexLoop P uValue i (p + 1) _ (fun k hk => ?_) ?_
    · have h := hP (k + 1) (by omega)
      rwa [Nat.add_right_comm, Nat.add_assoc]
    · rw [Store.inside_set]
      exact ⟨hP 0 (Nat.zero_le _), hout⟩

theorem inside_intToHex {P : Nat → Prop} (hP : ∀ k < 9, P k) (value : Int32) {buffer : Store Nat UInt8}
    (hbuffer : buffer.Inside P) : (intToHex value buffer).Inside P :=
  inside_intToHexLoop P _ 8 0 buffer (fun k hk => hP _ (by omega)) hbuffer

/-! ## Digits -/

/-- The character of the last digit. -/
def digitChar (num : Int32) : UInt8 := (num % 10 + 48).toUInt32.toUInt8

/-- The characters of the digits of a number, the last digit first. -/
def digits : Nat → Int32 → List UInt8
  | 0, _ => []
  | rounds + 1, num => digitChar num :: if num / 10 ≠ 0 then digits rounds (num / 10) else []

theorem digitLoop_eq : ∀ (rounds : Nat) (num : Int32) (i : Nat) (buffer : Store Nat UInt8),
    digitLoop rounds num i buffer = (i + (digits rounds num).length, buffer.blit (digits rounds num) i)
  | 0, _, _, _ => rfl
  | rounds + 1, num, i, buffer => by
    rw [digitLoop, digits]
    split
    · rw [digitLoop_eq rounds, List.length_cons, Store.blit, Nat.add_right_comm i 1, Nat.add_assoc]
      rfl
    · rfl

/-- The remainder has the sign of the number, so for the least number the characters are those
below `0`. -/
theorem digitChar_ne_zero (num : Int32) : digitChar num ≠ 0 := by
  have hrem : (num % 10).toInt = num.toInt.tmod 10 := Int32.toInt_mod num 10
  have hlow : -10 < (num % 10).toInt := hrem ▸ Int.lt_tmod_of_pos _ (by decide)
  have hhigh : (num % 10).toInt < 10 := hrem ▸ Int.tmod_lt_of_pos _ (by decide)
  unfold digitChar
  rw [← Int32.ofInt_toInt (num % 10)]
  generalize (num % 10).toInt = r at hlow hhigh
  interval_cases r <;> decide

theorem digits_ne_nil (rounds : Nat) (num : Int32) : digits (rounds + 1) num ≠ [] := by simp [digits]

theorem zero_notMem_digits : ∀ (rounds : Nat) (num : Int32), 0 ∉ digits rounds num
  | 0, _ => by simp [digits]
  | rounds + 1, num => by
    rw [digits, List.mem_cons, not_or]
    refine ⟨(digitChar_ne_zero num).symm, ?_⟩
    split
    · exact zero_notMem_digits rounds _
    · exact List.not_mem_nil

theorem digits_length_le : ∀ (rounds : Nat) (num : Int32), (digits rounds num).length ≤ rounds
  | 0, _ => le_rfl
  | rounds + 1, num => by
    rw [digits, List.length_cons]
    split
    · exact Nat.succ_le_succ (digits_length_le rounds _)
    · exact Nat.succ_le_succ (Nat.zero_le _)

theorem toInt_div_ten (num : Int32) : (num / 10).toInt = num.toInt.tdiv 10 :=
  Int32.toInt_div_of_ne_right num 10 (by decide)

/-- A number that is not used up has a digit more than its quotient. -/
theorem quotient_digits {rounds : Nat} {num : Int32} (h : num.toInt.natAbs < 10 ^ (rounds + 1)) (hmore : num / 10 ≠ 0) :
    0 < rounds ∧ (num / 10).toInt.natAbs < 10 ^ rounds := by
  have hquot : (num / 10).toInt.natAbs = num.toInt.natAbs / 10 := by
    rw [toInt_div_ten, Int.natAbs_tdiv]; rfl
  refine ⟨Nat.pos_of_ne_zero ?_, ?_⟩
  · rintro rfl
    refine hmore (Int32.toInt_inj.1 (Int.natAbs_eq_zero.1 ?_))
    rw [hquot]
    exact Nat.div_eq_of_lt h
  · rw [hquot]
    rw [Nat.pow_succ] at h
    omega

/-! ## The whole text -/

/-- The number whose digits are taken: the least number has no opposite and stays. -/
def magnitude (num : Int32) : Int32 := if num < 0 then -num else num

/-- What is in the buffer before it is reversed: the digits, then the sign. -/
def reversedText (num : Int32) : List UInt8 := digits 10 (magnitude num) ++ if num < 0 then [45] else []

theorem reversedText_length_le (num : Int32) : (reversedText num).length ≤ 11 := by
  have := digits_length_le 10 (magnitude num)
  unfold reversedText
  rw [List.length_append]
  split <;> simp <;> omega

theorem reversedText_ne_nil (num : Int32) : reversedText num ≠ [] := fun h =>
  digits_ne_nil 9 (magnitude num) (List.append_eq_nil_iff.1 h).1

theorem zero_notMem_reversedText (num : Int32) : 0 ∉ reversedText num := by
  rw [reversedText, List.mem_append, not_or]
  refine ⟨zero_notMem_digits 10 _, ?_⟩
  split <;> decide

theorem intToStr_eq (num : Int32) (buffer : Store Nat UInt8) :
    intToStr num buffer = strreverse (buffer.blit (reversedText num ++ [0]) 0) (reversedText num).length := by
  rw [Store.blit_append, reversedText, Store.blit_append]
  unfold intToStr magnitude
  simp only [digitLoop_eq, decide_eq_true_eq, Nat.zero_add]
  by_cases hneg : num < 0
  · simp only [if_pos hneg, List.length_append, List.length_cons, List.length_nil, Nat.zero_add]
    rfl
  · simp only [if_neg hneg, List.append_nil]
    rfl

theorem intToStr_val (num : Int32) (buffer : Store Nat UInt8) (k : Nat) : (intToStr num buffer).val k =
    ((reversedText num).reverse ++ [0])[k]?.getD (buffer.val k) := by
  rw [intToStr_eq, strreverse_val]
  simp only [Store.blit_val, if_neg (Nat.not_lt_zero _), Nat.sub_zero]
  by_cases hk : k < (reversedText num).length
  · rw [if_pos hk, List.getElem?_append_left (by omega), List.getElem?_append_left (by simpa using hk),
      List.getElem?_reverse hk, List.getElem?_eq_getElem (by omega)]
    rfl
  · rw [if_neg hk, List.getElem?_append_right (by omega), List.getElem?_append_right (by simpa using hk),
      List.length_reverse]

/-- `int_to_str` stores at most the first twelve bytes of its buffer. -/
theorem inside_intToStr {P : Nat → Prop} (hP : ∀ k < 12, P k) (num : Int32) {buffer : Store Nat UInt8}
    (hbuffer : buffer.Inside P) : (intToStr num buffer).Inside P := by
  have hlen := reversedText_length_le num
  rw [intToStr_eq, strreverse]
  apply inside_strreverseLoop
  · exact fun k hk => hP k (by omega)
  · rw [Store.inside_blit]
    refine ⟨fun k hk => hP _ ?_, hbuffer⟩
    simp only [List.length_append, List.length_cons, List.length_nil] at hk
    omega

theorem intToStr_read (num : Int32) (buffer : Store Nat UInt8) :
    (intToStr num buffer).read ((reversedText num).length + 1) = (reversedText num).reverse ++ [0] := by
  apply List.ext_getElem?
  intro k
  rw [Store.getElem?_read, intToStr_val]
  have hlen : ((reversedText num).reverse ++ [0]).length = (reversedText num).length + 1 := by simp
  split
  · rename_i hk
    rw [List.getElem?_eq_getElem (by omega)]
    rfl
  · rename_i hk
    rw [List.getElem?_eq_none (by omega)]

/-- The buffer holds the text whatever was in it before. -/
theorem cstr_intToStr {n : Nat} (hn : 12 ≤ n) (num : Int32) (buffer : Store Nat UInt8) :
    cstr ((intToStr num buffer).read n) = (reversedText num).reverse := by
  have hlen := reversedText_length_le num
  have hnul : 0 ∉ (reversedText num).reverse := fun h => zero_notMem_reversedText num (List.mem_reverse.1 h)
  rw [← List.take_append_drop ((reversedText num).length + 1) ((intToStr num buffer).read n),
    Store.take_read _ (by omega), intToStr_read, List.append_assoc]
  exact cstr_append_nul hnul _

theorem decText_eq (num : Int32) : decText num = (reversedText num).reverse := cstr_intToStr (by decide) num _

theorem decText_length_le (num : Int32) : (decText num).length ≤ 11 := by
  rw [decText_eq, List.length_reverse]
  exact reversedText_length_le num

theorem decText_ne_nil (num : Int32) : decText num ≠ [] := by
  rw [decText_eq, ne_eq, List.reverse_eq_nil_iff]
  exact reversedText_ne_nil num

theorem zero_notMem_decText (num : Int32) : 0 ∉ decText num := notMem_cstr _

example : decText (-2048) = ascii "-2048" := by decide

end HavenOS
