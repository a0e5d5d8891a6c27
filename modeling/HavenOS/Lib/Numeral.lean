/-
Numerals with the highest digit first: their value, the digits of a number in a fixed number of
places, the order of numerals of one length, numerals without leading zeros, and texts over an
alphabet of digits.
-/
import Mathlib.Data.Nat.Digits.Lemmas

namespace Numeral

/-- The number a list of digits denotes, the highest digit first. -/
def value (b : Nat) (ds : List Nat) : Nat := Nat.ofDigits b ds.reverse

variable {b : Nat}

theorem value_cons (d : Nat) (ds : List Nat) : value b (d :: ds) = b ^ ds.length * d + value b ds := by
  rw [value, List.reverse_cons, Nat.ofDigits_append, Nat.ofDigits_singleton, List.length_reverse, Nat.add_comm]
  rfl

theorem value_lt (hb : 1 < b) {ds : List Nat} (h : ∀ d ∈ ds, d < b) : value b ds < b ^ ds.length := by
  rw [← List.length_reverse]
  exact Nat.ofDigits_lt_base_pow_length hb fun d hd => h d (List.mem_reverse.1 hd)

/-! ## Digits by place -/

/-- The last `m` digits of `x`. -/
def places (b : Nat) : Nat → Nat → List Nat
  | 0, _ => []
  | m + 1, x => x / b ^ m % b :: places b m x

theorem places_length (b x : Nat) : ∀ m : Nat, (places b m x).length = m
  | 0 => rfl
  | m + 1 => by rw [places, List.length_cons, places_length b x m]

theorem places_lt (hb : 0 < b) (x : Nat) : ∀ (m : Nat), ∀ d ∈ places b m x, d < b
  | 0, d, hd => absurd hd List.not_mem_nil
  | m + 1, d, hd => by
    rcases List.mem_cons.1 hd with rfl | hd
    · exact Nat.mod_lt _ hb
    · exact places_lt hb x m d hd

theorem value_places (b x : Nat) : ∀ m : Nat, value b (places b m x) = x % b ^ m
  | 0 => by rw [Nat.pow_zero, Nat.mod_one]; rfl
  | m + 1 => by rw [places, value_cons, places_length, value_places b x m, Nat.mod_pow_succ, Nat.add_comm]

theorem places_eq_map (b x : Nat) : ∀ m : Nat, places b m x = (List.range m).map fun k => x / b ^ (m - 1 - k) % b
  | 0 => rfl
  | m + 1 => by
    rw [places, places_eq_map b x m, List.range_succ_eq_map, List.map_cons, List.map_map]
    refine congrArg _ (List.map_congr_left fun k _ => ?_)
    rw [Function.comp_apply, show m + 1 - 1 - k.succ = m - 1 - k by omega]

/-! ## Order -/

/-- Numerals of one length are ordered as their values: the highest digit that differs decides. -/
theorem value_lt_iff (hb : 1 < b) : ∀ {ds es : List Nat}, ds.length = es.length → (∀ d ∈ ds, d < b) →
    (∀ e ∈ es, e < b) → (value b ds < value b es ↔ ds < es)
  | [], [], _, _, _ => by simp
  | d :: ds, e :: es, hlen, hds, hes => by
    have hlen : ds.length = es.length := Nat.succ.inj hlen
    have hds' : ∀ x ∈ ds, x < b := fun x hx => hds x (List.mem_cons_of_mem _ hx)
    have hes' : ∀ x ∈ es, x < b := fun x hx => hes x (List.mem_cons_of_mem _ hx)
    have hrest := value_lt_iff hb hlen hds' hes'
    have hd := value_lt hb hds'
    have he := value_lt hb hes'
    rw [value_cons, value_cons, List.cons_lt_cons_iff, hlen, ← hrest]
    rw [hlen] at hd
    generalize b ^ es.length = q at hd he ⊢
    rcases Nat.lt_trichotomy d e with hlt | rfl | hgt
    · have hstep : q * d + q ≤ q * e := by
        rw [← Nat.mul_succ]
        exact Nat.mul_le_mul_left q hlt
      exact iff_of_true (by omega) (.inl hlt)
    · rw [Nat.add_lt_add_iff_left]
      simp
    · have hstep : q * e + q ≤ q * d := by
        rw [← Nat.mul_succ]
        exact Nat.mul_le_mul_left q hgt
      exact iff_of_false (by omega) (by omega)

/-! ## Without leading zeros -/

/-- Digits with a digit other than 0 first, or just a 0. -/
structure Canonical (b : Nat) (ds : List Nat) : Prop where
  lt : ∀ d ∈ ds, d < b
  ne_nil : ds ≠ []
  leading : ds.head? = some 0 → ds = [0]

/-- The numeral of a number. -/
def ofNat (b n : Nat) : List Nat := if n = 0 then [0] else (Nat.digits b n).reverse

theorem ofNat_canonical (hb : 1 < b) (n : Nat) : Canonical b (ofNat b n) := by
  unfold ofNat
  by_cases hn : n = 0
  · rw [if_pos hn]
    exact ⟨by simpa using Nat.zero_lt_of_lt hb, List.cons_ne_nil _ _, fun _ => rfl⟩
  · have hdigits : Nat.digits b n ≠ [] := Nat.digits_ne_nil_iff_ne_zero.2 hn
    rw [if_neg hn]
    refine ⟨fun d hd => Nat.digits_lt_base hb (List.mem_reverse.1 hd), by simpa using hdigits, fun h => ?_⟩
    rw [List.head?_reverse, List.getLast?_eq_some_getLast hdigits, Option.some.injEq] at h
    exact absurd h (Nat.getLast_digit_ne_zero b hn)

theorem value_ofNat (b n : Nat) : value b (ofNat b n) = n := by
  unfold ofNat
  split
  · rename_i hn
    rw [hn]
    simp [value]
  · rw [value, List.reverse_reverse, Nat.ofDigits_digits]

/-- The last digit, after those of the quotient. -/
theorem ofNat_eq (hb : 1 < b) (n : Nat) : ofNat b n = (if n / b ≠ 0 then ofNat b (n / b) else []) ++ [n % b] := by
  by_cases hn : n = 0
  · rw [hn, Nat.zero_div, if_neg (not_not_intro rfl), Nat.zero_mod]
    rfl
  · rw [ofNat, if_neg hn, Nat.digits_def' hb (Nat.pos_of_ne_zero hn), List.reverse_cons]
    by_cases hquot : n / b = 0
    · rw [hquot, if_neg (not_not_intro rfl), Nat.digits_zero]
      rfl
    · rw [if_pos hquot, ofNat, if_neg hquot]

/-! ## Texts -/

/-- A character for each digit of base `b`, and how a character is read. -/
structure Alphabet (α : Type) (b : Nat) where
  char : Nat → α
  read : α → Option Nat
  read_char : ∀ d < b, read (char d) = some d

namespace Alphabet

variable {α : Type} (A : Alphabet α b)

/-- The text of a list of digits. -/
def text (ds : List Nat) : List α := ds.map A.char

/-- The number a text denotes, if all its characters are digits and there is one. -/
def parse (s : List α) : Option Nat := if s.isEmpty then none else (s.mapM A.read).map (value b)

theorem mapM_text : ∀ {ds : List Nat}, (∀ d ∈ ds, d < b) → (A.text ds).mapM A.read = some ds
  | [], _ => rfl
  | d :: ds, h => by
    have hrest : (A.text ds).mapM A.read = some ds := mapM_text fun e he => h e (List.mem_cons_of_mem _ he)
    rw [text] at hrest
    rw [text, List.map_cons, List.mapM_cons, A.read_char d (h d List.mem_cons_self), hrest]
    rfl

theorem parse_text {ds : List Nat} (hne : ds ≠ []) (h : ∀ d ∈ ds, d < b) : A.parse (A.text ds) = some (value b ds) := by
  have hempty : (A.text ds).isEmpty = false := by simpa [text] using hne
  rw [parse, hempty, A.mapM_text h]
  rfl

/-- Where the characters are in the order of the digits, so are the texts. -/
theorem text_lt_iff [LT α] (hchar : ∀ d < b, ∀ e < b, (A.char d < A.char e ↔ d < e)) : ∀ {ds es : List Nat},
    (∀ d ∈ ds, d < b) → (∀ e ∈ es, e < b) → (A.text ds < A.text es ↔ ds < es)
  | [], [], _, _ => by simp [text]
  | [], e :: es, _, _ => by simp [text]
  | d :: ds, [], _, _ => by simp [text]
  | d :: ds, e :: es, hds, hes => by
    have hrest : A.text ds < A.text es ↔ ds < es := text_lt_iff hchar (fun x hx => hds x (List.mem_cons_of_mem _ hx))
      fun x hx => hes x (List.mem_cons_of_mem _ hx)
    have hd := hds d List.mem_cons_self
    have he := hes e List.mem_cons_self
    have heq : A.char d = A.char e ↔ d = e := by
      refine ⟨fun h => ?_, fun h => by rw [h]⟩
      have hread := A.read_char e he
      rw [← h, A.read_char d hd] at hread
      exact Option.some.inj hread
    rw [text] at hrest
    rw [text, text, List.map_cons, List.map_cons, List.cons_lt_cons_iff, List.cons_lt_cons_iff, hchar d hd e he, heq]
    exact or_congr_right (and_congr_right fun _ => hrest)

end Alphabet

end Numeral
