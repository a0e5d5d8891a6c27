/-
Three-way comparison: -1, 0 or 1 for before, equal and after in a strict total order. Which order a
result belongs to, the laws of such results, and the lexicographic order of lists, one element at a
time.
-/
import Mathlib.Data.List.Lex

/-- `c` says where `x` stands to `y`. -/
structure ThreeWay {α : Type} (lt : α → α → Prop) (x y : α) (c : Int) : Prop where
  zero_iff : c = 0 ↔ x = y
  neg_iff : c = -1 ↔ lt x y
  pos_iff : c = 1 ↔ lt y x

namespace ThreeWay

variable {α : Type} {lt : α → α → Prop} {x y : α} {c : Int}

/-- The comparison the other way round. -/
theorem neg (h : ThreeWay lt x y c) : ThreeWay lt y x (-c) where
  zero_iff := by rw [Int.neg_eq_zero, h.zero_iff, eq_comm]
  neg_iff := by rw [Int.neg_inj, h.pos_iff]
  pos_iff := by rw [← h.neg_iff]; omega

/-! ## Results of a comparison -/

section
variable [Std.Asymm lt]

theorem not_lt_self (lt : α → α → Prop) [Std.Asymm lt] (x : α) : ¬ lt x x := fun h => Std.Asymm.asymm x x h h

theorem equal (x : α) : ThreeWay lt x x 0 :=
  ⟨iff_of_true rfl rfl, iff_of_false (by decide) (not_lt_self lt x), iff_of_false (by decide) (not_lt_self lt x)⟩

theorem before (h : lt x y) : ThreeWay lt x y (-1) := by
  refine ⟨iff_of_false (by decide) ?_, iff_of_true rfl h, iff_of_false (by decide) (Std.Asymm.asymm x y h)⟩
  rintro rfl
  exact not_lt_self lt x h

theorem behind (h : lt y x) : ThreeWay lt x y 1 := by
  refine ⟨iff_of_false (by decide) ?_, iff_of_false (by decide) (Std.Asymm.asymm y x h), iff_of_true rfl h⟩
  rintro rfl
  exact not_lt_self lt x h

end

/-! ## One of three -/

section
variable [Std.Trichotomous lt]

theorem lt_or_eq_or_gt (lt : α → α → Prop) [Std.Trichotomous lt] (x y : α) : lt x y ∨ x = y ∨ lt y x := by
  by_cases hlt : lt x y
  · exact .inl hlt
  · by_cases hgt : lt y x
    · exact .inr (.inr hgt)
    · exact .inr (.inl (Std.Trichotomous.trichotomous x y hlt hgt))

/-- There is one result. -/
theorem unique {c' : Int} (h : ThreeWay lt x y c) (h' : ThreeWay lt x y c') : c = c' := by
  rcases lt_or_eq_or_gt lt x y with hlt | heq | hgt
  · exact (h.neg_iff.2 hlt).trans (h'.neg_iff.2 hlt).symm
  · exact (h.zero_iff.2 heq).trans (h'.zero_iff.2 heq).symm
  · exact (h.pos_iff.2 hgt).trans (h'.pos_iff.2 hgt).symm

theorem le_zero_iff (h : ThreeWay lt x y c) : c ≤ 0 ↔ ¬ lt y x := by
  rw [← h.pos_iff]
  rcases lt_or_eq_or_gt lt x y with hlt | heq | hgt
  · have := h.neg_iff.2 hlt
    omega
  · have := h.zero_iff.2 heq
    omega
  · have := h.pos_iff.2 hgt
    omega

end

/-! ## Lists -/

section
variable [Std.Asymm lt] {xs ys : List α}

/-- A first element in common decides nothing. -/
theorem cons (x : α) (h : ThreeWay (List.Lex lt) xs ys c) : ThreeWay (List.Lex lt) (x :: xs) (x :: ys) c := by
  have hcons : ∀ zs ws : List α, List.Lex lt (x :: zs) (x :: ws) ↔ List.Lex lt zs ws := by
    intro zs ws
    rw [List.cons_lex_cons_iff]
    exact ⟨fun h => (h.resolve_left (not_lt_self lt x)).2, fun h => .inr ⟨rfl, h⟩⟩
  refine ⟨?_, ?_, ?_⟩
  · rw [h.zero_iff, List.cons.injEq]
    exact ⟨fun h => ⟨rfl, h⟩, fun h => h.2⟩
  · rw [h.neg_iff, hcons]
  · rw [h.pos_iff, hcons]

/-- First elements that differ decide. -/
theorem of_head [Std.Trichotomous lt] (hne : x ≠ y) (h : ThreeWay lt x y c) :
    ThreeWay (List.Lex lt) (x :: xs) (y :: ys) c := by
  rcases lt_or_eq_or_gt lt x y with hlt | heq | hgt
  · rw [h.neg_iff.2 hlt]
    exact before (.rel hlt)
  · exact absurd heq hne
  · rw [h.pos_iff.2 hgt]
    exact behind (.rel hgt)

end

end ThreeWay
