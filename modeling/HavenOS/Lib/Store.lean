/-
An array with its history: the value at every index, and the indices stored to so far, latest
first. What a read gives after a store, and which indices a history stays inside of.
-/
import Mathlib.Logic.Function.Basic

/-- The values by index and the indices stored to, latest first. -/
structure Store (ι α : Type) where
  val : ι → α
  log : List ι

namespace Store

variable {ι α : Type}

/-- Contents whose history starts here. -/
def fresh (val : ι → α) : Store ι α := ⟨val, []⟩

/-- The same contents with the history forgotten. -/
def forget (s : Store ι α) : Store ι α := fresh s.val

section
variable [DecidableEq ι]

/-- `s[i] = a`. -/
def set (s : Store ι α) (i : ι) (a : α) : Store ι α := ⟨Function.update s.val i a, i :: s.log⟩

theorem set_val (s : Store ι α) (i : ι) (a : α) (j : ι) :
    (s.set i a).val j = if j = i then a else s.val j := Function.update_apply ..

@[simp] theorem set_val_self (s : Store ι α) (i : ι) (a : α) : (s.set i a).val i = a := by
  simp [set_val]

end

/-- The first `n` elements of an array. -/
def read (s : Store Nat α) (n : Nat) : List α := (List.range n).map s.val

@[simp] theorem read_length (s : Store Nat α) (n : Nat) : (s.read n).length = n := by simp [read]

theorem getElem?_read (s : Store Nat α) (n i : Nat) :
    (s.read n)[i]? = if i < n then some (s.val i) else none := by
  by_cases h : i < n <;> simp [read, h]

theorem take_read (s : Store Nat α) {m n : Nat} (h : m ≤ n) : (s.read n).take m = s.read m := by
  rw [read, ← List.map_take, List.take_range, Nat.min_eq_left h]
  rfl

/-- Every store so far was at an index satisfying `P`. -/
def Inside (P : ι → Prop) (s : Store ι α) : Prop := ∀ i ∈ s.log, P i

theorem inside_fresh (P : ι → Prop) (val : ι → α) : Inside P (fresh val) := fun i hi => by cases hi

theorem inside_forget (P : ι → Prop) (s : Store ι α) : Inside P s.forget := inside_fresh P s.val

@[simp] theorem inside_set [DecidableEq ι] (P : ι → Prop) (s : Store ι α) (i : ι) (a : α) :
    Inside P (s.set i a) ↔ P i ∧ Inside P s := by
  simp [Inside, set]

/-- `s[i], s[i + 1], …` take the elements of a list in turn. -/
def blit : List α → Nat → Store Nat α → Store Nat α
  | [], _, s => s
  | a :: as, i, s => blit as (i + 1) (s.set i a)

theorem blit_val : ∀ (as : List α) (i : Nat) (s : Store Nat α) (k : Nat),
    (blit as i s).val k = if k < i then s.val k else (as[k - i]?).getD (s.val k)
  | [], i, s, k => by split <;> rfl
  | a :: as, i, s, k => by
    rw [blit, blit_val as (i + 1), set_val]
    rcases Nat.lt_trichotomy k i with hlt | rfl | hgt
    · rw [if_pos (by omega), if_pos hlt, if_neg (by omega)]
    · rw [if_pos (by omega), if_pos rfl, if_neg (by omega), Nat.sub_self]; rfl
    · rw [if_neg (by omega), if_neg (by omega), if_neg (by omega), show k - i = k - (i + 1) + 1 by omega]; rfl

theorem blit_append : ∀ (as bs : List α) (i : Nat) (s : Store Nat α),
    blit (as ++ bs) i s = blit bs (i + as.length) (blit as i s)
  | [], _, _, _ => rfl
  | a :: as, bs, i, s => by
    rw [List.cons_append, blit, blit_append as bs (i + 1), blit, List.length_cons, Nat.add_right_comm, Nat.add_assoc]

theorem blit_log : ∀ (as : List α) (i : Nat) (s : Store Nat α),
    (blit as i s).log = (List.range' i as.length).reverse ++ s.log
  | [], _, _ => rfl
  | a :: as, i, s => by
    rw [blit, blit_log as (i + 1), List.length_cons, List.range'_succ, List.reverse_cons, List.append_assoc]
    rfl

theorem inside_blit (P : Nat → Prop) : ∀ (as : List α) (i : Nat) (s : Store Nat α),
    Inside P (blit as i s) ↔ (∀ k < as.length, P (i + k)) ∧ Inside P s
  | [], _, _ => by simp [blit]
  | a :: as, i, s => by
    rw [blit, inside_blit P as (i + 1), inside_set]
    constructor
    · rintro ⟨hrest, hfirst, hs⟩
      refine ⟨fun k hk => ?_, hs⟩
      cases k with
      | zero => exact hfirst
      | succ k =>
        have h := hrest k (by simpa using hk)
        rwa [Nat.add_right_comm, Nat.add_assoc] at h
    · rintro ⟨hall, hs⟩
      refine ⟨fun k hk => ?_, hall 0 (by simp), hs⟩
      have h := hall (k + 1) (by simpa using hk)
      rwa [Nat.add_right_comm, Nat.add_assoc]

end Store
