/-
A page of text: `size` cells in rows of `width`, and a cursor on one of them or right behind the last. Text
overwrites what is under the cursor; a cursor that goes below the page scrolls it, one that goes above it
comes back in its column. A text that is typed and erased on the page stays what the page shows.
-/
import Mathlib.Data.List.GetD
import Mathlib.Logic.Function.Basic

structure Grid (α : Type) where
  cursor : Nat
  cell : Nat → α

namespace Grid

variable {α : Type}

/-! ## Operations -/

/-- The cells from the cursor on hold the text. -/
def put (text : List α) (g : Grid α) : Grid α :=
  { g with cell := fun c => if g.cursor ≤ c then text.getD (c - g.cursor) (g.cell c) else g.cell c }

def set (c : Nat) (a : α) (g : Grid α) : Grid α := { g with cell := Function.update g.cell c a }

def startOfRow (width : Nat) (g : Grid α) : Grid α := { g with cursor := width * (g.cursor / width) }

section
variable (width size : Nat) (blank : α)

/-- The rows move up; those that come in at the bottom are blank. -/
def scroll (rows : Nat) (g : Grid α) : Grid α :=
  { g with cell := fun c =>
    if size ≤ c then g.cell c
    else if c + width * rows < size then g.cell (c + width * rows)
    else blank }

/-- How many rows a cursor at `q` is below the page, rounded up. -/
def rowsBelow (q : Nat) : Nat := (q - size + (width - 1)) / width

def move (offset : Int) (g : Grid α) : Grid α :=
  if g.cursor + offset < 0 then { g with cursor := ((g.cursor + offset) % width).toNat }
  else
    let q := (g.cursor + offset).toNat
    { g.scroll width size blank (rowsBelow width size q) with cursor := q - width * rowsBelow width size q }

def print (text : List α) (g : Grid α) : Grid α := (g.put text).move width size blank text.length

/-- A step back, a blank, and a step back again. -/
def erase (g : Grid α) : Grid α :=
  ((g.move width size blank (-1)).print width size blank [blank]).move width size blank (-1)

end

variable {width size : Nat} {blank : α} {g : Grid α}

theorem scroll_cell (rows : Nat) {c : Nat} (hc : c < size) : (g.scroll width size blank rows).cell c =
    if c + width * rows < size then g.cell (c + width * rows) else blank := if_neg (Nat.not_le.2 hc)

theorem scroll_zero : g.scroll width size blank 0 = g := by
  have hcell : (fun c => if size ≤ c then g.cell c
      else if c + width * 0 < size then g.cell (c + width * 0) else blank) = g.cell := by
    funext c
    by_cases hc : size ≤ c
    · rw [if_pos hc]
    · rw [if_neg hc, Nat.mul_zero, Nat.add_zero, if_pos (Nat.lt_of_not_le hc)]
  rw [scroll, hcell]

theorem move_above {offset : Int} (h : g.cursor + offset < 0) :
    g.move width size blank offset = { g with cursor := ((g.cursor + offset) % width).toNat } := if_pos h

theorem move_to {offset : Int} {q : Nat} (hq : g.cursor + offset = q) : g.move width size blank offset =
    { g.scroll width size blank (rowsBelow width size q) with cursor := q - width * rowsBelow width size q } := by
  rw [move, hq, if_neg (Int.not_lt.2 (Int.natCast_nonneg q)), Int.toNat_natCast]

/-- A cursor that stays on the page, or right behind it, leaves the cells alone. -/
theorem move_inside (hwidth : 0 < width) {offset : Int} {q : Nat} (hq : g.cursor + offset = q) (hsize : q ≤ size) :
    g.move width size blank offset = { g with cursor := q } := by
  have hrows : rowsBelow width size q = 0 := by
    rw [rowsBelow, Nat.sub_eq_zero_of_le hsize]
    exact Nat.div_eq_of_lt (by omega)
  rw [move_to hq, hrows, scroll_zero, Nat.mul_zero, Nat.sub_zero]

theorem put_one (a : α) : g.put [a] = g.set g.cursor a := by
  have hcell : (fun c => if g.cursor ≤ c then [a].getD (c - g.cursor) (g.cell c) else g.cell c) =
      Function.update g.cell g.cursor a := by
    funext c
    rcases Nat.lt_trichotomy c g.cursor with hbefore | rfl | hbehind
    · rw [if_neg (by omega), Function.update_of_ne (by omega)]
    · rw [if_pos (Nat.le_refl _), Nat.sub_self, Function.update_self]
      rfl
    · rw [if_pos (by omega), Function.update_of_ne (by omega)]
      exact List.getD_eq_default _ _ (by simp only [List.length_singleton]; omega)
  rw [put, set, hcell]

theorem print_inside (hwidth : 0 < width) (hroom : g.cursor < size) (a : α) :
    g.print width size blank [a] = { g.set g.cursor a with cursor := g.cursor + 1 } := by
  rw [print, put_one]
  exact move_inside hwidth (by simp [set]) hroom

theorem erase_inside (hwidth : 0 < width) {q : Nat} (hq : g.cursor = q + 1) (hsize : g.cursor ≤ size) :
    g.erase width size blank = { g.set q blank with cursor := q } := by
  have hback : g.move width size blank (-1) = { g with cursor := q } := move_inside hwidth (by omega) (by omega)
  rw [erase, hback, print_inside hwidth (show q < size by omega)]
  exact move_inside hwidth (show ((q + 1 : Nat) : Int) + -1 = q by omega) (by omega)

/-! ## A line of text -/

/-- The page holds `text` from cell `start` on and blanks behind it, where the cursor is. -/
structure Holds (size : Nat) (blank : α) (start : Nat) (text : List α) (g : Grid α) : Prop where
  cursor : g.cursor = start + text.length
  fits : start + text.length ≤ size
  shown : ∀ i a, text[i]? = some a → g.cell (start + i) = a
  blanks : ∀ c, start + text.length ≤ c → c < size → g.cell c = blank

namespace Holds

variable {start : Nat} {text : List α} {a : α}

/-- A write in front of the text. -/
theorem set (h : Holds size blank start text g) {c : Nat} (hc : c < start) (a : α) :
    Holds size blank start text (g.set c a) where
  cursor := h.cursor
  fits := h.fits
  shown i b hb := by
    show Function.update g.cell c a (start + i) = b
    rw [Function.update_of_ne (by omega)]
    exact h.shown i b hb
  blanks d hd hsize := by
    show Function.update g.cell c a d = blank
    rw [Function.update_of_ne (by omega)]
    exact h.blanks d hd hsize

theorem print (h : Holds size blank start text g) (hwidth : 0 < width) (hroom : start + text.length < size) (a : α) :
    Holds size blank start (text ++ [a]) (g.print width size blank [a]) := by
  rw [print_inside hwidth (by rw [h.cursor]; exact hroom)]
  refine ⟨?_, ?_, fun i b hb => ?_, fun c hc hsize => ?_⟩
  · rw [List.length_append, h.cursor]
    rfl
  · rw [List.length_append]
    exact hroom
  · show Function.update g.cell g.cursor a (start + i) = b
    rw [h.cursor]
    by_cases hlast : i = text.length
    · rw [hlast, List.getElem?_concat_length] at hb
      rw [hlast, Function.update_self]
      exact Option.some.inj hb
    · rw [Function.update_of_ne (by omega)]
      refine h.shown i b ?_
      have hlen := (List.getElem?_eq_some_iff.1 hb).1
      rw [List.length_append, List.length_singleton] at hlen
      rwa [List.getElem?_append_left (by omega)] at hb
  · rw [List.length_append, List.length_singleton] at hc
    show Function.update g.cell g.cursor a c = blank
    rw [h.cursor, Function.update_of_ne (by omega)]
    exact h.blanks c (by omega) hsize

theorem erase (h : Holds size blank start (text ++ [a]) g) (hwidth : 0 < width) :
    Holds size blank start text (g.erase width size blank) := by
  have hcursor : g.cursor = start + text.length + 1 := by
    rw [h.cursor, List.length_append]
    rfl
  have hfits := h.fits
  rw [List.length_append, List.length_singleton] at hfits
  rw [erase_inside hwidth hcursor (by omega)]
  refine ⟨rfl, by omega, fun i b hb => ?_, fun c hc hsize => ?_⟩
  · have hlen := (List.getElem?_eq_some_iff.1 hb).1
    show Function.update g.cell (start + text.length) blank (start + i) = b
    rw [Function.update_of_ne (by omega)]
    exact h.shown i b (by rw [List.getElem?_append_left hlen, hb])
  · show Function.update g.cell (start + text.length) blank c = blank
    by_cases hlast : c = start + text.length
    · rw [hlast, Function.update_self]
    · rw [Function.update_of_ne hlast]
      refine h.blanks c ?_ hsize
      rw [List.length_append, List.length_singleton]
      omega

end Holds

end Grid
