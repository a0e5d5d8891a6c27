/-
Printing character by character as a terminal: the screen is a window on the endless text printed
so far, moved down a row by every scroll. A character printed at cursor 2000, beyond the last
cell, is cleared by the scroll it causes: position `t` of the text is lost when `t ≥ 2000` and
`t` is a multiple of 80.
-/
import HavenOS.Vga.Cursor
import Mathlib.Data.List.Induction

namespace HavenOS

/-- `fb_print_cell` on every character, from left to right. -/
def printCells (s : List UInt8) (fg bg : UInt8) (v : Vga) : Vga := s.foldl (fun v c => fbPrintCell c fg bg v) v

theorem printCells_snoc (s : List UInt8) (x fg bg : UInt8) (v : Vga) :
    printCells (s ++ [x]) fg bg v = fbPrintCell x fg bg (printCells s fg bg v) := by
  simp [printCells, List.foldl_append]

/-! ## The tape -/

/-- The tape after putting `xs` from position `p` on, over a screen `old`: the lost positions and
those below the text hold the fill. -/
def tape {α : Type} (old : Nat → α) (fill : α) (p : Nat) (xs : List α) (t : Nat) : α :=
  if p ≤ t ∧ t < p + xs.length ∧ ¬ (2000 ≤ t ∧ t % 80 = 0) then xs.getD (t - p) fill
  else if t < 2000 then old t
  else fill

section
variable {α : Type} (old : Nat → α) (fill : α) (p : Nat) (xs : List α)

theorem tape_nil (t : Nat) : tape old fill p [] t = if t < 2000 then old t else fill := by
  rw [tape, if_neg (by simp only [List.length_nil]; omega)]

/-- Outside the text, and where it is lost, the tape shows the old screen or the fill. -/
theorem tape_outside {t : Nat} (h : ¬ (p ≤ t ∧ t < p + xs.length) ∨ (2000 ≤ t ∧ t % 80 = 0)) :
    tape old fill p xs t = if t < 2000 then old t else fill := by
  rw [tape, if_neg (by omega)]

theorem tape_inside {t : Nat} (h1 : p ≤ t) (h2 : t < p + xs.length) (h3 : ¬ (2000 ≤ t ∧ t % 80 = 0)) :
    tape old fill p xs t = xs.getD (t - p) fill := by
  rw [tape, if_pos ⟨h1, h2, h3⟩]

theorem tape_snoc (x : α) (t : Nat) : tape old fill p (xs ++ [x]) t =
    if t = p + xs.length ∧ ¬ (2000 ≤ t ∧ t % 80 = 0) then x else tape old fill p xs t := by
  have hlen : (xs ++ [x]).length = xs.length + 1 := by simp
  by_cases hl : 2000 ≤ t ∧ t % 80 = 0
  · rw [if_neg (by simp [hl]), tape_outside _ _ _ _ (.inr hl), tape_outside _ _ _ _ (.inr hl)]
  · by_cases ht : t = p + xs.length
    · rw [if_pos ⟨ht, hl⟩, tape_inside _ _ _ _ (by omega) (by omega) hl, show t - p = xs.length by omega]
      simp
    · rw [if_neg (by simp [ht])]
      by_cases hin : p ≤ t ∧ t < p + xs.length
      · rw [tape_inside _ _ _ _ hin.1 (by omega) hl, tape_inside _ _ _ _ hin.1 hin.2 hl]
        simp only [List.getD_eq_getElem?_getD]
        rw [List.getElem?_append_left (by omega)]
      · rw [tape_outside _ _ _ _ (.inl (by omega)), tape_outside _ _ _ _ (.inl hin)]

/-- Below the text the tape holds the fill. -/
theorem tape_below {t : Nat} (h1 : p + xs.length ≤ t) (h2 : 2000 ≤ t) : tape old fill p xs t = fill := by
  rw [tape_outside _ _ _ _ (.inl (by omega)), if_neg (by omega)]

end

/-! ## The invariant -/

/-- How far the window is down the tape when the text ends at position `q`. -/
def topOf (q : Nat) : Nat := 80 * scrollCount q

theorem topOf_eq (q : Nat) : topOf q = 80 * ((q - 1921) / 80) := by
  unfold topOf scrollCount; omega

/-- The screen `w` after printing `s` from cell `p` of `v`: the cursor, the characters and the
attributes. The first cell keeps its attribute when the screen scrolls. -/
structure Printed (v : Vga) (p : Nat) (s : List UInt8) (fg bg : UInt8) (w : Vga) : Prop where
  cursor : w.cursorPos.toInt = (p + s.length : Nat) - (topOf (p + s.length) : Nat)
  chrs : Window.Shows 2000 w.fb.chr (tape v.fb.chr 32 p s) (topOf (p + s.length))
  attrs : Window.Shows 1999 (fun c => w.fb.attr (c + 1))
    (fun t => tape v.fb.attr (colorByte bg bg) p (s.map fun _ => colorByte fg bg) (t + 1)) (topOf (p + s.length))
  attr0 : w.fb.attr 0 = if p = 0 ∧ s ≠ [] then colorByte fg bg else v.fb.attr 0

theorem Printed.nil {v : Vga} {p : Nat} {fg bg : UInt8} (hp : p ≤ 1999) (hv : v.cursorPos.toInt = p) :
    Printed v p [] fg bg v := by
  have h0 : topOf (p + ([] : List UInt8).length) = 0 := by rw [topOf_eq]; simp; omega
  refine ⟨by rw [h0, hv]; simp, ?_, ?_, by simp⟩
  · intro c hc
    rw [h0, tape_nil, if_pos (by omega)]; rfl
  · intro c hc
    simp only [h0, List.map_nil]
    rw [tape_nil, if_pos (by omega)]

theorem toUnsigned_nat {x : Int} {n : Nat} (h : x = n) : toUnsigned x = n % 2 ^ 32 := by
  rw [h, toUnsigned_natCast]

/-- One character at cell `p`: it is stored, the cursor moves on and the screen follows it. -/
theorem fbPrintCell_at {v : Vga} {p : Nat} (hp : p ≤ 2000) (hv : v.cursorPos.toInt = p) (c fg bg : UInt8) :
    (fbPrintCell c fg bg v).cursorPos.toInt = settle (p + 1) ∧
    (fbPrintCell c fg bg v).fb = fbScroll^[scrollCount (p + 1)] (fbWriteCell p c fg bg v.fb) := by
  have hcell : toUnsigned v.cursorPos.toInt = p := by rw [toUnsigned_nat hv]; omega
  have htarget : offsetTarget 1 { v with fb := fbWriteCell p c fg bg v.fb } = p + 1 := by
    simp only [offsetTarget, hv, wrapShort]; omega
  rw [fbPrintCell, hcell, fbOffsetCursor_cursor, fbOffsetCursor_fb, htarget]
  exact ⟨rfl, rfl⟩

section
variable {v : Vga} (c fg bg : UInt8)

theorem fbPrintCell_inside {p : Nat} (hv : v.cursorPos.toInt = p) (hp : p < 2000) :
    (fbPrintCell c fg bg v).cursorPos.toInt = (p + 1 : Nat) ∧
      (fbPrintCell c fg bg v).fb = fbWriteCell p c fg bg v.fb := by
  obtain ⟨hcursor, hfb⟩ := fbPrintCell_at (by omega) hv c fg bg
  rw [settle_screen (by omega) (by omega)] at hcursor
  rw [scrollCount_screen (by omega), Function.iterate_zero, id_eq] at hfb
  exact ⟨hcursor, hfb⟩

theorem fbPrintCell_beyond (hv : v.cursorPos.toInt = 2000) :
    (fbPrintCell c fg bg v).cursorPos.toInt = 1921 ∧
    (fbPrintCell c fg bg v).fb = fbScroll (fbWriteCell 2000 c fg bg v.fb) :=
  fbPrintCell_at (p := 2000) (Nat.le_refl _) hv c fg bg

/-- The cells of the screen when a cell beyond them is written. -/
theorem cells_writeCell_beyond (fb : FrameBuffer) {j : Nat} (hj : j < 2000) :
    (fbWriteCell 2000 c fg bg fb).chr j = fb.chr j ∧ (fbWriteCell 2000 c fg bg fb).attr j = fb.attr j := by
  rw [chr_writeCell, attr_writeCell, if_neg (by omega), if_neg (by omega)]
  exact ⟨rfl, rfl⟩

end

section
variable {v w : Vga} {p : Nat} {s : List UInt8} {fg bg : UInt8} (h : Printed v p s fg bg w) (x : UInt8)
include h

/-- The first attribute when the cell of the cursor is written. -/
theorem Printed.attr0_snoc {c : Nat} (hc : c < 2000) (hcell : c + topOf (p + s.length) = p + s.length) :
    (fbWriteCell c x fg bg w.fb).attr 0 = if p = 0 ∧ s ++ [x] ≠ [] then colorByte fg bg else v.fb.attr 0 := by
  have htop := topOf_eq (p + s.length)
  rw [attr_writeCell, Nat.mod_eq_of_lt (by omega), h.attr0]
  cases c with
  | zero => rw [if_pos rfl, if_pos ⟨by omega, by simp⟩]
  | succ c =>
    rw [if_neg (by omega)]
    refine if_congr ?_ rfl rfl
    constructor
    · rintro ⟨hp, -⟩; exact ⟨hp, by simp⟩
    · rintro ⟨hp, -⟩
      refine ⟨hp, ?_⟩
      rintro rfl
      rw [List.length_nil] at hcell
      omega

/-- Printing at a cell of the screen: the cell is overwritten and the cursor moves on. -/
theorem Printed.snoc_inside (hin : w.cursorPos.toInt < 2000) :
    Printed v p (s ++ [x]) fg bg (fbPrintCell x fg bg w) := by
  have htop := topOf_eq (p + s.length)
  have hcur := h.cursor
  obtain ⟨c, hc⟩ : ∃ c : Nat, c + topOf (p + s.length) = p + s.length :=
    ⟨p + s.length - topOf (p + s.length), by omega⟩
  have hlost : ¬ (2000 ≤ p + s.length ∧ (p + s.length) % 80 = 0) := by omega
  have hwc : w.cursorPos.toInt = c := by omega
  have hcell : c % 2 ^ 31 = c := by omega
  obtain ⟨hcur', hfb⟩ := fbPrintCell_inside x fg bg hwc (by omega)
  have htop' : topOf (p + (s ++ [x]).length) = topOf (p + s.length) := by
    rw [topOf_eq, htop]; simp only [List.length_append, List.length_singleton]; omega
  refine ⟨?_, ?_, ?_, ?_⟩
  · rw [hcur', htop']
    simp only [List.length_append, List.length_singleton]; omega
  · rw [htop', hfb]
    refine h.chrs.write (p := c) (a := x) (fun j _ => by rw [chr_writeCell, hcell]) (fun t => ?_)
    rw [tape_snoc]
    exact if_congr (by omega) rfl rfl
  · rw [htop', hfb, List.map_append]
    have htape : ∀ t, tape v.fb.attr (colorByte bg bg) p
        ((s.map fun _ => colorByte fg bg) ++ [colorByte fg bg]) (t + 1) =
        if t + 1 = c + topOf (p + s.length) then colorByte fg bg
        else tape v.fb.attr (colorByte bg bg) p (s.map fun _ => colorByte fg bg) (t + 1) := by
      intro t
      rw [tape_snoc, List.length_map]
      exact if_congr (by omega) rfl rfl
    cases c with
    | zero =>
      -- only the attribute of the first cell changes, which the window leaves out
      refine h.attrs.congr (fun j _ => ?_) (fun j _ => ?_)
      · rw [attr_writeCell, hcell, if_neg (by omega)]
      · exact (htape _).trans (if_neg (by omega))
    | succ c =>
      refine h.attrs.write (p := c) (a := colorByte fg bg) (fun j _ => ?_) (fun t => ?_)
      · rw [attr_writeCell, hcell]
        exact if_congr (by omega) rfl rfl
      · exact (htape t).trans (if_congr (by omega) rfl rfl)
  · rw [hfb]
    exact h.attr0_snoc x (by omega) hc

variable (hp : p ≤ 1999) (hout : w.cursorPos.toInt = 2000)
include hp hout

/-- At cursor 2000 the last cell was printed just before. -/
theorem Printed.attr_last : w.fb.attr 1999 = colorByte fg bg := by
  have htop := topOf_eq (p + s.length)
  have hcur := h.cursor
  refine (h.attrs 1998 (by omega)).trans ?_
  simp only
  rw [tape_inside _ _ _ _ (by omega) (by simp; omega) (by omega)]
  simp only [List.getD_eq_getElem?_getD, List.getElem?_map]
  rw [List.getElem?_eq_getElem (by omega)]; rfl

/-- Printing at cursor 2000: the character goes beyond the screen, which scrolls, and the cursor
comes to the second cell of the blank last row. -/
theorem Printed.snoc_beyond : Printed v p (s ++ [x]) fg bg (fbPrintCell x fg bg w) := by
  have hcur := h.cursor
  have htop := topOf_eq (p + s.length)
  have hlost : 2000 ≤ p + s.length ∧ (p + s.length) % 80 = 0 := by omega
  obtain ⟨hcur', hfb⟩ := fbPrintCell_beyond x fg bg hout
  have htop' : topOf (p + (s ++ [x]).length) = topOf (p + s.length) + 80 := by
    rw [topOf_eq, htop]; simp only [List.length_append, List.length_singleton]; omega
  have hkept := fun j (hj : j < 2000) => cells_writeCell_beyond x fg bg w.fb hj
  -- the blank row takes the background in both colours
  have hfill : FrameBuffer.fill (fbWriteCell 2000 x fg bg w.fb) = colorByte bg bg := by
    rw [FrameBuffer.fill, (hkept 1999 (by omega)).2, h.attr_last hp hout, colorByte_twice]
  refine ⟨?_, ?_, ?_, ?_⟩
  · rw [hcur', htop']
    simp only [List.length_append, List.length_singleton]; omega
  · rw [htop', hfb]
    refine Window.Shows.congr ((Window.Shows.congr h.chrs (fun j hj => (hkept j hj).1) fun _ _ => rfl).scrolled
      (fun j hj => chr_fbScroll _ j hj) fun t ht => tape_below _ _ _ _ (by omega) (by omega)) (fun _ _ => rfl) ?_
    intro j _
    rw [tape_snoc, if_neg (by omega)]
  · rw [htop', hfb, List.map_append]
    refine Window.Shows.congr
      ((Window.Shows.congr h.attrs (fun j hj => (hkept (j + 1) (by omega)).2) fun _ _ => rfl).scrolled
      (fun j hj => ?_) fun t ht => tape_below _ _ _ _ (by simp; omega) (by omega)) (fun _ _ => rfl) ?_
    · rw [attr_fbScroll_succ _ j hj, hfill]
    · intro j _
      rw [List.map_cons, List.map_nil, tape_snoc, List.length_map, if_neg (by omega)]
  · rw [hfb, attr_fbScroll _ 0 (by omega), if_pos rfl, (hkept 0 (by omega)).2, h.attr0]
    have hs : s ≠ [] := by
      rintro rfl
      rw [List.length_nil] at hlost
      omega
    exact if_congr (by simp [hs]) rfl rfl

end

/-- After printing any text from a cell of the screen, the screen is the window on the tape. -/
theorem printCells_printed {v : Vga} {p : Nat} (hp : p ≤ 1999) (hv : v.cursorPos.toInt = p) (fg bg : UInt8)
    (s : List UInt8) : Printed v p s fg bg (printCells s fg bg v) := by
  induction s using List.reverseRecOn with
  | nil => exact .nil hp hv
  | append_singleton s x ih =>
    rw [printCells_snoc]
    -- the cursor is on the screen or one cell beyond it
    by_cases hin : (printCells s fg bg v).cursorPos.toInt < 2000
    · exact ih.snoc_inside x hin
    · have hle : (printCells s fg bg v).cursorPos.toInt ≤ 2000 := by
        rw [ih.cursor]
        have := topOf_eq (p + s.length)
        omega
      exact ih.snoc_beyond x hp (by omega)

/-! ## The terminal -/

/-- The screen an 80x25 scrolling terminal shows after printing `s`: `k` rows have gone off, the
rest of the text stands from the first cell on, everything else is blank. -/
def TerminalShows (s : List UInt8) (w : Vga) : Prop :=
  ∃ k, 80 * k ≤ s.length ∧ s.length - 80 * k ≤ 2000 ∧ w.cursorPos.toInt = (s.length - 80 * k : Nat) ∧
    (∀ i (h : i < s.length), 80 * k ≤ i → w.fb.chr (i - 80 * k) = s[i]) ∧
    ∀ c < 2000, (∀ i < s.length, 80 * k ≤ i → c ≠ i - 80 * k) → w.fb.chr c = 32

/-- Every character printed beyond the last cell whose row is still on the screen is a space:
`⌈(n - 2000) / 80⌉` rows have gone off. -/
def LostAreBlank (s : List UInt8) : Prop :=
  ∀ i (h : i < s.length), 2000 ≤ i → 80 * ((s.length - 1921) / 80) ≤ i → i % 80 = 0 → s[i] = 32

/-- The cleared screen with the cursor at 0. -/
def cleared (fg bg : UInt8) (v : Vga) : Vga := fbMoveCursor 0 { v with fb := fbClear fg bg v.fb }

theorem cleared_printed (f b fg bg : UInt8) (v : Vga) (s : List UInt8) :
    Printed (cleared f b v) 0 s fg bg (printCells s fg bg (cleared f b v)) :=
  printCells_printed (by omega) rfl fg bg s

/-- The characters on the screen after printing `s` on the cleared screen. -/
theorem chr_printCells_cleared (f b fg bg : UInt8) (v : Vga) (s : List UInt8) {c : Nat} (hc : c < 2000) :
    (printCells s fg bg (cleared f b v)).fb.chr c =
      tape (fun _ => 32) 32 0 s (c + 80 * ((s.length - 1921) / 80)) := by
  have h := (cleared_printed f b fg bg v s).chrs c hc
  rw [topOf_eq, Nat.zero_add] at h
  rw [h]
  unfold tape
  split
  · rfl
  · split
    · exact chr_fbClear _ _ _ _ (by omega)
    · rfl

/-- Printing `s` with `fb_print_cell` on the cleared screen leaves what a scrolling terminal shows
exactly when the characters printed beyond the last cell are spaces or off the screen again. -/
theorem printCells_terminal_iff (f b fg bg : UInt8) (v : Vga) (s : List UInt8) :
    TerminalShows s (printCells s fg bg (cleared f b v)) ↔ LostAreBlank s := by
  have hcur := (cleared_printed f b fg bg v s).cursor
  rw [topOf_eq, Nat.zero_add] at hcur
  constructor
  · rintro ⟨k, hk1, hk2, hk3, htext, -⟩ i hi h2000 htop hlost
    -- the cursor leaves no choice of the scroll count
    have hk : k = (s.length - 1921) / 80 := by omega
    have h := htext i hi (by omega)
    rw [chr_printCells_cleared f b fg bg v s (by omega), tape_outside _ _ _ _ (.inr (by omega))] at h
    rw [← h]
    simp
  · intro hblank
    refine ⟨(s.length - 1921) / 80, by omega, by omega, by omega, ?_, ?_⟩
    · intro i hi htop
      rw [chr_printCells_cleared f b fg bg v s (by omega), Nat.sub_add_cancel htop]
      by_cases hlost : 2000 ≤ i ∧ i % 80 = 0
      · rw [tape_outside _ _ _ _ (.inr hlost), hblank i hi hlost.1 htop hlost.2]
        simp
      · rw [tape_inside _ _ _ _ (by omega) (by omega) hlost, Nat.sub_zero, List.getD_eq_getElem?_getD,
          List.getElem?_eq_getElem hi]
        rfl
    · intro c hc hother
      rw [chr_printCells_cleared f b fg bg v s hc]
      by_cases hin : c + 80 * ((s.length - 1921) / 80) < s.length
      · exact absurd (by omega) (hother _ hin (by omega))
      · rw [tape_outside _ _ _ _ (.inl (by omega))]
        simp

/-- 2001 letters on the cleared screen: the last one is not where a terminal shows it. -/
theorem printCells_loses_letter : ¬ TerminalShows (List.replicate 2001 65)
    (printCells (List.replicate 2001 65) 0 15 (cleared 0 15 Vga.powerOn)) := by
  rintro ⟨k, -, -, hcursor, htext, -⟩
  have hcur := (cleared_printed 0 15 0 15 Vga.powerOn (List.replicate 2001 65)).cursor
  have hlen : (List.replicate 2001 (65 : UInt8)).length = 2001 := List.length_replicate
  rw [topOf_eq] at hcur
  have h := htext 2000 (by omega) (by omega)
  rw [chr_printCells_cleared _ _ _ _ _ _ (by omega), tape_outside _ _ _ _ (.inr (by omega))] at h
  simp only [ite_self, List.getElem_replicate] at h
  exact absurd h (by decide)

end HavenOS
