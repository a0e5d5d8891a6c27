/-
Typing and Backspace: what printing a text at the cursor leaves as long as it ends on the screen, and
that as many presses of Backspace take it back, up to the last cell.
-/
import HavenOS.Keyboard.OnScreen
import HavenOS.Vga.Scroll

namespace HavenOS

/-- Every byte of memory but those of the `n` cells from cell `p` on is as it was. -/
def SameElsewhere (p n : Nat) (fb fb' : FrameBuffer) : Prop :=
  ∀ j, ¬ (p ≤ j ∧ j < p + n) → fb'.chr j = fb.chr j ∧ fb'.attr j = fb.attr j

/-- `n` blanks with attribute 0x0F from cell `p` on. -/
def BlankCells (p n : Nat) (fb : FrameBuffer) : Prop := ∀ j, p ≤ j → j < p + n → fb.chr j = 32 ∧ fb.attr j = 0x0F

section
variable {p n : Nat} {fb fb' fb'' : FrameBuffer}

theorem SameElsewhere.trans (h : SameElsewhere p n fb fb') (h' : SameElsewhere p n fb' fb'') :
    SameElsewhere p n fb fb'' := by
  intro j hj
  obtain ⟨h1, h2⟩ := h j hj
  obtain ⟨h1', h2'⟩ := h' j hj
  exact ⟨h1'.trans h1, h2'.trans h2⟩

/-- A write to one of the cells. -/
theorem sameElsewhere_writeCell {i : Nat} (hi : i < 2 ^ 31) (h1 : p ≤ i) (h2 : i < p + n) (c fg bg : UInt8) :
    SameElsewhere p n fb (fbWriteCell i c fg bg fb) := by
  intro j hj
  rw [chr_writeCell, attr_writeCell, if_neg (by omega), if_neg (by omega)]
  exact ⟨rfl, rfl⟩

/-- The cell Backspace writes. -/
theorem blank_writeCell {i : Nat} (hi : i < 2 ^ 31) : (fbWriteCell i 32 0 15 fb).chr i = 32 ∧
    (fbWriteCell i 32 0 15 fb).attr i = 0x0F := by
  rw [chr_writeCell, attr_writeCell, Nat.mod_eq_of_lt hi, if_pos rfl, if_pos rfl]
  exact ⟨rfl, by decide⟩

end

/-! ## One character and one Backspace -/

section
variable {v : Vga} {p : Nat} (hv : v.cursorPos.toInt = p)
include hv

theorem offsetBack_inside (h0 : 0 < p) (hp : p ≤ 2000) :
    (fbOffsetCursor (-1) v).cursorPos.toInt = (p - 1 : Nat) ∧ (fbOffsetCursor (-1) v).fb = v.fb := by
  have htarget : offsetTarget (-1) v = (p - 1 : Nat) := by
    simp only [offsetTarget, hv, wrapShort]; omega
  rw [fbOffsetCursor_cursor, fbOffsetCursor_fb, htarget, settle_screen (by omega) (by omega),
    scrollCount_screen (by omega)]
  exact ⟨rfl, rfl⟩

/-- Backspace blanks the cell before the cursor. On the way the cursor comes back to where it was, at
most to 2000, which does not scroll. -/
theorem backspace_inside (h0 : 0 < p) (hp : p ≤ 2000) : (onBackspace v).cursorPos.toInt = (p - 1 : Nat) ∧
    (onBackspace v).fb = fbWriteCell (p - 1) 32 0 15 v.fb := by
  obtain ⟨hback, hfb⟩ := offsetBack_inside hv h0 hp
  obtain ⟨hprint, hfb'⟩ := fbPrintCell_inside 32 0 15 hback (by omega)
  obtain ⟨hcursor, hfb''⟩ := offsetBack_inside hprint (by omega) (by omega)
  exact ⟨hcursor, by rw [onBackspace, hfb'', hfb', hfb]⟩

end

/-! ## Both phases -/

/-- Printing moves the cursor over the text and changes no other cell. -/
theorem printCells_inside (fg bg : UInt8) : ∀ (w : List UInt8) (v : Vga) (p : Nat), v.cursorPos.toInt = p →
    p + w.length ≤ 2000 → (printCells w fg bg v).cursorPos.toInt = (p + w.length : Nat) ∧
      SameElsewhere p w.length v.fb (printCells w fg bg v).fb
  | [], v, p, hv, _ => ⟨hv, fun _ _ => ⟨rfl, rfl⟩⟩
  | c :: w, v, p, hv, hfit => by
    rw [List.length_cons] at hfit ⊢
    obtain ⟨hcursor, hfb⟩ := fbPrintCell_inside c fg bg hv (by omega)
    obtain ⟨hend, hsame⟩ := printCells_inside fg bg w (fbPrintCell c fg bg v) (p + 1) hcursor (by omega)
    refine ⟨by rw [printCells, List.foldl_cons, ← printCells, hend]; omega, ?_⟩
    have hfirst : SameElsewhere p (w.length + 1) v.fb (fbPrintCell c fg bg v).fb := by
      rw [hfb]
      exact sameElsewhere_writeCell (by omega) le_rfl (by omega) c fg bg
    exact hfirst.trans fun j hj => hsame j (by omega)

/-- The presses go on to the console one by one. -/
theorem backspaces_run : ∀ (n : Nat) (s : Kernel), ∃ s', keyboardRun (List.replicate n 0x0E) s = some s' ∧
    s'.vga = onBackspace^[n] s.vga
  | 0, s => ⟨s, rfl, rfl⟩
  | n + 1, s => by
    obtain ⟨s1, h1, hvga, -⟩ := keyboardCallback_spec 0x0E s
    have haction : ∀ shifted, keyAction 0x0E shifted = .backspace := by decide
    obtain ⟨s2, h2, hvga2⟩ := backspaces_run n s1
    rw [haction] at hvga
    refine ⟨s2, ?_, by rw [hvga2, hvga]; rfl⟩
    rw [List.replicate_succ, keyboardRun, Run.run_cons, h1]
    exact h2

/-- `n` presses blank the `n` cells before the cursor. -/
theorem backspaces_inside : ∀ (n : Nat) (v : Vga) (p : Nat), v.cursorPos.toInt = (p + n : Nat) → p + n ≤ 2000 →
    (onBackspace^[n] v).cursorPos.toInt = p ∧ BlankCells p n (onBackspace^[n] v).fb ∧
      SameElsewhere p n v.fb (onBackspace^[n] v).fb
  | 0, v, p, hv, _ => ⟨hv, fun j h1 h2 => absurd h2 (by omega), fun _ _ => ⟨rfl, rfl⟩⟩
  | n + 1, v, p, hv, hfit => by
    obtain ⟨hcursor, hfb⟩ := backspace_inside hv (by omega) hfit
    obtain ⟨hend, hblank, hsame⟩ := backspaces_inside n (onBackspace v) p (hcursor.trans (by omega)) (by omega)
    rw [Function.iterate_succ_apply]
    refine ⟨hend, ?_, ?_⟩
    · intro j h1 h2
      by_cases hlast : j < p + n
      · exact hblank j h1 hlast
      · -- the cell of the first press is not touched again
        obtain ⟨hchr, hattr⟩ := hsame j (by omega)
        obtain rfl : j = p + (n + 1) - 1 := by omega
        rw [hchr, hattr, hfb]
        exact blank_writeCell (by omega)
    · have hfirst : SameElsewhere p (n + 1) v.fb (onBackspace v).fb := by
        rw [hfb]
        exact sameElsewhere_writeCell (by omega) (by omega) (by omega) 32 0 15
      exact hfirst.trans fun j hj => hsame j (by omega)

/-- Printing a text that ends on the screen and pressing Backspace for every character of it: the
cursor is back, the cells of the text are blank and no other byte of memory has changed. Where they were
blank before, nothing has. -/
theorem backspace_undoes_typing (s : Kernel) (w : List UInt8) (p : Nat) (hp : s.vga.cursorPos.toInt = p)
    (hfit : p + w.length ≤ 2000) :
    ∃ s', keyboardRun (List.replicate w.length 0x0E) (s.onVga (printCells w 0 15)) = some s' ∧
      s'.vga.cursorPos.toInt = p ∧ BlankCells p w.length s'.vga.fb ∧ SameElsewhere p w.length s.vga.fb s'.vga.fb ∧
      (BlankCells p w.length s.vga.fb → s'.vga.cursorPos = s.vga.cursorPos ∧ s'.vga.fb.val = s.vga.fb.val) := by
  obtain ⟨hprint, hsame⟩ := printCells_inside 0 15 w s.vga p hp hfit
  obtain ⟨s', hrun, hvga⟩ := backspaces_run w.length (s.onVga (printCells w 0 15))
  obtain ⟨hcursor, hblank, hsame'⟩ := backspaces_inside w.length (printCells w 0 15 s.vga) p hprint hfit
  rw [Kernel.onVga_vga] at hvga
  rw [← hvga] at hcursor hblank hsame'
  have hboth := hsame.trans hsame'
  refine ⟨s', hrun, hcursor, hblank, hboth, fun hbefore => ⟨Int16.toInt_inj.1 (hcursor.trans hp.symm), ?_⟩⟩
  have hcells : ∀ j, s'.vga.fb.chr j = s.vga.fb.chr j ∧ s'.vga.fb.attr j = s.vga.fb.attr j := by
    intro j
    by_cases hin : p ≤ j ∧ j < p + w.length
    · obtain ⟨h1, h2⟩ := hblank j hin.1 hin.2
      obtain ⟨h1', h2'⟩ := hbefore j hin.1 hin.2
      exact ⟨h1.trans h1'.symm, h2.trans h2'.symm⟩
    · exact hboth j hin
  funext i
  rw [val_eq_cell, val_eq_cell s.vga.fb, (hcells _).1, (hcells _).2]

/-- Two letters on the last two cells of an empty screen. -/
theorem backspace_undoes_typing_last :
    let s : Kernel := .start { Machine.powerOn with vga := fbMoveCursor 1998 .powerOn }
    ∃ s', keyboardRun [0x0E, 0x0E] (s.onVga (printCells [65, 66] 0 15)) = some s' ∧ s'.vga.cursorPos.toInt = 1998 ∧
      BlankCells 1998 2 s'.vga.fb := by
  obtain ⟨s', hrun, hcursor, hblank, -⟩ := backspace_undoes_typing
    (.start { Machine.powerOn with vga := fbMoveCursor 1998 .powerOn }) [65, 66] 1998 (by decide) (by decide)
  exact ⟨s', hrun, hcursor, hblank⟩

end HavenOS
