/-
Which stores through `fb` stay inside the screen: for every operation of vga.c, when the bytes it
writes are among the 4000 of the 80x25 cells.
-/
import HavenOS.Vga.Bulk

namespace HavenOS

/-- Every byte stored so far is one of the 4000 of the screen. -/
def FrameBuffer.OnScreen (fb : FrameBuffer) : Prop := fb.Inside (· < 4000)

variable (fb : FrameBuffer)

/-! ## Cells and rows -/

theorem onScreen_writeCell {i : Nat} (hi : i < 2 ^ 31) (c fg bg : UInt8) :
    (fbWriteCell i c fg bg fb).OnScreen ↔ i < 2000 ∧ fb.OnScreen := by
  unfold fbWriteCell FrameBuffer.OnScreen
  simp only [Store.inside_set]
  constructor
  · rintro ⟨h1, -, h⟩; exact ⟨by omega, h⟩
  · rintro ⟨h1, h⟩; exact ⟨by omega, by omega, h⟩

/-- Writing `n` characters from cell `i` on. -/
theorem onScreen_writeLstrLoop (fg bg : UInt8) : ∀ (n i : Nat) (str : List UInt8) (fb : FrameBuffer), i + n ≤ 2 ^ 31 →
    ((writeLstrLoop fg bg n i str fb).OnScreen ↔ (n = 0 ∨ i + n ≤ 2000) ∧ fb.OnScreen)
  | 0, _, _, _, _ => by simp [writeLstrLoop]
  | n + 1, i, str, fb, h => by
    rw [writeLstrLoop, onScreen_writeLstrLoop fg bg n (i + 1) _ _ (by omega), onScreen_writeCell _ (by omega)]
    constructor
    · rintro ⟨h1, h2, h⟩; exact ⟨.inr (by omega), h⟩
    · rintro ⟨h1, h⟩; exact ⟨by omega, by omega, h⟩

theorem onScreen_writeLstrLoop_of (fg bg : UInt8) : ∀ (n i : Nat) (str : List UInt8) (fb : FrameBuffer),
    (writeLstrLoop fg bg n i str fb).OnScreen → fb.OnScreen
  | 0, _, _, _, h => h
  | n + 1, i, str, fb, h => by
    have h := onScreen_writeLstrLoop_of fg bg n (i + 1) _ _ h
    unfold fbWriteCell FrameBuffer.OnScreen at h
    simp only [Store.inside_set] at h
    exact h.2.2

theorem onScreen_clearRowLoop (fg bg : UInt8) : ∀ (n i : Nat) (fb : FrameBuffer), i + n ≤ 2000 →
    ((clearRowLoop fg bg n i fb).OnScreen ↔ fb.OnScreen)
  | 0, _, _, _ => Iff.rfl
  | n + 1, i, fb, h => by
    rw [clearRowLoop, onScreen_clearRowLoop fg bg n (i + 1) _ (by omega), onScreen_writeCell _ (by omega)]
    exact and_iff_right (by omega)

/-- A row copy stores up to the attribute of the second cell after the row. -/
theorem onScreen_copyRowLoop : ∀ (n rowIn rowOut : Nat) (fb : FrameBuffer),
    (copyRowLoop n rowIn rowOut fb).OnScreen ↔ (n = 0 ∨ rowOut + n < 2000) ∧ fb.OnScreen
  | 0, _, _, _ => by simp [copyRowLoop]
  | n + 1, rowIn, rowOut, fb => by
    rw [copyRowLoop, onScreen_copyRowLoop n (rowIn + 1) (rowOut + 1)]
    unfold FrameBuffer.OnScreen
    simp only [Store.inside_set]
    constructor
    · rintro ⟨h1, h2, h3, h⟩; exact ⟨.inr (by omega), h⟩
    · rintro ⟨h1, h⟩; exact ⟨by omega, by omega, by omega, h⟩

theorem onScreen_copyRow {«from» «to» : Nat} (h1 : «from» ≤ 25) (h2 : «to» ≤ 23) :
    (fbCopyRow «from» «to» fb).OnScreen ↔ fb.OnScreen := by
  rw [fbCopyRow_valid fb «from» «to» h1 (by omega), onScreen_copyRowLoop]
  exact and_iff_right (by omega)

/-! ## Scrolling and shifting -/

theorem onScreen_scrollRows : ∀ (n row : Nat) (fb : FrameBuffer), 1 ≤ row → row + n ≤ 25 →
    ((scrollRows n row fb).OnScreen ↔ fb.OnScreen)
  | 0, _, _, _, _ => Iff.rfl
  | n + 1, row, fb, h1, h2 => by
    rw [scrollRows, onScreen_scrollRows n (row + 1) _ (by omega) (by omega),
      show (row : Int) - 1 = ((row - 1 : Nat) : Int) by omega, onScreen_copyRow _ (by omega) (by omega)]

theorem onScreen_scroll : (fbScroll fb).OnScreen ↔ fb.OnScreen := by
  unfold fbScroll fbClearRow
  rw [onScreen_clearRowLoop _ _ _ _ _ (by decide), onScreen_scrollRows _ _ _ (by decide) (by decide)]

theorem onScreen_iterate_scroll : ∀ (k : Nat) (fb : FrameBuffer), (fbScroll^[k] fb).OnScreen ↔ fb.OnScreen
  | 0, _ => Iff.rfl
  | k + 1, fb => by rw [Function.iterate_succ_apply, onScreen_iterate_scroll k, onScreen_scroll]

/-- Moving the cursor stores nothing outside the screen, however far it goes. -/
theorem onScreen_offsetCursor (offset : Int) (v : Vga) : (fbOffsetCursor offset v).fb.OnScreen ↔ v.fb.OnScreen := by
  rw [fbOffsetCursor_fb, onScreen_iterate_scroll]

theorem onScreen_shiftDownLoop_of : ∀ (n : Nat) (row : Int) (fb : FrameBuffer),
    (shiftDownLoop n row fb).OnScreen → fb.OnScreen
  | 0, _, _, h => h
  | n + 1, row, fb, h => by
    have h := onScreen_shiftDownLoop_of n (row - 1) _ h
    unfold fbCopyRow at h
    split at h
    · exact h
    · exact ((onScreen_copyRowLoop _ _ _ _).1 h).2

/-- Opening a line in any row of the screen copies row 24 to row 25, which is not on it. -/
theorem not_onScreen_shiftDown {row : Int} (h0 : 0 ≤ row) (h1 : row ≤ 24) : ¬ (fbShiftDown row fb).OnScreen := by
  intro h
  obtain ⟨n, hn⟩ : ∃ n : Nat, (fbNumRows - row + 1).toNat = n + 2 :=
    ⟨(24 - row).toNat, by simp only [fbNumRows_eq]; omega⟩
  rw [fbShiftDown, hn, shiftDownLoop, shiftDownLoop, fbCopyRow_invalid fb _ _ (by simp)] at h
  have h := onScreen_shiftDownLoop_of n _ _ h
  rw [show (fbNumRows : Int) - 1 = ((24 : Nat) : Int) by rfl, show ((24 : Nat) : Int) + 1 = ((25 : Nat) : Int) by rfl,
    fbCopyRow_valid fb 24 25 (by omega) (by omega), onScreen_copyRowLoop] at h
  omega

/-! ## Printing -/

theorem onScreen_printStr_of (s : List UInt8) (fg bg : UInt8) (v : Vga) (h : (fbPrintStr s fg bg v).fb.OnScreen) :
    v.fb.OnScreen := by
  rw [fbPrintStr, onScreen_offsetCursor] at h
  exact onScreen_writeLstrLoop_of fg bg _ _ _ _ h

section
variable {v : Vga} {p : Nat} (hp : p ≤ 2000) (hv : v.cursorPos.toInt = p)
include hp hv

theorem onScreen_printCell (c fg bg : UInt8) : (fbPrintCell c fg bg v).fb.OnScreen ↔ p < 2000 ∧ v.fb.OnScreen := by
  rw [(fbPrintCell_at hp hv c fg bg).2, onScreen_iterate_scroll]
  exact onScreen_writeCell _ (by omega) _ _ _

theorem printCell_cursor (c fg bg : UInt8) : (fbPrintCell c fg bg v).cursorPos.toInt = settle (p + 1) :=
  (fbPrintCell_at hp hv c fg bg).1

theorem onScreen_printStr (s : List UInt8) (hs : 0 ∉ s) (hlen : s.length ≤ 30000) (fg bg : UInt8) :
    (fbPrintStr s fg bg v).fb.OnScreen ↔ (s = [] ∨ p + s.length ≤ 2000) ∧ v.fb.OnScreen := by
  have hcell : toUnsigned v.cursorPos.toInt = p := by rw [toUnsigned_nat hv]; omega
  rw [fbPrintStr_eq s hs, fbPrintLstr, onScreen_offsetCursor, hcell, ← List.length_eq_zero_iff]
  exact onScreen_writeLstrLoop fg bg _ _ _ _ (by simp; omega)

theorem printStr_cursor (s : List UInt8) (hs : 0 ∉ s) (hlen : s.length ≤ 30000) (fg bg : UInt8) :
    (fbPrintStr s fg bg v).cursorPos.toInt = settle (p + s.length : Nat) := by
  have hwrap : wrapShort (p + s.length : Nat) = (p + s.length : Nat) := by unfold wrapShort; omega
  rw [fbPrintStr_eq s hs, fbPrintLstr_cursor hv, hwrap]

end

/-- Printing character by character stays on the screen as long as no character is printed at
cursor 2000. -/
theorem printCells_onScreen (fg bg : UInt8) : ∀ (s : List UInt8) (v : Vga) (p : Nat), p ≤ 2000 → v.cursorPos.toInt = p →
    ((printCells s fg bg v).fb.OnScreen ↔ p + s.length ≤ 2000 ∧ v.fb.OnScreen) ∧
    (p + s.length ≤ 2000 → (printCells s fg bg v).cursorPos.toInt = (p + s.length : Nat))
  | [], v, p, hp, hv => ⟨by simp [printCells, hp], fun _ => hv⟩
  | c :: s, v, p, hp, hv => by
    have hcur := printCell_cursor hp hv c fg bg
    rw [printCells, List.foldl_cons, ← printCells, List.length_cons]
    by_cases hend : p < 2000
    · have hnext : settle ((p : Int) + 1) = (p + 1 : Nat) := by unfold settle scrollCount; omega
      obtain ⟨h1, h2⟩ := printCells_onScreen fg bg s _ (p + 1) (by omega) (hcur.trans hnext)
      rw [h1, onScreen_printCell hp hv]
      refine ⟨?_, fun h => by rw [h2 (by omega), Nat.add_right_comm, Nat.add_assoc]⟩
      constructor
      · rintro ⟨h, -, hfb⟩; exact ⟨by omega, hfb⟩
      · rintro ⟨h, hfb⟩; exact ⟨by omega, hend, hfb⟩
    · have hnext : settle ((p : Int) + 1) = (1921 : Nat) := by unfold settle scrollCount; omega
      obtain ⟨h1, -⟩ := printCells_onScreen fg bg s _ 1921 (by omega) (hcur.trans hnext)
      rw [h1, onScreen_printCell hp hv]
      refine ⟨?_, fun h => by omega⟩
      constructor
      · rintro ⟨-, h, -⟩; exact absurd h hend
      · rintro ⟨h, -⟩; omega

end HavenOS
