/-
What the operations of vga.c on the frame buffer do to the characters and the attributes of the
cells: one equation for each operation and each of the two bytes of a cell.
-/
import HavenOS.Vga.Basic
import HavenOS.Lib.Copy
import HavenOS.Lib.Window
import Mathlib.Tactic.IntervalCases

namespace HavenOS

variable (fb : FrameBuffer)

/-! ## Colours -/

theorem colorByte_nibble (fg bg : UInt8) : colorByte fg bg &&& 0x0F = bg &&& 0x0F := by
  unfold colorByte
  apply UInt8.toBitVec_inj.1
  ext i hi
  interval_cases i <;> simp [BitVec.getElem_shiftLeft]

/-- Foreground and background come out equal exactly when their low four bits are. -/
theorem colorByte_eq_iff (fg bg : UInt8) : colorByte fg bg = colorByte bg bg ↔ fg &&& 0x0F = bg &&& 0x0F := by
  constructor
  · intro h
    apply UInt8.toBitVec_inj.1
    have h' := congrArg UInt8.toBitVec h
    unfold colorByte at h'
    ext i hi
    have := congrArg (fun b : BitVec 8 => b.getLsbD (i + 4)) h'
    interval_cases i <;> simp [BitVec.getElem_shiftLeft] at this ⊢ <;> exact this
  · intro h; unfold colorByte; rw [h]

/-- The attribute `fb_scroll` gives the last row: the background of the last cell, twice. -/
def FrameBuffer.fill (fb : FrameBuffer) : UInt8 := colorByte (fb.attr 1999) (fb.attr 1999)

theorem colorByte_twice (fg bg : UInt8) :
    colorByte (colorByte fg bg) (colorByte fg bg) = colorByte bg bg := by
  have h := colorByte_nibble fg bg
  unfold colorByte at h ⊢
  rw [h]

/-! ## Single cells and strings -/

theorem chr_writeCell (i : Nat) (c fg bg : UInt8) (j : Nat) :
    (fbWriteCell i c fg bg fb).chr j = if j = i % 2 ^ 31 then c else fb.chr j := by
  unfold fbWriteCell FrameBuffer.chr
  simp only [Store.set_val]
  rw [if_neg (by omega)]
  exact if_congr (by omega) rfl rfl

theorem attr_writeCell (i : Nat) (c fg bg : UInt8) (j : Nat) :
    (fbWriteCell i c fg bg fb).attr j = if j = i % 2 ^ 31 then colorByte fg bg else fb.attr j := by
  unfold fbWriteCell FrameBuffer.attr
  simp only [Store.set_val]
  split
  · rw [if_pos (by omega)]
  · rw [if_neg (by omega), if_neg (by omega)]

/-- `view` shows one of the two bytes of a cell: a cell written with `c` shows `f c`. -/
def Writes (view : FrameBuffer → Nat → UInt8) (f : UInt8 → UInt8) (fg bg : UInt8) : Prop := ∀ fb i c j,
  view (fbWriteCell i c fg bg fb) j = if j = i % 2 ^ 31 then f c else view fb j

theorem writes_chr (fg bg : UInt8) : Writes FrameBuffer.chr id fg bg := fun fb i c j => chr_writeCell fb i c fg bg j

theorem writes_attr (fg bg : UInt8) : Writes FrameBuffer.attr (fun _ => colorByte fg bg) fg bg :=
  fun fb i c j => attr_writeCell fb i c fg bg j

/-- The last of the cell numbers `i, …, i + n - 1` that falls on cell `j`: byte indices are
32-bit, so cell numbers count modulo `2 ^ 31`. -/
def lastOn (i n j : Nat) : Nat := j + 2 ^ 31 * ((i + n - 1 - j) / 2 ^ 31)

section
variable {view : FrameBuffer → Nat → UInt8} {f : UInt8 → UInt8} {fg bg : UInt8} (hview : Writes view f fg bg)
include hview

/-- A string leaves on a cell the last of its characters that falls there. -/
theorem view_writeLstrLoop : ∀ (n i : Nat) (str : List UInt8) (fb : FrameBuffer) (j : Nat), j < 2 ^ 31 →
    view (writeLstrLoop fg bg n i str fb) j =
      if j < i + n ∧ i ≤ lastOn i n j then f (str.getD (lastOn i n j - i) 0) else view fb j
  | 0, i, str, fb, j, hj => by
    rw [if_neg (by unfold lastOn; omega)]; rfl
  | n + 1, i, str, fb, j, hj => by
    have hlast : lastOn (i + 1) n j = lastOn i (n + 1) j := by
      unfold lastOn; rw [show i + 1 + n - 1 = i + (n + 1) - 1 by omega]
    rw [writeLstrLoop, view_writeLstrLoop n (i + 1) str.tail _ j hj, hlast, hview]
    -- a later character may fall on the cell once more
    by_cases hlater : j < i + 1 + n ∧ i + 1 ≤ lastOn i (n + 1) j
    · rw [if_pos hlater, if_pos (by omega)]
      cases str with
      | nil => rfl
      | cons c str => rw [show lastOn i (n + 1) j - i = lastOn i (n + 1) j - (i + 1) + 1 by omega]; rfl
    · rw [if_neg hlater]
      by_cases hij : j = i % 2 ^ 31
      · have hi : lastOn i (n + 1) j = i := by unfold lastOn at hlater ⊢; omega
        rw [if_pos hij, if_pos (by omega), hi, Nat.sub_self]
        cases str <;> rfl
      · rw [if_neg hij, if_neg (by unfold lastOn at hlater ⊢; omega)]

theorem view_clearRowLoop : ∀ (n i : Nat) (fb : FrameBuffer) (j : Nat), i + n ≤ 2 ^ 31 →
    view (clearRowLoop fg bg n i fb) j = if i ≤ j ∧ j < i + n then f 32 else view fb j
  | 0, i, fb, j, h => by rw [if_neg (by omega)]; rfl
  | n + 1, i, fb, j, h => by
    rw [clearRowLoop, view_clearRowLoop n (i + 1) _ j (by omega), hview]
    by_cases hj : j = i
    · rw [if_neg (by omega), if_pos (by omega), if_pos (by omega)]
    · rw [if_neg (c := j = i % 2 ^ 31) (by omega)]
      exact if_congr (by omega) rfl rfl

end

theorem chr_writeLstrLoop (fg bg : UInt8) (n i : Nat) (str : List UInt8) (fb : FrameBuffer)
    (j : Nat) (hj : j < 2 ^ 31) :
    (writeLstrLoop fg bg n i str fb).chr j =
      if j < i + n ∧ i ≤ lastOn i n j then str.getD (lastOn i n j - i) 0 else fb.chr j :=
  view_writeLstrLoop (writes_chr fg bg) n i str fb j hj

theorem attr_writeLstrLoop (fg bg : UInt8) (n i : Nat) (str : List UInt8) (fb : FrameBuffer)
    (j : Nat) (hj : j < 2 ^ 31) :
    (writeLstrLoop fg bg n i str fb).attr j =
      if j < i + n ∧ i ≤ lastOn i n j then colorByte fg bg else fb.attr j :=
  view_writeLstrLoop (writes_attr fg bg) n i str fb j hj

theorem chr_clearRowLoop (fg bg : UInt8) (n i : Nat) (fb : FrameBuffer) (j : Nat) (h : i + n ≤ 2 ^ 31) :
    (clearRowLoop fg bg n i fb).chr j = if i ≤ j ∧ j < i + n then 32 else fb.chr j :=
  view_clearRowLoop (writes_chr fg bg) n i fb j h

theorem attr_clearRowLoop (fg bg : UInt8) (n i : Nat) (fb : FrameBuffer) (j : Nat) (h : i + n ≤ 2 ^ 31) :
    (clearRowLoop fg bg n i fb).attr j = if i ≤ j ∧ j < i + n then colorByte fg bg else fb.attr j :=
  view_clearRowLoop (writes_attr fg bg) n i fb j h

theorem chr_fbClear_rows (fg bg : UInt8) : ∀ (n : Nat), n ≤ 25 → ∀ j, FrameBuffer.chr
    ((List.range n).foldl (fun fb row => fbClearRow row fg bg fb) fb) j = if j < 80 * n then 32 else fb.chr j
  | 0, _, j => by rw [if_neg (by omega)]; rfl
  | n + 1, h, j => by
    rw [List.range_succ, List.foldl_append, List.foldl_cons, List.foldl_nil, fbClearRow,
      chr_clearRowLoop _ _ _ _ _ _ (by simp only [fbNumColumns_eq]; omega), fbNumColumns_eq,
      chr_fbClear_rows fg bg n (by omega)]
    by_cases hj : j < 80 * n
    · rw [if_neg (by omega), if_pos hj, if_pos (by omega)]
    · rw [if_neg hj]
      exact if_congr (by omega) rfl rfl

theorem chr_fbClear (fg bg : UInt8) (j : Nat) (hj : j < 2000) : (fbClear fg bg fb).chr j = 32 := by
  have h := chr_fbClear_rows fb fg bg 25 (by omega) j
  rw [if_pos (by omega)] at h
  exact h

/-! ## Rows -/

theorem fbRowColumnToIndex_row (row : Nat) (h : row ≤ 25) : (fbRowColumnToIndex 0 row).toNat = 80 * row := by
  unfold fbRowColumnToIndex
  rw [UInt16.toNat_ofNat', fbNumColumns_eq]
  omega

theorem toUnsigned_natCast (n : Nat) : toUnsigned n = n % 2 ^ 32 := by unfold toUnsigned; omega

/-- Between valid rows (the guard lets row 25 pass) `fb_copy_row` runs its loop of 81 rounds. -/
theorem fbCopyRow_valid («from» «to» : Nat) (h1 : «from» ≤ 25) (h2 : «to» ≤ 25) :
    fbCopyRow «from» «to» fb = copyRowLoop 81 (80 * «from») (80 * «to») fb := by
  unfold fbCopyRow
  rw [if_neg (by simp only [fbNumRows_eq]; omega), toUnsigned_natCast, toUnsigned_natCast,
    Nat.mod_eq_of_lt (by omega), Nat.mod_eq_of_lt (by omega), fbRowColumnToIndex_row _ h1,
    fbRowColumnToIndex_row _ h2, fbNumColumns_eq]

theorem fbCopyRow_invalid («from» «to» : Int) (h : «from» < 0 ∨ 25 < «from» ∨ «to» < 0 ∨ 25 < «to») :
    fbCopyRow «from» «to» fb = fb := by
  unfold fbCopyRow
  rw [if_pos (by simp only [fbNumRows_eq]; omega)]

/-- One round of the copy: the character of one cell, the attribute of the next. -/
def copyCell (rowIn rowOut : Nat) (fb : FrameBuffer) : FrameBuffer :=
  let fb := fb.set (rowOut * 2) (fb.val (rowIn * 2))
  fb.set ((rowOut + 1) * 2 + 1) (fb.val ((rowIn + 1) * 2 + 1))

/-- `view` shows the byte of a cell that a round of the copy takes `d` cells after its indices. -/
def Copies (view : FrameBuffer → Nat → UInt8) (d : Nat) : Prop := ∀ fb rowIn rowOut j,
  view (copyCell rowIn rowOut fb) j = if j = rowOut + d then view fb (rowIn + d) else view fb j

theorem copies_chr : Copies FrameBuffer.chr 0 := by
  intro fb rowIn rowOut j
  unfold copyCell FrameBuffer.chr
  simp only [Store.set_val]
  rw [if_neg (by omega), Nat.mul_comm rowIn 2]
  exact if_congr (by omega) rfl rfl

theorem copies_attr : Copies FrameBuffer.attr 1 := by
  intro fb rowIn rowOut j
  unfold copyCell FrameBuffer.attr
  simp only [Store.set_val]
  rw [if_neg (c := (rowIn + 1) * 2 + 1 = rowOut * 2) (by omega), if_neg (c := 2 * j + 1 = rowOut * 2) (by omega),
    Nat.mul_comm (rowIn + 1) 2]
  exact if_congr (by omega) rfl rfl

section
variable {view : FrameBuffer → Nat → UInt8} {d : Nat} (hview : Copies view d)
include hview

/-- The rounds copy a stretch of cells onto the same tape, one after the other. -/
theorem view_copyRowLoop_forward : ∀ (n rowIn rowOut : Nat) (fb : FrameBuffer),
    view (copyRowLoop n rowIn rowOut fb) = Copy.forward n (rowIn + d) (rowOut + d) (view fb)
  | 0, _, _, _ => rfl
  | n + 1, rowIn, rowOut, fb => by
    have hround : copyRowLoop (n + 1) rowIn rowOut fb =
        copyRowLoop n (rowIn + 1) (rowOut + 1) (copyCell rowIn rowOut fb) := rfl
    have hcell : view (copyCell rowIn rowOut fb) = Function.update (view fb) (rowOut + d) (view fb (rowIn + d)) := by
      funext j
      rw [hview, Function.update_apply]
    rw [hround, view_copyRowLoop_forward n, hcell, Copy.forward, Nat.add_right_comm rowIn 1 d,
      Nat.add_right_comm rowOut 1 d]

/-- Copying to a lower row: the source cells are read before they are overwritten, so every
byte moves by the distance of the rows. -/
theorem view_copyRowLoop (n rowIn rowOut : Nat) (fb : FrameBuffer) (j : Nat) (h : rowOut < rowIn) :
    view (copyRowLoop n rowIn rowOut fb) j =
      if rowOut + d ≤ j ∧ j < rowOut + d + n then view fb (j + (rowIn - rowOut)) else view fb j := by
  rw [view_copyRowLoop_forward hview]
  split
  · rename_i hin
    obtain ⟨k, rfl⟩ := Nat.exists_eq_add_of_le hin.1
    rw [Copy.forward_down (by omega) _ (by omega)]
    congr 1; omega
  · rename_i hout
    exact Copy.forward_outside n _ _ _ (by omega)

/-- Copying to a higher row: a copy longer than the distance of the rows goes on with what it has
stored itself. -/
theorem view_copyRowLoop_up (n rowIn rowOut : Nat) (fb : FrameBuffer) (j : Nat) (h : rowIn < rowOut) :
    view (copyRowLoop n rowIn rowOut fb) j =
      if rowOut + d ≤ j ∧ j < rowOut + d + n then
        view fb (rowIn + d + (j - (rowOut + d)) % (rowOut - rowIn))
      else view fb j := by
  rw [view_copyRowLoop_forward hview]
  split
  · rename_i hin
    obtain ⟨k, rfl⟩ := Nat.exists_eq_add_of_le hin.1
    rw [Copy.forward_up (by omega) _ (by omega), Nat.add_sub_cancel_left, Nat.add_sub_add_right]
  · rename_i hout
    exact Copy.forward_outside n _ _ _ (by omega)

/-- Copying a row onto itself. -/
theorem view_copyRowLoop_self (n row : Nat) (fb : FrameBuffer) : view (copyRowLoop n row row fb) = view fb := by
  rw [view_copyRowLoop_forward hview, Copy.forward_self]

/-! ## Scrolling -/

/-- `n` row copies from row `row` on move cells `80 * (row - 1)` to `80 * (row - 1 + n)` up one
row: each copy also takes the first cell of the row after its source. -/
theorem view_scrollRows : ∀ (n row : Nat) (fb : FrameBuffer) (j : Nat), 1 ≤ row → row + n ≤ 26 →
    view (scrollRows n row fb) j =
      if 0 < n ∧ 80 * (row - 1) + d ≤ j ∧ j ≤ 80 * (row - 1 + n) + d then view fb (j + 80) else view fb j
  | 0, row, fb, j, h1, h2 => by rw [if_neg (by omega)]; rfl
  | n + 1, row, fb, j, h1, h2 => by
    rw [scrollRows, view_scrollRows n (row + 1) _ j (by omega) (by omega),
      show (row : Int) - 1 = ((row - 1 : Nat) : Int) by omega, fbCopyRow_valid fb row (row - 1) (by omega) (by omega),
      view_copyRowLoop hview _ _ _ _ _ (by omega), view_copyRowLoop hview _ _ _ _ _ (by omega)]
    -- the source of a later copy lies beyond what this one stores
    by_cases hlater : 0 < n ∧ 80 * (row + 1 - 1) + d ≤ j ∧ j ≤ 80 * (row + 1 - 1 + n) + d
    · rw [if_pos hlater, if_pos (c := 0 < n + 1 ∧ _) (by omega), if_neg (by omega)]
    · rw [if_neg hlater]
      by_cases hin : 80 * (row - 1) + d ≤ j ∧ j < 80 * (row - 1) + d + 81
      · rw [if_pos hin, if_pos (by omega)]
        congr 1; omega
      · rw [if_neg hin, if_neg (by omega)]

end

/-- `fb_scroll` moves the characters of the screen up one row and blanks the last row. -/
theorem chr_fbScroll (j : Nat) (hj : j < 2000) : (fbScroll fb).chr j = Window.scroll 2000 80 32 fb.chr j := by
  unfold fbScroll fbClearRow Window.scroll
  simp only [fbNumColumns_eq, fbNumRows_eq]
  rw [chr_clearRowLoop _ _ _ _ _ _ (by omega), view_scrollRows copies_chr _ _ _ _ (by omega) (by omega)]
  by_cases h : j + 80 < 2000
  · rw [if_neg (by omega), if_pos (by omega), if_pos h]
  · rw [if_pos (by omega), if_neg h]

/-- The attributes move with the characters except on the first cell, which keeps its own; the
last row takes the background of the last cell for both colours. -/
theorem attr_fbScroll (j : Nat) (hj : j < 2000) :
    (fbScroll fb).attr j = if j = 0 then fb.attr 0 else if j + 80 < 2000 then fb.attr (j + 80) else fb.fill := by
  unfold fbScroll fbClearRow
  simp only [fbNumColumns_eq, fbNumRows_eq]
  rw [attr_clearRowLoop _ _ _ _ _ _ (by omega), view_scrollRows copies_attr _ _ _ _ (by omega) (by omega)]
  by_cases h0 : j = 0
  · rw [if_neg (by omega), if_neg (by omega), if_pos h0, h0]
  · rw [if_neg h0]
    by_cases h : j + 80 < 2000
    · rw [if_neg (by omega), if_pos (by omega), if_pos h]
    · rw [if_pos (by omega), if_neg h]
      -- the colour is read from byte 3999 after the row copies, which leave cell 1999 alone
      have hlast : (scrollRows (25 - 1) 1 fb).val (80 * 25 * 2 - 1) = fb.attr 1999 := by
        have := view_scrollRows copies_attr (25 - 1) 1 fb 1999 (by omega) (by omega)
        rw [if_neg (by omega)] at this
        exact this
      rw [hlast]; rfl

/-- The attributes from the second cell on scroll like a window of 1999 cells. -/
theorem attr_fbScroll_succ (j : Nat) (hj : j < 1999) :
    (fbScroll fb).attr (j + 1) = Window.scroll 1999 80 fb.fill (fun c => fb.attr (c + 1)) j := by
  rw [attr_fbScroll fb _ (by omega), if_neg (by omega), Window.scroll]
  by_cases h : j + 80 < 1999
  · rw [if_pos (by omega), if_pos h, show j + 1 + 80 = j + 80 + 1 by omega]
  · rw [if_neg (by omega), if_neg h]

theorem fill_fbScroll : (fbScroll fb).fill = fb.fill := by
  unfold FrameBuffer.fill
  rw [attr_fbScroll fb 1999 (by omega), if_neg (by omega), if_neg (by omega)]
  exact colorByte_twice _ _

/-- `k` scrolls move the characters up `k` rows. -/
theorem chr_fbScroll_iterate (k j : Nat) (hj : j < 2000) :
    (fbScroll^[k] fb).chr j = if j + k * 80 < 2000 then fb.chr (j + k * 80) else 32 :=
  Window.iterate_scroll FrameBuffer.chr (fun _ => True) (fun _ _ => trivial)
    (fun fb _ c hc => chr_fbScroll fb c hc) k fb trivial j hj

theorem attr_fbScroll_iterate (k j : Nat) (hj : j < 1999) :
    (fbScroll^[k] fb).attr (j + 1) = if j + k * 80 < 1999 then fb.attr (j + k * 80 + 1) else fb.fill := by
  have hscroll : ∀ s : FrameBuffer, s.fill = fb.fill → ∀ c < 1999,
      (fbScroll s).attr (c + 1) = Window.scroll 1999 80 fb.fill (fun c => s.attr (c + 1)) c := by
    intro s hs c hc
    rw [attr_fbScroll_succ s c hc, hs]
  exact Window.iterate_scroll (fun fb c => FrameBuffer.attr fb (c + 1)) (fun s => s.fill = fb.fill)
    (fun s hs => (fill_fbScroll s).trans hs) hscroll k fb rfl j hj

theorem attr_fbScroll_iterate_zero : ∀ k : Nat, (fbScroll^[k] fb).attr 0 = fb.attr 0
  | 0 => rfl
  | k + 1 => by
    rw [Function.iterate_succ_apply', attr_fbScroll _ 0 (by omega), if_pos rfl, attr_fbScroll_iterate_zero k]

end HavenOS
