/-
PANIC of common.c, up to its endless loop: where it puts its message, and what it stores. The column
comes out of signed arithmetic that a test for zero is to keep from going below zero.
-/
import HavenOS.Vga.Format
import HavenOS.Vga.Inside

namespace HavenOS

/-! ## The function -/

def panicColumn (str : List UInt8) : Int32 :=
  let col := Int32.ofNat (fbNumColumns / 2) - (Int32.ofNat (strlen str) + 1) / 2
  -- `!col` only holds for 0; a negative column stays
  if col = 0 then 0 else col

/-- The red screen with the cursor where the message starts. -/
def panicMoved (str : List UInt8) (v : Vga) : Vga :=
  let v := { v with fb := fbClear 0 0 v.fb }
  let v := { v with fb := fbClear 4 4 v.fb }
  fbMoveCursorColRow (panicColumn str).toUInt32.toUInt16 (UInt16.ofNat (fbNumRows / 2)) v

def panic (str : List UInt8) (v : Vga) : Vga := fbPrintStr str 4 0 (panicMoved str v)

/-- The cell of row 12 that centres a text of `length` characters, the first of the row if it is longer
than the row. -/
def centredCell (length : Nat) : Nat := 80 * 12 + (40 - (length + 1) / 2)

/-- The message starts where it should, shows from there on, and nothing is stored outside the
screen. -/
structure PanicPlaced (str : List UInt8) (v : Vga) : Prop where
  start : (panicMoved str v).cursorPos.toInt = centredCell (strlen str)
  shown : ∀ k < strlen str, (panic str v).fb.chr (centredCell (strlen str) + k) = str.getD k 0
  stores : (panic str { v with fb := v.fb.forget }).fb.OnScreen

/-! ## The start -/

/-- In 16 bits the column is a difference, whatever its sign. -/
theorem panicColumn_narrowed {str : List UInt8} (h : strlen str < 2 ^ 16) :
    (panicColumn str).toUInt32.toUInt16.toNat = (2 ^ 16 + 40 - (strlen str + 1) / 2) % 2 ^ 16 := by
  have hhalf : (Int32.ofNat (strlen str) + 1) / 2 = Int32.ofNat ((strlen str + 1) / 2) := by
    rw [Int32.ofNat_div (by omega) (by omega), Int32.ofNat_add]
    rfl
  have hcol : panicColumn str = 40 - Int32.ofNat ((strlen str + 1) / 2) := by
    unfold panicColumn
    rw [hhalf]
    exact ite_eq_right_iff.2 Eq.symm
  have hnarrow : (panicColumn str).toUInt32.toUInt16 = 40 - UInt16.ofNat ((strlen str + 1) / 2) := by
    rw [hcol, Int32.toUInt32_sub, UInt32.toUInt16_sub, Int32.toUInt32_ofNat', UInt32.toUInt16_ofNat']
    rfl
  rw [hnarrow, UInt16.toNat_sub, UInt16.toNat_ofNat', show (40 : UInt16).toNat = 40 by rfl]
  omega

theorem panicMoved_cursor {str : List UInt8} (h : strlen str ≤ 2000) (v : Vga) :
    (panicMoved str v).cursorPos.toInt = (1000 - (strlen str + 1) / 2 : Nat) := by
  have hcol := panicColumn_narrowed (show strlen str < 2 ^ 16 by omega)
  have hindex : (fbRowColumnToIndex (panicColumn str).toUInt32.toUInt16.toNat 12).toNat =
      1000 - (strlen str + 1) / 2 := by
    unfold fbRowColumnToIndex
    rw [UInt16.toNat_ofNat', fbNumColumns_eq, hcol]
    omega
  have hcursor : (panicMoved str v).cursorPos =
      (fbRowColumnToIndex (panicColumn str).toUInt32.toUInt16.toNat 12).toInt16 := rfl
  rw [hcursor, toInt_toInt16 (by omega), hindex]

/-- From 81 characters on the column is negative, and the message starts in a row above. -/
theorem start_iff {str : List UInt8} (h : strlen str ≤ 2000) (v : Vga) :
    (panicMoved str v).cursorPos.toInt = centredCell (strlen str) ↔ strlen str ≤ 80 := by
  rw [panicMoved_cursor h, centredCell]
  omega

/-! ## The stores -/

theorem onScreen_fbClear (fg bg : UInt8) (fb : FrameBuffer) : (fbClear fg bg fb).OnScreen ↔ fb.OnScreen := by
  have hrows : ∀ n ≤ 25, ((List.range n).foldl (fun fb row => fbClearRow row fg bg fb) fb).OnScreen ↔ fb.OnScreen := by
    intro n
    induction n with
    | zero => exact fun _ => Iff.rfl
    | succ n ih =>
      intro hn
      rw [List.range_succ, List.foldl_append, List.foldl_cons, List.foldl_nil, fbClearRow,
        onScreen_clearRowLoop _ _ _ _ _ (by simp only [fbNumColumns_eq]; omega), ih (by omega)]
  exact hrows 25 le_rfl

/-- More cells than the screen has do not fit on it, wherever they start. -/
theorem not_onScreen_writeLstrLoop (fg bg : UInt8) : ∀ (n i : Nat) (str : List UInt8) (fb : FrameBuffer), i < 2000 →
    2000 ≤ i + n → ¬ (writeLstrLoop fg bg (n + 1) i str fb).OnScreen
  | 0, i, str, fb, h1, h2 => absurd h2 (by omega)
  | n + 1, i, str, fb, h1, h2 => by
    rw [writeLstrLoop]
    by_cases hlast : i + 1 < 2000
    · exact not_onScreen_writeLstrLoop fg bg n (i + 1) _ _ hlast (by omega)
    · intro h
      rw [writeLstrLoop] at h
      have hcell := onScreen_writeLstrLoop_of fg bg n (i + 1 + 1) _ _ h
      rw [onScreen_writeCell _ (by omega)] at hcell
      omega

theorem panic_stores (str : List UInt8) (v : Vga) : (panic str v).fb.OnScreen ↔
    (writeLstrLoop 4 0 (strlen str) (toUnsigned (panicMoved str v).cursorPos.toInt) str
      (panicMoved str v).fb).OnScreen := by
  rw [panic, fbPrintStr, onScreen_offsetCursor]
  rfl

theorem panicMoved_fb (str : List UInt8) (v : Vga) : (panicMoved str v).fb = fbClear 4 4 (fbClear 0 0 v.fb) := by
  unfold panicMoved fbMoveCursorColRow
  rw [outCursor_fb]

theorem panicMoved_onScreen (str : List UInt8) (v : Vga) :
    (panicMoved str { v with fb := v.fb.forget }).fb.OnScreen := by
  rw [panicMoved_fb, onScreen_fbClear, onScreen_fbClear]
  exact Store.inside_forget _ _

/-- A message longer than the screen leaves it at its first character or later on. -/
theorem long_leaves_screen {str : List UInt8} (h : 2000 < strlen str) (v : Vga) : ¬ (panic str v).fb.OnScreen := by
  rw [panic_stores]
  obtain ⟨n, hn⟩ : ∃ n, strlen str = n + 1 := ⟨strlen str - 1, by omega⟩
  have hb := short_bounds (panicMoved str v).cursorPos
  rw [hn]
  by_cases hin : toUnsigned (panicMoved str v).cursorPos.toInt < 2000
  · exact not_onScreen_writeLstrLoop 4 0 n _ _ _ hin (by omega)
  · intro hstores
    have hfirst := onScreen_writeLstrLoop_of 4 0 n _ _ _ hstores
    unfold fbWriteCell FrameBuffer.OnScreen at hfirst
    simp only [Store.inside_set] at hfirst
    obtain ⟨-, hcell, -⟩ := hfirst
    unfold toUnsigned at hin hcell
    omega

/-! ## The message -/

/-- A message that fits on a row starts on it, in the middle, and stays on it. -/
theorem panic_fits {str : List UInt8} (h : strlen str ≤ 80) (v : Vga) : PanicPlaced str v := by
  have hstart := (start_iff (by omega) v).2 h
  have hcell : centredCell (strlen str) + strlen str ≤ 1080 := by unfold centredCell; omega
  have hmessage : panic str v = fbPrintLstr (cstr str) (cstr str).length 4 0 (panicMoved str v) := by
    rw [panic, ← fbPrintStr_eq _ (notMem_cstr str), ← fbPrintLstr_cstr]
    rfl
  refine ⟨hstart, fun k hk => ?_, ?_⟩
  · rw [strlen_eq_length] at hstart hcell hk
    rw [hmessage, strlen_eq_length, fbPrintLstr_chr (by omega) hstart _ _ _ _ (by omega), bulkChr]
    have htop : bulkTop (centredCell (cstr str).length) (cstr str) = 0 := by
      unfold bulkTop scrollCount wrapShort
      omega
    have hlast : lastOn (centredCell (cstr str).length) (cstr str).length (centredCell (cstr str).length + k) =
        centredCell (cstr str).length + k := by
      unfold lastOn
      omega
    rw [htop, Nat.add_zero, if_pos (by omega), storedChr, hlast, if_pos (by omega), Nat.add_sub_cancel_left]
    have hsplit : cstr str ++ str.dropWhile (· ≠ 0) = str := List.takeWhile_append_dropWhile
    conv_rhs => rw [← hsplit]
    rw [List.getD_append _ _ _ _ hk]
  · rw [panic_stores]
    have hcursor := (start_iff (by omega) { v with fb := v.fb.forget }).2 h
    have hindex : toUnsigned (panicMoved str { v with fb := v.fb.forget }).cursorPos.toInt =
        centredCell (strlen str) := by
      rw [toUnsigned_nat hcursor]
      omega
    rw [hindex, onScreen_writeLstrLoop _ _ _ _ _ _ (by omega)]
    exact ⟨.inr (by omega), panicMoved_onScreen str v⟩

/-- The message is placed as it should be exactly when it fits on a row. -/
theorem panic_placed_iff (str : List UInt8) (v : Vga) : PanicPlaced str v ↔ strlen str ≤ 80 := by
  refine ⟨?_, fun h => panic_fits h v⟩
  rintro ⟨hstart, -, hstores⟩
  by_cases hlong : 2000 < strlen str
  · exact absurd hstores (long_leaves_screen hlong _)
  · exact (start_iff (by omega) v).1 hstart

/-- A message of 81 letters starts in the last column of row 11. -/
theorem panic_starts_above : ¬ PanicPlaced (List.replicate 81 65) .powerOn := by
  intro h
  have hcursor := panicMoved_cursor (show strlen (List.replicate 81 65) ≤ 2000 by decide) .powerOn
  rw [h.start] at hcursor
  revert hcursor
  decide

end HavenOS
