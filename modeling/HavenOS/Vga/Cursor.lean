/-
`fb_offset_cursor` in closed form, for every cursor and every offset: the cursor moves by the
offset in 16-bit arithmetic, then comes back onto the screen by whole rows, with one `fb_scroll`
for each row it was too far down and nothing stored for each row it was too far up.
-/
import HavenOS.Vga.Cells

namespace HavenOS

/-! ## Sixteen-bit arithmetic -/

/-- The value of an `int` stored in a `short`. -/
def wrapShort (x : Int) : Int := (x + 2 ^ 15) % 2 ^ 16 - 2 ^ 15

theorem bmod_eq_wrapShort (x : Int) : x.bmod (2 ^ 16) = wrapShort x := by
  rw [Int.bmod_def, wrapShort]
  split <;> omega

theorem short_bounds (c : Int16) : -32768 ≤ c.toInt ∧ c.toInt ≤ 32767 := by
  have h1 := c.le_toInt
  have h2 := c.toInt_lt
  omega

theorem toInt_add_one (c : Int16) : (c + 1).toInt = wrapShort (c.toInt + 1) := by
  rw [Int16.toInt_add, bmod_eq_wrapShort]; rfl

theorem toInt_sub_one (c : Int16) : (c - 1).toInt = wrapShort (c.toInt - 1) := by
  rw [Int16.toInt_sub, bmod_eq_wrapShort]; rfl

/-- `n` increments are one addition. -/
theorem toInt_iterate_add : ∀ (n : Nat) (c : Int16), ((· + 1)^[n] c).toInt = wrapShort (c.toInt + n)
  | 0, c => by
    have := short_bounds c
    simp only [Function.iterate_zero, id_eq, wrapShort]
    omega
  | n + 1, c => by
    rw [Function.iterate_succ_apply', toInt_add_one, toInt_iterate_add n c]
    simp only [wrapShort]
    omega

theorem toInt_iterate_sub : ∀ (n : Nat) (c : Int16), ((· - 1)^[n] c).toInt = wrapShort (c.toInt - n)
  | 0, c => by
    have := short_bounds c
    simp only [Function.iterate_zero, id_eq, wrapShort]
    omega
  | n + 1, c => by
    rw [Function.iterate_succ_apply', toInt_sub_one, toInt_iterate_sub n c]
    simp only [wrapShort]
    omega

theorem toInt_toInt16 {i : UInt16} (h : i.toNat < 2 ^ 15) : i.toInt16.toInt = i.toNat := by
  have hbmod : i.toInt16.toInt = (i.toNat : Int).bmod (2 ^ 16) := BitVec.toInt_eq_toNat_bmod i.toBitVec
  rw [hbmod, bmod_eq_wrapShort, wrapShort]
  omega

/-! ## The loops -/

/-- How many rows of 80 bring a cursor beyond 2000 back to at most 2000. -/
def scrollCount (x : Int) : Nat := ((x - 1921) / 80).toNat

theorem scrollLoop_spec : ∀ (rounds : Nat) (v : Vga), v.cursorPos.toInt ≤ 2000 + 80 * rounds →
    (scrollLoop rounds v).cursorPos.toInt = v.cursorPos.toInt - 80 * scrollCount v.cursorPos.toInt ∧
    (scrollLoop rounds v).fb = fbScroll^[scrollCount v.cursorPos.toInt] v.fb
  | 0, v, h => by
    have h0 : scrollCount v.cursorPos.toInt = 0 := by unfold scrollCount; omega
    rw [h0]
    exact ⟨by simp [scrollLoop], rfl⟩
  | rounds + 1, v, h => by
    have hb := short_bounds v.cursorPos
    rw [scrollLoop]
    by_cases hgt : v.cursorPos.toInt > 2000
    · rw [if_pos (by simpa using hgt)]
      have hc : (v.cursorPos - 80).toInt = v.cursorPos.toInt - 80 := by
        rw [Int16.toInt_sub, bmod_eq_wrapShort, wrapShort, show (80 : Int16).toInt = 80 by rfl]
        omega
      have hk : scrollCount v.cursorPos.toInt = scrollCount (v.cursorPos.toInt - 80) + 1 := by
        unfold scrollCount; omega
      obtain ⟨h1, h2⟩ := scrollLoop_spec rounds { v with cursorPos := v.cursorPos - 80, fb := fbScroll v.fb }
        (by simp only [hc]; omega)
      simp only [hc] at h1 h2
      refine ⟨by rw [h1, hk]; omega, ?_⟩
      rw [h2, hk, Function.iterate_succ_apply]
    · have h0 : scrollCount v.cursorPos.toInt = 0 := by unfold scrollCount; omega
      rw [if_neg (by simpa using hgt), h0]
      exact ⟨by simp, rfl⟩

/-- Above the screen nothing is stored: `fb_shift_down` from row 25 only tries to copy row 25 to
row 26, which the guard of `fb_copy_row` turns away. -/
theorem fbShiftDown_last (fb : FrameBuffer) : fbShiftDown fbNumRows fb = fb := by
  have h1 : ((fbNumRows : Int) - fbNumRows + 1).toNat = 1 := rfl
  rw [fbShiftDown, h1, shiftDownLoop, shiftDownLoop]
  exact fbCopyRow_invalid fb _ _ (by simp)

theorem shiftLoop_spec : ∀ (rounds : Nat) (v : Vga), -80 * (rounds : Int) ≤ v.cursorPos.toInt →
    (shiftLoop rounds v).cursorPos.toInt =
      (if v.cursorPos.toInt < 0 then v.cursorPos.toInt % 80 else v.cursorPos.toInt) ∧
    (shiftLoop rounds v).fb = v.fb
  | 0, v, h => by
    rw [if_neg (by omega)]
    exact ⟨rfl, rfl⟩
  | rounds + 1, v, h => by
    rw [shiftLoop]
    split
    · rename_i hneg
      have hb := short_bounds v.cursorPos
      have hc : (v.cursorPos + 80).toInt = v.cursorPos.toInt + 80 := by
        rw [Int16.toInt_add, bmod_eq_wrapShort, wrapShort, show (80 : Int16).toInt = 80 by rfl]
        omega
      obtain ⟨h1, h2⟩ := shiftLoop_spec rounds
        { v with cursorPos := v.cursorPos + 80, fb := fbShiftDown fbNumRows v.fb } (by simp only [hc]; omega)
      simp only [hc] at h1 h2
      refine ⟨?_, h2.trans (fbShiftDown_last v.fb)⟩
      rw [h1]
      split <;> omega
    · exact ⟨rfl, rfl⟩

/-- The loops send nothing. -/
theorem scrollLoop_ports : ∀ (rounds : Nat) (v : Vga), (scrollLoop rounds v).ports = v.ports
  | 0, _ => rfl
  | rounds + 1, v => by
    rw [scrollLoop]
    split
    · exact scrollLoop_ports rounds _
    · rfl

theorem shiftLoop_ports : ∀ (rounds : Nat) (v : Vga), (shiftLoop rounds v).ports = v.ports
  | 0, _ => rfl
  | rounds + 1, v => by
    rw [shiftLoop]
    split
    · exact shiftLoop_ports rounds _
    · rfl

/-! ## The whole function -/

@[simp] theorem outCursor_fb (v : Vga) : (outCursor v).fb = v.fb := rfl
@[simp] theorem outCursor_cursorPos (v : Vga) : (outCursor v).cursorPos = v.cursorPos := rfl

/-- Where a cursor value ends up on the screen. -/
def settle (x : Int) : Int := if x < 0 then x % 80 else x - 80 * scrollCount x

/-- A cursor that is not beyond the screen does not scroll it. -/
theorem scrollCount_screen {x : Int} (h : x ≤ 2000) : scrollCount x = 0 := by
  unfold scrollCount; omega

theorem settle_screen {x : Int} (h0 : 0 ≤ x) (h1 : x ≤ 2000) : settle x = x := by
  rw [settle, if_neg (by omega), scrollCount_screen h1]
  omega

theorem settle_bounds (x : Int) : 0 ≤ settle x ∧ settle x ≤ 2000 := by
  unfold settle scrollCount
  split <;> omega

/-- The cursor before the loops of `fb_offset_cursor` bring it back onto the screen. -/
def offsetTarget (offset : Int) (v : Vga) : Int := wrapShort (v.cursorPos.toInt + offset)

theorem offsetTarget_bounds (offset : Int) (v : Vga) :
    -32768 ≤ offsetTarget offset v ∧ offsetTarget offset v ≤ 32767 := by
  unfold offsetTarget wrapShort; omega

theorem toInt_offset (offset : Int) (v : Vga) :
    (if offset > 0 then (· + 1)^[offset.toNat] v.cursorPos else (· - 1)^[(-offset).toNat] v.cursorPos).toInt =
      offsetTarget offset v := by
  unfold offsetTarget
  split
  · rw [toInt_iterate_add, Int.toNat_of_nonneg (by omega)]
  · rw [toInt_iterate_sub, Int.toNat_of_nonneg (by omega), sub_neg_eq_add]

theorem fbOffsetCursor_spec (offset : Int) (v : Vga) :
    (fbOffsetCursor offset v).cursorPos.toInt = settle (offsetTarget offset v) ∧
    (fbOffsetCursor offset v).fb = fbScroll^[scrollCount (offsetTarget offset v)] v.fb := by
  have ht := offsetTarget_bounds offset v
  unfold fbOffsetCursor
  simp only [outCursor_cursorPos, outCursor_fb]
  generalize hm : (if offset > 0 then (· + 1)^[offset.toNat] v.cursorPos
    else (· - 1)^[(-offset).toNat] v.cursorPos) = moved
  have hmoved : moved.toInt = offsetTarget offset v := hm ▸ toInt_offset offset v
  obtain ⟨c1, f1⟩ := scrollLoop_spec 410 { v with cursorPos := moved } (by simp only [hmoved]; omega)
  simp only [hmoved] at c1 f1
  obtain ⟨c2, f2⟩ := shiftLoop_spec 410 (scrollLoop 410 { v with cursorPos := moved })
    (by rw [c1]; unfold scrollCount; omega)
  refine ⟨?_, f2.trans f1⟩
  rw [c2, c1]
  unfold settle scrollCount
  split <;> split <;> omega

theorem fbOffsetCursor_cursor (offset : Int) (v : Vga) :
    (fbOffsetCursor offset v).cursorPos.toInt = settle (offsetTarget offset v) := (fbOffsetCursor_spec offset v).1

theorem fbOffsetCursor_fb (offset : Int) (v : Vga) :
    (fbOffsetCursor offset v).fb = fbScroll^[scrollCount (offsetTarget offset v)] v.fb :=
  (fbOffsetCursor_spec offset v).2

end HavenOS
