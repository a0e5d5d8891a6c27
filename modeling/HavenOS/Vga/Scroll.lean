/-
fb_scroll over the whole video memory: the text moves up one row, the rest of memory stays, and the
colours follow the text but for the first cell and the new row.
-/
import HavenOS.Vga.Cells

namespace HavenOS

variable (fb : FrameBuffer)

def FrameBuffer.chrAt (fb : FrameBuffer) (row column : Nat) : UInt8 := fb.chr (80 * row + column)

def FrameBuffer.attrAt (fb : FrameBuffer) (row column : Nat) : UInt8 := fb.attr (80 * row + column)

/-! ## Cells beyond the screen -/

/-- A byte is one of the two of its cell. -/
theorem val_eq_cell (i : Nat) : fb.val i = if i % 2 = 0 then fb.chr (i / 2) else fb.attr (i / 2) := by
  unfold FrameBuffer.chr FrameBuffer.attr
  split <;> congr 1 <;> omega

/-- A scroll leaves the cells beyond the screen alone, whichever of their bytes `view` shows. -/
theorem view_fbScroll_beyond {view : FrameBuffer → Nat → UInt8} {d : Nat} {f : UInt8 → UInt8 → UInt8 → UInt8}
    (hcopies : Copies view d) (hd : d ≤ 1) (hwrites : ∀ fg bg, Writes view (f fg bg) fg bg) {j : Nat} (hj : 2000 ≤ j) :
    view (fbScroll fb) j = view fb j := by
  unfold fbScroll fbClearRow
  simp only [fbNumColumns_eq, fbNumRows_eq]
  rw [view_clearRowLoop (hwrites _ _) _ _ _ _ (by omega), if_neg (by omega),
    view_scrollRows hcopies _ _ _ _ (by omega) (by omega), if_neg (by omega)]

theorem val_fbScroll_beyond {i : Nat} (hi : 4000 ≤ i) : (fbScroll fb).val i = fb.val i := by
  have hchr := view_fbScroll_beyond fb copies_chr (by decide) writes_chr (j := i / 2) (by omega)
  have hattr := view_fbScroll_beyond fb copies_attr le_rfl writes_attr (j := i / 2) (by omega)
  rw [val_eq_cell, val_eq_cell fb, hchr, hattr]

theorem val_fbScroll_iterate_beyond {i : Nat} (hi : 4000 ≤ i) : ∀ n : Nat, (fbScroll^[n] fb).val i = fb.val i
  | 0 => rfl
  | n + 1 => by
    rw [Function.iterate_succ_apply', val_fbScroll_beyond _ hi, val_fbScroll_iterate_beyond hi n]

/-! ## The text -/

theorem chrAt_fbScroll_iterate (n : Nat) {r c : Nat} (hr : r < 25) (hc : c < 80) :
    (fbScroll^[n] fb).chrAt r c = if r + n < 25 then fb.chrAt (r + n) c else 32 := by
  unfold FrameBuffer.chrAt
  rw [chr_fbScroll_iterate fb n _ (by omega)]
  by_cases h : r + n < 25
  · rw [if_pos h, if_pos (by omega)]
    congr 1; omega
  · rw [if_neg h, if_neg (by omega)]

/-- One scroll moves the text up a row and leaves the last row blank; so `n` scrolls move it up `n`
rows, and 25 leave nothing. No byte beyond the screen changes. -/
theorem fbScroll_moves_text :
    (∀ r < 24, ∀ c < 80, (fbScroll fb).chrAt r c = fb.chrAt (r + 1) c) ∧
    (∀ c < 80, (fbScroll fb).chrAt 24 c = 32) ∧
    (∀ i ≥ 4000, (fbScroll fb).val i = fb.val i) ∧
    (∀ n, ∀ r < 25, ∀ c < 80, (fbScroll^[n] fb).chrAt r c = if r + n < 25 then fb.chrAt (r + n) c else 32) ∧
    (∀ n ≥ 25, ∀ r < 25, ∀ c < 80, (fbScroll^[n] fb).chrAt r c = 32) ∧
    (∀ n, ∀ i ≥ 4000, (fbScroll^[n] fb).val i = fb.val i) := by
  refine ⟨?_, ?_, fun i hi => val_fbScroll_beyond fb hi, fun n r hr c hc => chrAt_fbScroll_iterate fb n hr hc, ?_,
    fun n i hi => val_fbScroll_iterate_beyond fb hi n⟩
  · intro r hr c hc
    have h := chrAt_fbScroll_iterate fb 1 (Nat.lt_succ_of_lt hr) hc
    rwa [if_pos (by omega)] at h
  · intro c hc
    exact chrAt_fbScroll_iterate fb 1 (by omega) hc
  · intro n hn r hr c hc
    rw [chrAt_fbScroll_iterate fb n hr hc, if_neg (by omega)]

/-! ## The colours -/

/-- The colours a cell is given twice over come out as the cell has them exactly when its two
nibbles are the same. -/
theorem colorByte_self_iff (a : UInt8) : colorByte a a = a ↔ a >>> 4 = a &&& 0x0F := by
  unfold colorByte
  constructor
  · intro h
    apply UInt8.toBitVec_inj.1
    have h' := congrArg UInt8.toBitVec h
    ext i hi
    have := congrArg (fun b : BitVec 8 => b.getLsbD (i + 4)) h'
    interval_cases i <;> simp [BitVec.getElem_shiftLeft, BitVec.getElem_ushiftRight] at this ⊢ <;> exact this.symm
  · intro h
    apply UInt8.toBitVec_inj.1
    have h' := congrArg UInt8.toBitVec h
    ext i hi
    have := congrArg (fun b : BitVec 8 => b.getLsbD (i - 4)) h'
    interval_cases i <;> simp [BitVec.getElem_shiftLeft, BitVec.getElem_ushiftRight] at this ⊢ <;> exact this.symm

/-- The attributes move up with the text, and the new row has the attribute of the last cell. -/
def ColoursFollow (fb : FrameBuffer) : Prop :=
  (∀ r < 24, ∀ c < 80, (fbScroll fb).attrAt r c = fb.attrAt (r + 1) c) ∧
  ∀ c < 80, (fbScroll fb).attrAt 24 c = fb.attrAt 24 79

theorem attrAt_fbScroll_moves {r c : Nat} (hr : r < 24) (hc : c < 80) (h0 : ¬ (r = 0 ∧ c = 0)) :
    (fbScroll fb).attrAt r c = fb.attrAt (r + 1) c := by
  unfold FrameBuffer.attrAt
  rw [attr_fbScroll fb _ (by omega), if_neg (by omega), if_pos (by omega)]
  congr 1; omega

theorem attrAt_fbScroll_first : (fbScroll fb).attrAt 0 0 = fb.attrAt 0 0 := attr_fbScroll fb 0 (by decide)

theorem attrAt_fbScroll_last {c : Nat} (hc : c < 80) : (fbScroll fb).attrAt 24 c = fb.fill := by
  unfold FrameBuffer.attrAt
  rw [attr_fbScroll fb _ (by omega), if_neg (by omega), if_neg (by omega)]

theorem fbScroll_colours_iff : ColoursFollow fb ↔
    fb.attrAt 0 0 = fb.attrAt 1 0 ∧ fb.attrAt 24 79 >>> 4 = fb.attrAt 24 79 &&& 0x0F := by
  have hlast : fb.fill = colorByte (fb.attrAt 24 79) (fb.attrAt 24 79) := rfl
  rw [← colorByte_self_iff, ← hlast]
  constructor
  · rintro ⟨hmoved, hblank⟩
    refine ⟨?_, ?_⟩
    · rw [← attrAt_fbScroll_first]
      exact hmoved 0 (by decide) 0 (by decide)
    · rw [← attrAt_fbScroll_last fb (show 0 < 80 by decide)]
      exact hblank 0 (by decide)
  · rintro ⟨hfirst, hfill⟩
    refine ⟨?_, fun c hc => (attrAt_fbScroll_last fb hc).trans hfill⟩
    intro r hr c hc
    by_cases h0 : r = 0 ∧ c = 0
    · obtain ⟨rfl, rfl⟩ := h0
      exact (attrAt_fbScroll_first fb).trans hfirst
    · exact attrAt_fbScroll_moves fb hr hc h0

/-- A screen cleared to black on white: the new row is white on white. -/
theorem fbScroll_loses_colour : ¬ ColoursFollow (.fresh fun i => if i % 2 = 0 then 32 else 0x0F) := by
  rintro ⟨-, hblank⟩
  have h := hblank 0 (by decide)
  rw [attrAt_fbScroll_last _ (by decide)] at h
  revert h
  decide

end HavenOS
