/-
The getters of vga.c against fb_write_cell: the two by cell number give back what was written, the
two by column and row take the cell number for a byte number. Exactly when that goes unnoticed.
-/
import HavenOS.Vga.Cells

namespace HavenOS

/-! ## The getters -/

def fbGetChar (i : UInt16) (fb : FrameBuffer) : UInt8 := fb.val (i.toNat * 2)

def fbGetAttributes (i : UInt16) (fb : FrameBuffer) : UInt8 := fb.val (i.toNat * 2 + 1)

/-- Without the factor 2 of `fb_get_char`. -/
def fbGetCharRc (x y : Nat) (fb : FrameBuffer) : UInt8 := fb.val (fbRowColumnToIndex x y).toNat

def fbGetAttributesRc (x y : Nat) (fb : FrameBuffer) : UInt8 := fb.val ((fbRowColumnToIndex x y).toNat + 1)

variable (fb : FrameBuffer)

theorem fbRowColumnToIndex_cell {x y : Nat} (hx : x < 80) (hy : y < 25) :
    (fbRowColumnToIndex x y).toNat = 80 * y + x := by
  unfold fbRowColumnToIndex
  rw [UInt16.toNat_ofNat', fbNumColumns_eq]
  omega

/-- The bytes after writing a cell. -/
theorem val_writeCell {i : Nat} (hi : i < 2 ^ 31) (c fg bg : UInt8) (k : Nat) : (fbWriteCell i c fg bg fb).val k =
    if k = 2 * i + 1 then colorByte fg bg else if k = 2 * i then c else fb.val k := by
  unfold fbWriteCell
  simp only [Store.set_val]
  rw [Nat.mod_eq_of_lt (by omega), Nat.mul_comm i]

/-! ## Agreement -/

/-- The four getters at column `x` and row `y`, in two states. -/
structure SameGetters (x y : Nat) (fb fb' : FrameBuffer) : Prop where
  char : fbGetChar (fbRowColumnToIndex x y) fb' = fbGetChar (fbRowColumnToIndex x y) fb
  attributes : fbGetAttributes (fbRowColumnToIndex x y) fb' = fbGetAttributes (fbRowColumnToIndex x y) fb
  charRc : fbGetCharRc x y fb' = fbGetCharRc x y fb
  attributesRc : fbGetAttributesRc x y fb' = fbGetAttributesRc x y fb

/-- After a cell is written, all getters give what was written at it, and at every other cell what
they gave before. -/
structure GettersCoherent (x y : Nat) (c fg bg : UInt8) (fb fb' : FrameBuffer) : Prop where
  char : fbGetChar (fbRowColumnToIndex x y) fb' = c
  attributes : fbGetAttributes (fbRowColumnToIndex x y) fb' = colorByte fg bg
  charRc : fbGetCharRc x y fb' = c
  attributesRc : fbGetAttributesRc x y fb' = colorByte fg bg
  others : ∀ x' < 80, ∀ y' < 25, ¬ (x' = x ∧ y' = y) → SameGetters x' y' fb fb'

/-- What the write has to leave alone, or find there already: with `i` the number of the cell, bytes
`i` and `i + 1`, which the getters by column and row read for it, and bytes `2 * i` and `2 * i + 1`,
which they read for other cells. -/
structure GettersMeet (i : Nat) (c color : UInt8) (fb : FrameBuffer) : Prop where
  ownChar : i ≠ 0 → fb.val i = c
  ownAttributes : i ≠ 0 → (if i = 1 then c else fb.val (i + 1)) = color
  otherChar : i ≠ 0 → i ≤ 1000 → fb.val (2 * i) = c
  otherAttributes : i ≤ 999 → fb.val (2 * i + 1) = color

section
variable {x y : Nat} (hx : x < 80) (hy : y < 25) (c fg bg : UInt8)
include hx hy

/-- The getters by cell number are right. -/
theorem getChar_writeCell :
    fbGetChar (fbRowColumnToIndex x y) (fbWriteCell (fbRowColumnToIndex x y).toNat c fg bg fb) = c := by
  have hi := fbRowColumnToIndex_cell hx hy
  rw [fbGetChar, val_writeCell fb (by omega), if_neg (by omega), if_pos (by omega)]

theorem getAttributes_writeCell :
    fbGetAttributes (fbRowColumnToIndex x y)
      (fbWriteCell (fbRowColumnToIndex x y).toNat c fg bg fb) = colorByte fg bg := by
  have hi := fbRowColumnToIndex_cell hx hy
  rw [fbGetAttributes, val_writeCell fb (by omega), if_pos (by omega)]

/-- At another cell they see nothing of the write, so there only the getters by column and row do. -/
theorem sameGetters_writeCell_iff {i : Nat} (hi : i < 2000) (hne : 80 * y + x ≠ i) :
    SameGetters x y fb (fbWriteCell i c fg bg fb) ↔
      (fbWriteCell i c fg bg fb).val (80 * y + x) = fb.val (80 * y + x) ∧
      (fbWriteCell i c fg bg fb).val (80 * y + x + 1) = fb.val (80 * y + x + 1) := by
  have hcell := fbRowColumnToIndex_cell hx hy
  constructor
  · rintro ⟨-, -, hchar, hattributes⟩
    unfold fbGetCharRc at hchar
    unfold fbGetAttributesRc at hattributes
    rw [hcell] at hchar hattributes
    exact ⟨hchar, hattributes⟩
  · rintro ⟨hchar, hattributes⟩
    constructor
    · rw [fbGetChar, fbGetChar, val_writeCell fb (by omega), if_neg (by omega), if_neg (by omega)]
    · rw [fbGetAttributes, fbGetAttributes, val_writeCell fb (by omega), if_neg (by omega), if_neg (by omega)]
    · rw [fbGetCharRc, fbGetCharRc, hcell, hchar]
    · rw [fbGetAttributesRc, fbGetAttributesRc, hcell, hattributes]

end

/-- A property of all cells, by column and row or by number. -/
theorem forall_cells {P : Nat → Prop} : (∀ x < 80, ∀ y < 25, P (80 * y + x)) ↔ ∀ j < 2000, P j := by
  constructor
  · intro h j hj
    have hcell := h (j % 80) (by omega) (j / 80) (by omega)
    rwa [Nat.div_add_mod] at hcell
  · intro h x hx y hy
    exact h _ (by omega)

/-- A byte that is written what it holds keeps its value. -/
theorem writeCell_keeps {i k : Nat} (hi : i < 2 ^ 31) (c fg bg : UInt8)
    (hattributes : k = 2 * i + 1 → fb.val k = colorByte fg bg)
    (hchar : k = 2 * i → fb.val k = c) : (fbWriteCell i c fg bg fb).val k = fb.val k := by
  rw [val_writeCell fb hi]
  split
  · rename_i hk
    exact (hattributes hk).symm
  · split
    · rename_i hk
      exact (hchar hk).symm
    · rfl

/-- The bytes of other cells, as the getters by column and row number them, keep their values when
the two written ones among them do. -/
theorem others_writeCell_iff {i : Nat} (hi : i < 2000) (c fg bg : UInt8) :
    (∀ j < 2000, j ≠ i → (fbWriteCell i c fg bg fb).val j = fb.val j ∧
      (fbWriteCell i c fg bg fb).val (j + 1) = fb.val (j + 1)) ↔
    (i ≠ 0 → i ≤ 1000 → fb.val (2 * i) = c) ∧ (i ≤ 999 → fb.val (2 * i + 1) = colorByte fg bg) := by
  have hlt : i < 2 ^ 31 := by omega
  have hchar : (fbWriteCell i c fg bg fb).val (2 * i) = c := by
    rw [val_writeCell fb hlt, if_neg (by omega), if_pos rfl]
  have hcolor : (fbWriteCell i c fg bg fb).val (2 * i + 1) = colorByte fg bg := by
    rw [val_writeCell fb hlt, if_pos rfl]
  constructor
  · intro h
    constructor
    · intro hpos hle
      by_cases h1 : i = 1
      · exact (h (2 * i) (by omega) (by omega)).1.symm.trans hchar
      · have hafter := (h (2 * i - 1) (by omega) (by omega)).2
        rw [show 2 * i - 1 + 1 = 2 * i by omega] at hafter
        exact hafter.symm.trans hchar
    · exact fun hle => (h (2 * i + 1) (by omega) (by omega)).1.symm.trans hcolor
  · rintro ⟨hchar, hattributes⟩ j hj hne
    constructor
    · exact writeCell_keeps fb hlt c fg bg (fun hk => by rw [hk, hattributes (by omega)]) fun hk => by
        rw [hk, hchar (by omega) (by omega)]
    · exact writeCell_keeps fb hlt c fg bg (fun hk => by rw [hk, hattributes (by omega)]) fun hk => by
        rw [hk, hchar (by omega) (by omega)]

/-- The getters by column and row at the cell itself. -/
theorem own_writeCell_iff {i : Nat} (hi : i < 2000) (c fg bg : UInt8) :
    ((fbWriteCell i c fg bg fb).val i = c ↔ (i ≠ 0 → fb.val i = c)) ∧
    ((fbWriteCell i c fg bg fb).val (i + 1) = colorByte fg bg ↔
      (i ≠ 0 → (if i = 1 then c else fb.val (i + 1)) = colorByte fg bg)) := by
  simp only [val_writeCell fb (show i < 2 ^ 31 by omega)]
  rcases Nat.lt_trichotomy i 1 with h0 | rfl | h1
  · obtain rfl : i = 0 := by omega
    simp
  · simp
  · rw [if_neg (by omega), if_neg (by omega), if_neg (by omega),
      if_neg (c := i + 1 = 2 * i) (by omega), if_neg (by omega)]
    exact ⟨⟨fun h _ => h, fun h => h (by omega)⟩, fun h _ => h, fun h => h (by omega)⟩

/-- The getters agree after a write exactly when the bytes that those by column and row read by mistake
hold what was written, and those they see written by mistake held it already. -/
theorem getters_coherent_iff {x y : Nat} (hx : x < 80) (hy : y < 25) (c fg bg : UInt8) :
    GettersCoherent x y c fg bg fb (fbWriteCell (fbRowColumnToIndex x y).toNat c fg bg fb) ↔
      GettersMeet (80 * y + x) c (colorByte fg bg) fb := by
  have hcell := fbRowColumnToIndex_cell hx hy
  obtain ⟨hownChar, hownAttributes⟩ := own_writeCell_iff fb (show 80 * y + x < 2000 by omega) c fg bg
  have hothers := others_writeCell_iff fb (show 80 * y + x < 2000 by omega) c fg bg
  constructor
  · rintro ⟨-, -, hchar, hattributes, hrest⟩
    unfold fbGetCharRc at hchar
    unfold fbGetAttributesRc at hattributes
    rw [hcell] at hchar hattributes hrest
    have hcells : ∀ x' < 80, ∀ y' < 25, 80 * y' + x' ≠ 80 * y + x → _ := fun x' hx' y' hy' hne =>
      (sameGetters_writeCell_iff fb hx' hy' c fg bg (by omega) hne).1 (hrest x' hx' y' hy' (by omega))
    obtain ⟨hotherChar, hotherAttributes⟩ := hothers.1 (forall_cells.1 hcells)
    exact ⟨hownChar.1 hchar, hownAttributes.1 hattributes, hotherChar, hotherAttributes⟩
  · rintro ⟨hchar, hattributes, hotherChar, hotherAttributes⟩
    have hcells := forall_cells.2 (hothers.2 ⟨hotherChar, hotherAttributes⟩)
    refine ⟨getChar_writeCell fb hx hy c fg bg, getAttributes_writeCell fb hx hy c fg bg, ?_, ?_, ?_⟩
    · rw [fbGetCharRc, hcell, hownChar.2 hchar]
    · rw [fbGetAttributesRc, hcell, hownAttributes.2 hattributes]
    · intro x' hx' y' hy' hne
      rw [hcell, sameGetters_writeCell_iff fb hx' hy' c fg bg (by omega) (by omega)]
      exact hcells x' hx' y' hy' (by omega)

/-- A blank of colour 32 over memory that is all blanks. -/
theorem getters_coherent_iff_blank : GettersCoherent 7 3 32 2 0 (.fresh fun _ => 32)
    (fbWriteCell (fbRowColumnToIndex 7 3).toNat 32 2 0 (.fresh fun _ => 32)) := by
  refine (getters_coherent_iff (.fresh fun _ => 32) (show 7 < 80 by decide) (show 3 < 25 by decide) 32 2 0).2 ?_
  have hcolor : colorByte 2 0 = 32 := by decide
  rw [hcolor]
  exact ⟨fun _ => rfl, fun _ => rfl, fun _ _ => rfl, fun _ => rfl⟩

/-- An `A` written at the start of row 1 of an empty memory is not what `fb_get_char_rc` finds there. -/
theorem getters_disagree : ¬ GettersCoherent 0 1 65 0 15 (.fresh fun _ => 0)
    (fbWriteCell (fbRowColumnToIndex 0 1).toNat 65 0 15 (.fresh fun _ => 0)) := by
  intro h
  exact absurd h.charRc (by decide)

end HavenOS
