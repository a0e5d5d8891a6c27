/-
fb_write_frect and fb_write_rect: the cells a rectangle is painted on, filled or along its edges,
and that the edges with the inside filled are the rectangle.
-/
import HavenOS.Lib.Paint
import HavenOS.Vga.Scroll
import Mathlib.Data.Finset.Prod
import Mathlib.Data.Set.Card

namespace HavenOS

/-! ## The loops -/

def fbWriteFrect (c : UInt8) (x y width height : UInt32) (fg bg : UInt8) (fb : FrameBuffer) : FrameBuffer :=
  (List.range width.toNat).foldl (fun fb cx =>
    (List.range height.toNat).foldl (fun fb cy =>
      let cell := (y + UInt32.ofNat cy) * 80 + (UInt32.ofNat cx + x)
      fbWriteCell cell.toNat c fg bg fb) fb) fb

def fbWriteRect (c : UInt8) (x y width height : UInt32) (fg bg : UInt8) (fb : FrameBuffer) : FrameBuffer :=
  (List.range width.toNat).foldl (fun fb i =>
    let cx := UInt32.ofNat i
    (List.range height.toNat).foldl (fun fb j =>
      let cy := UInt32.ofNat j
      if cy = 0 ∨ cy = height - 1 ∨ cx = 0 ∨ cx = width - 1 then
        let cell := (y + cy) * 80 + (cx + x)
        fbWriteCell cell.toNat c fg bg fb
      else fb) fb) fb

/-! ## Rectangles of cells -/

/-- The cells in columns `x`, …, `x + width - 1` and rows `y`, …, `y + height - 1`. -/
def rectCells (x y width height : Nat) : Set Nat :=
  {j | (x ≤ j % 80 ∧ j % 80 < x + width) ∧ y ≤ j / 80 ∧ j / 80 < y + height}

/-- They are `width * height` cells. -/
theorem ncard_rectCells {x width : Nat} (hx : x + width ≤ 80) (y height : Nat) :
    (rectCells x y width height).ncard = width * height := by
  have himage : rectCells x y width height =
      ((Finset.range width ×ˢ Finset.range height).image fun p => 80 * (y + p.2) + (x + p.1) : Finset Nat) := by
    ext j
    simp only [rectCells, Set.mem_ofPred_eq, Finset.coe_image, Set.mem_image, Finset.mem_coe, Finset.mem_product,
      Finset.mem_range, Prod.exists]
    constructor
    · rintro ⟨hcol, hrow⟩
      exact ⟨j % 80 - x, j / 80 - y, by omega, by omega⟩
    · rintro ⟨i, k, ⟨hi, hk⟩, rfl⟩
      omega
  rw [himage, Set.ncard_coe_finset, Finset.card_image_of_injOn, Finset.card_product,
    Finset.card_range, Finset.card_range]
  rintro ⟨i, k⟩ h ⟨i', k'⟩ h' heq
  simp only [Finset.coe_product, Set.mem_prod, Finset.mem_coe, Finset.mem_range] at h h' heq
  rw [Prod.mk.injEq]
  omega

/-- Those in the first or last column, or in the first or last row. -/
def perimeterCells (x y width height : Nat) : Set Nat :=
  {j ∈ rectCells x y width height | j / 80 = y ∨ j / 80 + 1 = y + height ∨ j % 80 = x ∨ j % 80 + 1 = x + width}

/-- The edges and the inside make up the rectangle. -/
theorem perimeter_union_interior {width height : Nat} (hw : 2 ≤ width) (hh : 2 ≤ height) (x y j : Nat) :
    j ∈ rectCells x y width height ↔
      j ∈ perimeterCells x y width height ∪ rectCells (x + 1) (y + 1) (width - 2) (height - 2) := by
  simp only [rectCells, perimeterCells, Set.mem_union, Set.mem_ofPred_eq]
  omega

/-- Both bytes of a cell. -/
def FrameBuffer.cell (fb : FrameBuffer) (j : Nat) : UInt8 × UInt8 := (fb.chr j, fb.attr j)

theorem painted_writeCell {i : Nat} (hi : i < 2 ^ 31) (c fg bg : UInt8) (fb : FrameBuffer) :
    Painted FrameBuffer.cell (c, colorByte fg bg) {i} fb (fbWriteCell i c fg bg fb) := by
  constructor
  · rintro j rfl
    rw [FrameBuffer.cell, chr_writeCell, attr_writeCell, Nat.mod_eq_of_lt hi, if_pos rfl, if_pos rfl]
  · intro j hj
    rw [Set.mem_singleton_iff] at hj
    rw [FrameBuffer.cell, chr_writeCell, attr_writeCell, Nat.mod_eq_of_lt hi, if_neg hj, if_neg hj]
    rfl

/-- Frame buffers that show the same cells are the same memory. -/
theorem val_eq_of_cell {fb fb' : FrameBuffer} (h : fb.cell = fb'.cell) : fb.val = fb'.val := by
  funext i
  have hcell : ∀ j, fb.chr j = fb'.chr j ∧ fb.attr j = fb'.attr j := fun j => by
    simpa only [FrameBuffer.cell, Prod.mk.injEq] using congrFun h j
  rw [val_eq_cell, val_eq_cell fb', (hcell _).1, (hcell _).2]

/-! ## What the loops paint -/

section
variable {x y width height : UInt32} (hx : x.toNat + width.toNat ≤ 80) (hy : y.toNat + height.toNat ≤ 25)
  (c fg bg : UInt8) (fb : FrameBuffer)
include hx hy

/-- On the screen the 32-bit cell number does not wrap. -/
theorem cell_toNat {i j : Nat} (hi : i < width.toNat) (hj : j < height.toNat) :
    ((y + UInt32.ofNat j) * 80 + (UInt32.ofNat i + x)).toNat = 80 * (y.toNat + j) + (x.toNat + i) := by
  simp only [UInt32.toNat_add, UInt32.toNat_mul, UInt32.toNat_ofNat', show (80 : UInt32).toNat = 80 by rfl]
  omega

theorem cell_lt {i j : Nat} (hi : i ∈ List.range width.toNat) (hj : j ∈ List.range height.toNat) :
    ((y + UInt32.ofNat j) * 80 + (UInt32.ofNat i + x)).toNat < 2 ^ 31 := by
  rw [List.mem_range] at hi hj
  rw [cell_toNat hx hy hi hj]
  omega

/-- `fb_write_frect` fills the rectangle. -/
theorem fbWriteFrect_painted : Painted FrameBuffer.cell (c, colorByte fg bg)
    (rectCells x.toNat y.toNat width.toNat height.toNat) fb (fbWriteFrect c x y width height fg bg fb) := by
  refine Painted.congr (Painted.foldl _ fb fun i hi fb => Painted.foldl _ fb fun j hj fb =>
    painted_writeCell (cell_lt hx hy hi hj) c fg bg fb) fun k => ?_
  simp only [rectCells, Set.mem_ofPred_eq, List.mem_range, Set.mem_singleton_iff]
  constructor
  · rintro ⟨hcol, hrow⟩
    refine ⟨k % 80 - x.toNat, by omega, k / 80 - y.toNat, by omega, ?_⟩
    rw [cell_toNat hx hy (by omega) (by omega)]
    omega
  · rintro ⟨i, hi, j, hj, rfl⟩
    rw [cell_toNat hx hy hi hj]
    omega

/-- The test of `fb_write_rect`: with no column or row to draw there is no `width - 1` or `height -
1` to compare with, and no round either. -/
theorem onEdge_iff {i j : Nat} (hi : i < width.toNat) (hj : j < height.toNat) :
    (UInt32.ofNat j = 0 ∨ UInt32.ofNat j = height - 1 ∨ UInt32.ofNat i = 0 ∨ UInt32.ofNat i = width - 1) ↔
      j = 0 ∨ j + 1 = height.toNat ∨ i = 0 ∨ i + 1 = width.toNat := by
  simp only [← UInt32.toNat_inj, UInt32.toNat_ofNat', UInt32.toNat_sub, UInt32.toNat_zero, UInt32.toNat_one]
  omega

/-- `fb_write_rect` draws its edges. -/
theorem fbWriteRect_painted : Painted FrameBuffer.cell (c, colorByte fg bg)
    (perimeterCells x.toNat y.toNat width.toNat height.toNat) fb (fbWriteRect c x y width height fg bg fb) := by
  refine Painted.congr (Painted.foldl _ fb fun i hi fb => Painted.foldl _ fb fun j hj fb =>
    Painted.ite (painted_writeCell (cell_lt hx hy hi hj) c fg bg fb)) fun k => ?_
  simp only [perimeterCells, rectCells, Set.mem_ofPred_eq, List.mem_range, Set.mem_singleton_iff]
  constructor
  · rintro ⟨⟨hcol, hrow⟩, hedge⟩
    refine ⟨k % 80 - x.toNat, by omega, k / 80 - y.toNat, by omega, ?_, ?_⟩
    · rw [onEdge_iff hx hy (by omega) (by omega)]
      omega
    · rw [cell_toNat hx hy (by omega) (by omega)]
      omega
  · rintro ⟨i, hi, j, hj, hedge, rfl⟩
    rw [onEdge_iff hx hy hi hj] at hedge
    rw [cell_toNat hx hy hi hj]
    omega

end

/-- Filling paints the `width * height` cells of the rectangle and drawing its perimeter, whatever
the size; the perimeter and the inside filled, in either order, leave the memory of the whole
rectangle filled. -/
theorem rectangles_compose {x y width height : UInt32} (hx : x.toNat + width.toNat ≤ 80)
    (hy : y.toNat + height.toNat ≤ 25) (c fg bg : UInt8) (fb : FrameBuffer) :
    (rectCells x.toNat y.toNat width.toNat height.toNat).ncard = width.toNat * height.toNat ∧
    Painted FrameBuffer.cell (c, colorByte fg bg) (rectCells x.toNat y.toNat width.toNat height.toNat) fb
      (fbWriteFrect c x y width height fg bg fb) ∧
    Painted FrameBuffer.cell (c, colorByte fg bg) (perimeterCells x.toNat y.toNat width.toNat height.toNat) fb
      (fbWriteRect c x y width height fg bg fb) ∧
    (2 ≤ width.toNat → 2 ≤ height.toNat →
      let whole := fbWriteFrect c x y width height fg bg fb
      (fbWriteFrect c (x + 1) (y + 1) (width - 2) (height - 2) fg bg (fbWriteRect c x y width height fg bg fb)).val =
        whole.val ∧
      (fbWriteRect c x y width height fg bg (fbWriteFrect c (x + 1) (y + 1) (width - 2) (height - 2) fg bg fb)).val =
        whole.val) := by
  have hfill := fbWriteFrect_painted hx hy c fg bg fb
  have hedges := fun fb => fbWriteRect_painted hx hy c fg bg fb
  refine ⟨ncard_rectCells hx y.toNat height.toNat, hfill, hedges fb, fun hw hh => ?_⟩
  have hx1 : (x + 1).toNat = x.toNat + 1 := by
    rw [UInt32.toNat_add, UInt32.toNat_one]
    omega
  have hy1 : (y + 1).toNat = y.toNat + 1 := by
    rw [UInt32.toNat_add, UInt32.toNat_one]
    omega
  have hw2 : (width - 2).toNat = width.toNat - 2 := by
    rw [UInt32.toNat_sub, show (2 : UInt32).toNat = 2 by rfl]
    omega
  have hh2 : (height - 2).toNat = height.toNat - 2 := by
    rw [UInt32.toNat_sub, show (2 : UInt32).toNat = 2 by rfl]
    omega
  have hright : (x + 1).toNat + (width - 2).toNat ≤ 80 := by omega
  have hbottom : (y + 1).toNat + (height - 2).toNat ≤ 25 := by omega
  have hinside := fbWriteFrect_painted hright hbottom c fg bg
  rw [hx1, hy1, hw2, hh2] at hinside
  have hparts := perimeter_union_interior hw hh x.toNat y.toNat
  constructor
  · exact val_eq_of_cell ((((hedges fb).union (hinside _)).congr hparts).unique hfill)
  · refine val_eq_of_cell ((((hinside fb).union (hedges _)).congr fun k => ?_).unique hfill)
    rw [Set.union_comm]
    exact hparts k

/-- A box of three columns and two rows in the last corner. -/
theorem rectangles_compose_corner : Painted FrameBuffer.cell (35, 0x1F) (perimeterCells 77 23 3 2) (.fresh fun _ => 0)
    (fbWriteRect 35 77 23 3 2 1 15 (.fresh fun _ => 0)) :=
  (@rectangles_compose 77 23 3 2 (by decide) (by decide) 35 1 15 (.fresh fun _ => 0)).2.2.1

end HavenOS
