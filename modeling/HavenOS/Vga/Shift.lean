/-
fb_copy_row and fb_shift_down over the whole video memory: when a row copy is exact, and what
opening a line does to the rows beneath it.
-/
import HavenOS.Vga.Inside
import HavenOS.Vga.Scroll

namespace HavenOS

variable (fb : FrameBuffer)

/-! ## Copying a row -/

/-- Round `k` of 81 takes the byte of this cell of the source row. The first cell of the row after
the source is taken last; when that row is the destination, it holds the first cell again. -/
def copied («from» «to» k : Nat) : Nat := if «to» = «from» + 1 then k % 80 else k

theorem copied_of_lt («from» «to» : Nat) {k : Nat} (hk : k < 80) : copied «from» «to» k = k := by
  unfold copied
  rw [Nat.mod_eq_of_lt hk, ite_self]

theorem copied_of_ne {«from» «to» k : Nat} (h : «to» ≠ «from» + 1) : copied «from» «to» k = k := if_neg h

section
variable {view : FrameBuffer → Nat → UInt8} {d : Nat} (hview : Copies view d)
include hview

theorem view_fbCopyRow {«from» «to» : Nat} (h1 : «from» ≤ 25) (h2 : «to» ≤ 25) (j : Nat) :
    view (fbCopyRow «from» «to» fb) j =
      if 80 * «to» + d ≤ j ∧ j ≤ 80 * «to» + d + 80 then
        view fb (80 * «from» + d + copied «from» «to» (j - (80 * «to» + d)))
      else view fb j := by
  rw [fbCopyRow_valid fb «from» «to» h1 h2]
  by_cases hin : 80 * «to» + d ≤ j ∧ j ≤ 80 * «to» + d + 80
  · obtain ⟨k, rfl⟩ := Nat.exists_eq_add_of_le hin.1
    rw [if_pos hin, Nat.add_sub_cancel_left]
    rcases Nat.lt_trichotomy «to» «from» with hup | rfl | hdown
    · rw [view_copyRowLoop hview _ _ _ _ _ (by omega), if_pos (by omega), copied_of_ne (by omega)]
      congr 1; omega
    · rw [view_copyRowLoop_self hview, copied_of_ne (by omega)]
    · rw [view_copyRowLoop_up hview _ _ _ _ _ (by omega), if_pos (by omega), Nat.add_sub_cancel_left]
      congr 2
      by_cases hnext : «to» = «from» + 1
      · rw [copied, if_pos hnext, hnext, show 80 * («from» + 1) - 80 * «from» = 80 by omega]
      · rw [copied_of_ne hnext, Nat.mod_eq_of_lt (by omega)]
  · rw [if_neg hin]
    rcases Nat.lt_trichotomy «to» «from» with hup | rfl | hdown
    · rw [view_copyRowLoop hview _ _ _ _ _ (by omega), if_neg (by omega)]
    · rw [view_copyRowLoop_self hview]
    · rw [view_copyRowLoop_up hview _ _ _ _ _ (by omega), if_neg (by omega)]

/-- The copy is exact on a view when the cells it misses at the start of the row agree already,
and those it writes after the row are written as they were. -/
theorem view_exact_iff {«from» «to» : Nat} (h1 : «from» ≤ 25) (h2 : «to» ≤ 25) (hd : d ≤ 80) :
    (∀ j, view (fbCopyRow «from» «to» fb) j =
      if 80 * «to» ≤ j ∧ j < 80 * «to» + 80 then view fb (80 * «from» + (j - 80 * «to»)) else view fb j) ↔
    (∀ i < d, view fb (80 * «to» + i) = view fb (80 * «from» + i)) ∧
    ∀ k ≤ 80, 80 ≤ d + k → view fb (80 * «to» + (d + k)) = view fb (80 * «from» + d + copied «from» «to» k) := by
  constructor
  · intro h
    constructor
    · intro i hi
      have hcell := h (80 * «to» + i)
      rw [view_fbCopyRow fb hview h1 h2, if_neg (by omega), if_pos (by omega), Nat.add_sub_cancel_left] at hcell
      exact hcell
    · intro k hk hafter
      have hcell := h (80 * «to» + (d + k))
      rw [view_fbCopyRow fb hview h1 h2, if_pos (by omega), if_neg (by omega), ← Nat.add_assoc,
        Nat.add_sub_cancel_left, Nat.add_assoc (80 * «to»)] at hcell
      exact hcell.symm
  · rintro ⟨hbefore, hafter⟩ j
    rw [view_fbCopyRow fb hview h1 h2]
    by_cases hin : 80 * «to» + d ≤ j ∧ j ≤ 80 * «to» + d + 80
    · obtain ⟨k, rfl⟩ := Nat.exists_eq_add_of_le hin.1
      rw [if_pos hin, Nat.add_sub_cancel_left]
      by_cases hrow : d + k < 80
      · rw [if_pos (by omega), copied_of_lt _ _ (by omega)]
        congr 1; omega
      · rw [if_neg (by omega), ← hafter k (by omega) (by omega), Nat.add_assoc]
    · rw [if_neg hin]
      by_cases hrow : 80 * «to» ≤ j ∧ j < 80 * «to» + 80
      · obtain ⟨i, rfl⟩ := Nat.exists_eq_add_of_le hrow.1
        rw [if_pos hrow, Nat.add_sub_cancel_left]
        exact hbefore i (by omega)
      · rw [if_neg hrow]

/-- The copy changes nothing when the 81 cells it writes are already those it reads. -/
theorem view_unchanged_iff {«from» «to» : Nat} (h1 : «from» ≤ 25) (h2 : «to» ≤ 25) :
    (∀ j, view (fbCopyRow «from» «to» fb) j = view fb j) ↔
    ∀ k ≤ 80, view fb (80 * «to» + d + k) = view fb (80 * «from» + d + k) := by
  have hcopied : (∀ j, view (fbCopyRow «from» «to» fb) j = view fb j) ↔
      ∀ k ≤ 80, view fb (80 * «to» + d + k) = view fb (80 * «from» + d + copied «from» «to» k) := by
    constructor
    · intro h k hk
      have hcell := h (80 * «to» + d + k)
      rw [view_fbCopyRow fb hview h1 h2, if_pos (by omega), Nat.add_sub_cancel_left] at hcell
      exact hcell.symm
    · intro h j
      rw [view_fbCopyRow fb hview h1 h2]
      split
      · rename_i hin
        obtain ⟨k, rfl⟩ := Nat.exists_eq_add_of_le hin.1
        rw [Nat.add_sub_cancel_left, h k (by omega)]
      · rfl
  rw [hcopied]
  -- only cell 80 of the source of the row above may differ, and it is cell 0 of the destination
  have hlast (h0 : view fb (80 * «to» + d + 0) = view fb (80 * «from» + d + 0)) {k : Nat} (hk : k ≤ 80) :
      view fb (80 * «from» + d + copied «from» «to» k) = view fb (80 * «from» + d + k) := by
    by_cases hnext : «to» = «from» + 1 ∧ k = 80
    · obtain ⟨rfl, rfl⟩ := hnext
      rw [copied, if_pos rfl, show 80 % 80 = 0 by rfl, ← h0]
      congr 1; omega
    · congr 2
      unfold copied
      split
      · rw [Nat.mod_eq_of_lt (by omega)]
      · rfl
  constructor
  · intro h k hk
    have h0 := h 0 (by omega)
    rw [copied_of_lt _ _ (by omega)] at h0
    rw [h k hk, hlast h0 hk]
  · intro h k hk
    rw [h k hk, hlast (h 0 (by omega)) hk]

end

/-- A row of the screen. -/
def IsRow (row : Int) : Prop := 0 ≤ row ∧ row < fbNumRows

/-- Row `to` of `fb'` is row `from` of `fb`, and all other cells are the same. -/
def RowCopied («from» «to» : Nat) (fb fb' : FrameBuffer) : Prop :=
  (∀ c < 80, fb'.chrAt «to» c = fb.chrAt «from» c ∧ fb'.attrAt «to» c = fb.attrAt «from» c) ∧
  ∀ j, ¬ (80 * «to» ≤ j ∧ j < 80 * «to» + 80) → fb'.chr j = fb.chr j ∧ fb'.attr j = fb.attr j

/-- `fb_copy_row` copies a row onto a row, and changes nothing when one of the two is none. -/
def CopiesExactly («from» «to» : Int) (fb : FrameBuffer) : Prop :=
  (IsRow «from» ∧ IsRow «to» → RowCopied «from».toNat «to».toNat fb (fbCopyRow «from» «to» fb)) ∧
  (¬ (IsRow «from» ∧ IsRow «to») → ∀ i, (fbCopyRow «from» «to» fb).val i = fb.val i)

/-- The bytes that `fb_copy_row` misses or writes besides its row are already as they should be:
between rows the first attribute of the two, and the two cells after them; with row 25, which the
guard lets pass, all that is copied. -/
def CopyHarmless («from» «to» : Int) (fb : FrameBuffer) : Prop :=
  let a := 80 * «from».toNat
  let b := 80 * «to».toNat
  let spill := if «to» = «from» + 1 then a else a + 80
  (IsRow «from» ∧ IsRow «to» → fb.attr b = fb.attr a ∧ fb.chr (b + 80) = fb.chr spill ∧
    fb.attr (b + 80) = fb.attr (a + 80) ∧ fb.attr (b + 81) = fb.attr (spill + 1)) ∧
  (0 ≤ «from» ∧ «from» ≤ 25 ∧ 0 ≤ «to» ∧ «to» ≤ 25 ∧ («from» = 25 ∨ «to» = 25) →
    ∀ k ≤ 80, fb.chr (b + k) = fb.chr (a + k) ∧ fb.attr (b + 1 + k) = fb.attr (a + 1 + k))

theorem rowCopied_iff («from» «to» : Nat) (fb fb' : FrameBuffer) : RowCopied «from» «to» fb fb' ↔
    (∀ j, fb'.chr j = if 80 * «to» ≤ j ∧ j < 80 * «to» + 80 then fb.chr (80 * «from» + (j - 80 * «to»)) else fb.chr j) ∧
    ∀ j, fb'.attr j =
      if 80 * «to» ≤ j ∧ j < 80 * «to» + 80 then fb.attr (80 * «from» + (j - 80 * «to»)) else fb.attr j := by
  unfold RowCopied FrameBuffer.chrAt FrameBuffer.attrAt
  constructor
  · rintro ⟨hrow, hrest⟩
    rw [← forall_and]
    intro j
    by_cases hin : 80 * «to» ≤ j ∧ j < 80 * «to» + 80
    · obtain ⟨c, rfl⟩ := Nat.exists_eq_add_of_le hin.1
      rw [if_pos hin, if_pos hin, Nat.add_sub_cancel_left]
      exact hrow c (by omega)
    · rw [if_neg hin, if_neg hin]
      exact hrest j hin
  · rintro ⟨hchr, hattr⟩
    constructor
    · intro c hc
      have h1 := hchr (80 * «to» + c)
      have h2 := hattr (80 * «to» + c)
      rw [if_pos (by omega), Nat.add_sub_cancel_left] at h1 h2
      exact ⟨h1, h2⟩
    · intro j hout
      have h1 := hchr j
      have h2 := hattr j
      rw [if_neg hout] at h1 h2
      exact ⟨h1, h2⟩

theorem rowCopied_fbCopyRow_iff {«from» «to» : Nat} (h1 : «from» ≤ 25) (h2 : «to» ≤ 25) :
    RowCopied «from» «to» fb (fbCopyRow «from» «to» fb) ↔
    fb.attr (80 * «to») = fb.attr (80 * «from») ∧
    fb.chr (80 * «to» + 80) = fb.chr (80 * «from» + copied «from» «to» 80) ∧
    fb.attr (80 * «to» + 80) = fb.attr (80 * «from» + 80) ∧
    fb.attr (80 * «to» + 81) = fb.attr (80 * «from» + copied «from» «to» 80 + 1) := by
  rw [rowCopied_iff, view_exact_iff fb copies_chr h1 h2 (by omega), view_exact_iff fb copies_attr h1 h2 (by omega)]
  constructor
  · rintro ⟨⟨-, hchr⟩, hfirst, hattr⟩
    have h79 := hattr 79 (by omega) (by omega)
    have h80 := hattr 80 (by omega) (by omega)
    rw [copied_of_lt _ _ (by omega)] at h79
    rw [Nat.add_right_comm] at h80
    exact ⟨hfirst 0 (by omega), hchr 80 (by omega) (by omega), h79, h80⟩
  · rintro ⟨hfirst, hchr, h79, h80⟩
    refine ⟨⟨fun i hi => absurd hi (by omega), ?_⟩, ?_, ?_⟩
    · intro k hk hafter
      obtain rfl : k = 80 := by omega
      exact hchr
    · intro i hi
      obtain rfl : i = 0 := by omega
      exact hfirst
    · intro k hk hafter
      obtain rfl | rfl : k = 79 ∨ k = 80 := by omega
      · rw [copied_of_lt _ _ (by omega)]
        exact h79
      · rw [Nat.add_right_comm]
        exact h80

theorem unchanged_fbCopyRow_iff {«from» «to» : Nat} (h1 : «from» ≤ 25) (h2 : «to» ≤ 25) :
    (∀ i, (fbCopyRow «from» «to» fb).val i = fb.val i) ↔
    ∀ k ≤ 80, fb.chr (80 * «to» + k) = fb.chr (80 * «from» + k) ∧
      fb.attr (80 * «to» + 1 + k) = fb.attr (80 * «from» + 1 + k) := by
  have hcells : (∀ i, (fbCopyRow «from» «to» fb).val i = fb.val i) ↔
      (∀ j, (fbCopyRow «from» «to» fb).chr j = fb.chr j) ∧ ∀ j, (fbCopyRow «from» «to» fb).attr j = fb.attr j := by
    constructor
    · exact fun h => ⟨fun j => h (2 * j), fun j => h (2 * j + 1)⟩
    · rintro ⟨hchr, hattr⟩ i
      rw [val_eq_cell, val_eq_cell fb, hchr, hattr]
  rw [hcells, view_unchanged_iff fb copies_chr h1 h2, view_unchanged_iff fb copies_attr h1 h2]
  constructor
  · rintro ⟨hchr, hattr⟩ k hk
    exact ⟨hchr k hk, hattr k hk⟩
  · intro h
    exact ⟨fun k hk => (h k hk).1, fun k hk => (h k hk).2⟩

/-- `fb_copy_row` is exact when what its one round too many and its displaced attributes write is
there already. -/
theorem copyRow_exact_iff («from» «to» : Int) : CopiesExactly «from» «to» fb ↔ CopyHarmless «from» «to» fb := by
  unfold CopiesExactly CopyHarmless
  by_cases hpass : 0 ≤ «from» ∧ «from» ≤ 25 ∧ 0 ≤ «to» ∧ «to» ≤ 25
  · obtain ⟨h1, h2, h3, h4⟩ := hpass
    obtain ⟨f, rfl⟩ := Int.eq_ofNat_of_zero_le h1
    obtain ⟨t, rfl⟩ := Int.eq_ofNat_of_zero_le h3
    have hspill : (if (t : Int) = f + 1 then 80 * f else 80 * f + 80) = 80 * f + copied f t 80 := by
      unfold copied
      by_cases hnext : t = f + 1
      · rw [if_pos (by omega), if_pos hnext, Nat.mod_self, Nat.add_zero]
      · rw [if_neg (by omega), if_neg hnext]
    simp only [Int.toNat_natCast, hspill]
    rw [rowCopied_fbCopyRow_iff fb (by omega) (by omega), unchanged_fbCopyRow_iff fb (by omega) (by omega)]
    refine and_congr Iff.rfl (imp_congr_left ?_)
    simp only [IsRow, fbNumRows_eq]
    omega
  · have hguard : fbCopyRow «from» «to» fb = fb := fbCopyRow_invalid fb _ _ (by omega)
    have hrows : ¬ (IsRow «from» ∧ IsRow «to») := by
      simp only [IsRow, fbNumRows_eq]; omega
    rw [hguard]
    constructor
    · intro _
      exact ⟨fun h => absurd h hrows, fun h => absurd h (by omega)⟩
    · intro _
      exact ⟨fun h => absurd h hrows, fun _ _ => rfl⟩

/-- Copying row 0, all `A`, to row 1 puts an `A` in row 2 as well. -/
theorem copyRow_spills : ¬ CopiesExactly 0 1 (.fresh fun i => if i < 160 ∧ i % 2 = 0 then 65 else 0) := by
  rintro ⟨hrow, -⟩
  have h := (hrow ⟨⟨by decide, by decide⟩, ⟨by decide, by decide⟩⟩).2 160 (by decide)
  rw [show (0 : Int) = ((0 : Nat) : Int) by rfl, show (1 : Int) = ((1 : Nat) : Int) by rfl,
    view_fbCopyRow _ copies_chr (by decide) (by decide)] at h
  exact absurd h.1 (by decide)

/-! ## Opening a line -/

/-- Where a cell beneath an opened line comes from: the row above it, but for the cells that the
copy of the row above that has written over. -/
def shiftSource («from» d j : Nat) : Nat :=
  if (j - d) % 80 = 0 ∧ j ≠ 80 * («from» + 1) + d then j - 160 else j - 80

section
variable {view : FrameBuffer → Nat → UInt8} {d : Nat} (hview : Copies view d)
include hview

theorem view_shiftDownLoop («from» : Nat) : ∀ (n : Nat) (fb : FrameBuffer) (j : Nat), «from» + n ≤ 25 →
    view (shiftDownLoop n («from» + n - 1) fb) j =
      if 0 < n ∧ 80 * («from» + 1) + d ≤ j ∧ j ≤ 80 * («from» + n + 1) + d then view fb (shiftSource «from» d j)
      else view fb j
  | 0, fb, j, h => by rw [if_neg (by omega)]; rfl
  | n + 1, fb, j, h => by
    have hrow : («from» : Int) + (n + 1 : Nat) - 1 = («from» + n : Nat) := by omega
    have hnext : ((«from» + n : Nat) : Int) - 1 = «from» + n - 1 := by omega
    -- what the rows above take was not written by the copy of this row
    have hsource {i : Nat} (hi : i < 80 * («from» + n + 1) + d) :
        view (fbCopyRow («from» + n : Nat) («from» + n + 1 : Nat) fb) i = view fb i := by
      rw [view_fbCopyRow fb hview (by omega) (by omega), if_neg (by omega)]
    rw [hrow, shiftDownLoop, hnext, show ((«from» + n : Nat) : Int) + 1 = («from» + n + 1 : Nat) by rfl,
      view_shiftDownLoop «from» n _ j (by omega)]
    by_cases habove : 0 < n ∧ 80 * («from» + 1) + d ≤ j ∧ j ≤ 80 * («from» + n + 1) + d
    · have hlow : shiftSource «from» d j < 80 * («from» + n + 1) + d := by
        unfold shiftSource
        split <;> omega
      rw [if_pos habove, hsource hlow, if_pos (by omega)]
    · rw [if_neg habove, view_fbCopyRow fb hview (by omega) (by omega)]
      by_cases hin : 80 * («from» + n + 1) + d ≤ j ∧ j ≤ 80 * («from» + n + 1) + d + 80
      · rw [if_pos hin, if_pos (by omega), copied, if_pos rfl]
        congr 1
        unfold shiftSource
        split <;> omega
      · rw [if_neg hin, if_neg (by omega)]

theorem view_fbShiftDown {«from» : Nat} (h : «from» ≤ 24) (j : Nat) : view (fbShiftDown «from» fb) j =
    if 80 * («from» + 1) + d ≤ j ∧ j ≤ 2080 + d then view fb (shiftSource «from» d j) else view fb j := by
  have hrounds : ((fbNumRows : Int) - «from» + 1).toNat = 25 - «from» + 1 := by
    simp only [fbNumRows_eq]; omega
  have htop : (fbNumRows : Int) - 1 = «from» + (25 - «from» : Nat) - 1 := by
    simp only [fbNumRows_eq]; omega
  -- row 25 is not copied to row 26
  rw [fbShiftDown, hrounds, shiftDownLoop, fbCopyRow_invalid fb _ _ (by simp), htop,
    view_shiftDownLoop hview «from» _ fb j (by omega)]
  exact if_congr (by omega) rfl rfl

theorem view_fbShiftDown_above {«from» : Nat} (h : «from» ≤ 24) {j : Nat} (hj : j < 80 * («from» + 1)) :
    view (fbShiftDown «from» fb) j = view fb j := by
  rw [view_fbShiftDown fb hview h, if_neg (by omega)]

/-- A row beneath the line comes from the row above it, except for one column: there the topmost row
keeps its own cell, or the others take the cell of two rows above. -/
theorem view_fbShiftDown_beneath {«from» : Nat} (h : «from» ≤ 24) (hd : d ≤ 1) {r c : Nat} (hr : «from» ≤ r)
    (hlast : r < 24) (hc : c < 80) : view (fbShiftDown «from» fb) (80 * (r + 1) + c) =
      if r = «from» ∧ c < d then view fb (80 * (r + 1) + c)
      else if r ≠ «from» ∧ c = d then view fb (80 * (r - 1) + c)
      else view fb (80 * r + c) := by
  rw [view_fbShiftDown fb hview h]
  by_cases hkept : r = «from» ∧ c < d
  · rw [if_pos hkept, if_neg (by omega)]
  · rw [if_neg hkept, if_pos (by omega), shiftSource]
    by_cases htwice : r ≠ «from» ∧ c = d
    · rw [if_pos htwice, if_pos (by omega), show 80 * (r + 1) + c - 160 = 80 * (r - 1) + c by omega]
    · rw [if_neg htwice, if_neg (by omega), show 80 * (r + 1) + c - 80 = 80 * r + c by omega]

theorem view_beneath_iff {«from» : Nat} (h : «from» ≤ 24) (hd : d ≤ 1) :
    (∀ r, «from» ≤ r → r < 24 → ∀ c < 80, view (fbShiftDown «from» fb) (80 * (r + 1) + c) = view fb (80 * r + c)) ↔
    («from» < 24 → ∀ c < d, view fb (80 * «from» + c) = view fb (80 * («from» + 1) + c)) ∧
    ∀ r, «from» ≤ r → r < 23 → view fb (80 * r + d) = view fb (80 * (r + 1) + d) := by
  constructor
  · intro hrows
    constructor
    · intro hlt c hc
      have hcell := hrows «from» le_rfl hlt c (by omega)
      rw [view_fbShiftDown_beneath fb hview h hd le_rfl hlt (by omega), if_pos ⟨rfl, hc⟩] at hcell
      exact hcell.symm
    · intro r hr hlt
      have hcell := hrows (r + 1) (by omega) (by omega) d (by omega)
      rw [view_fbShiftDown_beneath fb hview h hd (by omega) (by omega) (by omega), if_neg (by omega),
        if_pos (by omega)] at hcell
      exact hcell
  · rintro ⟨hkept, htwice⟩ r hr hlt c hc
    rw [view_fbShiftDown_beneath fb hview h hd hr hlt hc]
    split
    · rename_i hin
      obtain ⟨rfl, hc⟩ := hin
      exact (hkept hlt c hc).symm
    · split
      · rename_i hin
        obtain ⟨hne, rfl⟩ := hin
        obtain ⟨r', rfl⟩ := Nat.exists_eq_add_of_lt (show «from» < r by omega)
        exact htwice («from» + r') (by omega) (by omega)
      · rfl

end

/-- The rows down to `from` are as they were and the rows beneath it have moved down by one. -/
def LineOpened («from» : Nat) (fb fb' : FrameBuffer) : Prop :=
  (∀ r ≤ «from», ∀ c < 80, fb'.chrAt r c = fb.chrAt r c ∧ fb'.attrAt r c = fb.attrAt r c) ∧
  ∀ r, «from» ≤ r → r < 24 → ∀ c < 80, fb'.chrAt (r + 1) c = fb.chrAt r c ∧ fb'.attrAt (r + 1) c = fb.attrAt r c

/-- `fb_shift_down` opens a line and stores nothing outside the screen. -/
def OpensLine («from» : Nat) (fb : FrameBuffer) : Prop :=
  LineOpened «from» fb (fbShiftDown «from» fb) ∧ (fbShiftDown «from» fb.forget).OnScreen

theorem lineOpened_iff {«from» : Nat} (h : «from» ≤ 24) : LineOpened «from» fb (fbShiftDown «from» fb) ↔
    (∀ r, «from» ≤ r → r < 23 → fb.chrAt r 0 = fb.chrAt (r + 1) 0 ∧ fb.attrAt r 1 = fb.attrAt (r + 1) 1) ∧
    («from» < 24 → fb.attrAt «from» 0 = fb.attrAt («from» + 1) 0) := by
  have hchr := view_beneath_iff fb copies_chr h (by omega)
  have hattr := view_beneath_iff fb copies_attr h (by omega)
  constructor
  · rintro ⟨-, hbeneath⟩
    obtain ⟨-, hchr⟩ := hchr.1 fun r hr hlt c hc => (hbeneath r hr hlt c hc).1
    obtain ⟨hfirst, hattr⟩ := hattr.1 fun r hr hlt c hc => (hbeneath r hr hlt c hc).2
    exact ⟨fun r hr hlt => ⟨hchr r hr hlt, hattr r hr hlt⟩, fun hlt => hfirst hlt 0 (by omega)⟩
  · rintro ⟨hcells, hfirst⟩
    constructor
    · intro r hr c hc
      exact ⟨view_fbShiftDown_above fb copies_chr h (by omega), view_fbShiftDown_above fb copies_attr h (by omega)⟩
    · intro r hr hlt c hc
      constructor
      · exact hchr.2 ⟨fun _ i hi => absurd hi (by omega), fun r hr hlt => (hcells r hr hlt).1⟩ r hr hlt c hc
      · refine hattr.2 ⟨fun hlt i hi => ?_, fun r hr hlt => (hcells r hr hlt).2⟩ r hr hlt c hc
        obtain rfl : i = 0 := by omega
        exact hfirst hlt

/-- Opening a line always stores in row 25. On the screen, it comes out right only when the first
characters of the rows moved are the same, and so are their second attributes. -/
theorem shiftDown_opens_iff {«from» : Nat} (h : «from» ≤ 24) : ¬ OpensLine «from» fb ∧
    (LineOpened «from» fb (fbShiftDown «from» fb) ↔
      (∀ r, «from» ≤ r → r < 23 → fb.chrAt r 0 = fb.chrAt (r + 1) 0 ∧ fb.attrAt r 1 = fb.attrAt (r + 1) 1) ∧
      («from» < 24 → fb.attrAt «from» 0 = fb.attrAt («from» + 1) 0)) := by
  refine ⟨?_, lineOpened_iff fb h⟩
  rintro ⟨-, hstores⟩
  exact not_onScreen_shiftDown fb.forget (by omega) (by omega) hstores

theorem shiftDown_opens_iff_top : ¬ OpensLine 0 (.fresh fun _ => 0) :=
  (shiftDown_opens_iff (.fresh fun _ => 0) (show 0 ≤ 24 by decide)).1

/-- With an `A` in the first column of row 0, opening a line there puts the `A` in row 2 as well. -/
theorem shiftDown_copies_letter : let fb : FrameBuffer := .fresh fun i => if i = 0 then 65 else 0
    ¬ LineOpened 0 fb (fbShiftDown 0 fb) ∧ ¬ OpensLine 0 fb := by
  have hline : ¬ LineOpened 0 (.fresh fun i => if i = 0 then 65 else 0)
      (fbShiftDown 0 (.fresh fun i => if i = 0 then 65 else 0)) := by
    intro h
    have := (((lineOpened_iff _ (by decide)).1 h).1 0 (by decide) (by decide)).1
    revert this
    decide
  exact ⟨hline, fun h => hline h.1⟩

end HavenOS
