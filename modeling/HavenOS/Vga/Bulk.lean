/-
Printing in bulk: `fb_print_str` and `fb_print_lstr` store the whole string first and move the
cursor afterwards, so what they store beyond the last cell is cleared by the scrolls instead of
coming up with them. Exactly when this leaves the screen that printing character by character
leaves.
-/
import HavenOS.Vga.Terminal

namespace HavenOS

/-- The same cursor and the same visible cells. -/
def SameScreen (v w : Vga) : Prop :=
  v.cursorPos = w.cursorPos ∧ ∀ c < 2000, v.fb.chr c = w.fb.chr c ∧ v.fb.attr c = w.fb.attr c

/-! ## The bulk path -/

section
variable (v : Vga) (p : Nat) (s : List UInt8) (fg bg : UInt8)

/-- The character of cell `u` once the whole string is stored from cell `p` on. -/
def storedChr (u : Nat) : UInt8 :=
  if u < p + s.length ∧ p ≤ lastOn p s.length u then s.getD (lastOn p s.length u - p) 0 else v.fb.chr u

def storedAttr (u : Nat) : UInt8 :=
  if u < p + s.length ∧ p ≤ lastOn p s.length u then colorByte fg bg else v.fb.attr u

/-- The cell whose stored text ends up on the first cell: the cursor, taken as a 16-bit number,
decides how often the screen scrolls. -/
def bulkTop : Nat := 80 * scrollCount (wrapShort (p + s.length : Nat))

/-- The character of cell `c` after printing in bulk. -/
def bulkChr (c : Nat) : UInt8 :=
  if c + bulkTop p s < 2000 then storedChr v p s (c + bulkTop p s) else 32

/-- The attribute of cell `c` after printing in bulk; the first cell keeps what is stored there. -/
def bulkAttr (c : Nat) : UInt8 :=
  if c = 0 then storedAttr v p s fg bg 0
  else if c + bulkTop p s < 2000 then storedAttr v p s fg bg (c + bulkTop p s)
  else colorByte bg bg

end

theorem fbPrintStr_eq (s : List UInt8) (hs : 0 ∉ s) (fg bg : UInt8) (v : Vga) :
    fbPrintStr s fg bg v = fbPrintLstr s s.length fg bg v := by
  rw [fbPrintStr, strlen_of_notMem hs]; rfl

section
variable {v : Vga} {p : Nat} (hp : p ≤ 1999) (hv : v.cursorPos.toInt = p) (s : List UInt8) (fg bg : UInt8)

include hv in
theorem offsetTarget_length (fb : FrameBuffer) :
    offsetTarget s.length { v with fb := fb } = wrapShort (p + s.length : Nat) := by
  simp only [offsetTarget, hv]
  push_cast; rfl

include hv in
theorem fbPrintLstr_cursor :
    (fbPrintLstr s s.length fg bg v).cursorPos.toInt = settle (wrapShort (p + s.length : Nat)) := by
  rw [fbPrintLstr, fbOffsetCursor_cursor, offsetTarget_length hv]

include hp hv

theorem fbPrintLstr_fb : (fbPrintLstr s s.length fg bg v).fb =
    fbScroll^[scrollCount (wrapShort (p + s.length : Nat))] (writeLstrLoop fg bg s.length p s v.fb) := by
  have hcell : toUnsigned v.cursorPos.toInt = p := by rw [toUnsigned_nat hv]; omega
  rw [fbPrintLstr, fbOffsetCursor_fb, offsetTarget_length hv, hcell]
  rfl

theorem fbPrintLstr_chr (c : Nat) (hc : c < 2000) :
    (fbPrintLstr s s.length fg bg v).fb.chr c = bulkChr v p s c := by
  rw [fbPrintLstr_fb hp hv, chr_fbScroll_iterate _ _ _ hc, bulkChr, bulkTop, Nat.mul_comm 80]
  split
  · exact chr_writeLstrLoop fg bg _ _ _ _ _ (by omega)
  · rfl

theorem fbPrintLstr_attr (c : Nat) (hc : c < 2000) :
    (fbPrintLstr s s.length fg bg v).fb.attr c = bulkAttr v p s fg bg c := by
  have hstored : ∀ u < 2000, (writeLstrLoop fg bg s.length p s v.fb).attr u = storedAttr v p s fg bg u :=
    fun u hu => attr_writeLstrLoop fg bg _ _ _ _ _ (by omega)
  rw [fbPrintLstr_fb hp hv]
  cases c with
  | zero => rw [attr_fbScroll_iterate_zero, bulkAttr, if_pos rfl, hstored 0 (by omega)]
  | succ c =>
    rw [attr_fbScroll_iterate _ _ _ (by omega), bulkAttr, if_neg (Nat.succ_ne_zero c), bulkTop, Nat.mul_comm 80]
    split
    · rw [if_pos (by omega), hstored _ (by omega), Nat.add_right_comm c 1]
    · rename_i hscrolled
      rw [if_neg (by omega)]
      -- a scroll happened, so the string runs over the last cell and gave it its colour
      have hlast : storedAttr v p s fg bg 1999 = colorByte fg bg := by
        rw [storedAttr, if_pos]
        unfold scrollCount wrapShort at hscrolled
        unfold lastOn
        omega
      rw [FrameBuffer.fill, hstored 1999 (by omega), hlast, colorByte_twice]

/-! ## Comparing the paths -/

/-- Both paths leave the same screen when the cursors and, cell by cell, the texts agree. -/
theorem sameScreen_iff : SameScreen (fbPrintLstr s s.length fg bg v) (printCells s fg bg v) ↔
    settle (wrapShort (p + s.length : Nat)) = (p + s.length : Nat) - (topOf (p + s.length) : Nat) ∧
    ∀ c < 2000, bulkChr v p s c = tape v.fb.chr 32 p s (c + topOf (p + s.length)) ∧
      bulkAttr v p s fg bg c =
        if c = 0 then (if p = 0 ∧ s ≠ [] then colorByte fg bg else v.fb.attr 0)
        else tape v.fb.attr (colorByte bg bg) p (s.map fun _ => colorByte fg bg) (c + topOf (p + s.length)) := by
  obtain ⟨hcur, hchr, hattr, hattr0⟩ := printCells_printed hp hv fg bg s
  have hcells : ∀ c < 2000, (printCells s fg bg v).fb.attr c =
      if c = 0 then (if p = 0 ∧ s ≠ [] then colorByte fg bg else v.fb.attr 0)
      else tape v.fb.attr (colorByte bg bg) p (s.map fun _ => colorByte fg bg) (c + topOf (p + s.length)) := by
    intro c hc
    cases c with
    | zero => exact hattr0
    | succ c =>
      rw [if_neg (by omega)]
      refine (hattr c (by omega)).trans ?_
      simp only [Nat.add_right_comm c _ 1]
  unfold SameScreen
  rw [← Int16.toInt_inj, fbPrintLstr_cursor hv, hcur]
  refine and_congr_right fun _ => forall₂_congr fun c hc => ?_
  rw [fbPrintLstr_chr hp hv s fg bg c hc, fbPrintLstr_attr hp hv s fg bg c hc, hchr c hc, hcells c hc]

end

/-! ## When the paths agree -/

/-- Past 32767 the cursor wraps as a 16-bit number. With `r` the end of the string modulo 327680,
the paths then agree only if `r` is a cursor that does not wrap and is at most a screen below the
last row; the cells of the screen are those `down` cells on, over what the screen held, and they
have to show the end of the string as printing it character by character does. No string that ends
before cell 329601 is such (`WrappedAgrees.far`). -/
def WrappedAgrees (v : Vga) (p : Nat) (s : List UInt8) (fg bg : UInt8) : Prop :=
  let q := p + s.length
  let r := q % 327680
  let down := 80 * ((r - 1921) / 80)
  (1921 ≤ r ∧ r ≤ 32767) ∧
  ∀ c < 2000,
    (if c + down < 2000 then storedChr v p s (c + down) else 32) =
      (if c + down < r ∧ c % 80 ≠ 0 then s.getD (c + down + (q - r) - p) 0 else 32) ∧
    (if c = 0 then storedAttr v p s fg bg 0
      else if c + down < 2000 then storedAttr v p s fg bg (c + down)
      else colorByte bg bg) =
      if c = 0 then (if p = 0 then colorByte fg bg else v.fb.attr 0)
      else if c + down < r ∧ c % 80 ≠ 0 then colorByte fg bg
      else colorByte bg bg

/-- When bulk and character-by-character printing agree from cell `p`: the string ends at most
one cell beyond the screen; or the cursor does not wrap, the two colours have the same low four
bits and the characters that come up with the scrolls are spaces; or the cursor wraps and
`WrappedAgrees`. -/
def BulkAgrees (v : Vga) (p : Nat) (s : List UInt8) (fg bg : UInt8) : Prop :=
  let q := p + s.length
  q ≤ 2001 ∨
  (q ≤ 32767 ∧ fg &&& 0x0F = bg &&& 0x0F ∧
    ∀ t, 2000 ≤ t → 80 * ((q - 1921) / 80) ≤ t → t < q → t % 80 ≠ 0 → s.getD (t - p) 0 = 32) ∨
  (32768 ≤ q ∧ WrappedAgrees v p s fg bg)

/-- The least number that is at least 32768 and at most 32767 modulo 327680, past 1920, is 329601. -/
theorem WrappedAgrees.far {v : Vga} {p : Nat} {s : List UInt8} {fg bg : UInt8} (h : WrappedAgrees v p s fg bg)
    (hq : 32768 ≤ p + s.length) : 329601 ≤ p + s.length := by
  obtain ⟨⟨hlow, hhigh⟩, -⟩ := h
  omega

/-- A string that ends before cell 329601 agrees in one of the first two ways. -/
theorem bulkAgrees_near_iff {v : Vga} {p : Nat} {s : List UInt8} {fg bg : UInt8} (hq : p + s.length ≤ 329600) :
    BulkAgrees v p s fg bg ↔ p + s.length ≤ 2001 ∨
      (p + s.length ≤ 32767 ∧ fg &&& 0x0F = bg &&& 0x0F ∧
        ∀ t, 2000 ≤ t → 80 * ((p + s.length - 1921) / 80) ≤ t → t < p + s.length → t % 80 ≠ 0 →
          s.getD (t - p) 0 = 32) := by
  refine or_congr_right (or_iff_left ?_)
  rintro ⟨hlong, hagrees⟩
  have hfar := hagrees.far hlong
  omega

/-- A cursor comes to rest on column `col` after cell 1921 exactly when it is there already, or
rows below. -/
theorem settle_last_row_iff (x : Int) {col : Int} (h0 : 0 ≤ col) (h80 : col < 80) :
    settle x = 1921 + col ↔ 1921 ≤ x ∧ (x - 1921) % 80 = col := by
  unfold settle scrollCount
  split
  · omega
  · omega

/-- When a cursor that wraps comes to rest on the cell the character-by-character cursor reaches:
65536 cells are 819 rows and a fifth, so only every fifth wrap keeps the column. -/
theorem settle_wrapped_iff {q : Nat} (hq : 32768 ≤ q) :
    settle (wrapShort q) = q - (80 * ((q - 1921) / 80) : Nat) ↔ 1921 ≤ q % 327680 ∧ q % 327680 ≤ 32767 := by
  have htop : (q : Int) - (80 * ((q - 1921) / 80) : Nat) = 1921 + (q - 1921) % 80 := by omega
  rw [htop, settle_last_row_iff _ (by omega) (by omega)]
  constructor
  · rintro ⟨hlow, hcol⟩
    obtain ⟨j, hj, hhigh⟩ : ∃ j : Int, wrapShort q = q - 65536 * j ∧ wrapShort q ≤ 32767 := by
      refine ⟨(q + 2 ^ 15) / 2 ^ 16, ?_, ?_⟩ <;> unfold wrapShort <;> omega
    obtain ⟨i, rfl⟩ : (5 : Int) ∣ j := by omega
    have hq' : (q : Int) = wrapShort q + 327680 * i := by omega
    omega
  · rintro ⟨h1, h2⟩
    have hw : wrapShort q = (q % 327680 : Nat) := by unfold wrapShort; omega
    rw [hw]
    omega

/-- From cell 2000 on the tape holds the text that is not lost and the fill. -/
theorem tape_far {α : Type} (old : Nat → α) (fill : α) (p : Nat) (xs : List α) {t : Nat} (hp : p ≤ t) (ht : 2000 ≤ t) :
    tape old fill p xs t = if t < p + xs.length ∧ t % 80 ≠ 0 then xs.getD (t - p) fill else fill := by
  by_cases hin : t < p + xs.length ∧ t % 80 ≠ 0
  · rw [tape_inside _ _ _ _ hp hin.1 (by omega), if_pos hin]
  · rw [tape_outside _ _ _ _ (by omega), if_neg hin, if_neg (by omega)]

theorem getD_default {α : Type} (xs : List α) {i : Nat} (a b : α) (h : i < xs.length) : xs.getD i a = xs.getD i b := by
  simp [List.getD_eq_getElem?_getD, List.getElem?_eq_getElem h]

theorem getD_map_const {α β : Type} (xs : List α) (b d : β) {i : Nat} (h : i < xs.length) :
    (xs.map fun _ => b).getD i d = b := by
  rw [List.getD_eq_getElem?_getD, List.getElem?_map, List.getElem?_eq_getElem h]
  rfl

/-- A screen that holds the tape above and the fill below is the tape, where the text beyond the
screen is the fill itself. -/
theorem shown_eq_tape {α : Type} {old stored : Nat → α} {fill : α} {p : Nat} {xs : List α} {t : Nat}
    (hstored : t < 2000 → stored t = tape old fill p xs t)
    (hfill : 2000 ≤ t → p ≤ t → t < p + xs.length → t % 80 ≠ 0 → xs.getD (t - p) fill = fill) :
    (if t < 2000 then stored t else fill) = tape old fill p xs t := by
  split
  · rename_i hin; exact hstored hin
  · by_cases hp : p ≤ t
    · rw [tape_far _ _ _ _ hp (by omega)]
      split
      · rename_i hin; exact (hfill (by omega) hp hin.1 hin.2).symm
      · rfl
    · rw [tape_outside _ _ _ _ (.inl fun h => hp h.1), if_neg (by omega)]

section
variable {v : Vga} {p : Nat} (s : List UInt8) (fg bg : UInt8)

/-- While byte indices do not wrap, the stored text is the tape on the screen. -/
theorem storedChr_tape (hq : p + s.length ≤ 32767) {u : Nat} (hu : u < 2000) :
    storedChr v p s u = tape v.fb.chr 32 p s u := by
  unfold storedChr
  by_cases hin : p ≤ u ∧ u < p + s.length
  · have hlast : lastOn p s.length u = u := by unfold lastOn; omega
    rw [hlast, if_pos ⟨hin.2, hin.1⟩, tape_inside _ _ _ _ hin.1 hin.2 (by omega)]
    exact getD_default s 0 32 (by omega)
  · rw [if_neg (by unfold lastOn; omega), tape_outside _ _ _ _ (.inl hin), if_pos hu]

theorem storedAttr_tape (hq : p + s.length ≤ 32767) {u : Nat} (hu : u < 2000) :
    storedAttr v p s fg bg u = tape v.fb.attr (colorByte bg bg) p (s.map fun _ => colorByte fg bg) u := by
  unfold storedAttr
  by_cases hin : p ≤ u ∧ u < p + s.length
  · have hlast : lastOn p s.length u = u := by unfold lastOn; omega
    rw [hlast, if_pos ⟨hin.2, hin.1⟩, tape_inside _ _ _ _ hin.1 (by simpa using hin.2) (by omega)]
    exact (getD_map_const s _ _ (by omega)).symm
  · rw [if_neg (by unfold lastOn; omega), tape_outside _ _ _ _ (.inl (by simpa using hin)), if_pos hu]

theorem storedAttr_zero (hq : p + s.length ≤ 32767) : storedAttr v p s fg bg 0 =
    if p = 0 ∧ s ≠ [] then colorByte fg bg else v.fb.attr 0 := by
  unfold storedAttr
  refine if_congr ?_ rfl rfl
  rw [← List.length_pos_iff]
  unfold lastOn
  omega

/-- While the cursor does not wrap, the paths differ at most in what came up from beyond the
screen. -/
theorem cells_agree_iff (hq : p + s.length ≤ 32767) :
    (∀ c < 2000, bulkChr v p s c = tape v.fb.chr 32 p s (c + topOf (p + s.length)) ∧
      bulkAttr v p s fg bg c =
        if c = 0 then (if p = 0 ∧ s ≠ [] then colorByte fg bg else v.fb.attr 0)
        else tape v.fb.attr (colorByte bg bg) p (s.map fun _ => colorByte fg bg) (c + topOf (p + s.length))) ↔
    ∀ t, 2000 ≤ t → topOf (p + s.length) ≤ t → t < p + s.length → t % 80 ≠ 0 → p ≤ t →
      s.getD (t - p) 0 = 32 ∧ colorByte fg bg = colorByte bg bg := by
  have htop := topOf_eq (p + s.length)
  have hbulk : bulkTop p s = topOf (p + s.length) := by
    have hw : wrapShort (p + s.length : Nat) = (p + s.length : Nat) := by unfold wrapShort; omega
    rw [bulkTop, hw]; rfl
  unfold bulkChr bulkAttr
  rw [hbulk]
  constructor
  · intro h t h2000 htopt hlt hlost hpt
    obtain ⟨hc, ha⟩ := h (t - topOf (p + s.length)) (by omega)
    rw [Nat.sub_add_cancel htopt, if_neg (by omega), tape_far _ _ _ _ hpt h2000, if_pos ⟨hlt, hlost⟩] at hc
    rw [if_neg (by omega), Nat.sub_add_cancel htopt, if_neg (by omega), if_neg (by omega),
      tape_far _ _ _ _ hpt h2000, if_pos ⟨by simpa using hlt, hlost⟩, getD_map_const _ _ _ (by omega)] at ha
    exact ⟨(getD_default s 0 32 (by omega)).trans hc.symm, ha.symm⟩
  · intro h c hc
    constructor
    · refine shown_eq_tape (storedChr_tape s hq) fun h2000 hp hlt hlost => ?_
      have hspace := (h _ h2000 (by omega) hlt hlost hp).1
      exact (getD_default s 32 0 (by omega)).trans hspace
    · cases c with
      | zero => exact storedAttr_zero s fg bg hq
      | succ c =>
        rw [if_neg (Nat.succ_ne_zero c), if_neg (Nat.succ_ne_zero c)]
        refine shown_eq_tape (storedAttr_tape s fg bg hq) fun h2000 hp hlt hlost => ?_
        rw [List.length_map] at hlt
        rw [getD_map_const _ _ _ (by omega)]
        exact (h _ h2000 (by omega) hlt hlost hp).2

variable (hp : p ≤ 1999) (hv : v.cursorPos.toInt = p)
include hp hv

theorem sameScreen_short (hq : p + s.length ≤ 32767) :
    SameScreen (fbPrintLstr s s.length fg bg v) (printCells s fg bg v) ↔ BulkAgrees v p s fg bg := by
  have htop := topOf_eq (p + s.length)
  have hw : wrapShort (p + s.length : Nat) = (p + s.length : Nat) := by unfold wrapShort; omega
  have hsettle : settle (p + s.length : Nat) = (p + s.length : Nat) - (topOf (p + s.length) : Nat) := by
    rw [settle, if_neg (by omega)]
    unfold topOf; push_cast; rfl
  rw [sameScreen_iff hp hv, hw, and_iff_right hsettle, cells_agree_iff s fg bg hq, htop]
  constructor
  · intro h
    by_cases hshort : p + s.length ≤ 2001
    · exact .inl hshort
    · -- some character that is not lost has come up: the last one or the one before it
      obtain ⟨t, h1, h2, h3, h4⟩ : ∃ t, 2000 ≤ t ∧ 80 * ((p + s.length - 1921) / 80) ≤ t ∧
        t < p + s.length ∧ t % 80 ≠ 0 := by
        by_cases hlast : (p + s.length - 1) % 80 = 0
        · exact ⟨p + s.length - 2, by omega, by omega, by omega, by omega⟩
        · exact ⟨p + s.length - 1, by omega, by omega, by omega, hlast⟩
      refine .inr (.inl ⟨hq, (colorByte_eq_iff fg bg).1 (h t h1 h2 h3 h4 (by omega)).2, ?_⟩)
      intro t h1 h2 h3 h4
      exact (h t h1 h2 h3 h4 (by omega)).1
  · rintro (hshort | ⟨-, hcolor, htext⟩ | ⟨hlong, -⟩) t h1 h2 h3 h4 hpt
    · omega
    · exact ⟨htext t h1 h2 h3 h4, (colorByte_eq_iff fg bg).2 hcolor⟩
    · omega

theorem sameScreen_wrapped (hq : 32768 ≤ p + s.length) :
    SameScreen (fbPrintLstr s s.length fg bg v) (printCells s fg bg v) ↔ BulkAgrees v p s fg bg := by
  have hs : s ≠ [] := by rintro rfl; simp at hq; omega
  have hagrees : BulkAgrees v p s fg bg ↔ WrappedAgrees v p s fg bg := by
    constructor
    · rintro (h | ⟨h, -⟩ | ⟨-, h⟩)
      · omega
      · omega
      · exact h
    · exact fun h => .inr (.inr ⟨hq, h⟩)
  rw [sameScreen_iff hp hv, hagrees, topOf_eq, settle_wrapped_iff hq]
  refine and_congr_right fun hr => forall₂_congr fun c hc => ?_
  generalize hr' : (p + s.length) % 327680 = r at hr ⊢
  have hbulk : bulkTop p s = 80 * ((r - 1921) / 80) := by
    have hw : wrapShort (p + s.length : Nat) = r := by unfold wrapShort; omega
    rw [bulkTop, hw]; unfold scrollCount; omega
  have htop : c + 80 * ((p + s.length - 1921) / 80) = c + 80 * ((r - 1921) / 80) + (p + s.length - r) := by omega
  unfold bulkChr bulkAttr
  rw [hbulk, htop, tape_far _ _ _ _ (by omega) (by omega), tape_far _ _ _ _ (by omega) (by omega), List.length_map]
  have hin : c + 80 * ((r - 1921) / 80) + (p + s.length - r) < p + s.length ∧
      (c + 80 * ((r - 1921) / 80) + (p + s.length - r)) % 80 ≠ 0 ↔
      c + 80 * ((r - 1921) / 80) < r ∧ c % 80 ≠ 0 := by omega
  simp only [hin, hs, ne_eq, not_false_eq_true, and_true]
  refine and_congr (Eq.congr_right ?_) (Eq.congr_right ?_)
  · split
    · exact getD_default s 32 0 (by omega)
    · rfl
  · split
    · rfl
    · split
      · exact getD_map_const _ _ _ (by omega)
      · rfl

end

/-- Bulk printing of a string without NUL, from any cell of the screen and with both functions,
leaves the cursor and the screen of printing it character by character exactly when
`BulkAgrees`. -/
theorem bulk_print_agrees_iff (v : Vga) (s : List UInt8) (fg bg : UInt8) (h0 : 0 ≤ v.cursorPos.toInt)
    (h1 : v.cursorPos.toInt ≤ 1999) (hs : 0 ∉ s) :
    (SameScreen (fbPrintStr s fg bg v) (printCells s fg bg v) ∧
      SameScreen (fbPrintLstr s (strlen s) fg bg v) (printCells s fg bg v)) ↔
    BulkAgrees v v.cursorPos.toInt.toNat s fg bg := by
  have hp : v.cursorPos.toInt.toNat ≤ 1999 := by omega
  have hv : v.cursorPos.toInt = v.cursorPos.toInt.toNat := by omega
  rw [fbPrintStr_eq s hs, strlen_of_notMem hs, and_self_iff]
  by_cases hq : v.cursorPos.toInt.toNat + s.length ≤ 32767
  · exact sameScreen_short s fg bg hp hv hq
  · exact sameScreen_wrapped s fg bg hp hv (by omega)

/-- A blank screen with the cursor on its last cell. -/
def atLastCell : Vga := fbMoveCursor 1999 (cleared 0 15 Vga.powerOn)

/-- Two letters from the last cell on end at cursor 1921 on both paths. -/
theorem bulk_print_agrees_two_letters :
    SameScreen (fbPrintStr [65, 66] 0 15 atLastCell) (printCells [65, 66] 0 15 atLastCell) :=
  ((bulk_print_agrees_iff atLastCell [65, 66] 0 15 (by decide) (by decide) (by decide)).2 (.inl (by decide))).1

/-- Three letters from the last cell on: in bulk the third one is not on the screen. -/
theorem bulk_print_loses_letter :
    ¬ SameScreen (fbPrintStr [65, 66, 67] 0 15 atLastCell) (printCells [65, 66, 67] 0 15 atLastCell) := by
  rw [fbPrintStr_eq [65, 66, 67] (by decide)]
  intro h
  rcases (sameScreen_short [65, 66, 67] 0 15 (p := 1999) (by decide) rfl (by decide)).1 h with
    hq | ⟨-, hcolor, -⟩ | ⟨hq, -⟩
  · exact absurd hq (by decide)
  · exact absurd hcolor (by decide)
  · exact absurd hq (by decide)

end HavenOS
