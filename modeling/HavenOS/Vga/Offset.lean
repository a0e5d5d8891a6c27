/-
fb_offset_cursor against what it is asked for: exactly where the cursor ends and how far the screen
scrolls when the offset fits in 16 bits, and from which offsets on the column is lost.
-/
import HavenOS.Lib.Fuel
import HavenOS.Vga.Cursor

namespace HavenOS

/-! ## The loops end -/

/-- The state after the two loops that count the offset. -/
def offsetMoved (offset : Int) (v : Vga) : Vga :=
  { v with cursorPos :=
    if offset > 0 then (· + 1)^[offset.toNat] v.cursorPos else (· - 1)^[(-offset).toNat] v.cursorPos }

/-- `fb_offset_cursor` with at most `rounds` rounds of each of the loops that follow. -/
def offsetWithin (rounds : Nat) (offset : Int) (v : Vga) : Vga :=
  outCursor (shiftLoop rounds (scrollLoop rounds (offsetMoved offset v)))

theorem offsetWithin_eq (offset : Int) (v : Vga) : offsetWithin 410 offset v = fbOffsetCursor offset v := rfl

/-- `rounds` rounds are enough for the conditions of both loops to fail. -/
structure OffsetEnds (rounds : Nat) (offset : Int) (v : Vga) : Prop where
  scrolled : ¬ (scrollLoop rounds (offsetMoved offset v)).cursorPos.toInt > fbNumColumns * fbNumRows
  shifted : ¬ (shiftLoop rounds (scrollLoop rounds (offsetMoved offset v))).cursorPos.toInt < 0

theorem scrollLoop_eq_upTo : ∀ (n : Nat) (v : Vga), scrollLoop n v =
    Loop.upTo (fun v : Vga => v.cursorPos.toInt > (fbNumColumns * fbNumRows : Int))
      (fun v => { v with cursorPos := v.cursorPos - 80, fb := fbScroll v.fb }) n v
  | 0, _ => rfl
  | n + 1, v => by rw [scrollLoop, Loop.upTo, scrollLoop_eq_upTo n]

theorem shiftLoop_eq_upTo : ∀ (n : Nat) (v : Vga), shiftLoop n v =
    Loop.upTo (fun v : Vga => v.cursorPos.toInt < 0)
      (fun v => { v with cursorPos := v.cursorPos + 80, fb := fbShiftDown fbNumRows v.fb }) n v
  | 0, _ => rfl
  | n + 1, v => by rw [shiftLoop, Loop.upTo, shiftLoop_eq_upTo n]

/-- A loop that has ended stays as it is. -/
theorem scrollLoop_ended {n m : Nat} {v : Vga} (h : n ≤ m)
    (hend : ¬ (scrollLoop n v).cursorPos.toInt > fbNumColumns * fbNumRows) : scrollLoop m v = scrollLoop n v := by
  rw [scrollLoop_eq_upTo] at hend
  rw [scrollLoop_eq_upTo, scrollLoop_eq_upTo]
  exact Loop.upTo_ended _ _ h hend

theorem shiftLoop_ended {n m : Nat} {v : Vga} (h : n ≤ m) (hend : ¬ (shiftLoop n v).cursorPos.toInt < 0) :
    shiftLoop m v = shiftLoop n v := by
  rw [shiftLoop_eq_upTo] at hend
  rw [shiftLoop_eq_upTo, shiftLoop_eq_upTo]
  exact Loop.upTo_ended _ _ h hend

theorem offsetMoved_cursor (offset : Int) (v : Vga) : (offsetMoved offset v).cursorPos.toInt = offsetTarget offset v :=
  toInt_offset offset v

theorem offset_ends (offset : Int) (v : Vga) : OffsetEnds 410 offset v := by
  have ht := offsetTarget_bounds offset v
  have hmoved := offsetMoved_cursor offset v
  obtain ⟨c1, -⟩ := scrollLoop_spec 410 (offsetMoved offset v) (by rw [hmoved]; omega)
  obtain ⟨c2, -⟩ := shiftLoop_spec 410 (scrollLoop 410 (offsetMoved offset v))
    (by rw [c1, hmoved]; unfold scrollCount; omega)
  constructor
  · simp only [fbNumColumns_eq, fbNumRows_eq, c1, hmoved, scrollCount]
    omega
  · rw [c2]
    split <;> omega

/-- So more rounds change nothing. -/
theorem offsetWithin_of_le {rounds : Nat} (h : 410 ≤ rounds) (offset : Int) (v : Vga) :
    OffsetEnds rounds offset v ∧ offsetWithin rounds offset v = fbOffsetCursor offset v := by
  obtain ⟨hscrolled, hshifted⟩ := offset_ends offset v
  have hscroll := scrollLoop_ended h hscrolled
  have hshift := shiftLoop_ended h hshifted
  rw [← hscroll] at hshift hshifted hscrolled
  refine ⟨⟨hscrolled, by rw [hshift]; exact hshifted⟩, ?_⟩
  rw [← offsetWithin_eq, offsetWithin, offsetWithin, hshift, hscroll]

/-! ## The exact effect -/

theorem offsetTarget_fits {offset : Int} {v : Vga} (h1 : -32768 ≤ v.cursorPos.toInt + offset)
    (h2 : v.cursorPos.toInt + offset ≤ 32767) : offsetTarget offset v = v.cursorPos.toInt + offset := by
  unfold offsetTarget wrapShort; omega

/-- From beyond the screen the cursor comes back to the last row. -/
theorem settle_below_iff {x : Int} (h : 2000 < x) (c : Int) :
    settle x = c ↔ 1921 ≤ c ∧ c ≤ 2000 ∧ c % 80 = x % 80 := by
  rw [settle, if_neg (by omega), scrollCount]
  omega

/-- From above the screen it comes back to the first row. -/
theorem settle_above_iff {x : Int} (h : x < 0) (c : Int) : settle x = c ↔ 0 ≤ c ∧ c ≤ 79 ∧ c % 80 = x % 80 := by
  rw [settle, if_pos h]
  omega

/-- The rows to scroll, rounded up. -/
theorem scrollCount_eq (x : Int) : scrollCount x = ((x - 2000 + 79) / 80).toNat := by
  unfold scrollCount
  congr 2
  omega

/-- The call ends. On the screen the cursor just moves; beyond it the screen scrolls by as many rows
as the cursor needs to come back, and above it the cursor comes back on its own. -/
theorem offsetCursor_exact (offset : Int) (v : Vga) (h1 : -32768 ≤ v.cursorPos.toInt + offset)
    (h2 : v.cursorPos.toInt + offset ≤ 32767) : let q := v.cursorPos.toInt + offset
    let v' := fbOffsetCursor offset v
    (∀ rounds ≥ 410, OffsetEnds rounds offset v ∧ offsetWithin rounds offset v = v') ∧
    (0 ≤ q ∧ q ≤ 2000 → v'.cursorPos.toInt = q ∧ v'.fb = v.fb) ∧
    (2000 < q → (∀ c, v'.cursorPos.toInt = c ↔ 1921 ≤ c ∧ c ≤ 2000 ∧ c % 80 = q % 80) ∧
      v'.fb = fbScroll^[((q - 2000 + 79) / 80).toNat] v.fb) ∧
    (q < 0 → (∀ c, v'.cursorPos.toInt = c ↔ 0 ≤ c ∧ c ≤ 79 ∧ c % 80 = q % 80) ∧ v'.fb = v.fb) ∧
    ∀ fb, fbShiftDown fbNumRows fb = fb := by
  obtain ⟨hcursor, hfb⟩ := fbOffsetCursor_spec offset v
  rw [offsetTarget_fits h1 h2] at hcursor hfb
  intro q v'
  refine ⟨fun rounds h => offsetWithin_of_le h offset v, ?_, ?_, ?_, fbShiftDown_last⟩
  · rintro ⟨hlow, hhigh⟩
    exact ⟨hcursor.trans (settle_screen hlow hhigh), by rw [hfb, scrollCount_screen hhigh]; rfl⟩
  · intro hbelow
    refine ⟨fun c => ?_, hfb.trans ?_⟩
    · rw [hcursor]
      exact settle_below_iff hbelow c
    · rw [scrollCount_eq]
  · intro habove
    refine ⟨fun c => ?_, by rw [hfb, scrollCount_screen (x := q) (by omega)]; rfl⟩
    rw [hcursor]
    exact settle_above_iff habove c

/-- From cell 0, 2500 cells on and 100 cells back. -/
theorem offsetCursor_exact_both : (fbOffsetCursor 2500 .powerOn).cursorPos.toInt = 1940 ∧
    (fbOffsetCursor 2500 .powerOn).fb = fbScroll^[7] Vga.powerOn.fb ∧
    (fbOffsetCursor (-100) .powerOn).cursorPos.toInt = 60 := by
  obtain ⟨-, -, hbelow, -, -⟩ := offsetCursor_exact 2500 .powerOn (by decide) (by decide)
  obtain ⟨-, -, -, habove, -⟩ := offsetCursor_exact (-100) .powerOn (by decide) (by decide)
  exact ⟨((hbelow (by decide)).1 1940).2 (by decide), (hbelow (by decide)).2, ((habove (by decide)).1 60).2 (by decide)⟩

/-! ## Sixteen bits -/

/-- The column of the cursor is the one `offset` cells on. -/
def ColumnKept (offset : Int) (v : Vga) : Prop :=
  (fbOffsetCursor offset v).cursorPos.toInt % 80 = (v.cursorPos.toInt + offset) % 80

def FitsShort (x : Int) : Prop := -32768 ≤ x ∧ x ≤ 32767

/-- Every value assigned to `cursor_pos`, in the loop that counts the offset and in the two that
bring the cursor back, fits in it. -/
structure NoStoreTruncated (offset : Int) (v : Vga) : Prop where
  forwards : ∀ i < offset.toNat, FitsShort (((· + 1)^[i] v.cursorPos).toInt + 1)
  backwards : ∀ i < (-offset).toNat, FitsShort (((· - 1)^[i] v.cursorPos).toInt - 1)
  scrolled : ∀ i, let c := (scrollLoop i (offsetMoved offset v)).cursorPos.toInt
    c > fbNumColumns * fbNumRows → FitsShort (c - 80)
  shifted : ∀ i, let c := (shiftLoop i (scrollLoop 410 (offsetMoved offset v))).cursorPos.toInt
    c < 0 → FitsShort (c + 80)

theorem columnKept_iff (offset : Int) (v : Vga) :
    ColumnKept offset v ↔ ((v.cursorPos.toInt + offset + 32768) / 65536) % 5 = 0 := by
  -- every wrap moves the column by 65536, which is 16 modulo 80
  unfold ColumnKept
  rw [fbOffsetCursor_cursor]
  unfold offsetTarget wrapShort settle scrollCount
  split <;> omega

/-- Counting up never wraps if the last value fits; else the first that does not is reached by steps
that do. -/
theorem forwards_fit_iff (c : Int16) (n : Nat) :
    (∀ i < n, FitsShort (((· + 1)^[i] c).toInt + 1)) ↔ c.toInt + n ≤ 32767 := by
  have hb := short_bounds c
  simp only [toInt_iterate_add]
  unfold FitsShort wrapShort
  constructor
  · intro hsteps
    by_contra hout
    have hstep := hsteps (32767 - c.toInt).toNat (by omega)
    omega
  · intro hlast i hi
    omega

theorem backwards_fit_iff (c : Int16) (n : Nat) :
    (∀ i < n, FitsShort (((· - 1)^[i] c).toInt - 1)) ↔ -32768 ≤ c.toInt - n := by
  have hb := short_bounds c
  simp only [toInt_iterate_sub]
  unfold FitsShort wrapShort
  constructor
  · intro hsteps
    by_contra hout
    have hstep := hsteps (c.toInt + 32768).toNat (by omega)
    omega
  · intro hlast i hi
    omega

theorem noStoreTruncated_iff (offset : Int) (v : Vga) :
    NoStoreTruncated offset v ↔ FitsShort (v.cursorPos.toInt + offset) := by
  have hb := short_bounds v.cursorPos
  constructor
  · rintro ⟨hforwards, hbackwards, -, -⟩
    rw [forwards_fit_iff] at hforwards
    rw [backwards_fit_iff] at hbackwards
    unfold FitsShort
    omega
  · rintro ⟨hlow, hhigh⟩
    constructor
    · rw [forwards_fit_iff]
      omega
    · rw [backwards_fit_iff]
      omega
    -- the corrections go towards the screen
    · intro i c hc
      have := short_bounds (scrollLoop i (offsetMoved offset v)).cursorPos
      simp only [fbNumColumns_eq, fbNumRows_eq] at hc
      unfold FitsShort
      omega
    · intro i c hc
      have := short_bounds (shiftLoop i (scrollLoop 410 (offsetMoved offset v))).cursorPos
      unfold FitsShort
      omega

/-- Nothing is lost as long as the cursor and the offset add up to a 16-bit value; the column alone
also survives every fifth wrap. -/
theorem offsetCursor_lossless_iff (offset : Int) (v : Vga) :
    (ColumnKept offset v ∧ NoStoreTruncated offset v ↔ FitsShort (v.cursorPos.toInt + offset)) ∧
    (ColumnKept offset v ↔ ((v.cursorPos.toInt + offset + 32768) / 65536) % 5 = 0) := by
  refine ⟨?_, columnKept_iff offset v⟩
  rw [noStoreTruncated_iff, columnKept_iff]
  unfold FitsShort
  omega

/-- From cell 0, 40000 cells on: column 64 where column 0 is expected. -/
theorem offsetCursor_loses_column : ¬ ColumnKept 40000 .powerOn ∧ ¬ NoStoreTruncated 40000 .powerOn := by
  rw [columnKept_iff, noStoreTruncated_iff, show Vga.powerOn.cursorPos.toInt = 0 by rfl]
  unfold FitsShort
  omega

end HavenOS
