/-
The console under the keyboard: from the screen `kmain` leaves, when the cursor stays on one of the
2000 cells and every store inside them, over whole runs of scancode bytes. Enter never keeps to
that, and six other actions leave the screen from particular cells.
-/
import HavenOS.Keyboard.Action
import HavenOS.Vga.Inside

namespace HavenOS

/-- The cursor is on a cell of the screen and every store so far was to the screen. -/
structure OnScreen (v : Vga) : Prop where
  low : 0 ≤ v.cursorPos.toInt
  high : v.cursorPos.toInt ≤ 1999
  stores : v.fb.OnScreen

/-- The actions that keep to the screen with the cursor on cell `p`. -/
def StaysOnScreen (a : KeyAction) (p : Int) : Prop :=
  match a with
  | .print _ | .right => p ≠ 1999
  | .return => False
  | .tab => p ≤ 1995
  | .down => p ≠ 1920
  | .escape => p ≤ 1969 ∧ p ≠ 1890
  | .nothing | .shift _ | .ctrl | .alt | .backspace | .delete | .left | .up => True

/-! ## The cursor -/

theorem offsetCursor_at {v : Vga} {p : Nat} (hp : p ≤ 2000) (hv : v.cursorPos.toInt = p) (offset : Int)
    (h0 : -80 ≤ offset) (h1 : offset ≤ 80) : (fbOffsetCursor offset v).cursorPos.toInt = settle (p + offset) := by
  have htarget : offsetTarget offset v = p + offset := by
    simp only [offsetTarget, hv, wrapShort]; omega
  rw [fbOffsetCursor_cursor, htarget]

theorem currentRow_at {v : Vga} {p : Nat} (hv : v.cursorPos.toInt = p) : fbGetCurrentRow v = (p / 80 : Nat) := by
  rw [fbGetCurrentRow, fbGetRow, hv]; rfl

theorem startOfRow_at {v : Vga} {p : Nat} (hp : p ≤ 2000) (hv : v.cursorPos.toInt = p) :
    (fbMoveCursorToStartOfRow v).cursorPos.toInt = (80 * (p / 80) : Nat) := by
  have hrow : (UInt16.ofInt (fbGetCurrentRow v)).toNat = p / 80 := by
    rw [currentRow_at hv, UInt16.ofInt, UInt16.toNat_ofNat']
    omega
  have hindex : (fbRowColumnToIndex 0 (p / 80)).toNat = 80 * (p / 80) := fbRowColumnToIndex_row _ (by omega)
  have hcursor : (fbMoveCursorToStartOfRow v).cursorPos = (fbRowColumnToIndex 0 (p / 80)).toInt16 := by
    rw [← hrow]; rfl
  rw [hcursor, toInt_toInt16 (by omega), hindex]

theorem startOfRow_fb (v : Vga) : (fbMoveCursorToStartOfRow v).fb = v.fb := rfl

/-! ## The actions -/

section
variable {v : Vga} {p : Nat} (hp : p ≤ 1999) (hv : v.cursorPos.toInt = p) (h : v.fb.OnScreen)
include hp hv h

theorem offset_onScreen_iff (offset : Int) (h0 : -80 ≤ offset) (h1 : offset ≤ 80) :
    OnScreen (fbOffsetCursor offset v) ↔ p + offset ≠ 2000 := by
  have hcur := offsetCursor_at (by omega) hv offset h0 h1
  have hfb := (onScreen_offsetCursor offset v).2 h
  constructor
  · rintro ⟨-, hhigh, -⟩ hlast
    rw [hcur, hlast, settle_screen (by decide) (by decide)] at hhigh
    omega
  · intro hne
    have hsettle : 0 ≤ settle (p + offset) ∧ settle (p + offset) ≤ 1999 := by
      unfold settle scrollCount
      split <;> omega
    exact ⟨by rw [hcur]; exact hsettle.1, by rw [hcur]; exact hsettle.2, hfb⟩

theorem print_onScreen_iff (c : UInt8) : OnScreen (fbPrintCell c 0 15 v) ↔ p ≠ 1999 := by
  have hcur := printCell_cursor (by omega) hv c 0 15
  rw [settle_screen (by omega) (by omega)] at hcur
  have hfb := (onScreen_printCell (by omega) hv c 0 15).2 ⟨by omega, h⟩
  constructor
  · rintro ⟨-, hhigh, -⟩; omega
  · exact fun hne => ⟨by omega, by omega, hfb⟩

/-- One cell back: from the first cell to the end of its row. -/
theorem back_cell : ∃ q : Nat, q ≤ 1998 ∧ (fbOffsetCursor (-1) v).cursorPos.toInt = q ∧
    (fbOffsetCursor (-1) v).fb.OnScreen := by
  have hcur := offsetCursor_at (by omega) hv (-1) (by decide) (by decide)
  refine ⟨if p = 0 then 79 else p - 1, by split <;> omega, ?_, (onScreen_offsetCursor (-1) v).2 h⟩
  rw [hcur]
  unfold settle scrollCount
  split <;> split <;> omega

theorem delete_onScreen : OnScreen (onDelete v) := by
  obtain ⟨q, hq, hcur, hfb⟩ := back_cell hp hv h
  exact (print_onScreen_iff (by omega) hcur hfb 32).2 (by omega)

theorem backspace_onScreen : OnScreen (onBackspace v) := by
  obtain ⟨q, hq, hcur, hfb⟩ := back_cell hp hv h
  obtain ⟨hlow, hhigh, hfb'⟩ := (print_onScreen_iff (by omega) hcur hfb 32).2 (by omega)
  obtain ⟨r, hr⟩ := Int.eq_ofNat_of_zero_le hlow
  exact (offset_onScreen_iff (by omega) hr hfb' (-1) (by decide) (by decide)).2 (by omega)

theorem tab_onScreen_iff : OnScreen (onTab v) ↔ p ≤ 1995 := by
  have hnul : 0 ∉ ascii "    " := by decide
  have hfb := onScreen_printStr (by omega) hv (ascii "    ") hnul (by decide) 0 15
  have hcur := printStr_cursor (by omega) hv (ascii "    ") hnul (by decide) 0 15
  have hlen : (ascii "    ").length = 4 := rfl
  rw [hlen] at hfb hcur
  constructor
  · rintro ⟨-, hhigh, hstores⟩
    rcases (hfb.1 hstores).1 with hnil | hfit
    · exact absurd hnil (by decide)
    · rw [onTab, hcur, settle_screen (by omega) (by omega)] at hhigh
      omega
  · intro hfit
    rw [settle_screen (by omega) (by omega)] at hcur
    exact ⟨by rw [onTab, hcur]; omega, by rw [onTab, hcur]; omega, hfb.2 ⟨.inr (by omega), h⟩⟩

omit h in
/-- Enter stores in row 25 unless it comes to rest on cell 2000: either way it leaves the screen. -/
theorem return_not_onScreen : ¬ OnScreen (onReturn v) := by
  rintro ⟨-, hhigh, hstores⟩
  have hcur := offsetCursor_at (by omega) hv fbNumColumns (by decide) (by decide)
  obtain ⟨hlow, hle⟩ := settle_bounds ((p : Int) + fbNumColumns)
  obtain ⟨q, hq⟩ := Int.eq_ofNat_of_zero_le hlow
  rw [hq] at hcur hle
  unfold onReturn at hhigh hstores
  generalize fbOffsetCursor fbNumColumns v = w at hcur hhigh hstores
  -- from row 25 nothing is shifted, but the cursor is put on its start, cell 2000
  by_cases hlast : q = 2000
  · have hstart := startOfRow_at (v := { w with fb := fbShiftDown (fbGetCurrentRow w) w.fb }) (by omega) hcur
    simp only [hstart, hlast] at hhigh
    omega
  · simp only [startOfRow_fb, currentRow_at hcur] at hstores
    exact not_onScreen_shiftDown _ (by omega) (by omega) hstores

omit h in
/-- Of the message of a switch, the text has 23 characters. -/
theorem loadingText_printed : let w := printCells (ascii "Loading Page Directory ") 0 15 v
    (w.fb.OnScreen ↔ p + 23 ≤ 2000 ∧ v.fb.OnScreen) ∧ (p + 23 ≤ 2000 → w.cursorPos.toInt = (p + 23 : Nat)) := by
  have hlen : (ascii "Loading Page Directory ").length = 23 := by decide
  have hprinted := printCells_onScreen 0 15 (ascii "Loading Page Directory ") v p (by omega) hv
  rw [hlen] at hprinted
  exact hprinted

/-- The message has 31 characters, and what follows it only moves the cursor. -/
theorem switchConsole_stores_iff (pd : UInt32) : (switchConsole pd v).fb.OnScreen ↔ p + 31 ≤ 2000 := by
  obtain ⟨htext, hcur⟩ := loadingText_printed hp hv
  rw [switchConsole, startOfRow_fb, onScreen_offsetCursor]
  generalize printCells (ascii "Loading Page Directory ") 0 15 v = w at htext hcur ⊢
  have hdigits : 0 ∉ hexText pd.toInt32 := notMem_cstr _
  constructor
  · intro hstores
    have hfit := (htext.1 (onScreen_printStr_of _ _ _ _ hstores)).1
    rcases ((onScreen_printStr hfit (hcur hfit) _ hdigits (by simp) 0 15).1 hstores).1 with hnil | hend
    · rw [← List.length_eq_zero_iff, hexText_length] at hnil
      exact absurd hnil (by decide)
    · rw [hexText_length] at hend
      omega
  · intro hend
    have hfit : p + 23 ≤ 2000 := by omega
    refine (onScreen_printStr hfit (hcur hfit) _ hdigits (by simp) 0 15).2 ⟨.inr ?_, htext.2 ⟨hfit, h⟩⟩
    rw [hexText_length]
    exact hend

omit h in
/-- After it the cursor goes 79 cells on, a row less where the screen scrolls, and to the start of
the row. -/
theorem switchConsole_cursor (pd : UInt32) (hend : p + 31 ≤ 2000) : (switchConsole pd v).cursorPos.toInt =
    (80 * ((if p + 110 ≤ 2000 then p + 110 else p + 30) / 80) : Nat) := by
  have hcur := (loadingText_printed hp hv).2 (by omega)
  have hnum := printStr_cursor (by omega) hcur (hexText pd.toInt32) (notMem_cstr _) (by simp) 0 15
  rw [hexText_length, settle_screen (by omega) (by omega)] at hnum
  have hdown := offsetCursor_at hend (hnum.trans (by omega)) 79 (by decide) (by decide)
  have hsettle : settle ((p + 31 : Nat) + 79) = (if p + 110 ≤ 2000 then p + 110 else p + 30 : Nat) := by
    unfold settle scrollCount
    split <;> split <;> omega
  exact startOfRow_at (by split <;> omega) (hdown.trans hsettle)

/-- Escape keeps to the screen when its message does and the cursor does not come to cell 2000. -/
theorem escape_onScreen_iff (pd : UInt32) : OnScreen (switchConsole pd v) ↔ p ≤ 1969 ∧ p ≠ 1890 := by
  have hstores := switchConsole_stores_iff hp hv h pd
  constructor
  · rintro ⟨-, hhigh, hon⟩
    have hend := hstores.1 hon
    rw [switchConsole_cursor hp hv pd hend] at hhigh
    split at hhigh <;> omega
  · rintro ⟨hle, hne⟩
    have hcur := switchConsole_cursor hp hv pd (by omega)
    refine ⟨by omega, ?_, hstores.2 (by omega)⟩
    rw [hcur]
    split <;> omega

/-- An action keeps to the screen exactly when `StaysOnScreen`. -/
theorem action_onScreen_iff (a : KeyAction) (pd : UInt32) : OnScreen (a.onScreen pd v) ↔ StaysOnScreen a p := by
  have hv' : OnScreen v := ⟨by omega, by omega, h⟩
  cases a with
  | nothing | ctrl | alt => exact iff_of_true hv' trivial
  | shift held =>
    exact iff_of_true ⟨hv'.low, hv'.high, (onScreen_writeCell _ (by decide) _ _ _).2 ⟨by decide, h⟩⟩ trivial
  | print ch =>
    refine (print_onScreen_iff hp hv h ch).trans ?_
    show p ≠ 1999 ↔ (p : Int) ≠ 1999
    omega
  | backspace => exact iff_of_true (backspace_onScreen hp hv h) trivial
  | «return» => exact iff_of_false (return_not_onScreen hp hv) id
  | tab =>
    refine (tab_onScreen_iff hp hv h).trans ?_
    show p ≤ 1995 ↔ (p : Int) ≤ 1995
    omega
  | delete => exact iff_of_true (delete_onScreen hp hv h) trivial
  | left =>
    exact iff_of_true ((offset_onScreen_iff hp hv h (-1) (by decide) (by decide)).2 (by omega)) trivial
  | right =>
    refine (offset_onScreen_iff hp hv h 1 (by decide) (by decide)).trans ?_
    show (p : Int) + 1 ≠ 2000 ↔ (p : Int) ≠ 1999
    omega
  | up =>
    exact iff_of_true ((offset_onScreen_iff hp hv h (-80) (by decide) (by decide)).2 (by omega)) trivial
  | down =>
    refine (offset_onScreen_iff hp hv h 80 (by decide) (by decide)).trans ?_
    show (p : Int) + 80 ≠ 2000 ↔ (p : Int) ≠ 1920
    omega
  | escape =>
    refine (escape_onScreen_iff hp hv h pd).trans ?_
    show p ≤ 1969 ∧ p ≠ 1890 ↔ (p : Int) ≤ 1969 ∧ (p : Int) ≠ 1890
    omega

end

/-! ## Runs -/

/-- The console as `kmain` leaves it. -/
def prompt (v : Vga) : Vga := fbPrintCell 62 0 15 (fbMoveCursor 3 { v with fb := fbClear 0 15 v.fb })

/-- The kernel as `kmain` leaves it, with the history of the stores starting here. -/
def kmainState (m : Machine) : Kernel :=
  .start { m with vga := { prompt m.vga with fb := (prompt m.vga).fb.forget } }

theorem kmainState_onScreen (m : Machine) : OnScreen (kmainState m).vga := by
  have hcur : (kmainState m).vga.cursorPos.toInt = settle ((3 : Nat) + 1) :=
    printCell_cursor (v := fbMoveCursor 3 { m.vga with fb := fbClear 0 15 m.vga.fb }) (p := 3) (by decide) rfl 62 0 15
  rw [settle_screen (by decide) (by decide)] at hcur
  exact ⟨by rw [hcur]; decide, by rw [hcur]; decide, Store.inside_forget _ _⟩

/-- From the state `kmain` leaves, the console keeps to the screen after every byte exactly when
every byte of the run does an action that stays on the screen from where the cursor is. -/
theorem keyboard_onScreen_iff (m : Machine) (run : List UInt8) :
    (∀ pre, pre <+: run → ∃ s, keyboardRun pre (kmainState m) = some s ∧ OnScreen s.vga) ↔
    ∀ pre data, pre ++ [data] <+: run → ∀ s, keyboardRun pre (kmainState m) = some s →
      StaysOnScreen (keyAction data (s.kbShift ≠ 0)) s.vga.cursorPos.toInt := by
  refine Run.run_prefixes_iff keyboardCallback (P := fun _ s => OnScreen s.vga)
    (kmainState_onScreen m) (fun _ s data => ?_) run
  rintro ⟨hlow, hhigh, hstores⟩
  obtain ⟨p, hp⟩ := Int.eq_ofNat_of_zero_le hlow
  obtain ⟨s', hs', hvga, -⟩ := keyboardCallback_spec data s
  refine ⟨s', hs', ?_⟩
  rw [hvga, hp]
  exact action_onScreen_iff (by omega) hp hstores (keyAction data (s.kbShift ≠ 0)) (s.directories 1)

/-- Enter on the prompt stores beyond the screen. -/
theorem enter_leaves_screen : ¬ ∀ pre, pre <+: [0x1C] →
    ∃ s, keyboardRun pre (kmainState .powerOn) = some s ∧ OnScreen s.vga := by
  intro h
  obtain ⟨s, hs, hon⟩ := h _ (List.prefix_refl _)
  obtain ⟨hlow, hhigh, hstores⟩ := kmainState_onScreen .powerOn
  obtain ⟨p, hp⟩ := Int.eq_ofNat_of_zero_le hlow
  obtain ⟨s2, h2, hvga, -⟩ := keyboardCallback_spec 0x1C (kmainState .powerOn)
  have haction : keyAction 0x1C ((kmainState .powerOn).kbShift ≠ 0) = .return := by decide
  have hrun : keyboardRun [0x1C] (kmainState .powerOn) = some s2 := by
    rw [keyboardRun, Run.run_cons, h2]; rfl
  rw [hrun] at hs
  cases hs
  rw [haction] at hvga
  rw [hvga] at hon
  exact return_not_onScreen (by omega) hp hon

end HavenOS
