/-
Release events: every byte with bit 7 set leaves the kernel alone, but for the shift keys, which
show in cell 1, and for byte 0x80, which `read_scan_code` takes for Tab.
-/
import HavenOS.Keyboard.Action

namespace HavenOS

def isShiftRelease (data : UInt8) : Bool := data = 0xAA || data = 0xB6

/-- What a release may do: nothing is sent to the cursor ports, nothing is stored through `fb` but
the two bytes of cell 1 by a shift key, and CR3 stays. -/
structure Inert (data : UInt8) (s s' : Kernel) : Prop where
  cursor : s'.vga.cursorPos = s.vga.cursorPos
  ports : s'.vga.ports = s.vga.ports
  cells : ∀ i, s'.vga.fb.val i = s.vga.fb.val i ∨ (isShiftRelease data ∧ (i = 2 ∨ i = 3))
  stores : s'.vga.fb.log = (if isShiftRelease data then [3, 2] else []) ++ s.vga.fb.log
  directory : s'.cr3 = s.cr3

/-! ## The cursor of Tab -/

/-- The column a cursor comes back to the screen in is its own. -/
theorem settle_mod (x : Int) : settle x % 80 = x % 80 := by
  unfold settle
  split <;> omega

theorem onTab_cursor (v : Vga) : (onTab v).cursorPos.toInt = settle (wrapShort (v.cursorPos.toInt + 4)) := by
  rw [onTab, fbPrintStr, fbOffsetCursor_cursor]
  rfl

/-- Tab moves every cursor: by four columns, or back by twelve where the 16-bit cursor wraps. -/
theorem onTab_moves (v : Vga) : (onTab v).cursorPos ≠ v.cursorPos := by
  intro h
  have hcol := settle_mod (wrapShort (v.cursorPos.toInt + 4))
  rw [← onTab_cursor, h] at hcol
  have hb := short_bounds v.cursorPos
  unfold wrapShort at hcol
  omega

/-! ## One release -/

theorem run_nothing (s : Kernel) : KeyAction.nothing.run s = some s := rfl
theorem run_tab (s : Kernel) : KeyAction.tab.run s = some (s.onVga onTab) := rfl

/-- The kernel after the release of a shift key. -/
def shiftReleased (s : Kernel) : Kernel :=
  { s with vga := { s.vga with fb := fbWriteCell 1 115 0 15 s.vga.fb }, kbShift := 0 }

theorem run_shift_release (s : Kernel) : (KeyAction.shift false).run s = some (shiftReleased s) := rfl

theorem shiftReleased_inert {data : UInt8} (h : isShiftRelease data = true) (s : Kernel) :
    Inert data s (shiftReleased s) := by
  refine ⟨rfl, rfl, fun i => ?_, by rw [if_pos h]; rfl, rfl⟩
  by_cases hi : i = 2 ∨ i = 3
  · exact .inr ⟨h, hi⟩
  · left
    show (fbWriteCell 1 115 0 15 s.vga.fb).val i = s.vga.fb.val i
    unfold fbWriteCell
    simp only [Store.set_val]
    rw [if_neg (by omega), if_neg (by omega)]

theorem inert_refl {data : UInt8} (h : isShiftRelease data = false) (s : Kernel) : Inert data s s :=
  ⟨rfl, rfl, fun _ => .inl rfl, by rw [h]; rfl, rfl⟩

section
variable {data : UInt8} (hrel : 0x80 ≤ data) (s : Kernel)
include hrel

theorem release_inert (h : data ≠ 0x80) : ∃ s', keyboardCallback data s = some s' ∧ Inert data s s' := by
  rw [keyboardCallback_eq, keyAction_release data _ hrel, if_neg (c := data = 0x80) h]
  by_cases hshift : data = 0xAA ∨ data = 0xB6
  · rw [if_pos hshift]
    exact ⟨_, run_shift_release s, shiftReleased_inert (by simpa [isShiftRelease] using hshift) s⟩
  · rw [if_neg hshift]
    exact ⟨_, run_nothing s, inert_refl (by simpa [isShiftRelease] using hshift) s⟩

/-- A release of another key than shift, and other than byte 0x80, does nothing at all. -/
theorem release_nothing (h : data ≠ 0x80) (hshift : isShiftRelease data = false) :
    keyboardCallback data s = some s := by
  have hno : ¬ (data = 0xAA ∨ data = 0xB6) := by simpa [isShiftRelease] using hshift
  rw [keyboardCallback_eq, keyAction_release data _ hrel, if_neg hno, if_neg h]
  exact run_nothing s

theorem release_inert_iff : (∃ s', keyboardCallback data s = some s' ∧ Inert data s s') ↔ data ≠ 0x80 := by
  refine ⟨?_, release_inert hrel s⟩
  rintro ⟨s', hs', hinert⟩ rfl
  rw [keyboardCallback_eq, keyAction_release _ _ hrel, if_neg (by decide), if_pos rfl, run_tab] at hs'
  obtain rfl := Option.some.inj hs'
  exact onTab_moves s.vga hinert.cursor

end

/-! ## Runs -/

/-- The release of a modifier key. -/
def isModifierRelease (data : UInt8) : Bool := data = 0xAA || data = 0xB6 || data = 0x9D || data = 0xB8

/-- The bytes a run keeps without the releases of the keys that are no modifiers. -/
def isKept (data : UInt8) : Bool := data < 0x80 || isModifierRelease data

/-- Without byte 0x80 the releases of the keys that are no modifiers can be left out of any run. -/
theorem keyboardRun_filter (run : List UInt8) (h : 0x80 ∉ run) (s : Kernel) :
    keyboardRun (run.filter isKept) s = keyboardRun run s := by
  induction run generalizing s with
  | nil => rfl
  | cons data run ih =>
    have hrun : 0x80 ∉ run := fun hm => h (List.mem_cons_of_mem _ hm)
    have hdata : data ≠ 0x80 := fun e => h (e ▸ List.mem_cons_self)
    by_cases hkeep : isKept data
    · rw [List.filter_cons_of_pos hkeep, keyboardRun, Run.run_cons, Run.run_cons]
      congr 1
      funext s'
      exact ih hrun s'
    · rw [List.filter_cons_of_neg hkeep]
      -- left out, so a release of neither shift key
      have hrel : 0x80 ≤ data := by
        simp only [isKept, Bool.or_eq_true, decide_eq_true_eq, not_or, UInt8.not_lt] at hkeep
        exact hkeep.1
      have hshift : isShiftRelease data = false := by
        cases hs : isShiftRelease data with
        | false => rfl
        | true =>
          have hmod : isModifierRelease data = true := by
            simp only [isShiftRelease, isModifierRelease, Bool.or_eq_true, decide_eq_true_eq] at hs ⊢
            rcases hs with hs | hs <;> simp [hs]
          exact absurd (by rw [isKept, hmod, Bool.or_true]) hkeep
      rw [keyboardRun, Run.run_cons, release_nothing hrel s hdata hshift]
      exact ih hrun s

/-- Releases do nothing, and can be left out of a run unless they are modifiers', exactly as long
as none of them is byte 0x80: every byte with bit 7 set is inert in every state if and only if it
is not 0x80, and a run without 0x80 goes the same way without those releases. -/
theorem releases_inert_iff (data : UInt8) (hrel : 0x80 ≤ data) (s : Kernel) (run : List UInt8) :
    ((∃ s', keyboardCallback data s = some s' ∧ Inert data s s') ↔ data ≠ 0x80) ∧
    (0x80 ∉ run → keyboardRun (run.filter isKept) s = keyboardRun run s) :=
  ⟨release_inert_iff hrel s, fun h => keyboardRun_filter run h s⟩

/-- The release of Q and of a shift key. -/
theorem releases_inert_q : ((∃ s', keyboardCallback 0x90 (.start .powerOn) = some s' ∧
      Inert 0x90 (.start .powerOn) s') ↔ (0x90 : UInt8) ≠ 0x80) ∧
    (0x80 ∉ ([0x10, 0x90, 0xAA] : List UInt8) →
      keyboardRun (([0x10, 0x90, 0xAA] : List UInt8).filter isKept) (.start .powerOn) =
        keyboardRun [0x10, 0x90, 0xAA] (.start .powerOn)) :=
  releases_inert_iff 0x90 (by decide) (.start .powerOn) [0x10, 0x90, 0xAA]

/-- Byte 0x80 moves the cursor. -/
theorem release_80_moves : ¬ ∃ s', keyboardCallback 0x80 (.start .powerOn) = some s' ∧
    Inert 0x80 (.start .powerOn) s' :=
  fun h => (release_inert_iff (by decide) (.start .powerOn)).1 h rfl

end HavenOS
