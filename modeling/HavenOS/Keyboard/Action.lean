/-
What a scancode byte does, as one action: the classification of all 256 bytes, and that
`keyboard_callback` runs the action of its byte.
-/
import HavenOS.Keyboard.Basic
import HavenOS.Paging.Identity
import Mathlib.Data.FinEnum

namespace HavenOS

/-- The effect of one scancode byte. -/
inductive KeyAction where
  | nothing
  | shift (held : Bool)
  | ctrl
  | alt
  | print (ch : UInt8)
  | backspace
  | return
  | tab
  | delete
  | left
  | right
  | up
  | down
  | escape
deriving DecidableEq, Repr

/-- The special keys in the order they are tested. -/
def specialAction (k : KeyboardEvent) : KeyAction :=
  if k.isBackspace then .backspace
  else if k.isReturn then .return
  else if k.isTab then .tab
  else if k.isDelete then .delete
  else if k.isArrowLeft then .left
  else if k.isArrowRight then .right
  else if k.isArrowUp then .up
  else if k.isArrowDown then .down
  else if k.isEscape then .escape
  else .nothing

/-- The action of a byte; `shifted` is whether `KB_SHIFT` is nonzero. -/
def keyAction (data : UInt8) (shifted : Bool) : KeyAction :=
  let k := readScanCode data
  if k.isShift then .shift (k.scancode ≠ 0xAA ∧ k.scancode ≠ 0xB6)
  else if k.isCtrl then .ctrl
  else if k.isAlt then .alt
  else if keyChar k shifted = 0 then specialAction k
  else if k.released ≠ 0 then .nothing
  else .print (keyChar k shifted)

namespace KeyAction

/-- The part of an action on the console; the switch of directories is not one. -/
def onVga : KeyAction → Vga → Vga
  | .shift held, v => { v with fb := fbWriteCell 1 (if held then 83 else 115) 0 15 v.fb }
  | .print ch, v => fbPrintCell ch 0 15 v
  | .backspace, v => onBackspace v
  | .return, v => onReturn v
  | .tab, v => onTab v
  | .delete, v => onDelete v
  | .left, v => fbOffsetCursor (-1) v
  | .right, v => fbOffsetCursor 1 v
  | .up, v => fbOffsetCursor (-80) v
  | .down, v => fbOffsetCursor 80 v
  | .nothing, v | .ctrl, v | .alt, v | .escape, v => v

/-- An action on the whole state. -/
def run : KeyAction → Kernel → Option Kernel
  | .shift held, s => some { s.onVga (KeyAction.shift held).onVga with kbShift := if held then 1 else 0 }
  | .ctrl, s => some { s with kbCtrl := 1 }
  | .alt, s => some { s with kbAlt := 1 }
  | .escape, s => onEscape s
  | a, s => some (s.onVga a.onVga)

end KeyAction

/-! ## The bytes -/

theorem scancode_eq (data : UInt8) : (readScanCode data).scancode = data := by
  unfold readScanCode
  simp only
  split <;> split <;> rfl

theorem released_eq (data : UInt8) : (readScanCode data).released = data &&& 0x80 := by
  unfold readScanCode
  simp only
  split <;> split <;> rfl

theorem isShift_iff : ∀ data : UInt8, (readScanCode data).isShift ↔
    (data = 0x2A ∨ data = 0x36) ∨ data = 0xAA ∨ data = 0xB6 := by
  decide +kernel

/-- The release of Ctrl is not recognised: its code is compared with the negative `scancode`. -/
theorem isCtrl_iff : ∀ data : UInt8, (readScanCode data).isCtrl ↔ data = 0x1D := by
  decide +kernel

/-- Nor is the release of Alt. -/
theorem isAlt_iff : ∀ data : UInt8, (readScanCode data).isAlt ↔ data = 0x38 := by
  decide +kernel

/-- No modifier is a special key as well. -/
theorem specialAction_modifier {data : UInt8}
    (h : (readScanCode data).isShift ∨ (readScanCode data).isCtrl ∨ (readScanCode data).isAlt) :
    specialAction (readScanCode data) = .nothing := by
  rw [isShift_iff, isCtrl_iff, isAlt_iff] at h
  rcases h with ((rfl | rfl) | rfl | rfl) | rfl | rfl <;> decide

/-- A Ctrl or Alt event that is recognised is a press. -/
theorem modifier_press {data : UInt8} (h : (readScanCode data).isCtrl ∨ (readScanCode data).isAlt) :
    (readScanCode data).released = 0 := by
  rw [isCtrl_iff, isAlt_iff] at h
  rcases h with rfl | rfl <;> decide

/-- The special keys and the characters are no modifiers. -/
def KeyAction.isModifier : KeyAction → Bool
  | .shift _ | .ctrl | .alt => true
  | _ => false

theorem specialAction_isModifier (k : KeyboardEvent) : (specialAction k).isModifier = false := by
  simp only [specialAction, apply_ite KeyAction.isModifier]
  simp only [KeyAction.isModifier, ite_self]

/-- The modifier keys first, in the order they are tested. -/
theorem keyAction_cases (data : UInt8) (shifted : Bool) :
    (data = 0x2A ∨ data = 0x36) ∧ keyAction data shifted = .shift true ∨
    (data = 0xAA ∨ data = 0xB6) ∧ keyAction data shifted = .shift false ∨
    data = 0x1D ∧ keyAction data shifted = .ctrl ∨
    data = 0x38 ∧ keyAction data shifted = .alt ∨
    (¬ (data = 0x2A ∨ data = 0x36) ∧ ¬ (data = 0xAA ∨ data = 0xB6) ∧ data ≠ 0x1D ∧ data ≠ 0x38) ∧
      (keyAction data shifted).isModifier = false := by
  unfold keyAction
  simp only [isShift_iff, isCtrl_iff, isAlt_iff, scancode_eq]
  by_cases hpress : data = 0x2A ∨ data = 0x36
  · refine .inl ⟨hpress, ?_⟩
    rcases hpress with rfl | rfl <;> rfl
  · by_cases hrelease : data = 0xAA ∨ data = 0xB6
    · refine .inr (.inl ⟨hrelease, ?_⟩)
      rcases hrelease with rfl | rfl <;> rfl
    · rw [if_neg (not_or.2 ⟨hpress, hrelease⟩)]
      by_cases hctrl : data = 0x1D
      · exact .inr (.inr (.inl ⟨hctrl, if_pos hctrl⟩))
      · rw [if_neg hctrl]
        by_cases halt : data = 0x38
        · exact .inr (.inr (.inr (.inl ⟨halt, if_pos halt⟩)))
        · refine .inr (.inr (.inr (.inr ⟨⟨hpress, hrelease, hctrl, halt⟩, ?_⟩)))
          rw [if_neg halt]
          split
          · exact specialAction_isModifier _
          · split <;> rfl

/-- A release is negative as a `scancode`, so no test of a press or release code holds for it. -/
theorem isCode_release {data : UInt8} (h : 0x80 ≤ data) {code : Int} (hcode : 0 ≤ code) :
    isCode data.toInt8 code = false := by
  have hlt : data.toInt8.toInt < 0 := by
    have hint : data.toInt8.toInt = (data.toNat : Int).bmod (2 ^ 8) := BitVec.toInt_eq_toNat_bmod data.toBitVec
    have hlow : 128 ≤ data.toNat := UInt8.le_iff_toNat_le.1 h
    have hhigh := data.toNat_lt
    rw [hint, Int.bmod_def]
    omega
  unfold isCode kbdRelease
  simp only [Bool.or_eq_false_iff, decide_eq_false_iff_not]
  omega

theorem released_release : ∀ data : UInt8, 0x80 ≤ data → data &&& 0x80 ≠ 0 := by
  decide +kernel

/-- Tab is tested on the unsigned field, and for the wrong release code. -/
theorem specialAction_release {data : UInt8} (h : 0x80 ≤ data) :
    specialAction (readScanCode data) = if data = 0x80 then .tab else .nothing := by
  have hF : data ≠ 0x0F := by rintro rfl; exact absurd h (by decide)
  unfold readScanCode
  by_cases h80 : data = 0x80
  · subst h80; decide
  · simp (disch := decide) only [isCode_release h, ne_eq, released_release data h,
      not_false_eq_true, if_true, if_neg h80,
      if_neg (not_or.2 ⟨hF, h80⟩)]
    rfl

/-- A release does nothing, but for the shift keys and for byte 0x80, which is taken for Tab. -/
theorem keyAction_release (data : UInt8) (shifted : Bool) (h : 0x80 ≤ data) : keyAction data shifted =
    if data = 0xAA ∨ data = 0xB6 then .shift false else if data = 0x80 then .tab else .nothing := by
  have hpress : ¬ (data = 0x2A ∨ data = 0x36) := by rintro (rfl | rfl) <;> exact absurd h (by decide)
  rcases keyAction_cases data shifted with ⟨hp, -⟩ | ⟨hr, haction⟩ | ⟨rfl, -⟩ | ⟨rfl, -⟩ | ⟨⟨-, hr, hctrl, halt⟩, -⟩
  · exact absurd hp hpress
  · rw [if_pos hr, haction]
  · exact absurd h (by decide)
  · exact absurd h (by decide)
  · have hkey : keyAction data shifted =
        if keyChar (readScanCode data) shifted = 0 then specialAction (readScanCode data)
        else if (readScanCode data).released ≠ 0 then .nothing
        else .print (keyChar (readScanCode data) shifted) := by
      unfold keyAction
      simp only [isShift_iff, isCtrl_iff, isAlt_iff, if_neg (not_or.2 ⟨hpress, hr⟩), if_neg hctrl, if_neg halt]
    rw [hkey, if_neg hr, released_eq, if_pos (released_release data h), specialAction_release h]
    by_cases h80 : data = 0x80
    · subst h80; cases shifted <;> decide
    · rw [if_neg h80, ite_self]

/-! ## The handler -/

/-- The special keys, as the handler runs them. -/
theorem special_run (k : KeyboardEvent) (s : Kernel) : (specialAction k).run s =
    if k.isBackspace then some (s.onVga onBackspace)
    else if k.isReturn then some (s.onVga onReturn)
    else if k.isTab then some (s.onVga onTab)
    else if k.isDelete then some (s.onVga onDelete)
    else if k.isArrowLeft then some (s.onVga (fbOffsetCursor (-1)))
    else if k.isArrowRight then some (s.onVga (fbOffsetCursor 1))
    else if k.isArrowUp then some (s.onVga (fbOffsetCursor (-80)))
    else if k.isArrowDown then some (s.onVga (fbOffsetCursor 80))
    else if k.isEscape then onEscape s
    else some s := by
  simp only [specialAction, apply_ite (KeyAction.run · s)]
  rfl

theorem keyboardCallback_eq (data : UInt8) (s : Kernel) :
    keyboardCallback data s = (keyAction data (s.kbShift ≠ 0)).run s := by
  have hmodifier := @specialAction_modifier data
  have hpress := @modifier_press data
  unfold keyboardCallback keyAction computeKey
  generalize readScanCode data = k at hmodifier hpress ⊢
  by_cases hshift : k.isShift
  · by_cases hrelease : k.scancode = 0xAA ∨ k.scancode = 0xB6
    · simp only [if_pos hshift, if_pos hrelease, ← special_run, hmodifier (.inl hshift)]
      rw [show decide (k.scancode ≠ 0xAA ∧ k.scancode ≠ 0xB6) = false by simpa using or_iff_not_imp_left.1 hrelease]
      rfl
    · simp only [if_pos hshift, if_neg hrelease, ← special_run, hmodifier (.inl hshift)]
      rw [show decide (k.scancode ≠ 0xAA ∧ k.scancode ≠ 0xB6) = true by simpa [not_or] using hrelease]
      rfl
  · by_cases hctrl : k.isCtrl
    · simp only [if_neg hshift, if_pos hctrl, if_pos (hpress (.inl hctrl)), ← special_run,
        hmodifier (.inr (.inl hctrl))]
      rfl
    · by_cases halt : k.isAlt
      · simp only [if_neg hshift, if_neg hctrl, if_pos halt, if_pos (hpress (.inr halt)), ← special_run,
          hmodifier (.inr (.inr halt))]
        rfl
      · simp only [if_neg hshift, if_neg hctrl, if_neg halt, ← special_run]
        split
        · rfl
        · split <;> rfl

/-! ## Runs -/

theorem onEscape_eq (s : Kernel) : onEscape s = some { s with
    vga := switchConsole (s.directories 1) s.vga, cr3 := s.directories 1 } := by
  unfold onEscape switchPageDirectoryI
  rw [switchPageDirectory_eq]
  rfl

/-- The part of an action on the console, with the message of a switch of directories to `pd`. -/
def KeyAction.onScreen (pd : UInt32) : KeyAction → Vga → Vga
  | .escape, v => switchConsole pd v
  | a, v => a.onVga v

/-- Every action succeeds; it acts on the console, and on the flag of its own modifier. -/
theorem KeyAction.run_spec (a : KeyAction) (s : Kernel) : ∃ s', a.run s = some s' ∧
    s'.vga = a.onScreen (s.directories 1) s.vga ∧ s'.directories = s.directories ∧
    s'.kbShift = (match a with | .shift held => if held then 1 else 0 | _ => s.kbShift) ∧
    s'.kbCtrl = (if a = .ctrl then 1 else s.kbCtrl) ∧ s'.kbAlt = (if a = .alt then 1 else s.kbAlt) := by
  cases a with
  | escape =>
    refine ⟨_, (show KeyAction.run .escape s = onEscape s from rfl).trans (onEscape_eq s), ?_⟩
    exact ⟨rfl, rfl, rfl, rfl, rfl⟩
  | shift held => exact ⟨_, rfl, rfl, rfl, rfl, rfl, rfl⟩
  | ctrl | alt => exact ⟨_, rfl, rfl, rfl, rfl, rfl, rfl⟩
  | _ => exact ⟨s.onVga _, rfl, by simp [KeyAction.onScreen]⟩

/-- One byte, by its action. -/
theorem keyboardCallback_spec (data : UInt8) (s : Kernel) : ∃ s', keyboardCallback data s = some s' ∧
    s'.vga = (keyAction data (s.kbShift ≠ 0)).onScreen (s.directories 1) s.vga ∧ s'.directories = s.directories ∧
    s'.kbShift = (match keyAction data (s.kbShift ≠ 0) with | .shift held => if held then 1 else 0 | _ => s.kbShift) ∧
    s'.kbCtrl = (if keyAction data (s.kbShift ≠ 0) = .ctrl then 1 else s.kbCtrl) ∧
    s'.kbAlt = (if keyAction data (s.kbShift ≠ 0) = .alt then 1 else s.kbAlt) := by
  rw [keyboardCallback_eq]
  exact (keyAction data (s.kbShift ≠ 0)).run_spec s

theorem keyboardRun_total (run : List UInt8) (s : Kernel) : ∃ s', keyboardRun run s = some s' :=
  Run.run_total keyboardCallback (fun data s => (keyboardCallback_spec data s).imp fun _ h => h.1) run s

end HavenOS
