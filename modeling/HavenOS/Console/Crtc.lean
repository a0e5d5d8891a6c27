/-
The hardware cursor: what the CRT controller makes of the bytes sent to its two ports, and that it
shows `cursor_pos` over whole runs of console operations, from the first one that moves the cursor.
-/
import HavenOS.Keyboard.Action
import HavenOS.Vga.Format

namespace HavenOS

/-! ## The controller -/

/-- The selected register and the values of all registers. -/
structure Crtc where
  index : UInt8
  registers : UInt8 → UInt8

/-- A byte sent to a port: the command port selects a register, the data port writes it. -/
def Crtc.out (c : Crtc) (write : UInt16 × UInt8) : Crtc :=
  if write.1 = fbCommandPort then { c with index := write.2 }
  else if write.1 = fbDataPort then { c with registers := Function.update c.registers c.index write.2 }
  else c

/-- After all bytes, the latest first. -/
def Crtc.after (c : Crtc) (ports : List (UInt16 × UInt8)) : Crtc := ports.foldr (fun write c => c.out write) c

/-- The cursor location: register 14 is its high byte and register 15 its low byte. -/
def Crtc.cursor (c : Crtc) : Nat :=
  (c.registers fbHighByteCommand).toNat * 256 + (c.registers fbLowByteCommand).toNat

/-- The controller, in state `c` before the first byte, shows `cursor_pos`. -/
def Coherent (c : Crtc) (v : Vga) : Prop := ((c.after v.ports).cursor : Int) = v.cursorPos.toInt % 65536

theorem high_byte (pos : Int16) :
    ((pos >>> 8) &&& 0x00FF).toUInt16.toUInt8.toBitVec = pos.toBitVec.extractLsb' 8 8 := by
  have hshift : ((pos >>> 8) &&& 0x00FF).toUInt16.toUInt8.toBitVec =
      (pos.toBitVec.sshiftRight 8 &&& 0x00FF).setWidth 8 := rfl
  rw [hshift]
  ext i hi
  interval_cases i <;> simp [BitVec.getElem_sshiftRight]

theorem low_byte (pos : Int16) : (pos &&& 0x00FF).toUInt16.toUInt8.toBitVec = pos.toBitVec.setWidth 8 := by
  have hmask : (pos &&& 0x00FF).toUInt16.toUInt8.toBitVec = (pos.toBitVec &&& 0x00FF).setWidth 8 := rfl
  rw [hmask]
  ext i hi
  interval_cases i <;> simp

/-- The two bytes of a `short`, shifted and masked as an `int`, are those of its 16 bits. -/
theorem short_bytes (pos : Int16) :
    (((pos >>> 8) &&& 0x00FF).toUInt16.toUInt8.toNat * 256 + (pos &&& 0x00FF).toUInt16.toUInt8.toNat : Nat) =
      pos.toInt % 65536 := by
  have hint : pos.toInt = (pos.toBitVec.toNat : Int).bmod (2 ^ 16) := BitVec.toInt_eq_toNat_bmod pos.toBitVec
  have hlt := pos.toBitVec.isLt
  have hhigh : ((pos >>> 8) &&& 0x00FF).toUInt16.toUInt8.toNat = pos.toBitVec.toNat / 256 := by
    rw [← UInt8.toNat_toBitVec, high_byte, BitVec.extractLsb'_toNat, Nat.shiftRight_eq_div_pow]
    omega
  have hlow : (pos &&& 0x00FF).toUInt16.toUInt8.toNat = pos.toBitVec.toNat % 256 := by
    rw [← UInt8.toNat_toBitVec, low_byte, BitVec.toNat_setWidth]
  rw [hhigh, hlow, hint, bmod_eq_wrapShort, wrapShort]
  omega

/-- The four writes that end every move of the cursor. -/
theorem coherent_outCursor (c : Crtc) (v : Vga) : Coherent c (outCursor v) := by
  have hcursor : (c.after (outCursor v).ports).cursor =
      ((v.cursorPos >>> 8) &&& 0x00FF).toUInt16.toUInt8.toNat * 256 +
        (v.cursorPos &&& 0x00FF).toUInt16.toUInt8.toNat := rfl
  rw [Coherent, hcursor, short_bytes]
  rfl

/-! ## The operations -/

/-- A well-formed format: every directive is closed, and there is an argument for each. -/
structure Format where
  str : List UInt8
  args : List Int32
  noNul : 0 ∉ str
  closed : Closed str
  enough : (splitFormat str).countP Piece.isDirective ≤ args.length

/-- The operations of the console, with any arguments. -/
inductive ConsoleOp where
  | moveCursor (pos : UInt16)
  | moveCursorColRow (posX posY : UInt16)
  | moveCursorToStartOfRow
  | offsetCursor (offset : Int)
  | printCell (c fg bg : UInt8)
  | printStr (str : List UInt8) (fg bg : UInt8)
  | printLstr (str : List UInt8) (length : Int) (fg bg : UInt8)
  | fprintStr (format : Format) (fg bg : UInt8)
  | scroll
  | shiftDown («from» : Int)
  | copyRow («from» «to» : Int)
  | clear (fg bg : UInt8)
  | keyboard (data : UInt8)

namespace ConsoleOp

def run : ConsoleOp → Kernel → Option Kernel
  | moveCursor pos, s => some (s.onVga (fbMoveCursor pos))
  | moveCursorColRow posX posY, s => some (s.onVga (fbMoveCursorColRow posX posY))
  | moveCursorToStartOfRow, s => some (s.onVga fbMoveCursorToStartOfRow)
  | offsetCursor offset, s => some (s.onVga (fbOffsetCursor offset))
  | printCell c fg bg, s => some (s.onVga (fbPrintCell c fg bg))
  | printStr str fg bg, s => some (s.onVga (fbPrintStr str fg bg))
  | printLstr str length fg bg, s => some (s.onVga (fbPrintLstr str length fg bg))
  | fprintStr format fg bg, s => do
    let vga ← fbFprintStr format.str format.args fg bg s.vga
    some (s.onVga fun _ => vga)
  | scroll, s => some (s.onVga fun v => { v with fb := fbScroll v.fb })
  | shiftDown row, s => some (s.onVga fun v => { v with fb := fbShiftDown row v.fb })
  | copyRow «from» «to», s => some (s.onVga fun v => { v with fb := fbCopyRow «from» «to» v.fb })
  | clear fg bg, s => some (s.onVga fun v => { v with fb := fbClear fg bg v.fb })
  | keyboard data, s => keyboardCallback data s

end ConsoleOp

/-- The keys that type or move. -/
def KeyAction.setsCursor : KeyAction → Bool
  | .print _ | .backspace | .return | .tab | .delete | .left | .right | .up | .down | .escape => true
  | .nothing | .shift _ | .ctrl | .alt => false

/-- The operations that set the cursor. -/
def ConsoleOp.SetsCursor : ConsoleOp → Kernel → Prop
  | scroll, _ | shiftDown _, _ | copyRow _ _, _ | clear _ _, _ => False
  | fprintStr format _ _, _ => format.str ≠ []
  | keyboard data, s => (keyAction data (s.kbShift ≠ 0)).setsCursor
  | _, _ => True

/-! ## One operation -/

variable (c : Crtc)

theorem coherent_offsetCursor (offset : Int) (v : Vga) : Coherent c (fbOffsetCursor offset v) :=
  coherent_outCursor c _

theorem coherent_startOfRow (v : Vga) : Coherent c (fbMoveCursorToStartOfRow v) := coherent_outCursor c _

theorem coherent_printStr (str : List UInt8) (fg bg : UInt8) (v : Vga) : Coherent c (fbPrintStr str fg bg v) :=
  coherent_offsetCursor c _ _

theorem coherent_runDirective (text : List UInt8) (arg : Int32) (fg bg : UInt8) (v : Vga) :
    Coherent c (runDirective text arg fg bg v) := by
  unfold runDirective
  split
  · exact coherent_printStr c _ fg bg v
  · split
    · exact coherent_printStr c _ fg bg v
    · split
      · exact coherent_startOfRow c _
      · exact coherent_printStr c _ fg bg _

/-- Pieces keep the controller in step; a single one is enough to bring it there. -/
theorem coherent_runPieces (args : List Int32) (fg bg : UInt8) : ∀ (pieces : List Piece) (j : Nat) (v : Vga),
    pieces ≠ [] ∨ Coherent c v → Coherent c (runPieces args fg bg j pieces v)
  | [], _, _, h => h.resolve_left (not_not_intro rfl)
  | .literal ch :: pieces, j, v, _ =>
    coherent_runPieces args fg bg pieces j (fbPrintCell ch fg bg v) (.inr (coherent_offsetCursor c 1 _))
  | .directive text :: pieces, j, v, _ =>
    coherent_runPieces args fg bg pieces (j + 1) _ (.inr (coherent_runDirective c text _ fg bg v))

theorem splitFormat_ne_nil {str : List UInt8} (h : str ≠ []) : splitFormat str ≠ [] := by
  cases str with
  | nil => exact absurd rfl h
  | cons ch str =>
    rw [splitFormat]
    split
    · exact List.cons_ne_nil _ _
    · exact List.cons_ne_nil _ _

/-- A format runs its pieces, and an empty one nothing. -/
theorem format_run (format : Format) (fg bg : UInt8) (v : Vga) :
    fbFprintStr format.str format.args fg bg v = some (runPieces format.args fg bg 0 (splitFormat format.str) v) :=
  fbFprintStr_enough fg bg v format.noNul format.closed
    (enough_of_countP _ 0 (by rw [Nat.zero_add]; exact format.enough))

/-- The actions that set the cursor end with the four writes; the others leave it alone. -/
theorem KeyAction.onScreen_cursor (a : KeyAction) (pd : UInt32) (v : Vga) :
    (a.setsCursor = true → Coherent c (a.onScreen pd v)) ∧
    (a.setsCursor = false → (a.onScreen pd v).cursorPos = v.cursorPos ∧ (a.onScreen pd v).ports = v.ports) := by
  cases a with
  | nothing | shift | ctrl | alt => exact ⟨fun h => Bool.noConfusion h, fun _ => ⟨rfl, rfl⟩⟩
  | «return» | escape => exact ⟨fun _ => coherent_startOfRow c _, fun h => Bool.noConfusion h⟩
  | print | backspace | tab | delete | left | right | up | down =>
    exact ⟨fun _ => coherent_offsetCursor c _ _, fun h => Bool.noConfusion h⟩

/-- After an operation that sets the cursor the controller shows it; any other operation changes neither
the cursor nor what was sent to the controller. -/
theorem ConsoleOp.run_spec (op : ConsoleOp) (s : Kernel) : ∃ s', op.run s = some s' ∧
    (op.SetsCursor s → Coherent c s'.vga) ∧
    (¬ op.SetsCursor s → s'.vga.cursorPos = s.vga.cursorPos ∧ s'.vga.ports = s.vga.ports) := by
  cases op with
  | moveCursor pos => exact ⟨_, rfl, fun _ => coherent_outCursor c _, fun h => absurd trivial h⟩
  | moveCursorColRow posX posY => exact ⟨_, rfl, fun _ => coherent_outCursor c _, fun h => absurd trivial h⟩
  | moveCursorToStartOfRow => exact ⟨_, rfl, fun _ => coherent_startOfRow c _, fun h => absurd trivial h⟩
  | offsetCursor | printCell | printStr | printLstr =>
    exact ⟨_, rfl, fun _ => coherent_offsetCursor c _ _, fun h => absurd trivial h⟩
  | fprintStr format fg bg =>
    refine ⟨_, by rw [run, format_run]; rfl, fun hne => ?_, fun hnil => ?_⟩
    · exact coherent_runPieces c format.args fg bg _ 0 s.vga (.inl (splitFormat_ne_nil hne))
    · have hstr : format.str = [] := not_not.1 hnil
      simp only [hstr, splitFormat, runPieces]
      exact ⟨rfl, rfl⟩
  | scroll | shiftDown | copyRow | clear => exact ⟨_, rfl, fun h => absurd h id, fun _ => ⟨rfl, rfl⟩⟩
  | keyboard data =>
    obtain ⟨s', hs', hvga, -⟩ := keyboardCallback_spec data s
    obtain ⟨hsets, hkeeps⟩ := (keyAction data (s.kbShift ≠ 0)).onScreen_cursor c (s.directories 1) s.vga
    rw [← hvga] at hsets hkeeps
    exact ⟨s', hs', hsets, fun h => hkeeps (Bool.eq_false_iff.2 h)⟩

/-! ## Runs -/

/-- The operations of a run one after another. -/
def consoleRun : List ConsoleOp → Kernel → Option Kernel := Run.run ConsoleOp.run

/-- Some operation of the run has set the cursor. -/
def CursorSet (ops : List ConsoleOp) (s : Kernel) : Prop :=
  ∃ done op s1, done ++ [op] <+: ops ∧ consoleRun done s = some s1 ∧ op.SetsCursor s1

theorem cursorSet_snoc {ops : List ConsoleOp} {op : ConsoleOp} {s s1 : Kernel} (hrun : consoleRun ops s = some s1) :
    CursorSet (ops ++ [op]) s ↔ CursorSet ops s ∨ op.SetsCursor s1 := by
  constructor
  · rintro ⟨done, last, s2, hprefix, hdone, hsets⟩
    rcases List.prefix_concat_iff.1 hprefix with heq | hbefore
    · obtain ⟨rfl, hop⟩ := List.append_inj' heq rfl
      cases hop
      cases hrun.symm.trans hdone
      exact .inr hsets
    · exact .inl ⟨done, last, s2, hbefore, hdone, hsets⟩
  · rintro (⟨done, last, s2, hprefix, hdone, hsets⟩ | hsets)
    · exact ⟨done, last, s2, hprefix.trans (List.prefix_append ops [op]), hdone, hsets⟩
    · exact ⟨ops, op, s1, List.prefix_rfl, hrun, hsets⟩

/-- Whatever the controller held, it shows the cursor after every operation from the first one on that
sets the cursor; until then neither the cursor nor the controller is touched. -/
theorem hardware_cursor_coherent (ops : List ConsoleOp) (s : Kernel) : ∃ s', consoleRun ops s = some s' ∧
    (CursorSet ops s → Coherent c s'.vga) ∧
    (¬ CursorSet ops s → s'.vga.cursorPos = s.vga.cursorPos ∧ s'.vga.ports = s.vga.ports) := by
  induction ops using List.reverseRecOn with
  | nil =>
    refine ⟨s, rfl, ?_, fun _ => ⟨rfl, rfl⟩⟩
    rintro ⟨done, op, -, hprefix, -⟩
    exact absurd (List.prefix_nil.1 hprefix) (by simp)
  | append_singleton ops op ih =>
    obtain ⟨s1, hrun, hcoherent, huntouched⟩ := ih
    obtain ⟨s2, hop, hsets, hkeeps⟩ := op.run_spec c s1
    refine ⟨s2, ?_, fun hset => ?_, fun hnone => ?_⟩
    · rw [consoleRun, Run.run_snoc]
      exact (congrArg (·.bind op.run) hrun).trans hop
    · by_cases hnow : op.SetsCursor s1
      · exact hsets hnow
      · obtain ⟨hcursor, hports⟩ := hkeeps hnow
        have hbefore := hcoherent (((cursorSet_snoc hrun).1 hset).resolve_right hnow)
        rw [Coherent, hcursor, hports]
        exact hbefore
    · obtain ⟨hbefore, hnow⟩ := not_or.1 (fun h => hnone ((cursorSet_snoc hrun).2 h))
      obtain ⟨hcursor, hports⟩ := hkeeps hnow
      obtain ⟨hcursor1, hports1⟩ := huntouched hbefore
      exact ⟨hcursor.trans hcursor1, hports.trans hports1⟩

end HavenOS
