/-
What the console sends: bytes for the CRT controller and for no other device, the same ones whatever
was sent before.
-/
import HavenOS.Keyboard.Action
import HavenOS.Vga.Message

namespace HavenOS

/-- With another history of what was sent. -/
def Vga.withPorts (v : Vga) (ps : List (UInt16 × UInt8)) : Vga := { v with ports := ps }

/-- The bytes that `f` sends are for the CRT controller, and what was sent before makes no difference
to `f`. -/
def SendsCrt (f : Vga → Vga) : Prop := ∀ v, ∃ sent : List (UInt16 × UInt8),
  (∀ write ∈ sent, write.1 = fbCommandPort ∨ write.1 = fbDataPort) ∧
  ∀ ps, f (v.withPorts ps) = (f v).withPorts (sent ++ ps)

namespace SendsCrt

variable {f g : Vga → Vga}

/-- Nothing is sent. -/
theorem of_silent (h : ∀ v ps, f (v.withPorts ps) = (f v).withPorts ps) : SendsCrt f := fun v =>
  ⟨[], fun _ hw => absurd hw List.not_mem_nil, h v⟩

theorem comp (hg : SendsCrt g) (hf : SendsCrt f) : SendsCrt fun v => g (f v) := by
  intro v
  obtain ⟨sent, hsent, hfv⟩ := hf v
  obtain ⟨sent', hsent', hgv⟩ := hg (f v)
  refine ⟨sent' ++ sent, fun write hw => ?_, fun ps => ?_⟩
  · rcases List.mem_append.1 hw with hw | hw
    · exact hsent' write hw
    · exact hsent write hw
  · show g (f (v.withPorts ps)) = _
    rw [hfv ps, hgv (sent ++ ps), List.append_assoc]

theorem append (h : SendsCrt f) (v : Vga) : ∃ sent : List (UInt16 × UInt8),
    (∀ write ∈ sent, write.1 = fbCommandPort ∨ write.1 = fbDataPort) ∧ (f v).ports = sent ++ v.ports := by
  obtain ⟨sent, hsent, hfv⟩ := h v
  exact ⟨sent, hsent, congrArg Vga.ports (hfv v.ports)⟩

end SendsCrt

/-! ## The functions of vga.c -/

theorem sendsCrt_outCursor : SendsCrt outCursor := by
  intro v
  refine ⟨[(fbDataPort, (v.cursorPos &&& 0x00FF).toUInt16.toUInt8), (fbCommandPort, fbLowByteCommand),
    (fbDataPort, ((v.cursorPos >>> 8) &&& 0x00FF).toUInt16.toUInt8), (fbCommandPort, fbHighByteCommand)],
    fun write hw => ?_, fun ps => ?_⟩
  · simp only [List.mem_cons, List.not_mem_nil, or_false] at hw
    rcases hw with rfl | rfl | rfl | rfl
    · exact .inr rfl
    · exact .inl rfl
    · exact .inr rfl
    · exact .inl rfl
  · cases v
    rfl

section
variable (v : Vga) (ps : List (UInt16 × UInt8))

@[simp] theorem Vga.withPorts_fb : (v.withPorts ps).fb = v.fb := rfl
@[simp] theorem Vga.withPorts_cursorPos : (v.withPorts ps).cursorPos = v.cursorPos := rfl
@[simp] theorem Vga.withPorts_ports : (v.withPorts ps).ports = ps := rfl

theorem scrollLoop_withPorts (rounds : Nat) :
    scrollLoop rounds (v.withPorts ps) = (scrollLoop rounds v).withPorts ps := by
  induction rounds generalizing v with
  | zero => rfl
  | succ rounds ih =>
    have hround := ih { v with cursorPos := v.cursorPos - 80, fb := fbScroll v.fb }
    rw [scrollLoop, scrollLoop, Vga.withPorts_cursorPos, Vga.withPorts_fb]
    split
    · exact hround
    · rfl

theorem shiftLoop_withPorts (rounds : Nat) :
    shiftLoop rounds (v.withPorts ps) = (shiftLoop rounds v).withPorts ps := by
  induction rounds generalizing v with
  | zero => rfl
  | succ rounds ih =>
    have hround := ih { v with cursorPos := v.cursorPos + 80, fb := fbShiftDown fbNumRows v.fb }
    rw [shiftLoop, shiftLoop, Vga.withPorts_cursorPos, Vga.withPorts_fb]
    split
    · exact hround
    · rfl

end

theorem sendsCrt_moveCursor (pos : UInt16) : SendsCrt (fbMoveCursor pos) :=
  sendsCrt_outCursor.comp (.of_silent fun _ _ => rfl)

theorem sendsCrt_moveCursorColRow (posX posY : UInt16) : SendsCrt (fbMoveCursorColRow posX posY) :=
  sendsCrt_outCursor.comp (.of_silent fun _ _ => rfl)

theorem sendsCrt_startOfRow : SendsCrt fbMoveCursorToStartOfRow := fun v => by
  obtain ⟨sent, hsent, hv⟩ := sendsCrt_moveCursorColRow 0 (UInt16.ofInt (fbGetCurrentRow v)) v
  exact ⟨sent, hsent, hv⟩

theorem sendsCrt_offsetCursor (offset : Int) : SendsCrt (fbOffsetCursor offset) := by
  unfold fbOffsetCursor
  refine sendsCrt_outCursor.comp (.of_silent fun v ps => ?_)
  rw [← shiftLoop_withPorts, ← scrollLoop_withPorts]
  rfl

theorem sendsCrt_printCell (c fg bg : UInt8) : SendsCrt (fbPrintCell c fg bg) :=
  (sendsCrt_offsetCursor 1).comp (.of_silent fun _ _ => rfl)

theorem sendsCrt_printStr (str : List UInt8) (fg bg : UInt8) : SendsCrt (fbPrintStr str fg bg) :=
  (sendsCrt_offsetCursor _).comp (.of_silent fun _ _ => rfl)

theorem sendsCrt_printCells (fg bg : UInt8) : ∀ str : List UInt8, SendsCrt (printCells str fg bg)
  | [] => .of_silent fun _ _ => rfl
  | c :: str => (sendsCrt_printCells fg bg str).comp (sendsCrt_printCell c fg bg)

theorem sendsCrt_directive (text : List UInt8) (arg : Int32) (fg bg : UInt8) :
    SendsCrt (runDirective text arg fg bg) := by
  unfold runDirective
  split
  · exact sendsCrt_printStr _ fg bg
  · split
    · exact sendsCrt_printStr _ fg bg
    · split
      · exact sendsCrt_startOfRow.comp (sendsCrt_offsetCursor 80)
      · exact (sendsCrt_printStr text fg bg).comp (sendsCrt_printCell 63 fg bg)

theorem sendsCrt_pieces (args : List Int32) (fg bg : UInt8) : ∀ (pieces : List Piece) (j : Nat),
    SendsCrt (runPieces args fg bg j pieces)
  | [], _ => .of_silent fun _ _ => rfl
  | .literal c :: pieces, j => (sendsCrt_pieces args fg bg pieces j).comp (sendsCrt_printCell c fg bg)
  | .directive text :: pieces, j =>
    (sendsCrt_pieces args fg bg pieces (j + 1)).comp (sendsCrt_directive text (args.getD j 0) fg bg)

theorem sendsCrt_printLine (message : String) (offset : Int) : SendsCrt (printLine message offset) :=
  sendsCrt_startOfRow.comp ((sendsCrt_offsetCursor offset).comp (sendsCrt_printStr _ 0 15))

theorem sendsCrt_switchConsole (pd : UInt32) : SendsCrt (switchConsole pd) :=
  sendsCrt_startOfRow.comp ((sendsCrt_offsetCursor _).comp ((sendsCrt_printStr _ 0 15).comp
    (sendsCrt_printCells 0 15 _)))

/-! ## The keyboard -/

theorem sendsCrt_onReturn : SendsCrt onReturn := by
  have hshift : SendsCrt fun v => { v with fb := fbShiftDown (fbGetCurrentRow v) v.fb } := .of_silent fun _ _ => rfl
  exact sendsCrt_startOfRow.comp (hshift.comp (sendsCrt_offsetCursor fbNumColumns))

theorem KeyAction.sendsCrt (a : KeyAction) (pd : UInt32) : SendsCrt (a.onScreen pd) := by
  cases a with
  | nothing | ctrl | alt | shift => exact .of_silent fun _ _ => rfl
  | print ch => exact sendsCrt_printCell ch 0 15
  | backspace =>
    exact (sendsCrt_offsetCursor (-1)).comp ((sendsCrt_printCell 32 0 15).comp (sendsCrt_offsetCursor (-1)))
  | «return» => exact sendsCrt_onReturn
  | tab => exact sendsCrt_printStr _ 0 15
  | delete => exact (sendsCrt_printCell 32 0 15).comp (sendsCrt_offsetCursor (-1))
  | left => exact sendsCrt_offsetCursor (-1)
  | right => exact sendsCrt_offsetCursor 1
  | up => exact sendsCrt_offsetCursor (-80)
  | down => exact sendsCrt_offsetCursor 80
  | escape => exact sendsCrt_switchConsole pd

/-- The kernel with another history of what was sent. -/
def Kernel.withPorts (k : Kernel) (ps : List (UInt16 × UInt8)) : Kernel := k.onVga (·.withPorts ps)

/-- `f` succeeds on `k`, and the same is said of what it sends. -/
def Kernel.SendsCrt (f : Kernel → Option Kernel) (k : Kernel) : Prop :=
  ∃ (k' : Kernel) (sent : List (UInt16 × UInt8)), f k = some k' ∧
    (∀ write ∈ sent, write.1 = fbCommandPort ∨ write.1 = fbDataPort) ∧
    ∀ ps, f (k.withPorts ps) = some (k'.withPorts (sent ++ ps))

theorem Kernel.onVga_withPorts {k : Kernel} {f : Vga → Vga} {ps qs : List (UInt16 × UInt8)}
    (h : f (k.vga.withPorts ps) = (f k.vga).withPorts qs) : (k.withPorts ps).onVga f = (k.onVga f).withPorts qs :=
  congrArg (fun v : Vga => k.onVga fun _ => v) h

theorem SendsCrt.onVga {f : Vga → Vga} (h : HavenOS.SendsCrt f) (k : Kernel) :
    Kernel.SendsCrt (fun k => some (k.onVga f)) k := by
  obtain ⟨sent, hsent, hv⟩ := h k.vga
  exact ⟨k.onVga f, sent, rfl, hsent, fun ps => congrArg some (Kernel.onVga_withPorts (hv ps))⟩

theorem KeyAction.run_sends (a : KeyAction) (k : Kernel) : Kernel.SendsCrt a.run k := by
  obtain ⟨sent, hsent, hv⟩ := a.sendsCrt (k.directories 1) k.vga
  cases a with
  | escape =>
    refine ⟨_, sent, onEscape_eq k, hsent, fun ps => (onEscape_eq (k.withPorts ps)).trans ?_⟩
    exact congrArg (fun v : Vga => some ({ k with vga := v, cr3 := k.directories 1 } : Kernel)) (hv ps)
  | shift held =>
    refine ⟨_, sent, rfl, hsent, fun ps => ?_⟩
    exact congrArg (fun v : Vga => some ({ k with vga := v, kbShift := if held then 1 else 0 } : Kernel)) (hv ps)
  | ctrl =>
    refine ⟨_, sent, rfl, hsent, fun ps => ?_⟩
    exact congrArg (fun v : Vga => some ({ k with vga := v, kbCtrl := 1 } : Kernel)) (hv ps)
  | alt =>
    refine ⟨_, sent, rfl, hsent, fun ps => ?_⟩
    exact congrArg (fun v : Vga => some ({ k with vga := v, kbAlt := 1 } : Kernel)) (hv ps)
  | _ => exact ⟨k.onVga _, sent, rfl, hsent, fun ps => congrArg some (Kernel.onVga_withPorts (hv ps))⟩

/-- What `keyboard_callback` sends is for the CRT controller, and what was sent before makes no
difference to it. -/
theorem keyboardCallback_sends (data : UInt8) (k : Kernel) : Kernel.SendsCrt (keyboardCallback data) k := by
  obtain ⟨k', sent, hrun, hsent, hports⟩ := (keyAction data (k.kbShift ≠ 0)).run_sends k
  exact ⟨k', sent, (keyboardCallback_eq data k).trans hrun, hsent, fun ps =>
    (keyboardCallback_eq data (k.withPorts ps)).trans (hports ps)⟩

theorem keyboardRun_sends (run : List UInt8) (k : Kernel) : Kernel.SendsCrt (keyboardRun run) k := by
  induction run generalizing k with
  | nil => exact ⟨k, [], rfl, fun _ hw => absurd hw List.not_mem_nil, fun _ => rfl⟩
  | cons data run ih =>
    obtain ⟨k1, sent1, hk1, hsent1, hports1⟩ := keyboardCallback_sends data k
    obtain ⟨k2, sent2, hk2, hsent2, hports2⟩ := ih k1
    refine ⟨k2, sent2 ++ sent1, ?_, fun write hw => ?_, fun ps => ?_⟩
    · rw [keyboardRun, Run.run_cons, hk1]
      exact hk2
    · exact (List.mem_append.1 hw).elim (hsent2 write) (hsent1 write)
    · rw [keyboardRun, Run.run_cons, hports1 ps, List.append_assoc]
      exact hports2 (sent1 ++ ps)

theorem Kernel.withPorts_self (k : Kernel) : k.withPorts k.vga.ports = k := rfl

/-- What was sent to the CRT controller. -/
def crtSent (ps : List (UInt16 × UInt8)) : List (UInt16 × UInt8) :=
  ps.filter fun write => write.1 = fbCommandPort ∨ write.1 = fbDataPort

theorem crtSent_append {sent : List (UInt16 × UInt8)}
    (h : ∀ write ∈ sent, write.1 = fbCommandPort ∨ write.1 = fbDataPort) (ps : List (UInt16 × UInt8)) :
    crtSent (sent ++ ps) = sent ++ crtSent ps := by
  rw [crtSent, List.filter_append, List.filter_eq_self.2 fun write hw => decide_eq_true (h write hw)]
  rfl

end HavenOS
