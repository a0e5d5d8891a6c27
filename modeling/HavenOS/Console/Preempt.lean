/-
`fb_move_cursor` as `kmain` calls it, with the interrupts on: between any two of its instructions keys
are handled, each of them as a whole, and move the cursor too. Whatever they do, only a low byte that is
loaded, and then sent after the cursor has moved on, leaves the hardware cursor in the wrong place.
-/
import HavenOS.Console.Crtc

namespace HavenOS

/-! ## The instructions -/

/-- The stores to `cursor_pos` and to the ports, and the loads of what is sent. -/
inductive Instruction where
  | store (pos : UInt16)
  | select (register : UInt8)
  | loadHigh
  | loadLow
  | send
deriving DecidableEq, Repr

def highByte (pos : Int16) : UInt8 := ((pos >>> 8) &&& 0x00FF).toUInt16.toUInt8

def lowByte (pos : Int16) : UInt8 := (pos &&& 0x00FF).toUInt16.toUInt8

/-- The console, with the byte that waits to be sent. -/
def Instruction.run : Instruction → Vga × UInt8 → Vga × UInt8
  | store pos, (v, byte) => ({ v with cursorPos := pos.toInt16 }, byte)
  | select register, (v, byte) => (v.outb fbCommandPort register, byte)
  | loadHigh, (v, _) => (v, highByte v.cursorPos)
  | loadLow, (v, _) => (v, lowByte v.cursorPos)
  | send, (v, byte) => (v.outb fbDataPort byte, byte)

def moveCursorCode (pos : UInt16) : List Instruction :=
  [.store pos, .select fbHighByteCommand, .loadHigh, .send, .select fbLowByteCommand, .loadLow, .send]

/-- The instructions without an interrupt are `fb_move_cursor`. -/
theorem moveCursorCode_run (pos : UInt16) (v : Vga) (byte : UInt8) :
    ((moveCursorCode pos).foldl (fun p i => i.run p) (v, byte)).1 = fbMoveCursor pos v := rfl

/-- The kernel in the middle of them. -/
structure Preempted where
  kernel : Kernel
  byte : UInt8
  rest : List Instruction

/-- The next instruction, or a key. -/
def Preempted.step : Option UInt8 → Preempted → Option Preempted
  | none, p =>
    match p.rest with
    | [] => some p
    | i :: rest =>
      let (v, byte) := i.run (p.kernel.vga, p.byte)
      some ⟨p.kernel.onVga fun _ => v, byte, rest⟩
  | some data, p => (keyboardCallback data p.kernel).map fun k => { p with kernel := k }

/-- `fb_move_cursor(pos)` from its first instruction. -/
def Preempted.start (pos : UInt16) (k : Kernel) (byte : UInt8) : Preempted := ⟨k, byte, moveCursorCode pos⟩

/-! ## The controller -/

section
variable (c : Crtc) (v : Vga)

/-- Register 15 is selected and register 14 is right. -/
structure Parked : Prop where
  index : (c.after v.ports).index = fbLowByteCommand
  high : (c.after v.ports).registers fbHighByteCommand = highByte v.cursorPos

theorem parked_outCursor : Parked c (outCursor v) := ⟨rfl, rfl⟩

end

variable {c : Crtc}

/-- A right register 14 leaves it to register 15. -/
theorem coherent_iff_low {v : Vga} (h : (c.after v.ports).registers fbHighByteCommand = highByte v.cursorPos) :
    Coherent c v ↔ (c.after v.ports).registers fbLowByteCommand = lowByte v.cursorPos := by
  have hbytes := short_bytes v.cursorPos
  rw [Coherent, Crtc.cursor, h, ← hbytes, ← UInt8.toNat_inj]
  show ((((highByte v.cursorPos).toNat * 256 + _ : Nat) : Int) =
    (((highByte v.cursorPos).toNat * 256 + (lowByte v.cursorPos).toNat : Nat) : Int)) ↔ _
  omega

/-- The actions that set the cursor end in the four writes. -/
theorem KeyAction.onScreen_parked (a : KeyAction) (pd : UInt32) (v : Vga) :
    Parked c (a.onScreen pd v) ∨
      ((a.onScreen pd v).cursorPos = v.cursorPos ∧ (a.onScreen pd v).ports = v.ports) := by
  cases a with
  | nothing | shift | ctrl | alt => exact .inr ⟨rfl, rfl⟩
  | «return» | escape => exact .inl (parked_outCursor c _)
  | print | backspace | tab | delete | left | right | up | down => exact .inl (parked_outCursor c _)

theorem keyboardCallback_parked (data : UInt8) (k : Kernel) : ∃ k', keyboardCallback data k = some k' ∧
    (Parked c k'.vga ∨ (k'.vga.cursorPos = k.vga.cursorPos ∧ k'.vga.ports = k.vga.ports)) := by
  obtain ⟨k', hk, hvga, -⟩ := keyboardCallback_spec data k
  have hscreen := (keyAction data (k.kbShift ≠ 0)).onScreen_parked (c := c) (k.directories 1) k.vga
  rw [← hvga] at hscreen
  exact ⟨k', hk, hscreen⟩

/-! ## Between the instructions -/

/-- What the controller holds in front of each instruction, however many keys came before. -/
inductive Phase (c : Crtc) (pos : UInt16) : List Instruction → Vga → UInt8 → Prop where
  | start (v : Vga) (byte : UInt8) : Phase c pos (moveCursorCode pos) v byte
  | stored (v : Vga) (byte : UInt8) : Phase c pos ((moveCursorCode pos).drop 1) v byte
  | selected {v : Vga} (byte : UInt8) (h : (c.after v.ports).index = fbHighByteCommand ∨ Parked c v) :
    Phase c pos ((moveCursorCode pos).drop 2) v byte
  | loaded {v : Vga} {byte : UInt8}
    (h : ((c.after v.ports).index = fbHighByteCommand ∧ byte = highByte v.cursorPos) ∨ Parked c v) :
    Phase c pos ((moveCursorCode pos).drop 3) v byte
  | sent {v : Vga} (byte : UInt8) (h : (c.after v.ports).registers fbHighByteCommand = highByte v.cursorPos) :
    Phase c pos ((moveCursorCode pos).drop 4) v byte
  | parked {v : Vga} (byte : UInt8) (h : Parked c v) : Phase c pos ((moveCursorCode pos).drop 5) v byte
  | last {v : Vga} (byte : UInt8) (h : Parked c v) : Phase c pos ((moveCursorCode pos).drop 6) v byte
  | done (v : Vga) (byte : UInt8) : Phase c pos [] v byte

namespace Phase

variable {pos : UInt16} {rest : List Instruction} {v v' : Vga} {byte : UInt8}

/-- A key. -/
theorem key (h : Phase c pos rest v byte)
    (hkey : Parked c v' ∨ (v'.cursorPos = v.cursorPos ∧ v'.ports = v.ports)) : Phase c pos rest v' byte := by
  have hparked : Parked c v → Parked c v' := fun hbefore => by
    rcases hkey with hnow | ⟨hcursor, hports⟩
    · exact hnow
    · exact ⟨by rw [hports]; exact hbefore.index, by rw [hports, hcursor]; exact hbefore.high⟩
  cases h with
  | start => exact .start v' byte
  | stored => exact .stored v' byte
  | selected _ h =>
    refine .selected byte ?_
    rcases hkey with hnow | ⟨hcursor, hports⟩
    · exact .inr hnow
    · exact h.imp (fun hindex => by rw [hports]; exact hindex) hparked
  | loaded h =>
    refine .loaded ?_
    rcases hkey with hnow | ⟨hcursor, hports⟩
    · exact .inr hnow
    · exact h.imp (fun hindex => by rw [hports, hcursor]; exact hindex) hparked
  | sent _ h =>
    refine .sent byte ?_
    rcases hkey with hnow | ⟨hcursor, hports⟩
    · exact hnow.high
    · rw [hports, hcursor]
      exact h
  | parked _ h => exact .parked byte (hparked h)
  | last _ h => exact .last byte (hparked h)
  | done => exact .done v' byte

/-- The next instruction. -/
theorem next {i : Instruction} (h : Phase c pos (i :: rest) v byte) :
    Phase c pos rest (i.run (v, byte)).1 (i.run (v, byte)).2 := by
  generalize hcode : i :: rest = code at h
  cases h with
  | start => cases hcode; exact .stored _ _
  | stored => cases hcode; exact .selected _ (.inl rfl)
  | selected _ h =>
    cases hcode
    exact .loaded (h.imp (fun hindex => ⟨hindex, rfl⟩) id)
  | loaded h =>
    cases hcode
    refine .sent _ ?_
    show Function.update (c.after v.ports).registers (c.after v.ports).index byte fbHighByteCommand =
      highByte v.cursorPos
    rcases h with ⟨hindex, hbyte⟩ | hparked
    · rw [hindex, Function.update_self, hbyte]
    · rw [hparked.index, Function.update_of_ne (by decide), hparked.high]
  | sent _ h => cases hcode; exact .parked _ ⟨rfl, h⟩
  | parked _ h => cases hcode; exact .last _ h
  | last _ h => cases hcode; exact .done _ _
  | done => cases hcode

end Phase

/-- Any number of instructions and keys. -/
theorem Preempted.run_phase {pos : UInt16} (events : List (Option UInt8)) {p : Preempted}
    (h : Phase c pos p.rest p.kernel.vga p.byte) : ∃ p', Run.run Preempted.step events p = some p' ∧
      Phase c pos p'.rest p'.kernel.vga p'.byte ∧ p'.rest = p.rest.drop (events.countP Option.isNone) := by
  induction events generalizing p with
  | nil => exact ⟨p, rfl, h, rfl⟩
  | cons event events ih =>
    cases event with
    | some data =>
      obtain ⟨k, hk, hkey⟩ := keyboardCallback_parked (c := c) data p.kernel
      obtain ⟨p', hrun, hphase, hrest⟩ := ih (p := { p with kernel := k }) (h.key hkey)
      refine ⟨p', ?_, hphase, hrest⟩
      rw [Run.run_cons, Preempted.step, hk]
      exact hrun
    | none =>
      have hcount : List.countP Option.isNone (none :: events : List (Option UInt8)) =
          events.countP Option.isNone + 1 := List.countP_cons_of_pos rfl
      rw [Run.run_cons, hcount]
      cases hcode : p.rest with
      | nil =>
        obtain ⟨p', hrun, hphase, hrest⟩ := ih h
        have hstay : p.step none = some p := by rw [Preempted.step, hcode]
        rw [hstay]
        exact ⟨p', hrun, hphase, by rw [hrest, hcode, List.drop_nil, List.drop_nil]⟩
      | cons i rest =>
        rw [hcode] at h
        have hstep : p.step none = some ⟨p.kernel.onVga fun _ => (i.run (p.kernel.vga, p.byte)).1,
            (i.run (p.kernel.vga, p.byte)).2, rest⟩ := by rw [Preempted.step, hcode]
        obtain ⟨p', hrun, hphase, hrest⟩ := ih (p := ⟨p.kernel.onVga fun _ => (i.run (p.kernel.vga, p.byte)).1,
          (i.run (p.kernel.vga, p.byte)).2, rest⟩) h.next
        rw [hstep]
        exact ⟨p', hrun, hphase, hrest⟩

theorem Preempted.run_keys (keys : List UInt8) (p : Preempted) :
    ∃ k, Run.run Preempted.step (keys.map some) p = some { p with kernel := k } := by
  obtain ⟨k, hk⟩ := keyboardRun_total keys p.kernel
  refine ⟨k, ?_⟩
  induction keys generalizing p with
  | nil =>
    cases hk
    rfl
  | cons data keys ih =>
    obtain ⟨k1, hfirst, hrest⟩ := Option.bind_eq_some_iff.1
      ((Run.run_cons keyboardCallback data keys p.kernel).symm.trans hk)
    rw [List.map_cons, Run.run_cons, Preempted.step, hfirst]
    exact ih { p with kernel := k1 } hrest

/-! ## The race -/

/-- Keys may come in front of, between and behind the first five instructions: once the last byte is sent the
hardware cursor is at `cursor_pos` exactly when the keys since that byte was loaded have left the low byte
of `cursor_pos` as it was. -/
theorem moveCursor_race_iff (c : Crtc) (pos : UInt16) (k : Kernel) (byte : UInt8) {before : List (Option UInt8)}
    (hfive : before.countP Option.isNone = 5) (keys : List UInt8) : ∃ p0 p1 p2,
      Run.run Preempted.step before (.start pos k byte) = some p0 ∧
      Run.run Preempted.step (none :: keys.map some) p0 = some p1 ∧ p1.step none = some p2 ∧ p2.rest = [] ∧
      (Coherent c p2.kernel.vga ↔ lowByte p1.kernel.vga.cursorPos = lowByte p0.kernel.vga.cursorPos) := by
  obtain ⟨p0, hbefore, hphase, hrest⟩ := Preempted.run_phase before (p := .start pos k byte)
    (.start (c := c) k.vga byte)
  rw [hfive] at hrest
  have hcode : p0.rest = [.loadLow, .send] := hrest
  have hload : p0.step none = some ⟨p0.kernel, lowByte p0.kernel.vga.cursorPos, [.send]⟩ := by
    rw [Preempted.step, hcode]
    rfl
  obtain ⟨k1, hkeys⟩ := Preempted.run_keys keys ⟨p0.kernel, lowByte p0.kernel.vga.cursorPos, [.send]⟩
  obtain ⟨p1, hrun, hlast, -⟩ := Preempted.run_phase (none :: keys.map some) hphase
  have hsame : p1 = ⟨k1, lowByte p0.kernel.vga.cursorPos, [.send]⟩ := by
    rw [Run.run_cons, hload] at hrun
    exact Option.some.inj (hrun.symm.trans hkeys)
  subst hsame
  refine ⟨p0, _, _, hbefore, hrun, rfl, rfl, ?_⟩
  have hparked : Parked c k1.vga := by
    generalize hsend : [Instruction.send] = rest at hlast
    cases hlast with
    | last _ h => exact h
    | start | stored | selected | loaded | sent | parked | done => cases hsend
  have hhigh : (c.after (k1.vga.outb fbDataPort (lowByte p0.kernel.vga.cursorPos)).ports).registers fbHighByteCommand =
      highByte k1.vga.cursorPos := by
    show Function.update (c.after k1.vga.ports).registers (c.after k1.vga.ports).index _ fbHighByteCommand = _
    rw [hparked.index, Function.update_of_ne (by decide), hparked.high]
  have hlow : (c.after (k1.vga.outb fbDataPort (lowByte p0.kernel.vga.cursorPos)).ports).registers fbLowByteCommand =
      lowByte p0.kernel.vga.cursorPos := by
    show Function.update (c.after k1.vga.ports).registers (c.after k1.vga.ports).index _ fbLowByteCommand = _
    rw [hparked.index, Function.update_self]
  have hcoherent := coherent_iff_low hhigh
  rw [hlow] at hcoherent
  exact hcoherent.trans eq_comm

/-- The right arrow just before the last byte is sent. -/
theorem moveCursor_race_right : ∃ p0 p1 p2,
    Run.run Preempted.step (List.replicate 5 none) (.start 3 (.start .powerOn) 0) = some p0 ∧
    Run.run Preempted.step (none :: [0x4D].map some) p0 = some p1 ∧ p1.step none = some p2 ∧ p2.rest = [] ∧
    (Coherent ⟨0, fun _ => 0⟩ p2.kernel.vga ↔ lowByte p1.kernel.vga.cursorPos = lowByte p0.kernel.vga.cursorPos) :=
  moveCursor_race_iff ⟨0, fun _ => 0⟩ 3 (.start .powerOn) 0 (by decide) [0x4D]

end HavenOS
