/-
The machine as a whole: the processor with its table registers, the tables in memory, the console and
the paging, the interrupt controllers, the controller of the keyboard and the serial port; what an
interrupt runs (isr.c, `timer_callback` and `keyboard_callback`), and what can happen next. The tables,
the stack, the page tables and the frame buffer are different parts of memory. The registers that a
statement of `kmain` leaves are up to the compiler and are left as they were.
-/
import HavenOS.Console.Ports
import HavenOS.Interrupt.Gdt
import HavenOS.Interrupt.Idt
import HavenOS.Interrupt.RoundTrip
import HavenOS.Interrupt.Timer
import HavenOS.Lib.Pic
import HavenOS.Lib.Segmentation
import HavenOS.Serial.Log

namespace HavenOS

open Ram X86

/-! ## Addresses -/

/-- Where the linker puts the tables and the code. -/
structure Addresses where
  gdtEntries : UInt32
  gdtPtr : UInt32
  idtEntries : UInt32
  idtPtr : UInt32
  interruptHandlers : UInt32
  isr : Nat → UInt32
  irq : Nat → UInt32
  timerCallback : UInt32
  keyboardCallback : UInt32

/-- The stub of a vector. -/
def Addresses.stub (sym : Addresses) (v : Nat) : UInt32 := if v < 32 then sym.isr v else sym.irq (v - 32)

/-- Different things are at different places, and no function is at the null pointer. -/
structure Symbols extends Addresses where
  layout : Layout
  gdtPtr_gdt : Ram.Apart gdtPtr 6 gdtEntries 40
  idtPtr_gdt : Ram.Apart idtPtr 6 gdtEntries 40
  idt_gdt : Ram.Apart idtEntries 2048 gdtEntries 40
  idtPtr_idt : Ram.Apart idtPtr 6 idtEntries 2048
  handlers_gdt : Ram.Apart interruptHandlers 1024 gdtEntries 40
  handlers_idt : Ram.Apart interruptHandlers 1024 idtEntries 2048
  stubs_distinct : ∀ v < 48, ∀ w < 48, toAddresses.stub v = toAddresses.stub w → v = w
  timer_ne_null : timerCallback ≠ 0
  keyboard_ne_null : keyboardCallback ≠ 0
  callbacks_distinct : timerCallback ≠ keyboardCallback

/-- The vector whose stub starts at an address. -/
def Addresses.stubAt (sym : Addresses) (a : UInt32) : Option Nat := (List.range 48).find? fun v => sym.stub v = a

/-- Compiled C code, as its calling convention has it. -/
structure Compiled extends Env where
  returns : toEnv.Returns
  keepsArguments : toEnv.KeepsArguments

/-! ## The state -/

/-- What `lgdt` and `lidt` load. -/
structure TableRegister where
  limit : UInt16
  base : UInt32
deriving DecidableEq, Repr

/-- The bytes that reads of the data port have given so far, the latest first, and those that wait. The next
one is put on the port, with a request, once the port has been read. -/
structure KeyboardController where
  read : List UInt8
  queue : List UInt8

/-- The statements of `kmain` from `sti` on. -/
inductive Statement where
  | initTimer
  | initKeyboard
  | clear
  | moveCursor
  | printCell
deriving DecidableEq, Repr

structure System where
  cpu : Cpu
  gdtr : TableRegister
  idtr : TableRegister
  ram : Ram
  kernel : Kernel
  pics : Pic.Pair
  keys : KeyboardController
  serial : Serial
  tick : UInt32
  todo : List Statement

theorem timer_input : 0 < 8 := by decide

theorem timer_free : (⟨0, timer_input⟩ : Fin 8) ≠ 2 := by decide

theorem keyboard_input : 1 < 8 := by decide

theorem keyboard_free : (⟨1, keyboard_input⟩ : Fin 8) ≠ 2 := by decide

/-- Input 0 of the first controller, the timer. -/
def timerLine : Pic.Line := .master ⟨0, timer_input⟩ timer_free

/-- Input 1, the keyboard. -/
def keyboardLine : Pic.Line := .master ⟨1, keyboard_input⟩ keyboard_free

/-! ## Ports -/

/-- A byte sent to a port, as the interrupt controllers see it. -/
def busWrite (write : UInt16 × UInt8) (p : Pic.Pair) : Pic.Pair :=
  if write.1 = pic1Command then p.out write.2 .masterCommand
  else if write.1 = pic1Data then p.out write.2 .masterData
  else if write.1 = pic2Command then p.out write.2 .slaveCommand
  else if write.1 = pic2Data then p.out write.2 .slaveData
  else p

/-- What was sent between two histories, latest first. -/
def received (before after : List (UInt16 × UInt8)) (p : Pic.Pair) : Pic.Pair :=
  (after.take (after.length - before.length)).foldr busWrite p

namespace System

variable (s : System)

def outb (port : UInt16) (data : UInt8) : System :=
  { s with kernel := s.kernel.onVga (·.outb port data), pics := busWrite (port, data) s.pics }

/-- A part of the kernel runs; the controllers get what it sends. -/
def onKernel (f : Kernel → Option Kernel) : Option System :=
  (f s.kernel).bind fun k =>
    some { s with kernel := k, pics := received s.kernel.vga.ports k.vga.ports s.pics }

/-- A part that acts on the tables and the console. -/
def onBoard (f : Board → Option Board) : Option System :=
  (f ⟨s.ram, s.kernel.vga⟩).bind fun b =>
    some { s with
      ram := b.ram, kernel := s.kernel.onVga fun _ => b.vga,
      pics := received s.kernel.vga.ports b.vga.ports s.pics }

/-- A device makes a request. -/
def raise (line : Pic.Line) : System := { s with pics := s.pics.raise line }

/-- A byte arrives from the keyboard. -/
def press (code : UInt8) : System :=
  let waiting := { s with keys := { s.keys with queue := s.keys.queue ++ [code] } }
  if s.keys.queue = [] then waiting.raise keyboardLine else waiting

/-- `inb(KBD_DATA_PORT)`; with nothing new on the port it gives the last byte once more. -/
def readKey : UInt8 × System :=
  match s.keys.queue with
  | [] =>
    let code := s.keys.read.headD 0
    (code, { s with keys := ⟨code :: s.keys.read, []⟩ })
  | code :: queue =>
    let rest := { s with keys := ⟨code :: s.keys.read, queue⟩ }
    (code, if queue = [] then rest else rest.raise keyboardLine)

/-! ## isr.c -/

/-- `interrupt_handlers[n]`. -/
def handler (sym : Addresses) (n : UInt32) : UInt32 := Words.read s.ram.val (sym.interruptHandlers + 4 * n)

end System

/-- What is done every 50 ticks is commented out. -/
def timerCallback (_regs : Registers) (s : System) : System := { s with tick := s.tick + 1 }

/-- The handler with its `inb`. -/
def keyboardInterrupt (_regs : Registers) (s : System) : Option System :=
  let (data, s) := s.readKey
  s.onKernel (HavenOS.keyboardCallback data)

section
variable (sym : Addresses)

/-- `handler(regs)`; `none` where no function starts. -/
def callPointer (pointer : UInt32) (regs : Registers) (s : System) : Option System :=
  if pointer = sym.timerCallback then some (timerCallback regs s)
  else if pointer = sym.keyboardCallback then keyboardInterrupt regs s
  else none

def isrHandler (regs : Registers) (s : System) : Option System :=
  if s.handler sym regs.intNo ≠ 0 then callPointer sym (s.handler sym regs.intNo) regs s else some s

def irqHandler (regs : Registers) (s : System) : Option System :=
  -- the second controller first
  let s := if regs.intNo ≥ 40 then s.outb 0xA0 0x20 else s
  let s := s.outb 0x20 0x20
  if s.handler sym regs.intNo ≠ 0 then callPointer sym (s.handler sym regs.intNo) regs s else some s

/-- A call that a stub makes. -/
def Handler.run : Handler × Registers → System → Option System
  | (.isrHandler, regs) => HavenOS.isrHandler sym regs
  | (.irqHandler, regs) => HavenOS.irqHandler sym regs

/-! ## Interrupts -/

def System.gate (s : System) (v : Nat) : Gate := Gate.decode (entryBytes s.ram.val s.idtr.base v)

/-- Every selector is taken for one of the GDT, whatever its table indicator: no local table is ever loaded. -/
def System.segment (s : System) (selector : UInt16) : Segment :=
  Segment.decode (entryBytes s.ram.val s.gdtr.base (selector.toNat / 8))

/-- The segments that the gates and the stubs name. -/
def System.hasSegments (s : System) : Bool :=
  0x17 ≤ s.gdtr.limit.toNat && (s.segment 0x08).isCode && (s.segment 0x10).isData

/-- The processor takes the vector `v`, up to the end of its stub; the calls the stub has made are
run as it made them. `none` where the gate, a segment or the stub is missing. -/
def System.deliver (env : Compiled) (v : Nat) (errorCode : UInt32) (s : System) : Option System := do
  guard (8 * v + 7 ≤ s.idtr.limit.toNat ∧ (s.gate v).isInterrupt ∧ (s.gate v).selector = 0x08 ∧ s.hasSegments)
  let n ← sym.stubAt (s.gate v).offset
  let code ← stubs[n]?
  let cpu := exec env.toEnv code (interrupt v errorCode s.cpu)
  Run.run (Handler.run sym) (cpu.calls.take (cpu.calls.length - s.cpu.calls.length)).reverse { s with cpu := cpu }

/-! ## What can happen -/

/-- Requests come at any time; interrupts and exceptions are taken between the statements of `kmain`, never
inside one. What a key does inside `fb_move_cursor` is in Console.Preempt. -/
inductive Event where
  | timer
  | key (code : UInt8)
  | device (line : Pic.Line) (other : line ≠ timerLine ∧ line ≠ keyboardLine)
  | fault (v : Nat) (errorCode : UInt32) (ordinary : v < 32 ∧ v ≠ 17)
  | interrupt
  | proceed

end

def irq1 : UInt8 := 33

/-- A statement of `kmain`. -/
def Statement.run (sym : Addresses) (s : System) : Statement → Option System
  | initTimer => s.onBoard (HavenOS.initTimer sym.interruptHandlers sym.timerCallback 50)
  | initKeyboard =>
    s.onBoard fun b => some (registerInterruptHandler sym.interruptHandlers irq1 sym.keyboardCallback b)
  | clear => s.onKernel fun k => some (k.onVga fun v => { v with fb := fbClear 0 15 v.fb })
  | moveCursor => s.onKernel fun k => some (k.onVga (fbMoveCursor 3))
  | printCell => s.onKernel fun k => some (k.onVga (fbPrintCell 62 0 15))

/-- The timer or another device makes a request, a byte arrives from the keyboard, the program causes an
exception other than the alignment check, the processor takes an interrupt if there is one and it may,
or it goes on with `kmain` by a whole statement; `kmain` ends in an empty loop. -/
def Event.run (sym : Addresses) (env : Compiled) : Event → System → Option System
  | timer, s => some (s.raise timerLine)
  | key code, s => some (s.press code)
  | device line _, s => some (s.raise line)
  | fault v errorCode _, s => s.deliver sym env v errorCode
  | interrupt, s =>
    if s.cpu.eflags &&& 0x200 ≠ 0 then
      match s.pics.acknowledge with
      | some (v, pics) => { s with pics := pics }.deliver sym env v.toNat 0
      | none => some s
    else some s
  | proceed, s =>
    match s.todo with
    | statement :: todo => statement.run sym { s with todo := todo }
    | [] => some s

/-- One event after another. -/
def System.run (sym : Addresses) (env : Compiled) (events : List Event) (s : System) : Option System :=
  Run.run (Event.run sym env) events s

end HavenOS
