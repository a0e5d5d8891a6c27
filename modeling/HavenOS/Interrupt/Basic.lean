/-
interrupt.s: the processor state, the instructions the stubs are made of, the stubs of the 48
vectors, and what the processor itself pushes at an interrupt without a change of privilege. The
common stubs are reached by a jump and every call returns, so a stub is a list of instructions
and `eip` is only set by `iret`.
-/
import HavenOS.Lib.Words

namespace HavenOS

/-- `registers_t`. -/
structure Registers where
  ds : UInt32
  edi : UInt32
  esi : UInt32
  ebp : UInt32
  uselessValue : UInt32
  ebx : UInt32
  edx : UInt32
  ecx : UInt32
  eax : UInt32
  intNo : UInt32
  errCode : UInt32
  eip : UInt32
  cs : UInt32
  eflags : UInt32
  esp : UInt32
  ss : UInt32
deriving DecidableEq, Repr

/-- The structure at address `a`, field by field. -/
def readRegisters (m : Words.Memory) (a : UInt32) : Registers :=
  let field := fun i : Nat => Words.read m (a + 4 * UInt32.ofNat i)
  ⟨field 0, field 1, field 2, field 3, field 4, field 5, field 6, field 7, field 8, field 9, field 10, field 11,
    field 12, field 13, field 14, field 15⟩

inductive Handler where
  | isrHandler
  | irqHandler
deriving DecidableEq, Repr

/-- The processor and memory, with the C functions called so far and their arguments, latest
first. -/
structure Cpu where
  eax : UInt32
  ecx : UInt32
  edx : UInt32
  ebx : UInt32
  esp : UInt32
  ebp : UInt32
  esi : UInt32
  edi : UInt32
  ds : UInt16
  es : UInt16
  fs : UInt16
  gs : UInt16
  cs : UInt16
  eip : UInt32
  eflags : UInt32
  memory : Words.Memory
  calls : List (Handler × Registers)

/-- What is not in interrupt.s: a call of a C function up to its return, and the flags `add`
leaves for the old flags and its operands. -/
structure Env where
  body : Handler → Cpu → Cpu
  addFlags : UInt32 → UInt32 → UInt32 → UInt32

/-! ## Instructions -/

/-- The general registers an operand names. -/
inductive Reg where
  | eax
  | ebx
deriving DecidableEq, Repr

inductive Seg where
  | ds
  | es
  | fs
  | gs
deriving DecidableEq, Repr

inductive Instr where
  | cli
  | sti
  | pushByte (imm : UInt8)
  | pusha
  | movAxDs
  | movAx (imm : UInt16)
  | movSeg (seg : Seg) (r : Reg)
  | push (r : Reg)
  | pop (r : Reg)
  | call (h : Handler)
  | popa
  | addEsp (imm : UInt32)
  | iret
deriving DecidableEq, Repr

namespace Cpu

def reg (c : Cpu) : Reg → UInt32
  | .eax => c.eax
  | .ebx => c.ebx

def setReg (c : Cpu) : Reg → UInt32 → Cpu
  | .eax, x => { c with eax := x }
  | .ebx, x => { c with ebx := x }

def setSeg (c : Cpu) : Seg → UInt16 → Cpu
  | .ds, x => { c with ds := x }
  | .es, x => { c with es := x }
  | .fs, x => { c with fs := x }
  | .gs, x => { c with gs := x }

/-- A register with its low 16 bits replaced. -/
def setLow (r : UInt32) (x : UInt16) : UInt32 := UInt32.ofNat (r.toNat / 2 ^ 16 * 2 ^ 16 + x.toNat)

def push (c : Cpu) (x : UInt32) : Cpu :=
  { c with esp := c.esp - 4, memory := Words.write c.memory (c.esp - 4) x }

/-- The word on top of the stack, and the processor without it. -/
def pop (c : Cpu) : UInt32 × Cpu := (Words.read c.memory c.esp, { c with esp := c.esp + 4 })

def pusha (c : Cpu) : Cpu :=
  let esp := c.esp
  (((((((c.push c.eax).push c.ecx).push c.edx).push c.ebx).push esp).push c.ebp).push c.esi).push c.edi

/-- The word for `esp` is skipped. -/
def popa (c : Cpu) : Cpu :=
  let (edi, c) := c.pop
  let (esi, c) := c.pop
  let (ebp, c) := c.pop
  let (_, c) := c.pop
  let (ebx, c) := c.pop
  let (edx, c) := c.pop
  let (ecx, c) := c.pop
  let (eax, c) := c.pop
  { c with edi := edi, esi := esi, ebp := ebp, ebx := ebx, edx := edx, ecx := ecx, eax := eax }

/-- Back to the interrupted program, on the same privilege level. -/
def iret (c : Cpu) : Cpu :=
  let (eip, c) := c.pop
  let (cs, c) := c.pop
  let (eflags, c) := c.pop
  { c with eip := eip, cs := cs.toUInt16, eflags := eflags }

end Cpu

/-- One instruction. The argument of a C function stands on top of the stack when it is called. -/
def step (env : Env) : Instr → Cpu → Cpu
  | .cli, c => { c with eflags := c.eflags &&& 0xFFFFFDFF }
  | .sti, c => { c with eflags := c.eflags ||| 0x00000200 }
  | .pushByte imm, c => c.push imm.toInt8.toInt32.toUInt32
  | .pusha, c => c.pusha
  | .movAxDs, c => { c with eax := Cpu.setLow c.eax c.ds }
  | .movAx imm, c => { c with eax := Cpu.setLow c.eax imm }
  | .movSeg seg r, c => c.setSeg seg (c.reg r).toUInt16
  | .push r, c => c.push (c.reg r)
  | .pop r, c => c.pop.2.setReg r c.pop.1
  | .call h, c => { env.body h c with calls := (h, readRegisters c.memory c.esp) :: c.calls }
  | .popa, c => c.popa
  | .addEsp imm, c => { c with esp := c.esp + imm, eflags := env.addFlags c.eflags c.esp imm }
  | .iret, c => c.iret

def exec (env : Env) (code : List Instr) (c : Cpu) : Cpu := code.foldl (fun c i => step env i c) c

/-! ## The stubs -/

def isrCommonStub : List Instr :=
  [.pusha, .movAxDs, .push .eax,
   .movAx 0x10, .movSeg .ds .eax, .movSeg .es .eax, .movSeg .fs .eax, .movSeg .gs .eax,
   .call .isrHandler,
   .pop .eax, .movSeg .ds .eax, .movSeg .es .eax, .movSeg .fs .eax, .movSeg .gs .eax,
   .popa, .addEsp 8, .sti, .iret]

def irqCommonStub : List Instr :=
  [.pusha, .movAxDs, .push .eax,
   .movAx 0x10, .movSeg .ds .eax, .movSeg .es .eax, .movSeg .fs .eax, .movSeg .gs .eax,
   .call .irqHandler,
   .pop .ebx, .movSeg .ds .ebx, .movSeg .es .ebx, .movSeg .fs .ebx, .movSeg .gs .ebx,
   .popa, .addEsp 8, .sti, .iret]

def isrNoErrCode (n : UInt8) : List Instr := [.cli, .pushByte 0, .pushByte n] ++ isrCommonStub
def isrErrCode (n : UInt8) : List Instr := [.cli, .pushByte n] ++ isrCommonStub
def irq (_irq n : UInt8) : List Instr := [.cli, .pushByte 0, .pushByte n] ++ irqCommonStub

/-- The stubs in the order of their vectors. -/
def stubs : List (List Instr) :=
  [isrNoErrCode 0, isrNoErrCode 1, isrNoErrCode 2, isrNoErrCode 3, isrNoErrCode 4, isrNoErrCode 5, isrNoErrCode 6,
   isrNoErrCode 7, isrErrCode 8, isrNoErrCode 9, isrErrCode 10, isrErrCode 11, isrErrCode 12, isrErrCode 13,
   -- 17 has the macro of the exceptions without an error code
   isrErrCode 14, isrNoErrCode 15, isrNoErrCode 16, isrNoErrCode 17, isrNoErrCode 18, isrNoErrCode 19,
   isrNoErrCode 20, isrNoErrCode 21, isrNoErrCode 22, isrNoErrCode 23, isrNoErrCode 24, isrNoErrCode 25,
   isrNoErrCode 26, isrNoErrCode 27, isrNoErrCode 28, isrNoErrCode 29, isrNoErrCode 30, isrNoErrCode 31,
   irq 0 32, irq 1 33, irq 2 34, irq 3 35, irq 4 36, irq 5 37, irq 6 38, irq 7 39, irq 8 40, irq 9 41, irq 10 42,
   irq 11 43, irq 12 44, irq 13 45, irq 14 46, irq 15 47]

/-! ## The processor at an interrupt -/

/-- The exceptions for which the processor pushes an error code. -/
def pushesErrorCode (v : Nat) : Bool := v ∈ [8, 10, 11, 12, 13, 14, 17]

/-- What the processor does before the first instruction of the stub: the gates are interrupt
gates with selector 8, so IF is cleared with TF, NT and RF. -/
def interrupt (v : Nat) (errorCode : UInt32) (c : Cpu) : Cpu :=
  let c := ((c.push c.eflags).push c.cs.toUInt32).push c.eip
  let c := if pushesErrorCode v then c.push errorCode else c
  { c with cs := 0x08, eflags := c.eflags &&& 0xFFFEBCFF }

end HavenOS
