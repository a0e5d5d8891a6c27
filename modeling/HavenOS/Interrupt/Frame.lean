/-
The stack under an interrupt: what the processor and a stub have pushed when the common stub is
reached, what the common stub passes to the C handler, and what it resumes.
-/
import HavenOS.Interrupt.Basic

namespace HavenOS

open Words

/-! ## Promises -/

/-- A call gives the stack pointer back, as the C calling convention has it. -/
def Env.Returns (env : Env) : Prop := ∀ h c, (env.body h c).esp = c.esp

/-- The handlers leave their argument area, the sixteen words of `registers_t`, as it is. -/
def Env.KeepsArguments (env : Env) : Prop := ∀ h c, ∀ i < 16,
  Words.read (env.body h c).memory (c.esp + 4 * UInt32.ofNat i) = Words.read c.memory (c.esp + 4 * UInt32.ofNat i)

/-- `isr_handler` below 32, `irq_handler` from 32 on. -/
def handlerOf (v : Nat) : Handler := if v < 32 then .isrHandler else .irqHandler

/-- The interrupted program goes on with the registers it had. -/
structure Resumed (c c' : Cpu) : Prop where
  eax : c'.eax = c.eax
  ecx : c'.ecx = c.ecx
  edx : c'.edx = c.edx
  ebx : c'.ebx = c.ebx
  esp : c'.esp = c.esp
  ebp : c'.ebp = c.ebp
  esi : c'.esi = c.esi
  edi : c'.edi = c.edi
  ds : c'.ds = c.ds
  es : c'.es = c.es
  fs : c'.fs = c.fs
  gs : c'.gs = c.gs
  cs : c'.cs = c.cs
  eip : c'.eip = c.eip
  eflags : c'.eflags = c.eflags

/-! ## Down to the call -/

theorem setLow_toUInt16 (r : UInt32) (x : UInt16) : (Cpu.setLow r x).toUInt16 = x := by
  apply UInt16.toNat_inj.1
  have hr := r.toNat_lt
  have hx := x.toNat_lt
  rw [UInt32.toNat_toUInt16, Cpu.setLow, UInt32.toNat_ofNat']
  omega

theorem Cpu.push_holds {c : Cpu} {ws : List UInt32} (h : Holds c.memory c.esp ws)
    (hlen : ws.length < 2 ^ 29) (x : UInt32) :
    Holds (c.push x).memory (c.push x).esp (x :: ws) := h.push hlen x

section
variable (c : Cpu) (x : UInt32)

@[simp] theorem Cpu.push_esp : (c.push x).esp = c.esp - 4 := rfl
@[simp] theorem Cpu.push_eax : (c.push x).eax = c.eax := rfl
@[simp] theorem Cpu.push_ds : (c.push x).ds = c.ds := rfl
@[simp] theorem Cpu.push_calls : (c.push x).calls = c.calls := rfl

end

/-- Both common stubs up to the call. -/
def saveContext : List Instr :=
  [.pusha, .movAxDs, .push .eax,
   .movAx 0x10, .movSeg .ds .eax, .movSeg .es .eax, .movSeg .fs .eax, .movSeg .gs .eax]

/-- What the common stubs put on the stack, on top of what `c` has there. -/
def savedContext (c : Cpu) : List UInt32 :=
  [Cpu.setLow c.eax c.ds, c.edi, c.esi, c.ebp, c.esp, c.ebx, c.edx, c.ecx, c.eax]

section
variable {c : Cpu} {ws : List UInt32}

theorem Cpu.pusha_holds (h : Holds c.memory c.esp ws) (hlen : ws.length < 1000) :
    Holds c.pusha.memory c.pusha.esp ([c.edi, c.esi, c.ebp, c.esp, c.ebx, c.edx, c.ecx, c.eax] ++ ws) := by
  have h1 := Cpu.push_holds h (by omega) c.eax
  have h2 := Cpu.push_holds h1 (by simp only [List.length_cons]; omega) c.ecx
  have h3 := Cpu.push_holds h2 (by simp only [List.length_cons]; omega) c.edx
  have h4 := Cpu.push_holds h3 (by simp only [List.length_cons]; omega) c.ebx
  have h5 := Cpu.push_holds h4 (by simp only [List.length_cons]; omega) c.esp
  have h6 := Cpu.push_holds h5 (by simp only [List.length_cons]; omega) c.ebp
  have h7 := Cpu.push_holds h6 (by simp only [List.length_cons]; omega) c.esi
  have h8 := Cpu.push_holds h7 (by simp only [List.length_cons]; omega) c.edi
  exact h8

theorem Cpu.pusha_esp (c : Cpu) : c.pusha.esp = c.esp - 32 := by
  simp only [Cpu.pusha, Cpu.push_esp]
  grind

theorem Cpu.pusha_frame (c : Cpu) : c.pusha.eax = c.eax ∧ c.pusha.ds = c.ds ∧ c.pusha.calls = c.calls := by
  simp only [Cpu.pusha, Cpu.push_eax, Cpu.push_ds, Cpu.push_calls, and_self]

theorem exec_cons (env : Env) (i : Instr) (code : List Instr) (c : Cpu) :
    exec env (i :: code) c = exec env code (step env i c) := rfl

theorem exec_append (env : Env) (code code' : List Instr) (c : Cpu) :
    exec env (code ++ code') c = exec env code' (exec env code c) := List.foldl_append ..

/-- An instruction that only moves registers leaves the stack and the calls. -/
structure SameStack (c c' : Cpu) : Prop where
  memory : c'.memory = c.memory
  esp : c'.esp = c.esp
  calls : c'.calls = c.calls

theorem SameStack.trans {c c' c'' : Cpu} (h : SameStack c c') (h' : SameStack c' c'') : SameStack c c'' :=
  ⟨h'.memory.trans h.memory, h'.esp.trans h.esp, h'.calls.trans h.calls⟩

theorem movAx_sameStack (env : Env) (imm : UInt16) (c : Cpu) : SameStack c (step env (.movAx imm) c) := by
  cases c; exact ⟨rfl, rfl, rfl⟩

theorem movAxDs_sameStack (env : Env) (c : Cpu) : SameStack c (step env .movAxDs c) := by
  cases c; exact ⟨rfl, rfl, rfl⟩

theorem movSeg_sameStack (env : Env) (seg : Seg) (r : Reg) (c : Cpu) : SameStack c (step env (.movSeg seg r) c) := by
  cases c; cases seg <;> exact ⟨rfl, rfl, rfl⟩

theorem movAxDs_eax (env : Env) (c : Cpu) : (step env .movAxDs c).eax = Cpu.setLow c.eax c.ds := by
  cases c; rfl

/-- The kernel's data segments. -/
def loadSegments : List Instr := [.movAx 0x10, .movSeg .ds .eax, .movSeg .es .eax, .movSeg .fs .eax, .movSeg .gs .eax]

theorem loadSegments_sameStack (env : Env) (c : Cpu) : SameStack c (exec env loadSegments c) := by
  rw [loadSegments, exec_cons, exec_cons, exec_cons, exec_cons, exec_cons]
  refine (movAx_sameStack env 0x10 c).trans ?_
  generalize step env (.movAx 0x10) c = q
  exact (movSeg_sameStack env .ds .eax q).trans ((movSeg_sameStack env .es .eax _).trans
    ((movSeg_sameStack env .fs .eax _).trans (movSeg_sameStack env .gs .eax _)))

theorem saveContext_holds (env : Env) (h : Holds c.memory c.esp ws) (hlen : ws.length < 1000) :
    Holds (exec env saveContext c).memory (exec env saveContext c).esp (savedContext c ++ ws) ∧
    (exec env saveContext c).esp = c.esp - 36 ∧ (exec env saveContext c).calls = c.calls := by
  have hcode : saveContext = .pusha :: .movAxDs :: .push .eax :: loadSegments := rfl
  rw [hcode, exec_cons, exec_cons, exec_cons]
  obtain ⟨hm, he, hc⟩ := loadSegments_sameStack env (step env (.push .eax) (step env .movAxDs (step env .pusha c)))
  rw [hm, he, hc]
  have hpusha := Cpu.pusha_holds h hlen
  have hesp := c.pusha_esp
  obtain ⟨heax, hds, hcalls⟩ := c.pusha_frame
  obtain ⟨hmemory, hstack, hlog⟩ := movAxDs_sameStack env c.pusha
  have hax := movAxDs_eax env c.pusha
  rw [heax, hds] at hax
  rw [← hmemory, ← hstack] at hpusha
  rw [← hstack] at hesp
  rw [← hlog] at hcalls
  have hstep : step env (.push .eax) (step env .movAxDs (step env .pusha c)) =
      (step env .movAxDs c.pusha).push (step env .movAxDs c.pusha).eax := rfl
  rw [hstep]
  generalize step env .movAxDs c.pusha = q at *
  rw [hax]
  refine ⟨?_, ?_, hcalls⟩
  · exact Cpu.push_holds hpusha (by simp only [List.length_append, List.length_cons, List.length_nil]; omega) _
  · rw [Cpu.push_esp, hesp]
    grind

end

/-! ## Back from the call -/

/-- A common stub from the return of the handler on; `r` takes the saved data segment. -/
def restoreContext (r : Reg) : List Instr :=
  [.pop r, .movSeg .ds r, .movSeg .es r, .movSeg .fs r, .movSeg .gs r, .popa, .addEsp 8, .sti, .iret]

section
variable (env : Env) (r : Reg) {c : Cpu}

/-- The registers after the return, from the words the stack holds. -/
theorem restoreContext_spec {dsWord edi esi ebp x ebx edx ecx eax n e eip cs eflags : UInt32} {ws : List UInt32}
    (h : Holds c.memory c.esp (dsWord :: edi :: esi :: ebp :: x :: ebx :: edx :: ecx :: eax :: n :: e :: eip :: cs ::
      eflags :: ws)) :
    exec env (restoreContext r) c = { c with
      edi := edi, esi := esi, ebp := ebp, ebx := ebx, edx := edx, ecx := ecx, eax := eax,
      ds := dsWord.toUInt16, es := dsWord.toUInt16, fs := dsWord.toUInt16, gs := dsWord.toUInt16,
      eip := eip, cs := cs.toUInt16, eflags := eflags, esp := c.esp + 56 } := by
  obtain ⟨h0, h1, h2, h3, -, h5, h6, h7, h8, -, -, h11, h12, h13, -⟩ := h
  have hadd : ∀ a : UInt32, a + 8 = a + 4 + 4 := by intro a; grind
  have hend : c.esp + 4 + 4 + 4 + 4 + 4 + 4 + 4 + 4 + 4 + 4 + 4 + 4 + 4 + 4 = c.esp + 56 := by grind
  cases r <;>
    simp only [restoreContext, exec, List.foldl_cons, List.foldl_nil, step, Cpu.pop, Cpu.setReg,
      Cpu.setSeg, Cpu.reg, Cpu.popa,
      Cpu.iret, hadd, h0, h1, h2, h3, h5, h6, h7, h8, h11, h12, h13, hend]

theorem restoreContext_calls (c : Cpu) : (exec env (restoreContext r) c).calls = c.calls := by
  cases r <;>
    simp only [restoreContext, exec, List.foldl_cons, List.foldl_nil, step, Cpu.pop, Cpu.setReg,
      Cpu.setSeg, Cpu.popa, Cpu.iret]

end

/-! ## A common stub -/

section
variable (env : Env) (handler : Handler) (r : Reg) {p : Cpu} {n e eip cs eflags : UInt32} {ws : List UInt32}
  (h : Holds p.memory p.esp (n :: e :: eip :: cs :: eflags :: ws)) (hlen : ws.length < 900)
include h hlen

/-- The call of a common stub that finds the five words of a frame on the stack. -/
theorem commonStub_call : ∃ esp ss, (exec env (saveContext ++ .call handler :: restoreContext r) p).calls =
    (handler, ⟨Cpu.setLow p.eax p.ds, p.edi, p.esi, p.ebp, p.esp, p.ebx, p.edx, p.ecx, p.eax, n, e, eip, cs, eflags,
      esp, ss⟩) :: p.calls := by
  obtain ⟨hholds, -, hcalls⟩ := saveContext_holds env h (by simp; omega)
  rw [exec_append, exec_cons, restoreContext_calls]
  generalize exec env saveContext p = q at *
  refine ⟨Words.read q.memory (q.esp + 4 * UInt32.ofNat 14), Words.read q.memory (q.esp + 4 * UInt32.ofNat 15), ?_⟩
  show (handler, readRegisters q.memory q.esp) :: q.calls = _
  rw [hcalls]
  congr 2
  unfold readRegisters
  simp only [hholds.getElem 0 _ rfl, hholds.getElem 1 _ rfl, hholds.getElem 2 _ rfl, hholds.getElem 3 _ rfl,
    hholds.getElem 4 _ rfl, hholds.getElem 5 _ rfl, hholds.getElem 6 _ rfl, hholds.getElem 7 _ rfl,
    hholds.getElem 8 _ rfl, hholds.getElem 9 _ rfl, hholds.getElem 10 _ rfl, hholds.getElem 11 _ rfl,
    hholds.getElem 12 _ rfl, hholds.getElem 13 _ rfl]

/-- What it resumes when the handler gives back the stack pointer and its argument. -/
theorem commonStub_resume (hreturns : env.Returns) (hkeeps : env.KeepsArguments) :
    Resumed
      { p with
        es := p.ds, fs := p.ds, gs := p.ds, esp := p.esp + 20, eip := eip, cs := cs.toUInt16,
        eflags := eflags }
      (exec env (saveContext ++ .call handler :: restoreContext r) p) := by
  obtain ⟨hholds, hesp, -⟩ := saveContext_holds env h (by simp; omega)
  rw [exec_append, exec_cons]
  generalize exec env saveContext p = q at *
  have hargument : Holds q.memory q.esp (savedContext p ++ [n, e, eip, cs, eflags]) := by
    have hsplit : Holds q.memory q.esp ((savedContext p ++ [n, e, eip, cs, eflags]) ++ ws) := hholds
    exact hsplit.left
  have hkept : Holds (env.body handler q).memory q.esp (savedContext p ++ [n, e, eip, cs, eflags]) :=
    hargument.congr fun i hi => hkeeps handler q i (Nat.lt_of_lt_of_le hi (show 14 ≤ 16 by decide))
  rw [← hreturns handler q] at hkept hesp
  have hstep : (step env (.call handler) q).memory = (env.body handler q).memory := rfl
  have hstep' : (step env (.call handler) q).esp = (env.body handler q).esp := rfl
  rw [← hstep, ← hstep'] at hkept
  rw [← hstep'] at hesp
  generalize step env (.call handler) q = s at *
  rw [restoreContext_spec env r hkept]
  have hback : s.esp + 56 = p.esp + 20 := by rw [hesp]; grind
  exact ⟨rfl, rfl, rfl, rfl, hback, rfl, rfl, rfl, setLow_toUInt16 _ _, setLow_toUInt16 _ _, setLow_toUInt16 _ _,
    setLow_toUInt16 _ _, rfl, rfl, rfl⟩

end

/-! ## The stubs -/

/-- The macro of the stub pushes no error code of its own. -/
def usesErrCodeMacro (v : Nat) : Bool := v ∈ [8, 10, 11, 12, 13, 14]

/-- The instructions before the common stub. -/
def enterStub (v : Nat) : List Instr :=
  .cli :: ((if usesErrCodeMacro v then [] else [.pushByte 0]) ++ [.pushByte (UInt8.ofNat v)])

/-- Every stub by its vector. -/
theorem stubs_shape {v : Nat} {code : List Instr} (h : stubs[v]? = some code) : v < 48 ∧
    code = enterStub v ++ (saveContext ++ .call (handlerOf v) :: restoreContext (if v < 32 then .eax else .ebx)) := by
  have hshape : ∀ v < 48, stubs[v]? =
      some (enterStub v ++ (saveContext ++ .call (handlerOf v) :: restoreContext (if v < 32 then .eax else .ebx))) := by
    decide
  obtain ⟨hv, -⟩ := List.getElem?_eq_some_iff.1 h
  exact ⟨hv, Option.some.inj (h.symm.trans (hshape v hv))⟩

theorem pushByte_vector : ∀ v < 48, (UInt8.ofNat v).toInt8.toInt32.toUInt32 = UInt32.ofNat v := by decide

/-- The words on the stack when a stub reaches its common stub. -/
def frameWords (v : Nat) (errorCode : UInt32) (c : Cpu) : List UInt32 :=
  UInt32.ofNat v :: ((if usesErrCodeMacro v then [] else [0]) ++ ((if pushesErrorCode v then [errorCode] else []) ++
    [c.eip, c.cs.toUInt32, c.eflags]))

/-- The processor when a stub reaches its common stub: the interrupted one but for the stack, `cs`
and the flags. -/
theorem enterStub_spec (env : Env) {v : Nat} (hv : v < 48) (errorCode : UInt32) (c : Cpu) : ∃ esp memory cs eflags,
    exec env (enterStub v) (interrupt v errorCode c) =
      { c with esp := esp, memory := memory, cs := cs, eflags := eflags } ∧
    Pushed memory c.esp esp (frameWords v errorCode c) := by
  have hn := pushByte_vector v hv
  have h0 : (0 : UInt8).toInt8.toInt32.toUInt32 = 0 := rfl
  have heflags := (Pushed.nil c.memory c.esp).push (by simp) c.eflags
  have hcs := heflags.push (by simp) c.cs.toUInt32
  have hframe := hcs.push (by simp) c.eip
  unfold frameWords enterStub interrupt
  cases usesErrCodeMacro v <;> cases pushesErrorCode v <;>
    simp only [exec, List.foldl_cons, List.foldl_nil, List.nil_append, List.cons_append, step,
      Cpu.push, if_true, if_false,
      Bool.false_eq_true, hn, h0]
  · exact ⟨_, _, _, _, rfl, (hframe.push (by simp) 0).push (by simp) (UInt32.ofNat v)⟩
  · exact ⟨_, _, _, _, rfl, ((hframe.push (by simp) errorCode).push (by simp) 0).push (by simp) (UInt32.ofNat v)⟩
  · exact ⟨_, _, _, _, rfl, hframe.push (by simp) (UInt32.ofNat v)⟩
  · exact ⟨_, _, _, _, rfl, (hframe.push (by simp) errorCode).push (by simp) (UInt32.ofNat v)⟩

end HavenOS
