/-
The round trip of an interrupt: the C handler finds the interrupted context in `registers_t`, and
`iret` resumes it. Every vector but 17 makes it. The processor pushes an error code for 17 as it
does for 14, but the stub of 17 pushes another one, so the words the handler sees and `iret` pops
are one off.
-/
import HavenOS.Interrupt.Frame

namespace HavenOS

open Words

/-! ## What the handler gets -/

/-- The argument of the handler: the vector, the error code of the processor or 0, and the
interrupted registers. `pusha` gives `useless_value`, and the processor pushes no `esp` and `ss`. -/
structure Delivered (v : Nat) (errorCode : UInt32) (c : Cpu) (regs : Registers) : Prop where
  intNo : regs.intNo = UInt32.ofNat v
  errCode : regs.errCode = if pushesErrorCode v then errorCode else 0
  edi : regs.edi = c.edi
  esi : regs.esi = c.esi
  ebp : regs.ebp = c.ebp
  ebx : regs.ebx = c.ebx
  edx : regs.edx = c.edx
  ecx : regs.ecx = c.ecx
  eax : regs.eax = c.eax
  eip : regs.eip = c.eip
  cs : regs.cs = c.cs.toUInt32
  eflags : regs.eflags = c.eflags

/-- The selector in the low half of its field; the high half is whatever `eax` had there. -/
def DsLow (c : Cpu) (regs : Registers) : Prop := regs.ds.toUInt16 = c.ds

/-- The selector alone in its field. -/
def DsWhole (c : Cpu) (regs : Registers) : Prop := regs.ds = c.ds.toUInt32

/-- The round trip through the stub `code` of vector `v`, whatever the C functions do: one call of
the right handler with the interrupted context, and the context resumed if the handler leaves its
argument alone. `Ds` says how the field `ds` is read. -/
def RoundTrip (Ds : Cpu → Registers → Prop) (code : List Instr) (v : Nat) (errorCode : UInt32) (c : Cpu) : Prop :=
  ∀ env : Env, env.Returns →
    (∃ regs, (exec env code (interrupt v errorCode c)).calls = (handlerOf v, regs) :: c.calls ∧
      Delivered v errorCode c regs ∧ Ds c regs) ∧
    (env.KeepsArguments → Resumed c (exec env code (interrupt v errorCode c)))

/-- All data segments are the same. -/
structure Flat (c : Cpu) : Prop where
  es : c.es = c.ds
  fs : c.fs = c.ds
  gs : c.gs = c.ds

theorem setLow_eq_iff (r : UInt32) (x : UInt16) : Cpu.setLow r x = x.toUInt32 ↔ r.toNat < 2 ^ 16 := by
  have hr := r.toNat_lt
  have hx := x.toNat_lt
  rw [← UInt32.toNat_inj, UInt16.toNat_toUInt32, Cpu.setLow, UInt32.toNat_ofNat']
  omega

/-! ## Vectors whose macro is right -/

theorem usesErrCodeMacro_eq : ∀ v < 48, v ≠ 17 → usesErrCodeMacro v = pushesErrorCode v := by decide

/-- The frame of `registers_t` from `int_no` to `eflags`. -/
theorem frameWords_of_ne {v : Nat} (hlt : v < 48) (hv : v ≠ 17) (errorCode : UInt32) (c : Cpu) :
    frameWords v errorCode c =
      [UInt32.ofNat v, if pushesErrorCode v then errorCode else 0, c.eip, c.cs.toUInt32, c.eflags] := by
  unfold frameWords
  rw [usesErrCodeMacro_eq v hlt hv]
  cases pushesErrorCode v <;> rfl

theorem roundTrip_of_ne {Ds : Cpu → Registers → Prop} {v : Nat} {code : List Instr} {errorCode : UInt32} {c : Cpu}
    (hcode : stubs[v]? = some code) (hflat : Flat c) (hv : v ≠ 17)
    (hds : ∀ regs : Registers, regs.ds = Cpu.setLow c.eax c.ds → Ds c regs) : RoundTrip Ds code v errorCode c := by
  intro env hreturns
  obtain ⟨hlt, rfl⟩ := stubs_shape hcode
  obtain ⟨esp, memory, cs, eflags, hexec, hpushed⟩ := enterStub_spec env hlt errorCode c
  rw [frameWords_of_ne hlt hv] at hpushed
  rw [exec_append, hexec]
  have hback : esp + 20 = c.esp := by
    rw [hpushed.top_eq]
    show c.esp - 4 * 5 + 20 = c.esp
    grind
  refine ⟨?_, fun hkeeps => ?_⟩
  · obtain ⟨_, _, hcalls⟩ := commonStub_call env (handlerOf v) (if v < 32 then .eax else .ebx)
      (p := { c with esp := esp, memory := memory, cs := cs, eflags := eflags }) hpushed.holds (by decide)
    rw [hcalls]
    exact ⟨_, rfl, ⟨rfl, rfl, rfl, rfl, rfl, rfl, rfl, rfl, rfl, rfl, rfl, rfl⟩, hds _ rfl⟩
  · obtain ⟨heax, hecx, hedx, hebx, hesp, hebp, hesi, hedi, hdseg, hes, hfs, hgs, hcs, heip, heflags⟩ :=
      commonStub_resume env (handlerOf v) (if v < 32 then .eax else .ebx)
        (p := { c with esp := esp, memory := memory, cs := cs, eflags := eflags }) hpushed.holds
          (by decide) hreturns hkeeps
    exact ⟨heax, hecx, hedx, hebx, hesp.trans hback, hebp, hesi, hedi, hdseg, hes.trans hflat.es.symm,
      hfs.trans hflat.fs.symm, hgs.trans hflat.gs.symm, hcs.trans (UInt16.toUInt16_toUInt32 _), heip, heflags⟩

/-! ## Vector 17 -/

/-- The error code is popped as `eip`, and a word of the frame stays on the stack. -/
theorem alignmentCheck_resumes (env : Env) (hreturns : env.Returns) (hkeeps : env.KeepsArguments) (errorCode : UInt32)
    (c : Cpu) : (exec env (isrNoErrCode 17) (interrupt 17 errorCode c)).eip = errorCode ∧
      (exec env (isrNoErrCode 17) (interrupt 17 errorCode c)).esp = c.esp - 4 := by
  have hcode : isrNoErrCode 17 = enterStub 17 ++ (saveContext ++ .call .isrHandler :: restoreContext .eax) := rfl
  obtain ⟨esp, memory, cs, eflags, hexec, hpushed⟩ := enterStub_spec env (by decide : 17 < 48) errorCode c
  have hwords : frameWords 17 errorCode c = [17, 0, errorCode, c.eip, c.cs.toUInt32, c.eflags] := rfl
  rw [hwords] at hpushed
  rw [hcode, exec_append, hexec]
  have hresumed := commonStub_resume env .isrHandler .eax
    (p := { c with esp := esp, memory := memory, cs := cs, eflags := eflags }) hpushed.holds (by simp) hreturns hkeeps
  refine ⟨hresumed.eip, hresumed.esp.trans ?_⟩
  show esp + 20 = c.esp - 4
  rw [hpushed.top_eq]
  show c.esp - 4 * 6 + 20 = c.esp - 4
  grind

/-- C functions that do nothing. -/
def idleEnv : Env := ⟨fun _ c => c, fun flags _ _ => flags⟩

theorem not_roundTrip_alignmentCheck (Ds : Cpu → Registers → Prop) (errorCode : UInt32) (c : Cpu) :
    ¬ RoundTrip Ds (isrNoErrCode 17) 17 errorCode c := by
  intro h
  have hreturns : idleEnv.Returns := fun _ _ => rfl
  have hkeeps : idleEnv.KeepsArguments := fun _ _ _ _ => rfl
  have hesp := ((h idleEnv hreturns).2 hkeeps).esp
  rw [(alignmentCheck_resumes idleEnv hreturns hkeeps errorCode c).2] at hesp
  have hne : c.esp - 4 ≠ c.esp := by grind
  exact hne hesp

/-! ## Every vector -/

/-- The stubs make the round trip except that of vector 17. Read as a whole word, the field `ds` is
the selector only when the high half of `eax` happens to be 0. -/
theorem stub_roundTrip_iff {v : Nat} {code : List Instr} {c : Cpu} (hcode : stubs[v]? = some code) (hflat : Flat c)
    (errorCode : UInt32) : (RoundTrip DsLow code v errorCode c ↔ v ≠ 17) ∧
      (RoundTrip DsWhole code v errorCode c ↔ v ≠ 17 ∧ c.eax.toNat < 2 ^ 16) := by
  have hseventeen : ∀ Ds, RoundTrip Ds code v errorCode c → v ≠ 17 := by
    rintro Ds h rfl
    obtain rfl : isrNoErrCode 17 = code := Option.some.inj hcode
    exact not_roundTrip_alignmentCheck Ds errorCode c h
  refine ⟨⟨hseventeen _, fun hv => ?_⟩, ⟨fun h => ⟨hseventeen _ h, ?_⟩, fun ⟨hv, heax⟩ => ?_⟩⟩
  · refine roundTrip_of_ne hcode hflat hv fun regs hds => ?_
    show regs.ds.toUInt16 = c.ds
    rw [hds, setLow_toUInt16]
  · -- the handler gets the word the stub saved, so the two readings of `ds` meet in one call
    have hv := hseventeen _ h
    have hsaved : RoundTrip (fun c regs => regs.ds = Cpu.setLow c.eax c.ds) code v errorCode c :=
      roundTrip_of_ne hcode hflat hv fun _ hds => hds
    have hreturns : idleEnv.Returns := fun _ _ => rfl
    obtain ⟨⟨regs, hcalls, -, hwhole⟩, -⟩ := h idleEnv hreturns
    obtain ⟨⟨regs', hcalls', -, hlow⟩, -⟩ := hsaved idleEnv hreturns
    obtain rfl : regs = regs' := (Prod.mk.inj (List.cons.inj (hcalls.symm.trans hcalls')).1).2
    exact (setLow_eq_iff c.eax c.ds).1 (hlow.symm.trans hwhole)
  · refine roundTrip_of_ne hcode hflat hv fun regs hds => ?_
    show regs.ds = c.ds.toUInt32
    rw [hds, setLow_eq_iff]
    exact heax

/-- A kernel at work with an empty stack at 0x9000 and a selector in the high half of no register. -/
def kernelCpu : Cpu where
  eax := 1
  ecx := 2
  edx := 3
  ebx := 4
  esp := 0x9000
  ebp := 0x9000
  esi := 5
  edi := 6
  ds := 0x10
  es := 0x10
  fs := 0x10
  gs := 0x10
  cs := 0x08
  eip := 0x100000
  eflags := 0x202
  memory := fun _ => 0
  calls := []

theorem stub_roundTrip_breakpoint :
    RoundTrip DsLow (isrNoErrCode 3) 3 0 kernelCpu ∧ RoundTrip DsWhole (isrNoErrCode 3) 3 0 kernelCpu :=
  have h := @stub_roundTrip_iff 3 (isrNoErrCode 3) kernelCpu rfl ⟨rfl, rfl, rfl⟩ 0
  ⟨h.1.2 (by decide), h.2.2 ⟨by decide, by decide⟩⟩

/-- An alignment check does not come back. -/
theorem alignmentCheck_no_roundTrip : stubs[17]? = some (isrNoErrCode 17) ∧ Flat kernelCpu ∧
    ¬ RoundTrip DsLow (isrNoErrCode 17) 17 0 kernelCpu :=
  ⟨rfl, ⟨rfl, rfl, rfl⟩, not_roundTrip_alignmentCheck DsLow 0 kernelCpu⟩

end HavenOS
