/-
The service of one interrupt: from the request that comes first, through its gate and its stub, to the
call of its handler, and back to the interrupted program with the controllers idle.
-/
import HavenOS.System.Basic

namespace HavenOS

open Ram X86

/-! ## What the controllers are sent -/

theorem busWrite_crt {write : UInt16 × UInt8} (h : write.1 = fbCommandPort ∨ write.1 = fbDataPort) (p : Pic.Pair) :
    busWrite write p = p := by
  obtain ⟨port, data⟩ := write
  rcases h with rfl | rfl <;> rfl

section
variable (sent ps : List (UInt16 × UInt8)) (p : Pic.Pair)

theorem received_append : received ps (sent ++ ps) p = sent.foldr busWrite p := by
  have hcount : (sent ++ ps).length - ps.length = sent.length := by
    rw [List.length_append, Nat.add_sub_cancel]
  rw [received, hcount, List.take_left]

theorem received_self : received ps ps p = p := received_append [] ps p

theorem received_crt (h : ∀ write ∈ sent, write.1 = fbCommandPort ∨ write.1 = fbDataPort) :
    received ps (sent ++ ps) p = p := by
  rw [received_append]
  induction sent with
  | nil => rfl
  | cons write sent ih =>
    rw [List.foldr_cons, ih fun w hw => h w (List.mem_cons_of_mem _ hw), busWrite_crt (h write List.mem_cons_self)]

end

/-- A function of the console leaves the controllers alone. -/
theorem SendsCrt.received {f : Vga → Vga} (h : SendsCrt f) (v : Vga) (p : Pic.Pair) :
    received v.ports (f v).ports p = p := by
  obtain ⟨sent, hsent, hports⟩ := h.append v
  rw [hports]
  exact received_crt sent v.ports p hsent

/-! ## Delivery -/

/-- The five segments of `init_gdt`. -/
def gdtSegments : List Segment :=
  [gdtSegment 0 0 0 0, gdtSegment 0 0xFFFFFFFF 0x9A 0xCF, gdtSegment 0 0xFFFFFFFF 0x92 0xCF,
    gdtSegment 0 0xFFFFFFFF 0xFA 0xCF, gdtSegment 0 0xFFFFFFFF 0xF2 0xCF]

/-- The descriptor a selector names, in a table that `init_gdt` has filled. -/
theorem segment_of_entries {s : System} {gdtEntries : UInt32} (hgdtr : s.gdtr = ⟨39, gdtEntries⟩)
    (h : ∀ i (hi : i < gdtSegments.length), entryBytes s.ram.val gdtEntries i = gdtSegments[i].encode)
    {selector : UInt16} (hi : selector.toNat / 8 < gdtSegments.length) :
    s.segment selector = gdtSegments[selector.toNat / 8] := by
  rw [System.segment, hgdtr, h _ hi, Segment.decode_encode]

theorem hasSegments_of_entries {s : System} {gdtEntries : UInt32} (hgdtr : s.gdtr = ⟨39, gdtEntries⟩)
    (h : ∀ i (hi : i < gdtSegments.length), entryBytes s.ram.val gdtEntries i = gdtSegments[i].encode) :
    s.hasSegments = true := by
  have hcode : s.segment 0x08 = gdtSegments[1] :=
    segment_of_entries hgdtr h (show (0x08 : UInt16).toNat / 8 < 5 by decide)
  have hdata : s.segment 0x10 = gdtSegments[2] :=
    segment_of_entries hgdtr h (show (0x10 : UInt16).toNat / 8 < 5 by decide)
  rw [System.hasSegments, hcode, hdata, hgdtr]
  show (decide (0x17 ≤ (39 : UInt16).toNat) && gdtSegments[1].isCode && gdtSegments[2].isData) = true
  decide

/-- The tables of the processor are as `init_gdt` and `init_idt` leave them. -/
structure Wired (sym : Addresses) (s : System) : Prop where
  flat : Flat s.cpu
  gdtr : s.gdtr = ⟨39, sym.gdtEntries⟩
  idtr : s.idtr = ⟨2047, sym.idtEntries⟩
  entries : ∀ i (hi : i < gdtSegments.length), entryBytes s.ram.val sym.gdtEntries i = gdtSegments[i].encode
  gates : ∀ v < 48, s.gate v = idtGate (sym.stub v) 0x08 0x8E

theorem Wired.segments {sym : Addresses} {s : System} (h : Wired sym s) : s.hasSegments = true :=
  hasSegments_of_entries h.gdtr h.entries

theorem Symbols.stubAt_stub (sym : Symbols) {v : Nat} (hv : v < 48) : sym.stubAt (sym.stub v) = some v := by
  rw [Addresses.stubAt, List.find?_range_eq_some]
  refine ⟨by simp, List.mem_range.2 hv, fun w hw => ?_⟩
  simp only [Bool.not_eq_eq_eq_not, Bool.not_true, decide_eq_false_iff_not]
  exact fun he => Nat.ne_of_lt hw (sym.stubs_distinct w (hw.trans hv) v hv he)

variable (sym : Symbols) (env : Compiled)

/-- Every vector but 17 comes through its gate and its stub to one call of its handler, with the
interrupted program to be resumed after it. -/
theorem Wired.deliver_eq {s : System} (h : Wired sym.toAddresses s) {v : Nat} (hv : v < 48) (hne : v ≠ 17)
    (errorCode : UInt32) :
    ∃ cpu regs, Resumed s.cpu cpu ∧ Delivered v errorCode s.cpu regs ∧
      s.deliver sym.toAddresses env v errorCode =
        Handler.run sym.toAddresses (handlerOf v, regs) { s with cpu := cpu } := by
  obtain ⟨code, hcode⟩ : ∃ code, stubs[v]? = some code := ⟨_, List.getElem?_eq_getElem hv⟩
  have htrip : RoundTrip (fun _ _ => True) code v errorCode s.cpu := roundTrip_of_ne hcode h.flat hne fun _ _ => trivial
  obtain ⟨⟨regs, hcalls, hregs, -⟩, hresumed⟩ := htrip env.toEnv env.returns
  refine ⟨_, regs, hresumed env.keepsArguments, hregs, ?_⟩
  have hgate := h.gates v hv
  have hlimit : 8 * v + 7 ≤ s.idtr.limit.toNat := by
    rw [h.idtr]
    show 8 * v + 7 ≤ 2047
    omega
  have hinterrupt : (idtGate (sym.stub v) 0x08 0x8E).isInterrupt = true :=
    decide_eq_true (rfl : (0x8E &&& 0x9F : UInt8) = 0x8E)
  have hcount : ((handlerOf v, regs) :: s.cpu.calls).length - s.cpu.calls.length = 1 := by
    rw [List.length_cons, Nat.add_sub_cancel_left]
  rw [System.deliver, hgate]
  have hoffset : (idtGate (sym.stub v) 0x08 0x8E).offset = sym.stub v := rfl
  have hselector : (idtGate (sym.stub v) 0x08 0x8E).selector = 0x08 := rfl
  simp only [hlimit, hinterrupt, hselector, h.segments, and_self, guard_true, hoffset, sym.stubAt_stub hv, hcode,
    Option.pure_def, Option.bind_eq_bind, Option.bind_some, hcalls, hcount, List.take_succ_cons, List.take_zero,
    List.reverse_singleton, Run.run_cons]
  exact Option.bind_fun_some _

/-- An exception for which nothing is registered is ignored, and the program goes on where it was. -/
theorem Wired.deliver_ignored {s : System} (h : Wired sym.toAddresses s) {v : Nat} (hv : v < 32 ∧ v ≠ 17)
    (hhandler : s.handler sym.toAddresses (UInt32.ofNat v) = 0) (errorCode : UInt32) :
    ∃ cpu, Resumed s.cpu cpu ∧ s.deliver sym.toAddresses env v errorCode = some { s with cpu := cpu } := by
  obtain ⟨cpu, regs, hcpu, hregs, hdeliver⟩ := h.deliver_eq sym env (by omega : v < 48) hv.2 errorCode
  have hcalled : handlerOf v = .isrHandler := if_pos hv.1
  refine ⟨cpu, hcpu, hdeliver.trans ?_⟩
  rw [hcalled]
  show isrHandler sym.toAddresses regs { s with cpu := cpu } = _
  have hnone : ({ s with cpu := cpu } : System).handler sym.toAddresses regs.intNo = 0 := by
    rw [hregs.intNo]
    exact hhandler
  rw [isrHandler, hnone, if_neg (not_not_intro rfl)]

/-! ## Requests -/

/-- The vector of a line. -/
def vectorOf (line : Pic.Line) : Nat := line.elim (fun n => 32 + n.val) fun n => 40 + n.val

theorem vectorOf_bounds (line : Pic.Line) : 32 ≤ vectorOf line ∧ vectorOf line < 48 := by
  cases line with
  | master n => simp only [vectorOf, Pic.Line.elim]; omega
  | slave n => simp only [vectorOf, Pic.Line.elim]; omega

theorem vectorOf_injective : Function.Injective vectorOf := by
  intro a b h
  cases a with
  | master n =>
    cases b with
    | master m =>
      obtain rfl : n = m := Fin.ext (by simp only [vectorOf, Pic.Line.elim] at h; omega)
      rfl
    | slave m => simp only [vectorOf, Pic.Line.elim] at h; omega
  | slave n =>
    cases b with
    | master m => simp only [vectorOf, Pic.Line.elim] at h; omega
    | slave m => exact congrArg Pic.Line.slave (Fin.ext (by simp only [vectorOf, Pic.Line.elim] at h; omega))

/-- The controllers are as `init_idt` leaves them, up to requests. -/
structure PicsReady (p : Pic.Pair) : Prop where
  ready : p.Ready
  vector : ∀ line, p.vector line = UInt8.ofNat (vectorOf line)

namespace PicsReady

variable {p : Pic.Pair} (h : PicsReady p) (line : Pic.Line)
include h

theorem raise : PicsReady (p.raise line) :=
  ⟨h.ready.raise line, fun other => (Pic.Pair.vector_raise line other).trans (h.vector other)⟩

theorem finish_start : PicsReady ((p.start line).finish line) :=
  ⟨(h.ready.finish_start line).1, fun other => (h.ready.vector_finish_start line other).trans (h.vector other)⟩

end PicsReady

/-- The ends of interrupt that `irq_handler` sends. -/
def endsSent (line : Pic.Line) : List (UInt16 × UInt8) :=
  line.elim (fun _ => [(0x20, 0x20)]) fun _ => [(0x20, 0x20), (0xA0, 0x20)]

/-- The machine once the interrupt of a line is ended, in front of the call of its handler. -/
def System.ended (s : System) (line : Pic.Line) (cpu : Cpu) : System :=
  { s with
    cpu := cpu, kernel := s.kernel.onVga fun v => v.withPorts (endsSent line ++ v.ports),
    pics := (s.pics.start line).finish line }

/-- `irq_handler` ends the interrupt at the controllers it came through, and calls what is registered. -/
theorem irqHandler_eq (s : System) (line : Pic.Line) (cpu : Cpu) {regs : Registers}
    (hno : regs.intNo = UInt32.ofNat (vectorOf line)) :
    irqHandler sym.toAddresses regs { s with cpu := cpu, pics := s.pics.start line } =
      if s.handler sym.toAddresses regs.intNo ≠ 0 then
        callPointer sym.toAddresses (s.handler sym.toAddresses regs.intNo) regs (s.ended line cpu)
      else some (s.ended line cpu) := by
  have hlt := vectorOf_bounds line
  have hnat : regs.intNo.toNat = vectorOf line := by
    rw [hno, UInt32.toNat_ofNat']
    omega
  rw [irqHandler]
  cases line with
  | master n =>
    have hlow : ¬ regs.intNo ≥ 40 := fun hge => by
      have hnum : (40 : Nat) ≤ regs.intNo.toNat := hge
      rw [hnat, vectorOf, Pic.Line.elim] at hnum
      omega
    rw [if_neg hlow]
    rfl
  | slave n =>
    have hhigh : regs.intNo ≥ 40 := by
      show (40 : Nat) ≤ regs.intNo.toNat
      rw [hnat, vectorOf, Pic.Line.elim]
      omega
    rw [if_pos hhigh]
    rfl

/-- The processor may be interrupted, and everything is in place for it. -/
structure Serving (sym : Addresses) (s : System) : Prop extends Wired sym s where
  enabled : s.cpu.eflags &&& 0x200 ≠ 0
  pics : PicsReady s.pics

/-- Without a request nothing happens, and otherwise the one that comes first is served: its
interrupt is ended, and its handler called, whatever the C code does to the registers. -/
theorem Serving.interrupt_eq {s : System} (h : Serving sym.toAddresses s) {line : Pic.Line}
    (hfirst : Pic.highest s.pics.requests = some line) : ∃ cpu regs, Resumed s.cpu cpu ∧
      Event.run sym.toAddresses env .interrupt s =
        if s.handler sym.toAddresses (UInt32.ofNat (vectorOf line)) ≠ 0 then
          callPointer sym.toAddresses (s.handler sym.toAddresses (UInt32.ofNat (vectorOf line))) regs
            (s.ended line cpu)
        else some (s.ended line cpu) := by
  obtain ⟨hlow, hhigh⟩ := vectorOf_bounds line
  have hack : s.pics.acknowledge = some (UInt8.ofNat (vectorOf line), s.pics.start line) := by
    rw [h.pics.ready.acknowledge_eq, hfirst, Option.map_some, h.pics.vector]
  have hwired : Wired sym.toAddresses { s with pics := s.pics.start line } :=
    ⟨h.flat, h.gdtr, h.idtr, h.entries, h.gates⟩
  obtain ⟨cpu, regs, hresumed, hregs, hdeliver⟩ := hwired.deliver_eq sym env hhigh (by omega) 0
  have hvector : (UInt8.ofNat (vectorOf line)).toNat = vectorOf line := by
    rw [UInt8.toNat_ofNat']
    omega
  refine ⟨cpu, regs, hresumed, ?_⟩
  have hhandler : handlerOf (vectorOf line) = .irqHandler := if_neg (by omega)
  rw [Event.run, if_pos h.enabled, hack]
  simp only [hvector, hdeliver, hhandler]
  rw [← hregs.intNo]
  exact irqHandler_eq sym s line cpu hregs.intNo

theorem Serving.interrupt_idle {s : System} (h : Serving sym.toAddresses s)
    (hnone : Pic.highest s.pics.requests = none) : Event.run sym.toAddresses env .interrupt s = some s := by
  have hack : s.pics.acknowledge = none := by rw [h.pics.ready.acknowledge_eq, hnone, Option.map_none]
  rw [Event.run, if_pos h.enabled, hack]

end HavenOS
