/-
`kmain` up to its `sti`, and its first call: from any state of the machine init_gdt and init_idt build the
tables in memory and load them, the controllers are remapped with nothing requested, and no handler is
registered.
-/
import HavenOS.Paging.Identity
import HavenOS.System.Agenda

namespace HavenOS

open Ram X86

/-! ## The functions -/

/-- What `lgdt` and `lidt` read: a limit in two bytes, and the address of the table. -/
def tableRegister (val : UInt32 → UInt8) (a : UInt32) : TableRegister :=
  ⟨UInt16.ofNat (littleEndian (bytes val a 2)), Words.read val (cell a 2)⟩

/-- Loading a segment register raises an exception where the descriptor is no segment. -/
def loadGdt (gdtPtr : UInt32) (s : System) : Option System := do
  let s := { s with gdtr := tableRegister s.ram.val gdtPtr }
  guard s.hasSegments
  some { s with cpu := { s.cpu with eax := 0x10, ds := 0x10, es := 0x10, fs := 0x10, gs := 0x10, cs := 0x08 } }

/-- `gdt_ptr` and the five entries. -/
def fillGdt (gdtEntries gdtPtr : UInt32) (m : Ram) : Ram :=
  let m := m.storeShort (.start gdtPtr) (UInt16.ofNat (Packed.size gdtEntryMembers * 5 - 1))
  let m := m.storeWord ((Ptr.start gdtPtr).add 2) gdtEntries
  let m := gdtSetGate gdtEntries 0 0 0 0 0 m
  let m := gdtSetGate gdtEntries 1 0 0xFFFFFFFF 0x9A 0xCF m
  let m := gdtSetGate gdtEntries 2 0 0xFFFFFFFF 0x92 0xCF m
  let m := gdtSetGate gdtEntries 3 0 0xFFFFFFFF 0xFA 0xCF m
  gdtSetGate gdtEntries 4 0 0xFFFFFFFF 0xF2 0xCF m

def initGdt (sym : Addresses) (s : System) : Option System :=
  loadGdt sym.gdtPtr { s with ram := fillGdt sym.gdtEntries sym.gdtPtr s.ram }

def loadIdt (idtPtr : UInt32) (s : System) : System :=
  { s with cpu := { s.cpu with eax := idtPtr }, idtr := tableRegister s.ram.val idtPtr }

def initDescriptorTables (sym : Addresses) (s : System) : Option System := do
  let s ← initGdt sym s
  let s ← s.onBoard (initIdt sym.idtEntries sym.idtPtr sym.isr sym.irq)
  let s := loadIdt sym.idtPtr s
  some { s with ram := memset (.start sym.interruptHandlers) 0 (4 * 256) s.ram }

def Kernel.onMachine (f : Machine → Option Machine) (k : Kernel) : Option Kernel := do
  let m ← f k.toMachine
  some { k with toMachine := m }

/-- `static char boot_message[]`, with its NUL. -/
def bootMessage : List UInt8 := ascii "Serial Open!" ++ [0]

/-- What `kmain` does before `init_timer`; the rest is left to be done with the interrupts on. -/
def kmainStart (sym : Symbols) (env : Compiled) (device : Device) (fuel : Nat) (s : System) : Option System := do
  let s ← initDescriptorTables sym.toAddresses s
  let s ← s.onKernel (Kernel.onMachine (initialisePaging sym.layout))
  let s := { s with serial := serialStart s.serial }
  let s ← s.onKernel fun k => some (k.onVga fun v => { v with fb := fbClear 1 1 v.fb })
  let serial ← printDebug device bootMessage (UInt32.ofNat bootMessage.length) fuel s.serial
  let s ← { s with serial := serial }.deliver sym.toAddresses env 3 0
  some { s with
    cpu := { s.cpu with eflags := s.cpu.eflags ||| 0x200 },
    todo := [.initTimer, .initKeyboard, .clear, .moveCursor, .printCell] }

/-! ## Table registers -/

theorem start_add (a : UInt32) (k : Nat) : ((Ptr.start a).add k).addr = cell a k := by
  rw [addr_add, Ptr.start_addr]

theorem littleEndian_short (x : UInt16) : UInt16.ofNat (littleEndian [x.toUInt8, (x >>> 8).toUInt8]) = x := by
  have hshift : (x >>> 8).toNat = x.toNat / 256 := Nat.shiftRight_eq_div_pow _ 8
  have hx := x.toNat_lt
  apply UInt16.toNat_inj.1
  rw [littleEndian, littleEndian, littleEndian, UInt16.toNat_toUInt8, UInt16.toNat_toUInt8, hshift, UInt16.toNat_ofNat']
  omega

/-- The register loaded from a pointer that was just stored. -/
theorem tableRegister_stored (ptr base : UInt32) (limit : UInt16) (m : Ram) : tableRegister
    ((m.storeShort (.start ptr) limit).storeWord ((Ptr.start ptr).add 2) base).val ptr = ⟨limit, base⟩ := by
  have haddr : ((Ptr.start ptr).add 2).addr = cell ptr 2 := start_add ptr 2
  have hword := only_storeWord ((Ptr.start ptr).add 2) base (m.storeShort (.start ptr) limit)
  rw [haddr] at hword
  have hshort : bytes ((m.storeShort (.start ptr) limit).storeWord ((Ptr.start ptr).add 2) base).val ptr 2 =
      [limit.toUInt8, (limit >>> 8).toUInt8] := by
    have hfirst : (m.storeShort (.start ptr) limit).val ptr = limit.toUInt8 := by
      have hne : ptr ≠ ((Ptr.start ptr).add 1).addr := by
        rw [show ((Ptr.start ptr).add 1).addr = cell ptr 1 from start_add ptr 1, ← cell_zero ptr, cell_cell]
        exact cell_ne ptr (by decide) (by decide)
      rw [storeShort, store_val, store_val, Function.update_of_ne hne, Ptr.start_addr, Function.update_self]
    have hsecond : (m.storeShort (.start ptr) limit).val (cell ptr 1) = (limit >>> 8).toUInt8 := by
      have heq : ((Ptr.start ptr).add 1).addr = cell ptr 1 := start_add ptr 1
      rw [storeShort, store_val, heq, Function.update_self]
    have hcells : ∀ j < 2, ∀ i < 4, cell ptr j ≠ cell (cell ptr 2) i := fun j hj i hi => by
      rw [cell_cell]
      exact cell_ne ptr (by omega) (by omega)
    rw [bytes_succ, bytes_succ]
    have hzero := hword (cell ptr 0) (hcells 0 (by decide))
    have hone := hword (cell ptr 1) (hcells 1 (by decide))
    rw [cell_zero] at hzero
    rw [hzero, hone, hfirst, hsecond]
    rfl
  rw [tableRegister, hshort, littleEndian_short, storeWord_val, haddr, Words.read_write_self]

theorem tableRegister_only {val val' : UInt32 → UInt8} {a ptr : UInt32} {n : Nat} (h : Only a n val val')
    (hapart : Ram.Apart ptr 6 a n) : tableRegister val' ptr = tableRegister val ptr := by
  have hbytes := h.bytes_eq (hapart.mono (show 2 ≤ 6 by decide) (Nat.le_refl n)).symm
  have hread := h.read_eq hapart.symm (i := 2) (by decide)
  rw [tableRegister, tableRegister, hbytes, hread]

/-! ## init_gdt -/

section
variable (gdtEntries : UInt32) {num : Int32} (h0 : 0 ≤ num) (base limit : UInt32) (access gran : UInt8) (m : Ram)
include h0

theorem only_gdtSetGate (h5 : num.toNatClampNeg < 5) :
    Only gdtEntries 40 m.val (gdtSetGate gdtEntries num base limit access gran m).val := by
  rw [gdtSetGate_val gdtEntries h0]
  exact (only_written (entryAddr gdtEntries num.toNatClampNeg) _ m.val).of_part
    (show 8 * num.toNatClampNeg + 8 ≤ 40 by omega)

/-- The entries after one more call. -/
theorem gdtSetGate_entries {n : Nat} (hn : num.toNatClampNeg = n) {segments : List Segment}
    (hlen : segments.length = n) (h5 : n < 5)
    (h : ∀ i (hi : i < segments.length), entryBytes m.val gdtEntries i = segments[i].encode) :
    ∀ i (hi : i < (segments ++ [gdtSegment base limit access gran]).length),
      entryBytes (gdtSetGate gdtEntries num base limit access gran m).val gdtEntries i =
        (segments ++ [gdtSegment base limit access gran])[i].encode := by
  intro i hi
  rw [List.length_append, List.length_singleton] at hi
  by_cases hlast : i = n
  · subst hlast
    rw [List.getElem_append_right (by omega), List.getElem_singleton]
    rw [← hn]
    exact entryBytes_gdtSetGate gdtEntries h0 base limit access gran m
  · rw [List.getElem_append_left (by omega), ← h i (by omega)]
    exact entryBytes_gdtSetGate_other gdtEntries h0 (by omega) (by omega) (by omega) base limit access gran m

end

/-- `gdt_ptr` as `init_gdt` stores it, before the entries. -/
def storeGdtPtr (gdtEntries gdtPtr : UInt32) (m : Ram) : Ram :=
  (m.storeShort (.start gdtPtr) 39).storeWord ((Ptr.start gdtPtr).add 2) gdtEntries

section
variable (gdtEntries gdtPtr : UInt32) (m : Ram)

theorem fillGdt_entries : ∀ i (hi : i < gdtSegments.length),
    entryBytes (fillGdt gdtEntries gdtPtr m).val gdtEntries i = gdtSegments[i].encode := by
  have hnone : ∀ i (hi : i < ([] : List Segment).length),
      entryBytes (storeGdtPtr gdtEntries gdtPtr m).val gdtEntries i = ([] : List Segment)[i].encode :=
    fun i hi => absurd hi (Nat.not_lt_zero i)
  have h1 := gdtSetGate_entries gdtEntries (show (0 : Int32) ≤ 0 by decide) 0 0 0 0 _ rfl rfl (by decide) hnone
  have h2 := gdtSetGate_entries gdtEntries (show (0 : Int32) ≤ 1 by decide) 0 0xFFFFFFFF 0x9A 0xCF _ rfl rfl
    (by decide) h1
  have h3 := gdtSetGate_entries gdtEntries (show (0 : Int32) ≤ 2 by decide) 0 0xFFFFFFFF 0x92 0xCF _ rfl rfl
    (by decide) h2
  have h4 := gdtSetGate_entries gdtEntries (show (0 : Int32) ≤ 3 by decide) 0 0xFFFFFFFF 0xFA 0xCF _ rfl rfl
    (by decide) h3
  exact gdtSetGate_entries gdtEntries (show (0 : Int32) ≤ 4 by decide) 0 0xFFFFFFFF 0xF2 0xCF _ rfl rfl
    (by decide) h4

theorem only_fillGdt : Only gdtEntries 40 (storeGdtPtr gdtEntries gdtPtr m).val
    (fillGdt gdtEntries gdtPtr m).val := by
  have h1 := only_gdtSetGate gdtEntries (show (0 : Int32) ≤ 0 by decide) 0 0 0 0
    (storeGdtPtr gdtEntries gdtPtr m) (by decide)
  have h2 := h1.trans (only_gdtSetGate gdtEntries (show (0 : Int32) ≤ 1 by decide) 0 0xFFFFFFFF 0x9A 0xCF _ (by decide))
  have h3 := h2.trans (only_gdtSetGate gdtEntries (show (0 : Int32) ≤ 2 by decide) 0 0xFFFFFFFF 0x92 0xCF _ (by decide))
  have h4 := h3.trans (only_gdtSetGate gdtEntries (show (0 : Int32) ≤ 3 by decide) 0 0xFFFFFFFF 0xFA 0xCF _ (by decide))
  exact h4.trans (only_gdtSetGate gdtEntries (show (0 : Int32) ≤ 4 by decide) 0 0xFFFFFFFF 0xF2 0xCF _ (by decide))

theorem tableRegister_fillGdt (hapart : Ram.Apart gdtPtr 6 gdtEntries 40) :
    tableRegister (fillGdt gdtEntries gdtPtr m).val gdtPtr = ⟨39, gdtEntries⟩ := by
  rw [tableRegister_only (only_fillGdt gdtEntries gdtPtr m) hapart]
  exact tableRegister_stored gdtPtr gdtEntries 39 m

end

/-- What `init_gdt` leaves. -/
theorem initGdt_spec (sym : Symbols) (s : System) : ∃ s', initGdt sym.toAddresses s = some s' ∧
    s'.gdtr = ⟨39, sym.gdtEntries⟩ ∧ Flat s'.cpu ∧ s'.kernel = s.kernel ∧ s'.pics = s.pics ∧ s'.keys = s.keys ∧
    s'.serial = s.serial ∧ s'.tick = s.tick ∧
    ∀ i (hi : i < gdtSegments.length), entryBytes s'.ram.val sym.gdtEntries i = gdtSegments[i].encode := by
  have hgdtr := tableRegister_fillGdt sym.gdtEntries sym.gdtPtr s.ram sym.gdtPtr_gdt
  have hentries := fillGdt_entries sym.gdtEntries sym.gdtPtr s.ram
  have hsegments : ({ s with
      ram := fillGdt sym.gdtEntries sym.gdtPtr s.ram,
      gdtr := tableRegister (fillGdt sym.gdtEntries sym.gdtPtr s.ram).val sym.gdtPtr } : System).hasSegments = true :=
    hasSegments_of_entries hgdtr hentries
  rw [initGdt, loadGdt]
  simp only [hsegments, guard_true, Option.pure_def, Option.bind_eq_bind, Option.bind_some]
  exact ⟨_, rfl, hgdtr, ⟨rfl, rfl, rfl⟩, rfl, rfl, rfl, rfl, rfl, hentries⟩

/-! ## init_idt -/

/-- The message of idt_set_gate. -/
def gateMessage (num : UInt8) : Vga → Vga :=
  runPieces [Int32.ofNat num.toNat] 0 4 0 (splitFormat (ascii "Loading IDT #\x7b%d\x7d\x7b%\n\x7d"))

theorem gateMessage_prints (num : UInt8) (v : Vga) :
    fbFprintStr (ascii "Loading IDT #\x7b%d\x7d\x7b%\n\x7d") [Int32.ofNat num.toNat] 0 4 v =
      some (gateMessage num v) := by
  have hformat : ascii "Loading IDT #\x7b%d\x7d\x7b%\n\x7d" = numberLine (ascii "Loading IDT #") [] := by decide
  refine fbFprintStr_enough 0 4 v (by decide) (by decide) ?_
  rw [hformat]
  exact enough_numberLine (by decide) (by decide) _

/-- From `b` to `b'` only the table has changed, and what was sent is for the CRT controller. -/
structure GatesSet (idtEntries : UInt32) (b b' : Board) : Prop where
  only : Only idtEntries 2048 b.ram.val b'.ram.val
  sent : ∃ sent : List (UInt16 × UInt8), (∀ write ∈ sent, write.1 = fbCommandPort ∨ write.1 = fbDataPort) ∧
    b'.vga.ports = sent ++ b.vga.ports

theorem GatesSet.trans {idtEntries : UInt32} {b b' b'' : Board} (h : GatesSet idtEntries b b')
    (h' : GatesSet idtEntries b' b'') : GatesSet idtEntries b b'' := by
  obtain ⟨sent, hsent, hports⟩ := h.sent
  obtain ⟨sent', hsent', hports'⟩ := h'.sent
  refine ⟨h.only.trans h'.only, sent' ++ sent, fun write hw => ?_, by rw [hports', hports, List.append_assoc]⟩
  exact (List.mem_append.1 hw).elim (hsent' write) (hsent write)

section
variable (idtEntries : UInt32)

theorem gateCall_gatesSet (c : GateCall) {b b' : Board} (h : c.run idtEntries b = some b') :
    GatesSet idtEntries b b' := by
  obtain ⟨b1, hrun, hval⟩ := idtSetGate_val idtEntries c.num c.base c.sel c.flags b
  obtain rfl : b1 = b' := Option.some.inj (hrun.symm.trans h)
  have hnum := c.num.toNat_lt
  refine ⟨?_, ?_⟩
  · rw [hval]
    exact (only_written (entryAddr idtEntries c.num.toNat) _ b.ram.val).of_part
      (show 8 * c.num.toNat + 8 ≤ 2048 by omega)
  · rw [idtSetGate, Board.print, gateMessage_prints, Option.bind_some] at hrun
    cases hrun
    exact (sendsCrt_pieces _ 0 4 _ 0).append b.vga

/-- After any calls. -/
theorem run_gatesSet (calls : List GateCall) (b : Board) : ∃ b', Run.run (GateCall.run idtEntries) calls b = some b' ∧
    EntriesAfter idtEntries calls b b' ∧ GatesSet idtEntries b b' := by
  obtain ⟨b', hrun, hafter⟩ := run_entriesAfter idtEntries b calls
  refine ⟨b', hrun, hafter, ?_⟩
  clear hafter
  induction calls generalizing b with
  | nil =>
    cases hrun
    exact ⟨.refl _, [], fun _ hw => absurd hw List.not_mem_nil, rfl⟩
  | cons c calls ih =>
    rw [Run.run_cons] at hrun
    obtain ⟨b1, hfirst, hrest⟩ := Option.bind_eq_some_iff.1 hrun
    exact (gateCall_gatesSet idtEntries c hfirst).trans (ih b1 hrest)

end

theorem lastCall_range {g : Nat → GateCall} (hg : ∀ i, (g i).num = UInt8.ofNat i) {v : Nat} :
    ∀ {n : Nat}, n ≤ 256 → v < n → lastCall ((List.range n).map g) (UInt8.ofNat v) = some (g v)
  | 0, _, hv => absurd hv (Nat.not_lt_zero v)
  | n + 1, hn, hv => by
    rw [List.range_succ, List.map_append, List.map_singleton, lastCall_concat, hg n]
    by_cases hlast : v = n
    · rw [hlast, if_pos rfl]
    · have hne : UInt8.ofNat n ≠ UInt8.ofNat v := fun e => by
        have hnat := congrArg UInt8.toNat e
        rw [UInt8.toNat_ofNat', UInt8.toNat_ofNat'] at hnat
        omega
      rw [if_neg hne]
      exact lastCall_range hg (by omega) (by omega)

theorem idtGates_eq (sym : Addresses) : idtGates sym.isr sym.irq =
    (List.range 48).map fun i => ⟨UInt8.ofNat i, sym.stub i, 0x08, 0x8E⟩ := rfl

/-! ### The controllers -/

/-- The words of the two initialisations, latest first. -/
def picWrites : List (UInt16 × UInt8) :=
  [(pic2Data, 0x0), (pic1Data, 0x0), (pic2Data, 0x01), (pic1Data, 0x01), (pic2Data, 0x02), (pic1Data, 0x04),
    (pic2Data, 0x28), (pic1Data, 0x20), (pic2Command, 0x11), (pic1Command, 0x11)]

/-- The controllers after them: the vectors from 32 on, nothing masked, requested or in service. -/
def remapped : Pic.Pair where
  master := ⟨.mask, false, true, 0x20, 0x04, false, 0, ∅, ∅⟩
  slave := ⟨.mask, false, true, 0x28, 0x02, false, 0, ∅, ∅⟩

/-- Whatever state they were in. -/
theorem picWrites_remap (p : Pic.Pair) : picWrites.foldr busWrite p = remapped := rfl

theorem remapped_ready : PicsReady remapped where
  ready := ⟨⟨rfl, rfl, rfl⟩, ⟨rfl, rfl, rfl⟩, by decide, rfl, rfl⟩
  vector line := by
    cases line with
    | master n => exact (UInt8.ofNat_add 32 n.val).symm
    | slave n => exact (UInt8.ofNat_add 40 n.val).symm

theorem remapped_requests : remapped.requests = ∅ := rfl

/-! ### The table -/

section
variable (idtEntries idtPtr : UInt32) (b : Board)

theorem clearIdt_sends : (clearIdt idtEntries idtPtr b).vga.ports = picWrites ++ b.vga.ports := rfl

theorem only_clearIdt : Only idtEntries 2048
    ((b.ram.storeShort (.start idtPtr) 2047).storeWord ((Ptr.start idtPtr).add 2) idtEntries).val
    (clearIdt idtEntries idtPtr b).ram.val := by
  have hset := only_memset (.start idtEntries) 0 (UInt32.ofNat (Packed.size idtEntryMembers * 256))
    ((b.ram.storeShort (.start idtPtr) 2047).storeWord ((Ptr.start idtPtr).add 2) idtEntries)
  rw [Ptr.start_addr] at hset
  simp only [clearIdt, Board.outb_ram]
  exact hset

/-- The two stores of a table's pointer. -/
theorem only_tablePtr (ptr base : UInt32) (limit : UInt16) (m : Ram) : Only ptr 6 m.val
    ((m.storeShort (.start ptr) limit).storeWord ((Ptr.start ptr).add 2) base).val := by
  have hshort := only_storeShort (.start ptr) limit m
  have hword := only_storeWord ((Ptr.start ptr).add 2) base (m.storeShort (.start ptr) limit)
  rw [show ((Ptr.start ptr).add 2).addr = cell ptr 2 from start_add ptr 2] at hword
  rw [show (Ptr.start ptr).addr = cell ptr 0 by rw [Ptr.start_addr, cell_zero]] at hshort
  have hlimit := hshort.of_part (show 0 + 2 ≤ 6 by decide)
  exact hlimit.trans (hword.of_part (show 2 + 4 ≤ 6 by decide))

end

/-- What `init_idt` leaves, in front of its `lidt`. -/
theorem initIdt_spec (sym : Symbols) (s : System) : ∃ s',
    s.onBoard (initIdt sym.idtEntries sym.idtPtr sym.isr sym.irq) = some s' ∧
    tableRegister s'.ram.val sym.idtPtr = ⟨2047, sym.idtEntries⟩ ∧
    (∀ v < 48, Gate.decode (entryBytes s'.ram.val sym.idtEntries v) = idtGate (sym.stub v) 0x08 0x8E) ∧
    (∀ i < 5, entryBytes s'.ram.val sym.gdtEntries i = entryBytes s.ram.val sym.gdtEntries i) ∧
    s'.pics = remapped ∧ s'.cpu = s.cpu ∧ s'.gdtr = s.gdtr ∧ s'.keys = s.keys ∧ s'.serial = s.serial ∧
    s'.tick = s.tick ∧ ∃ v, s'.kernel = s.kernel.onVga fun _ => v := by
  obtain ⟨b, hrun, hafter, hset⟩ := run_gatesSet sym.idtEntries (idtGates sym.isr sym.irq)
    (clearIdt sym.idtEntries sym.idtPtr ⟨s.ram, s.kernel.vga⟩)
  obtain ⟨sent, hsent, hports⟩ := hset.sent
  have hclear := only_clearIdt sym.idtEntries sym.idtPtr ⟨s.ram, s.kernel.vga⟩
  have hptr := only_tablePtr sym.idtPtr sym.idtEntries 2047 s.ram
  have hpics : received s.kernel.vga.ports b.vga.ports s.pics = remapped := by
    rw [hports, clearIdt_sends, ← List.append_assoc, received_append, List.foldr_append, picWrites_remap,
      ← received_append sent [] remapped]
    exact received_crt sent [] remapped hsent
  rw [System.onBoard, initIdt, hrun, Option.bind_some]
  refine ⟨_, rfl, ?_, fun v hv => ?_, fun i hi => ?_, hpics, rfl, rfl, rfl, rfl, rfl, _, rfl⟩
  · show tableRegister b.ram.val sym.idtPtr = _
    rw [tableRegister_only hset.only sym.idtPtr_idt, tableRegister_only hclear sym.idtPtr_idt]
    exact tableRegister_stored sym.idtPtr sym.idtEntries 2047 s.ram
  · have hentry := hafter (UInt8.ofNat v)
    have hv' : (UInt8.ofNat v).toNat = v := by
      rw [UInt8.toNat_ofNat']
      omega
    rw [idtGates_eq, lastCall_range (fun _ => rfl) (by decide) hv, hv'] at hentry
    show Gate.decode (entryBytes b.ram.val sym.idtEntries v) = _
    rw [hentry, Gate.decode_encode]
  · show entryBytes b.ram.val sym.gdtEntries i = entryBytes s.ram.val sym.gdtEntries i
    rw [hset.only.entryBytes_eq sym.idt_gdt (by omega), hclear.entryBytes_eq sym.idt_gdt (by omega),
      hptr.entryBytes_eq sym.idtPtr_gdt (by omega)]

/-! ## init_descriptor_tables -/

/-- What is in place after `init_descriptor_tables`; of the kernel only the console has changed. -/
structure Prepared (sym : Symbols) (s s' : System) : Prop where
  wired : Wired sym.toAddresses s'
  pics : s'.pics = remapped
  handlers : ∀ v < 256, s'.handler sym.toAddresses (UInt32.ofNat v) = 0
  keys : s'.keys = s.keys
  serial : s'.serial = s.serial
  tick : s'.tick = s.tick
  kernel : ∃ v, s'.kernel = s.kernel.onVga fun _ => v

theorem handlers_cleared (a : UInt32) (m : Ram) {v : Nat} (hv : v < 256) :
    Words.read (memset (.start a) 0 (4 * 256) m).val (cell a (4 * v)) = 0 := by
  have hzero := (memset_val (.start a) 0 (4 * 256) m).1
  have hsize : ((4 : UInt32) * 256).toNat = 1024 := rfl
  rw [Ptr.start_addr, hsize] at hzero
  have hbyte : ∀ j < 4, (memset (.start a) 0 (4 * 256) m).val (cell (cell a (4 * v)) j) = 0 := fun j hj => by
    rw [cell_cell]
    exact hzero (4 * v + j) (by omega)
  have h0 := hbyte 0 (by decide)
  have h1 := hbyte 1 (by decide)
  have h2 := hbyte 2 (by decide)
  have h3 := hbyte 3 (by decide)
  rw [cell_zero] at h0
  generalize cell a (4 * v) = b at h0 h1 h2 h3 ⊢
  simp only [cell, UInt32.reduceOfNat] at h1 h2 h3
  simp only [Words.read, h0, h1, h2, h3]
  rfl

theorem initDescriptorTables_spec (sym : Symbols) (s : System) :
    ∃ s', initDescriptorTables sym.toAddresses s = some s' ∧ Prepared sym s s' := by
  obtain ⟨s1, hgdt, hgdtr1, hflat1, hkernel1, -, hkeys1, hserial1, htick1, hentries1⟩ := initGdt_spec sym s
  obtain ⟨s2, hidt, hptr2, hgates2, hgdt2, hpics2, hcpu2, hgdtr2, hkeys2, hserial2, htick2, v, hkernel2⟩ :=
    initIdt_spec sym s1
  -- the handlers are apart from both tables
  have honly : Only sym.interruptHandlers 1024 s2.ram.val
      (memset (.start sym.interruptHandlers) 0 (4 * 256) s2.ram).val := by
    have hset := only_memset (.start sym.interruptHandlers) 0 (4 * 256) s2.ram
    rw [Ptr.start_addr] at hset
    exact hset
  have hentries : ∀ i (hi : i < gdtSegments.length),
      entryBytes (memset (.start sym.interruptHandlers) 0 (4 * 256) s2.ram).val sym.gdtEntries i =
        gdtSegments[i].encode := fun i hi => by
    rw [entryBytes_gdt sym honly hi, hgdt2 i hi, hentries1 i hi]
  have hgdtr : s2.gdtr = ⟨39, sym.gdtEntries⟩ := hgdtr2.trans hgdtr1
  have hflat : Flat s2.cpu := hcpu2 ▸ hflat1
  rw [initDescriptorTables, hgdt]
  simp only [Option.bind_eq_bind, Option.bind_some, hidt]
  refine ⟨_, rfl, ⟨⟨hflat.es, hflat.fs, hflat.gs⟩, hgdtr, hptr2, hentries, fun n hn => ?_⟩,
    hpics2, fun n hn => ?_, hkeys2.trans hkeys1, hserial2.trans hserial1, htick2.trans htick1, ⟨v, ?_⟩⟩
  · have hentry := entryBytes_idt sym honly (i := n) (by omega)
    show Gate.decode (entryBytes _ (tableRegister s2.ram.val sym.idtPtr).base n) = _
    rw [hptr2]
    exact (congrArg Gate.decode hentry).trans (hgates2 n hn)
  · rw [handler_eq]
    exact handlers_cleared sym.interruptHandlers s2.ram hn
  · rw [← hkernel1]
    exact hkernel2

end HavenOS
