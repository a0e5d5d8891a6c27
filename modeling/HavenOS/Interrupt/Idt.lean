/-
The gates of interrupt_table.c: what idt_set_gate stores is the gate the processor reads, and after
any calls an entry is the one of the last call for its vector.
-/
import HavenOS.Common.Move
import HavenOS.Interrupt.Board
import HavenOS.Interrupt.Table
import HavenOS.Lib.Descriptor
import HavenOS.Lib.Run

namespace HavenOS

open Ram X86

/-! ## The functions -/

inductive IdtField where
  | baseLo
  | sel
  | always0
  | flags
  | baseHi
deriving DecidableEq, Repr

/-- `idt_entry_t`, which is packed. -/
def idtEntryMembers : List (IdtField × Nat) := [(.baseLo, 2), (.sel, 2), (.always0, 1), (.flags, 1), (.baseHi, 2)]

/-- `idt_entries[num].f`. -/
def idtField (idtEntries : UInt32) (num : UInt8) (f : IdtField) : Ptr :=
  ((Ptr.start idtEntries).add (num.toNat * Packed.size idtEntryMembers : Nat)).add (Packed.offset idtEntryMembers f)

def idtSetGate (idtEntries : UInt32) (num : UInt8) (base : UInt32) (sel : UInt16) (flags : UInt8) (s : Board) :
    Option Board :=
  let m := s.ram.storeShort (idtField idtEntries num .baseLo) (base &&& 0xFFFF).toUInt16
  let m := m.storeShort (idtField idtEntries num .baseHi) ((base >>> 16) &&& 0xFFFF).toUInt16
  let m := m.storeShort (idtField idtEntries num .sel) sel
  let m := m.store (idtField idtEntries num .always0) 0
  let m := m.store (idtField idtEntries num .flags) flags
  { s with ram := m }.print (ascii "Loading IDT #\x7b%d\x7d\x7b%\n\x7d") [Int32.ofNat num.toNat] 0 4

/-- A call of `idt_set_gate` by its arguments. -/
structure GateCall where
  num : UInt8
  base : UInt32
  sel : UInt16
  flags : UInt8
deriving DecidableEq, Repr

def GateCall.run (idtEntries : UInt32) (c : GateCall) : Board → Option Board :=
  idtSetGate idtEntries c.num c.base c.sel c.flags

def pic1 : UInt16 := 0x20
def pic2 : UInt16 := 0xA0
def pic1Command : UInt16 := pic1
def pic1Data : UInt16 := pic1 + 1
def pic2Command : UInt16 := pic2
def pic2Data : UInt16 := pic2 + 1

/-- The gates of the 32 exceptions and of the 16 requests, with the addresses of their stubs. -/
def idtGates (isr irq : Nat → UInt32) : List GateCall :=
  (List.range 32).map (fun i => ⟨UInt8.ofNat i, isr i, 0x08, 0x8E⟩) ++
    (List.range 16).map fun i => ⟨UInt8.ofNat (32 + i), irq i, 0x08, 0x8E⟩

/-- What `init_idt` does before it sets the gates. -/
def clearIdt (idtEntries idtPtr : UInt32) (s : Board) : Board :=
  let m := s.ram.storeShort (.start idtPtr) (UInt16.ofNat (Packed.size idtEntryMembers * 256 - 1))
  let m := m.storeWord ((Ptr.start idtPtr).add 2) idtEntries
  let m := memset (.start idtEntries) 0 (UInt32.ofNat (Packed.size idtEntryMembers * 256)) m
  let s := { s with ram := m }
  let s := (s.outb pic1Command 0x11).outb pic2Command 0x11
  let s := (s.outb pic1Data pic1Command.toUInt8).outb pic2Data 0x28
  let s := (s.outb pic1Data 0x04).outb pic2Data 0x02
  let s := (s.outb pic1Data 0x01).outb pic2Data 0x01
  (s.outb pic1Data 0x0).outb pic2Data 0x0

def initIdt (idtEntries idtPtr : UInt32) (isr irq : Nat → UInt32) (s : Board) : Option Board :=
  Run.run (GateCall.run idtEntries) (idtGates isr irq) (clearIdt idtEntries idtPtr s)

/-! ## One gate -/

/-- The gate that a call asks for. -/
def idtGate (base : UInt32) (sel : UInt16) (flags : UInt8) : Gate := ⟨base, sel, 0, flags⟩

theorem encode_idtGate (base : UInt32) (sel : UInt16) (flags : UInt8) : (idtGate base sel flags).encode =
    [(base &&& 0xFFFF).toUInt16.toUInt8, ((base &&& 0xFFFF).toUInt16 >>> 8).toUInt8, sel.toUInt8,
      (sel >>> 8).toUInt8, 0,
      flags, ((base >>> 16) &&& 0xFFFF).toUInt16.toUInt8, (((base >>> 16) &&& 0xFFFF).toUInt16 >>> 8).toUInt8] := by
  have hlow := short_low sel.toNat
  have hhigh := short_high sel.toNat
  have hlast : base.toNat / 256 ^ 2 / 256 = base.toNat / 256 ^ 3 := Nat.div_div_eq_div_mul _ _ _
  rw [UInt16.ofNat_toNat] at hlow hhigh
  rw [Gate.encode, idtGate]
  simp only [low_short, short_low, short_high, toNat_shift_16, hlow, hhigh, hlast]

section
variable (idtEntries : UInt32)

theorem idtField_addr (num : UInt8) (f : IdtField) :
    (idtField idtEntries num f).addr = cell (entryAddr idtEntries num.toNat) (Packed.offset idtEntryMembers f) := by
  have hindex : num.toNat * Packed.size idtEntryMembers = 8 * num.toNat := Nat.mul_comm _ _
  rw [idtField, hindex, addr_add, addr_add, Ptr.start_addr]
  rfl

/-- The stores of `idt_set_gate` are one store of a gate, and its message is printed. -/
theorem idtSetGate_val (num : UInt8) (base : UInt32) (sel : UInt16) (flags : UInt8) (s : Board) :
    ∃ s', idtSetGate idtEntries num base sel flags s = some s' ∧
      s'.ram.val = written (entryAddr idtEntries num.toNat) (idtGate base sel flags).encode s.ram.val := by
  have haddr := idtField_addr idtEntries num
  have hstored := (Filling.start idtEntries num.toNat s.ram).storeShort (haddr .baseLo) (by decide)
      (base &&& 0xFFFF).toUInt16
    |>.storeShort (haddr .baseHi) (by decide) ((base >>> 16) &&& 0xFFFF).toUInt16
    |>.storeShort (haddr .sel) (by decide) sel
    |>.store (haddr .always0) (by decide) 0
    |>.store (haddr .flags) (by decide) flags
  have hformat : ascii "Loading IDT #\x7b%d\x7d\x7b%\n\x7d" = numberLine (ascii "Loading IDT #") [] := by decide
  obtain ⟨s', hprint, hram, -⟩ := Board.print_numberLine (ascii "Loading IDT #") [] (by decide) (by decide)
    (by decide) (by decide) (Int32.ofNat num.toNat) 0 4 { s with ram := _ }
  refine ⟨s', ?_, ?_⟩
  · rw [idtSetGate, hformat]
    exact hprint
  · rw [hram, encode_idtGate]
    exact hstored.val_eq

/-- The entry of the vector is the gate asked for, and all others are as they were. -/
theorem idtSetGate_entries (num : UInt8) (base : UInt32) (sel : UInt16) (flags : UInt8) (s : Board) :
    ∃ s', idtSetGate idtEntries num base sel flags s = some s' ∧
      entryBytes s'.ram.val idtEntries num.toNat = (idtGate base sel flags).encode ∧
      ∀ j : UInt8, j ≠ num → entryBytes s'.ram.val idtEntries j.toNat = entryBytes s.ram.val idtEntries j.toNat := by
  obtain ⟨s', hrun, hval⟩ := idtSetGate_val idtEntries num base sel flags s
  have hsmall : ∀ i : UInt8, i.toNat < 2 ^ 29 := fun i => Nat.lt_trans i.toNat_lt (by decide)
  refine ⟨s', hrun, ?_, fun j hj => ?_⟩
  · rw [hval]
    exact entryBytes_written rfl
  · rw [hval]
    exact entryBytes_written_other rfl (hsmall num) (hsmall j) fun e => hj (UInt8.toNat_inj.1 e)

/-! ## Any calls -/

/-- The last call for a vector. -/
def lastCall (calls : List GateCall) (num : UInt8) : Option GateCall := (calls.filter (·.num = num)).getLast?

theorem lastCall_concat (calls : List GateCall) (c : GateCall) (num : UInt8) :
    lastCall (calls ++ [c]) num = if c.num = num then some c else lastCall calls num := by
  rw [lastCall, List.filter_append]
  by_cases hc : c.num = num
  · have hmatch : [c].filter (·.num = num) = [c] := by simp [hc]
    rw [if_pos hc, hmatch, List.getLast?_concat]
  · have hother : [c].filter (·.num = num) = [] := by simp [hc]
    rw [if_neg hc, hother, List.append_nil, lastCall]

theorem lastCall_none {calls : List GateCall} {num : UInt8} (h : ∀ c ∈ calls, c.num ≠ num) :
    lastCall calls num = none := by
  have hnil : calls.filter (·.num = num) = [] := List.filter_eq_nil_iff.2 fun c hc => by simpa using h c hc
  rw [lastCall, hnil, List.getLast?_nil]

/-- The entries after some calls: those of the last calls, and where there was none those before. -/
def EntriesAfter (calls : List GateCall) (s s' : Board) : Prop := ∀ num : UInt8,
  entryBytes s'.ram.val idtEntries num.toNat = match lastCall calls num with
    | some c => (idtGate c.base c.sel c.flags).encode
    | none => entryBytes s.ram.val idtEntries num.toNat

/-- By induction on the calls, from the last one. -/
theorem run_entriesAfter (s : Board) (calls : List GateCall) :
    ∃ s', Run.run (GateCall.run idtEntries) calls s = some s' ∧ EntriesAfter idtEntries calls s s' := by
  induction calls using List.reverseRecOn with
  | nil => exact ⟨s, rfl, fun _ => rfl⟩
  | append_singleton calls c ih =>
    obtain ⟨s1, hrun1, hafter⟩ := ih
    obtain ⟨s2, hrun2, hset, hothers⟩ := idtSetGate_entries idtEntries c.num c.base c.sel c.flags s1
    refine ⟨s2, ?_, fun num => ?_⟩
    · rw [Run.run_snoc, hrun1]
      exact hrun2
    · rw [lastCall_concat]
      by_cases hnum : c.num = num
      · rw [if_pos hnum, ← hnum]
        exact hset
      · rw [if_neg hnum, hothers num (Ne.symm hnum)]
        exact hafter num

theorem clearIdt_ram (idtPtr : UInt32) (s : Board) : ∃ m, (clearIdt idtEntries idtPtr s).ram =
    memset (.start idtEntries) 0 (UInt32.ofNat (Packed.size idtEntryMembers * 256)) m := by
  simp only [clearIdt, Board.outb_ram]
  exact ⟨_, rfl⟩

/-- The table is cleared before the first gate is set. -/
theorem entryBytes_clearIdt (idtPtr : UInt32) (s : Board) (num : UInt8) :
    entryBytes (clearIdt idtEntries idtPtr s).ram.val idtEntries num.toNat = List.replicate 8 0 := by
  obtain ⟨m, hram⟩ := clearIdt_ram idtEntries idtPtr s
  have hsize : (UInt32.ofNat (Packed.size idtEntryMembers * 256)).toNat = 2048 := rfl
  have hnum := num.toNat_lt
  have hzero := (memset_val (.start idtEntries) 0 (UInt32.ofNat (Packed.size idtEntryMembers * 256)) m).1
  rw [hsize, ← hram, Ptr.start_addr] at hzero
  refine List.ext_getElem (by rw [entryBytes, bytes_length, List.length_replicate]) fun i hi _ => ?_
  rw [entryBytes, bytes_length] at hi
  rw [List.getElem_replicate]
  refine (bytes_getElem _ _ _).trans ?_
  rw [entryAddr, cell_cell]
  exact hzero (8 * num.toNat + i) (by omega)

end

/-- The processor reads the gate a call asked for. -/
structure ReadsGate (g : Gate) (base : UInt32) (sel : UInt16) (flags : UInt8) : Prop where
  offset : g.offset = base
  selector : g.selector = sel
  reserved : g.reserved = 0
  flags : g.flags = flags

theorem readsGate (base : UInt32) (sel : UInt16) (flags : UInt8) :
    ReadsGate (Gate.decode (idtGate base sel flags).encode) base sel flags := by
  rw [Gate.decode_encode]
  exact ⟨rfl, rfl, rfl, rfl⟩

/-- What is read after some calls. -/
theorem run_readsGate (idtEntries : UInt32) (calls : List GateCall) (s : Board) :
    ∃ s', Run.run (GateCall.run idtEntries) calls s = some s' ∧ ∀ num : UInt8, match lastCall calls num with
      | some c => ReadsGate (Gate.decode (entryBytes s'.ram.val idtEntries num.toNat)) c.base c.sel c.flags
      | none => entryBytes s'.ram.val idtEntries num.toNat = entryBytes s.ram.val idtEntries num.toNat := by
  obtain ⟨s', hrun, hafter⟩ := run_entriesAfter idtEntries s calls
  refine ⟨s', hrun, fun num => ?_⟩
  have hentry := hafter num
  cases hlast : lastCall calls num with
  | none =>
    rw [hlast] at hentry
    exact hentry
  | some c =>
    rw [hlast] at hentry
    rw [hentry]
    exact readsGate c.base c.sel c.flags

/-- A vector that no call sets keeps the zeros of `init_idt`. -/
theorem initIdt_unset (idtEntries idtPtr : UInt32) (isr irq : Nat → UInt32) (calls : List GateCall) (s : Board) :
    ∃ s', (initIdt idtEntries idtPtr isr irq s).bind (Run.run (GateCall.run idtEntries) calls) = some s' ∧
      ∀ num : UInt8, (∀ c ∈ idtGates isr irq ++ calls, c.num ≠ num) →
        entryBytes s'.ram.val idtEntries num.toNat = List.replicate 8 0 := by
  obtain ⟨s', hrun, hafter⟩ := run_entriesAfter idtEntries (clearIdt idtEntries idtPtr s) (idtGates isr irq ++ calls)
  refine ⟨s', by rw [initIdt, ← Run.run_append, hrun], fun num hunset => ?_⟩
  have hentry := hafter num
  rw [lastCall_none hunset] at hentry
  exact hentry.trans (entryBytes_clearIdt idtEntries idtPtr s num)

/-- The processor reads back from an entry what `idt_set_gate` was given, and the other 255 entries
stay; after any calls it reads the arguments of the last call for each vector; and a vector that
neither `init_idt` nor a later call sets has an entry of zeros, which is not present. -/
theorem idtSetGate_decodes (idtEntries : UInt32) :
    (∀ (num : UInt8) (base : UInt32) (sel : UInt16) (flags : UInt8) (s : Board),
      ∃ s', idtSetGate idtEntries num base sel flags s = some s' ∧
        ReadsGate (Gate.decode (entryBytes s'.ram.val idtEntries num.toNat)) base sel flags ∧
        ∀ j : UInt8, j ≠ num → entryBytes s'.ram.val idtEntries j.toNat = entryBytes s.ram.val idtEntries j.toNat) ∧
    (∀ (calls : List GateCall) (s : Board), ∃ s', Run.run (GateCall.run idtEntries) calls s = some s' ∧
      ∀ num : UInt8, match lastCall calls num with
        | some c => ReadsGate (Gate.decode (entryBytes s'.ram.val idtEntries num.toNat)) c.base c.sel c.flags
        | none => entryBytes s'.ram.val idtEntries num.toNat = entryBytes s.ram.val idtEntries num.toNat) ∧
    ∀ (idtPtr : UInt32) (isr irq : Nat → UInt32) (calls : List GateCall) (s : Board),
      ∃ s', (initIdt idtEntries idtPtr isr irq s).bind (Run.run (GateCall.run idtEntries) calls) = some s' ∧
        ∀ num : UInt8, (∀ c ∈ idtGates isr irq ++ calls, c.num ≠ num) →
          entryBytes s'.ram.val idtEntries num.toNat = List.replicate 8 0 ∧
          (Gate.decode (entryBytes s'.ram.val idtEntries num.toNat)).present = false := by
  refine ⟨fun num base sel flags s => ?_, fun calls s => ?_, fun idtPtr isr irq calls s => ?_⟩
  · obtain ⟨s', hrun, hset, hothers⟩ := idtSetGate_entries idtEntries num base sel flags s
    exact ⟨s', hrun, hset ▸ readsGate base sel flags, hothers⟩
  · exact run_readsGate idtEntries calls s
  · obtain ⟨s', hrun, hunset⟩ := initIdt_unset idtEntries idtPtr isr irq calls s
    refine ⟨s', hrun, fun num hnum => ⟨hunset num hnum, ?_⟩⟩
    rw [hunset num hnum]
    rfl

end HavenOS
