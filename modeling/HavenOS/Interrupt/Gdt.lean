/-
The descriptors of mem.c: what gdt_set_gate stores, field by field, is the segment descriptor the
processor reads.
-/
import HavenOS.Interrupt.Table
import HavenOS.Lib.Descriptor

namespace HavenOS

open Ram X86

/-! ## The functions -/

inductive GdtField where
  | limitLow
  | baseLow
  | baseMiddle
  | access
  | granularity
  | baseHigh
deriving DecidableEq, Repr

/-- `gdt_entry_t`, which is packed. -/
def gdtEntryMembers : List (GdtField × Nat) :=
  [(.limitLow, 2), (.baseLow, 2), (.baseMiddle, 1), (.access, 1), (.granularity, 1), (.baseHigh, 1)]

/-- `gdt_entries[num].f`. -/
def gdtField (gdtEntries : UInt32) (num : Int32) (f : GdtField) : Ptr :=
  ((Ptr.start gdtEntries).add (num.toInt * Packed.size gdtEntryMembers)).add (Packed.offset gdtEntryMembers f)

def gdtSetGate (gdtEntries : UInt32) (num : Int32) (base limit : UInt32) (access gran : UInt8) (m : Ram) : Ram :=
  let m := m.storeShort (gdtField gdtEntries num .baseLow) (base &&& 0xFFFF).toUInt16
  let m := m.store (gdtField gdtEntries num .baseMiddle) ((base >>> 16) &&& 0xFF).toUInt8
  let m := m.store (gdtField gdtEntries num .baseHigh) ((base >>> 24) &&& 0xFF).toUInt8
  let m := m.storeShort (gdtField gdtEntries num .limitLow) (limit &&& 0xFFFF).toUInt16
  let m := m.store (gdtField gdtEntries num .granularity) ((limit >>> 16) &&& 0x0F).toUInt8
  let (granularity, m) := m.load (gdtField gdtEntries num .granularity)
  let m := m.store (gdtField gdtEntries num .granularity) (granularity ||| (gran &&& 0xF0))
  m.store (gdtField gdtEntries num .access) access

/-! ## What is stored -/

/-- The descriptor that a call asks for. -/
def gdtSegment (base limit : UInt32) (access gran : UInt8) : Segment where
  base := base
  limit := limit.toBitVec.setWidth 20
  access := access
  flags := (gran >>> 4).toBitVec.setWidth 4

theorem toNat_limit (limit : UInt32) : (limit.toBitVec.setWidth 20).toNat = limit.toNat % 2 ^ 20 :=
  BitVec.toNat_setWidth _ _

theorem toNat_flags (gran : UInt8) : ((gran >>> 4).toBitVec.setWidth 4).toNat = gran.toNat / 16 := by
  have hshift : (gran >>> 4).toNat = gran.toNat / 2 ^ 4 := Nat.shiftRight_eq_div_pow _ 4
  have hgran := gran.toNat_lt
  rw [BitVec.toNat_setWidth, UInt8.toNat_toBitVec, hshift]
  omega

theorem encode_gdtSegment (base limit : UInt32) (access gran : UInt8) : (gdtSegment base limit access gran).encode =
    [(limit &&& 0xFFFF).toUInt16.toUInt8, ((limit &&& 0xFFFF).toUInt16 >>> 8).toUInt8,
      (base &&& 0xFFFF).toUInt16.toUInt8,
      ((base &&& 0xFFFF).toUInt16 >>> 8).toUInt8, ((base >>> 16) &&& 0xFF).toUInt8, access,
      ((limit >>> 16) &&& 0x0F).toUInt8 ||| (gran &&& 0xF0), ((base >>> 24) &&& 0xFF).toUInt8] := by
  rw [Segment.encode, gdtSegment, toNat_limit, toNat_flags]
  simp only [low_short, short_low, short_high, masked_byte, nibbles_or, toNat_shift_16, toNat_shift_24]
  -- three of the bytes come from the limit
  rw [byte_congr (n := limit.toNat % 2 ^ 20) (k := limit.toNat) (by omega),
    byte_congr (n := limit.toNat % 2 ^ 20 / 256) (k := limit.toNat / 256) (by omega),
    byte_congr (n := limit.toNat % 2 ^ 20 / 256 ^ 2 + 16 * (gran.toNat / 16))
      (k := limit.toNat / 256 ^ 2 % 16 + 16 * (gran.toNat / 16)) (by omega)]

/-- What tells two descriptors apart. -/
theorem gdtSegment_inj {base base' limit limit' : UInt32} {access access' gran gran' : UInt8} :
    gdtSegment base limit access gran = gdtSegment base' limit' access' gran' ↔
      base = base' ∧ limit.toNat % 2 ^ 20 = limit'.toNat % 2 ^ 20 ∧ access = access' ∧
        gran.toNat / 16 = gran'.toNat / 16 := by
  rw [gdtSegment, gdtSegment, Segment.mk.injEq, ← BitVec.toNat_inj, ← BitVec.toNat_inj, toNat_limit,
    toNat_limit, toNat_flags,
    toNat_flags]

section
variable (gdtEntries : UInt32) {num : Int32} (h0 : 0 ≤ num)
include h0

theorem gdtField_addr (f : GdtField) : (gdtField gdtEntries num f).addr =
    cell (entryAddr gdtEntries num.toNatClampNeg) (Packed.offset gdtEntryMembers f) := by
  have hindex : num.toInt * Packed.size gdtEntryMembers = (8 * num.toNatClampNeg : Nat) := by
    have hsize : Packed.size gdtEntryMembers = 8 := rfl
    rw [hsize, ← Int32.cast_toNatClampNeg num h0]
    omega
  rw [gdtField, hindex, addr_add, addr_add, Ptr.start_addr]
  rfl

/-- The stores of `gdt_set_gate` are one store of a descriptor. -/
theorem gdtSetGate_val (base limit : UInt32) (access gran : UInt8) (m : Ram) :
    (gdtSetGate gdtEntries num base limit access gran m).val =
      written (entryAddr gdtEntries num.toNatClampNeg) (gdtSegment base limit access gran).encode m.val := by
  have haddr := gdtField_addr gdtEntries h0
  have hstored := (Filling.start gdtEntries num.toNatClampNeg m).storeShort (haddr .baseLow)
      (by decide) (base &&& 0xFFFF).toUInt16
    |>.store (haddr .baseMiddle) (by decide) ((base >>> 16) &&& 0xFF).toUInt8
    |>.store (haddr .baseHigh) (by decide) ((base >>> 24) &&& 0xFF).toUInt8
    |>.storeShort (haddr .limitLow) (by decide) (limit &&& 0xFFFF).toUInt16
    |>.store (haddr .granularity) (by decide) ((limit >>> 16) &&& 0x0F).toUInt8
    |>.modify (haddr .granularity) (by decide) (· ||| (gran &&& 0xF0))
    |>.store (haddr .access) (by decide) access
  rw [encode_gdtSegment]
  exact hstored.val_eq

theorem entryBytes_gdtSetGate (base limit : UInt32) (access gran : UInt8) (m : Ram) :
    entryBytes (gdtSetGate gdtEntries num base limit access gran m).val gdtEntries num.toNatClampNeg =
      (gdtSegment base limit access gran).encode := by
  rw [gdtSetGate_val gdtEntries h0]
  exact entryBytes_written rfl

theorem entryBytes_gdtSetGate_other {j : Nat} (hj : j < 2 ^ 29) (hne : j ≠ num.toNatClampNeg)
    (h5 : num.toNatClampNeg < 2 ^ 29)
    (base limit : UInt32) (access gran : UInt8) (m : Ram) :
    entryBytes (gdtSetGate gdtEntries num base limit access gran m).val gdtEntries j =
      entryBytes m.val gdtEntries j := by
  rw [gdtSetGate_val gdtEntries h0]
  exact entryBytes_written_other rfl h5 hj hne

theorem gdtSetGate_comm {num' : Int32} (h0' : 0 ≤ num') (h5 : num.toNatClampNeg < 2 ^ 29)
    (h5' : num'.toNatClampNeg < 2 ^ 29)
    (hne : num ≠ num') (base limit base' limit' : UInt32) (access gran access' gran' : UInt8) (m : Ram) :
    (gdtSetGate gdtEntries num base limit access gran (gdtSetGate gdtEntries num' base' limit' access' gran' m)).val =
      (gdtSetGate gdtEntries num' base' limit' access' gran'
        (gdtSetGate gdtEntries num base limit access gran m)).val := by
  have hindex : num.toNatClampNeg ≠ num'.toNatClampNeg := fun e =>
    hne (by rw [← num.ofNat_toNatClampNeg h0, e, num'.ofNat_toNatClampNeg h0'])
  rw [gdtSetGate_val gdtEntries h0, gdtSetGate_val gdtEntries h0', gdtSetGate_val gdtEntries h0',
    gdtSetGate_val gdtEntries h0]
  exact written_comm (entries_apart gdtEntries h5 h5' hindex)

end

/-- The descriptor is the one a call asked for. -/
structure ReadsBack (s : Segment) (base limit : UInt32) (access gran : UInt8) : Prop where
  base : s.base = base
  limit : s.limit.toNat = limit.toNat % 2 ^ 20
  access : s.access = access
  flags : s.flags.toNat = gran.toNat / 16

theorem index_lt {num : Int32} (h5 : num < 5) : num.toNatClampNeg < 5 := by
  have hfive : (5 : Int32).toInt = 5 := rfl
  have hlt := Int32.lt_iff_toInt_lt.1 h5
  rw [hfive] at hlt
  exact (Int.toNat_lt' (by decide)).2 hlt

/-- The processor reads back from an entry what `gdt_set_gate` was given, with the limit in 20 bits
and the flags from the upper nibble of the granularity; other entries stay, so that calls for
different entries commute, and what is read back is all that an entry depends on. -/
theorem gdtSetGate_decodes (gdtEntries : UInt32) (num : Int32) (h0 : 0 ≤ num) (h5 : num < 5) (base limit : UInt32)
    (access gran : UInt8) (m : Ram) :
    ReadsBack (Segment.decode (entryBytes (gdtSetGate gdtEntries num base limit access gran m).val gdtEntries
      num.toNatClampNeg)) base limit access gran ∧
    (∀ j < 5, j ≠ num.toNatClampNeg →
      entryBytes (gdtSetGate gdtEntries num base limit access gran m).val gdtEntries j =
        entryBytes m.val gdtEntries j) ∧
    (∀ num' : Int32, 0 ≤ num' → num' < 5 → num ≠ num' → ∀ (base' limit' : UInt32) (access' gran' : UInt8),
      (gdtSetGate gdtEntries num base limit access gran (gdtSetGate gdtEntries num' base' limit' access' gran' m)).val =
        (gdtSetGate gdtEntries num' base' limit' access' gran'
          (gdtSetGate gdtEntries num base limit access gran m)).val) ∧
    ∀ (base' limit' : UInt32) (access' gran' : UInt8),
      entryBytes (gdtSetGate gdtEntries num base limit access gran m).val gdtEntries num.toNatClampNeg =
        entryBytes (gdtSetGate gdtEntries num base' limit' access' gran' m).val gdtEntries num.toNatClampNeg ↔
      base = base' ∧ limit.toNat % 2 ^ 20 = limit'.toNat % 2 ^ 20 ∧ access = access' ∧
        gran.toNat / 16 = gran'.toNat / 16 := by
  have hsmall : ∀ {n : Int32}, n < 5 → n.toNatClampNeg < 2 ^ 29 := fun h => Nat.lt_trans (index_lt h) (by decide)
  refine ⟨?_, fun j hj hne => ?_, fun num' h0' h5' hne base' limit' access' gran' => ?_,
    fun base' limit' access' gran' => ?_⟩
  · rw [entryBytes_gdtSetGate gdtEntries h0, Segment.decode_encode]
    exact ⟨rfl, toNat_limit limit, rfl, toNat_flags gran⟩
  · exact entryBytes_gdtSetGate_other gdtEntries h0 (by omega) hne (hsmall h5) base limit access gran m
  · exact gdtSetGate_comm gdtEntries h0 h0' (hsmall h5)
      (hsmall h5') hne base limit base' limit' access gran access' gran' m
  · rw [entryBytes_gdtSetGate gdtEntries h0, entryBytes_gdtSetGate gdtEntries h0, Segment.encode_inj, gdtSegment_inj]

/-- The code segment of `init_gdt`. -/
theorem gdtSetGate_decodes_code : (Segment.decode (entryBytes (gdtSetGate 0x100000 1 0 0xFFFFFFFF 0x9A 0xCF
    (.fresh fun _ => 0)).val 0x100000 1)).limit.toNat = 0xFFFFF :=
  (gdtSetGate_decodes 0x100000 1 (by decide) (by decide) 0 0xFFFFFFFF 0x9A 0xCF (.fresh fun _ => 0)).1.limit

end HavenOS
