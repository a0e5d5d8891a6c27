/-
The descriptors of a 32-bit x86 processor, eight bytes each: segment descriptors and interrupt
gates, with their fields as the processor puts them together.
-/
import Mathlib.Data.UInt

namespace X86

/-- The number that bytes make, the lowest first. -/
def littleEndian : List UInt8 → Nat
  | [] => 0
  | b :: bs => b.toNat + 256 * littleEndian bs

/-! ## Segments -/

@[ext] structure Segment where
  base : UInt32
  limit : BitVec 20
  access : UInt8
  flags : BitVec 4
deriving DecidableEq, Repr

namespace Segment

/-- Byte 6 has the last four bits of the limit below the flags. -/
def encode (s : Segment) : List UInt8 :=
  [UInt8.ofNat s.limit.toNat, UInt8.ofNat (s.limit.toNat / 256),
    UInt8.ofNat s.base.toNat, UInt8.ofNat (s.base.toNat / 256), UInt8.ofNat (s.base.toNat / 256 ^ 2),
    s.access, UInt8.ofNat (s.limit.toNat / 256 ^ 2 + 16 * s.flags.toNat), UInt8.ofNat (s.base.toNat / 256 ^ 3)]

def decode (bs : List UInt8) : Segment :=
  let b := fun i => bs.getD i 0
  { base := UInt32.ofNat (littleEndian [b 2, b 3, b 4, b 7])
    limit := BitVec.ofNat 20 (littleEndian [b 0, b 1, b 6])
    access := b 5
    flags := BitVec.ofNat 4 ((b 6).toNat / 16) }

theorem decode_encode (s : Segment) : decode s.encode = s := by
  have hbase := s.base.toNat_lt
  have hlimit := s.limit.isLt
  have hflags := s.flags.isLt
  ext1
  · apply UInt32.toNat_inj.1
    simp only [decode, encode, littleEndian, List.getD_cons_succ, List.getD_cons_zero,
      UInt32.toNat_ofNat', UInt8.toNat_ofNat']
    omega
  · apply BitVec.eq_of_toNat_eq
    simp only [decode, encode, littleEndian, List.getD_cons_succ, List.getD_cons_zero,
      BitVec.toNat_ofNat, UInt8.toNat_ofNat']
    omega
  · rfl
  · apply BitVec.eq_of_toNat_eq
    simp only [decode, encode, List.getD_cons_succ, List.getD_cons_zero, BitVec.toNat_ofNat, UInt8.toNat_ofNat']
    omega

theorem encode_inj {s t : Segment} : s.encode = t.encode ↔ s = t :=
  ⟨fun h => by rw [← decode_encode s, h, decode_encode], fun h => by rw [h]⟩

end Segment

/-! ## Interrupt gates -/

@[ext] structure Gate where
  offset : UInt32
  selector : UInt16
  reserved : UInt8
  flags : UInt8
deriving DecidableEq, Repr

namespace Gate

def encode (g : Gate) : List UInt8 :=
  [UInt8.ofNat g.offset.toNat, UInt8.ofNat (g.offset.toNat / 256), UInt8.ofNat g.selector.toNat,
    UInt8.ofNat (g.selector.toNat / 256), g.reserved, g.flags, UInt8.ofNat (g.offset.toNat / 256 ^ 2),
    UInt8.ofNat (g.offset.toNat / 256 ^ 3)]

def decode (bs : List UInt8) : Gate :=
  let b := fun i => bs.getD i 0
  { offset := UInt32.ofNat (littleEndian [b 0, b 1, b 6, b 7])
    selector := UInt16.ofNat (littleEndian [b 2, b 3])
    reserved := b 4
    flags := b 5 }

/-- The highest bit of the flags. -/
def present (g : Gate) : Bool := g.flags &&& 0x80 ≠ 0

theorem decode_encode (g : Gate) : decode g.encode = g := by
  have hoffset := g.offset.toNat_lt
  have hselector := g.selector.toNat_lt
  ext1
  · apply UInt32.toNat_inj.1
    simp only [decode, encode, littleEndian, List.getD_cons_succ, List.getD_cons_zero,
      UInt32.toNat_ofNat', UInt8.toNat_ofNat']
    omega
  · apply UInt16.toNat_inj.1
    simp only [decode, encode, littleEndian, List.getD_cons_succ, List.getD_cons_zero,
      UInt16.toNat_ofNat', UInt8.toNat_ofNat']
    omega
  · rfl
  · rfl

end Gate

end X86
