/-
Segments of a 32-bit x86 in use: what kind of segment a descriptor describes, the limit it stands for,
and the linear address of an offset. Segments that grow downwards are left out.
-/
import HavenOS.Lib.Descriptor

namespace X86

/-- A present interrupt gate of 32 bits. -/
def Gate.isInterrupt (g : Gate) : Bool := g.flags &&& 0x9F = 0x8E

namespace Segment

/-- A present segment of code. -/
def isCode (s : Segment) : Bool := s.access &&& 0x98 = 0x98

/-- A present segment of data that may be written. -/
def isData (s : Segment) : Bool := s.access &&& 0x9A = 0x92

/-- The last offset; the highest flag counts the limit in pages. -/
def last (s : Segment) : Nat := if s.flags.getMsbD 0 then s.limit.toNat * 4096 + 4095 else s.limit.toNat

/-- The linear address of an offset; `none` is a protection fault. -/
def linear (s : Segment) (offset : UInt32) : Option UInt32 :=
  if (s.isCode || s.isData) && offset.toNat ≤ s.last then some (s.base + offset) else none

end Segment

end X86
