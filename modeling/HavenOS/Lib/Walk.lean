/-
Two-level address translation of the 32-bit x86 with 4 KiB pages: the entries, the walk from CR3
and what it gives when the entries on the way are known. Memory is read in aligned 32-bit words.
-/
import Mathlib.Data.UInt
import Mathlib.Data.Nat.Bitwise

namespace X86

/-! ## Entries -/

/-- The address in bits 12 to 31 of a directory or table entry, or of CR3. -/
def frame (entry : UInt32) : Nat := entry.toNat / 4096 * 4096

def present (entry : UInt32) : Bool := entry.toNat.testBit 0
def writable (entry : UInt32) : Bool := entry.toNat.testBit 1
def user (entry : UInt32) : Bool := entry.toNat.testBit 2

/-- A page-aligned address. -/
def PageAligned (a : UInt32) : Prop := a.toNat % 4096 = 0

instance (a : UInt32) : Decidable (PageAligned a) := inferInstanceAs (Decidable (_ = _))

section
variable {base flags : UInt32} (hb : PageAligned base) (hf : flags.toNat < 4096)
include hb hf

/-- Flags in the low twelve bits leave an aligned address alone. -/
theorem toNat_or : (base ||| flags).toNat = base.toNat + flags.toNat := by
  obtain ⟨k, hk⟩ : ∃ k, base.toNat = 2 ^ 12 * k := ⟨base.toNat / 4096, by unfold PageAligned at hb; omega⟩
  rw [UInt32.toNat_or, hk]
  exact (Nat.two_pow_add_eq_or_of_lt (i := 12) hf k).symm

theorem frame_or : frame (base ||| flags) = base.toNat := by
  unfold frame PageAligned at *
  rw [toNat_or hb hf]
  omega

omit hf in
theorem testBit_or {i : Nat} (hi : i < 12) : (base ||| flags).toNat.testBit i = flags.toNat.testBit i := by
  obtain ⟨k, hk⟩ : ∃ k, base.toNat = 2 ^ 12 * k := ⟨base.toNat / 4096, by unfold PageAligned at hb; omega⟩
  have hbase : base.toNat.testBit i = false := by
    rw [hk, Nat.testBit_two_pow_mul]
    simp only [ge_iff_le, Bool.and_eq_false_imp, decide_eq_true_eq]
    omega
  rw [UInt32.toNat_or, Nat.testBit_or, hbase, Bool.false_or]

end

theorem frame_aligned {base : UInt32} (hb : PageAligned base) : frame base = base.toNat := by
  unfold frame PageAligned at *
  omega

/-! ## The walk -/

/-- A translated address with its access rights, granted only where both levels grant them. -/
structure Translation where
  physical : Nat
  writable : Bool
  user : Bool
deriving DecidableEq, Repr

/-- The translation of `v` under the directory `cr3` points to; `none` is a page fault. -/
def walk (memory : Nat → UInt32) (cr3 v : UInt32) : Option Translation :=
  let pde := memory (frame cr3 + 4 * (v.toNat / 2 ^ 22))
  let pte := memory (frame pde + 4 * (v.toNat / 2 ^ 12 % 1024))
  if present pde && present pte then
    some ⟨frame pte + v.toNat % 4096, writable pde && writable pte, user pde && user pte⟩
  else none

section
variable {memory : Nat → UInt32} {cr3 v : UInt32}

theorem walk_absent (h : present (memory (frame cr3 + 4 * (v.toNat / 2 ^ 22))) = false) : walk memory cr3 v = none := by
  unfold walk
  simp only [h, Bool.false_and]
  rfl

/-- The walk through a directory entry and a table entry with equal flags. -/
theorem walk_mapped {table page flags : UInt32} (ht : PageAligned table) (hp : PageAligned page)
    (hf : flags.toNat < 4096)
    (hpde : memory (frame cr3 + 4 * (v.toNat / 2 ^ 22)) = table ||| flags)
    (hpte : memory (table.toNat + 4 * (v.toNat / 2 ^ 12 % 1024)) = page ||| flags) (hpresent : present flags = true) :
    walk memory cr3 v = some ⟨page.toNat + v.toNat % 4096, writable flags, user flags⟩ := by
  unfold walk present writable user at *
  simp only [hpde, frame_or ht hf, hpte, frame_or hp hf, testBit_or ht (show 0 < 12 by decide),
    testBit_or hp (show 0 < 12 by decide), testBit_or ht (show 1 < 12 by decide),
    testBit_or hp (show 1 < 12 by decide), testBit_or ht (show 2 < 12 by decide),
    testBit_or hp (show 2 < 12 by decide), hpresent, Bool.and_self, if_true]

end

end X86
