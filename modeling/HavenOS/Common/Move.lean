/-
memcpy, memset and memmove of common.c, and that memmove is right however the two ranges overlap.
-/
import HavenOS.Lib.Ram

namespace HavenOS

open Ram

/-! ## The loops -/

/-- `for (; len != 0; len--) *dp++ = *sp++;`. -/
def copyUp : Nat → Ptr → Ptr → Ram → Ram
  | 0, _, _, m => m
  | len + 1, dp, sp, m =>
    let (c, m) := m.load sp
    copyUp len (dp.add 1) (sp.add 1) (m.store dp c)

/-- `while (count-- > 0) *d-- = *s--;`. -/
def copyDown : Nat → Ptr → Ptr → Ram → Ram
  | 0, _, _, m => m
  | count + 1, d, s, m =>
    let (c, m) := m.load s
    copyDown count (d.add (-1)) (s.add (-1)) (m.store d c)

/-- `for (; len != 0; len--) *temp++ = val;`. -/
def setUp (val : UInt8) : Nat → Ptr → Ram → Ram
  | 0, _, m => m
  | len + 1, temp, m => setUp val len (temp.add 1) (m.store temp val)

def memcpy (dest src : Ptr) (len : UInt32) (m : Ram) : Ram := copyUp len.toNat dest src m

def memset (dest : Ptr) (val : UInt8) (len : UInt32) (m : Ram) : Ram := setUp val len.toNat dest m

/-- The pointers are compared as addresses. -/
def memmove (dest src : Ptr) (count : UInt32) (m : Ram) : Ptr × Ram :=
  let d := dest
  let s := src
  if d.addr < s.addr ∨ d.addr ≥ (s.add count.toNat).addr then (dest, copyUp count.toNat d s m)
  else
    let d := (d.add count.toNat).add (-1)
    let s := (s.add count.toNat).add (-1)
    (dest, copyDown count.toNat d s m)

/-! ## What they leave -/

theorem copyUp_val : ∀ (n : Nat) (d s : Ptr) (m : Ram), (copyUp n d s m).val = copied d.addr s.addr n m.val
  | 0, _, _, _ => rfl
  | n + 1, d, s, m => by
    have hnext : ∀ p : Ptr, (p.add 1).addr = cell p.addr 1 := fun p => addr_add p 1
    rw [copyUp, copied_first, ← hnext, ← hnext]
    exact copyUp_val n (d.add 1) (s.add 1) _

/-- Where the destination is not before the source. -/
theorem copyDown_moved {d s : Ptr} (hle : s.addr.toNat ≤ d.addr.toNat) :
    ∀ (n : Nat) (m : Ram), d.addr.toNat + n ≤ 2 ^ 32 →
    Moved d.addr s.addr n m.val (copyDown n ((d.add n).add (-1)) ((s.add n).add (-1)) m).val
  | 0, _, _ => ⟨fun _ h => absurd h (Nat.not_lt_zero _), fun _ _ => rfl⟩
  | n + 1, m, hfits => by
    have hlast : ∀ p : Ptr, (p.add (n + 1 : Nat)).add (-1) = p.add n := by
      intro p
      rw [Ptr.add_add]
      congr 1
      omega
    rw [hlast, hlast, copyDown]
    refine .of_last (by omega) (fun j hj e => ?_) ?_
    · have e := congrArg UInt32.toNat e
      rw [toNat_cell, toNat_cell] at e
      omega
    · rw [← addr_add d, ← addr_add s]
      exact copyDown_moved hle n ((m.load (s.add n)).2.store (d.add n) (m.val (s.add n).addr)) (by omega)

theorem memcpy_val (dest src : Ptr) (len : UInt32) (m : Ram) :
    (memcpy dest src len m).val = copied dest.addr src.addr len.toNat m.val := copyUp_val _ _ _ _

theorem setUp_val (c : UInt8) : ∀ (n : Nat) (p : Ptr) (m : Ram), n ≤ 2 ^ 32 →
    (∀ i < n, (setUp c n p m).val (cell p.addr i) = c) ∧
      ∀ a, (∀ i < n, a ≠ cell p.addr i) → (setUp c n p m).val a = m.val a
  | 0, _, _, _ => ⟨fun _ h => absurd h (Nat.not_lt_zero _), fun _ _ => rfl⟩
  | n + 1, p, m, hn => by
    obtain ⟨hin, hout⟩ := setUp_val c n (p.add 1) (m.store p c) (by omega)
    have hnext : (p.add 1).addr = cell p.addr 1 := addr_add p 1
    simp only [hnext, cell_cell] at hin hout
    rw [setUp]
    refine ⟨fun i hi => ?_, fun a ha => ?_⟩
    · cases i with
      | zero =>
        rw [hout _ fun j hj => cell_ne p.addr (by omega) (by omega), cell_zero, store_val, Function.update_self]
      | succ i => rw [Nat.add_comm, hin i (by omega)]
    · have hfirst := ha 0 (Nat.succ_pos n)
      rw [cell_zero] at hfirst
      rw [hout a fun i hi => ha (1 + i) (by omega), store_val, Function.update_of_ne hfirst]

/-- Every byte of the range is set and no other one changes. -/
theorem memset_val (dest : Ptr) (c : UInt8) (len : UInt32) (m : Ram) :
    (∀ i < len.toNat, (memset dest c len m).val (cell dest.addr i) = c) ∧
    ∀ a, (∀ i < len.toNat, a ≠ cell dest.addr i) → (memset dest c len m).val a = m.val a :=
  setUp_val c len.toNat dest m (Nat.le_of_lt len.toNat_lt)

/-! ## memmove -/

section
variable {dest src : Ptr} {count : UInt32} (hdest : dest.addr.toNat + count.toNat ≤ 2 ^ 32)
  (hsrc : src.addr.toNat + count.toNat ≤ 2 ^ 32)
include hdest hsrc

/-- The test for the direction. The end of the source may be the top of the address space, where it
wraps to 0, but then the destination does not begin beyond the source. -/
theorem upwards (hup : dest.addr < src.addr ∨ dest.addr ≥ (src.add count.toNat).addr) :
    dest.addr.toNat ≤ src.addr.toNat ∨ src.addr.toNat + count.toNat ≤ dest.addr.toNat := by
  have hend : (src.add count.toNat).addr.toNat = (src.addr.toNat + count.toNat) % 2 ^ 32 := by rw [addr_add, toNat_cell]
  rw [UInt32.lt_iff_toNat_lt, ge_iff_le, UInt32.le_iff_toNat_le, hend] at hup
  omega

theorem memmove_moved (m : Ram) : Moved dest.addr src.addr count.toNat m.val (memmove dest src count m).2.val := by
  rw [memmove]
  split
  · rename_i hup
    have hside := upwards hdest hsrc hup
    rw [copyUp_val]
    refine .of_copied (Nat.le_of_lt count.toNat_lt) fun i hi j hj e => ?_
    have e := congrArg UInt32.toNat e
    rw [toNat_cell, toNat_cell] at e
    omega
  · rename_i hdown
    have hle : ¬ dest.addr.toNat < src.addr.toNat := fun h => hdown (.inl (UInt32.lt_iff_toNat_lt.2 h))
    exact copyDown_moved (by omega) count.toNat m hdest

/-- `memmove` moves the bytes as they were, whatever the overlap, and returns its destination; where
the ranges do not overlap `memcpy` leaves the same memory. -/
theorem memmove_moves (m : Ram) : (memmove dest src count m).1 = dest ∧
    Moved dest.addr src.addr count.toNat m.val (memmove dest src count m).2.val ∧
    (Apart dest.addr count.toNat src.addr count.toNat →
      (memcpy dest src count m).val = (memmove dest src count m).2.val) := by
  refine ⟨?_, memmove_moved hdest hsrc m, fun hapart => ?_⟩
  · rw [memmove]
    split <;> rfl
  · rw [memcpy_val]
    refine Moved.unique (.of_copied (Nat.le_of_lt count.toNat_lt) fun i hi j hj => ?_) (memmove_moved hdest hsrc m)
    exact (hapart j (by omega) i hi).symm

end

/-- Up by one, to the last three bytes of the memory. -/
theorem memmove_moves_top :
    Moved (Ptr.start 0xFFFFFFFD).addr (Ptr.start 0xFFFFFFFC).addr (UInt32.toNat 3) UInt32.toUInt8
    (memmove (.start 0xFFFFFFFD) (.start 0xFFFFFFFC) 3 (.fresh UInt32.toUInt8)).2.val :=
  (memmove_moves (by decide) (by decide) (.fresh UInt32.toUInt8)).2.1

end HavenOS
