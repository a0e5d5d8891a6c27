/-
Tables of eight-byte descriptors, and the bytes that C code takes out of a word by masks and shifts.
-/
import HavenOS.Common.Bytes
import Mathlib.Tactic.IntervalCases

namespace HavenOS

open Ram

/-! ## Entries -/

def entryAddr (table : UInt32) (i : Nat) : UInt32 := cell table (8 * i)

/-- The bytes of an entry. -/
def entryBytes (val : UInt32 → UInt8) (table : UInt32) (i : Nat) : List UInt8 := bytes val (entryAddr table i) 8

theorem entries_apart (table : UInt32) {i j : Nat} (hi : i < 2 ^ 29) (hj : j < 2 ^ 29) (hij : i ≠ j) :
    Apart (entryAddr table i) 8 (entryAddr table j) 8 := by
  intro k hk l hl e
  rw [entryAddr, entryAddr, cell_cell, cell_cell, cell_inj table (by omega) (by omega)] at e
  omega

section
variable {table : UInt32} {i j : Nat} {bs : List UInt8} {val : UInt32 → UInt8} (hbs : bs.length = 8)
include hbs

theorem entryBytes_written : entryBytes (written (entryAddr table i) bs val) table i = bs := by
  have hbytes : bytes (written (entryAddr table i) bs val) (entryAddr table i) bs.length = bs :=
    bytes_written (by omega)
  rwa [hbs] at hbytes

theorem entryBytes_written_other (hi : i < 2 ^ 29) (hj : j < 2 ^ 29) (hij : j ≠ i) :
    entryBytes (written (entryAddr table i) bs val) table j = entryBytes val table j := by
  refine bytes_written_apart ?_
  rw [hbs]
  exact entries_apart table hj hi hij

end

/-! ## Stores into an entry -/

/-- In `m` the entry at `a` has the bytes `bs`, and all others are those of `val`. -/
structure Filling (a : UInt32) (val : UInt32 → UInt8) (bs : List UInt8) (m : Ram) : Prop where
  val_eq : m.val = written a bs val
  length_eq : bs.length = 8

namespace Filling

variable {a : UInt32} {val : UInt32 → UInt8} {bs : List UInt8} {m : Ram} {p : Ptr} {i : Nat}

theorem start (table : UInt32) (i : Nat) (m : Ram) : Filling (entryAddr table i) m.val (entryBytes m.val table i) m :=
  ⟨(written_self 8).symm, bytes_length _ _ _⟩

theorem store (h : Filling a val bs m) (hp : p.addr = cell a i) (hi : i < 8) (c : UInt8) :
    Filling a val (bs.set i c) (m.store p c) := by
  have hlen := h.length_eq
  refine ⟨?_, by rw [List.length_set, hlen]⟩
  rw [store_val, h.val_eq, hp, update_written (by omega) (by omega)]

theorem storeShort (h : Filling a val bs m) (hp : p.addr = cell a i) (hi : i + 1 < 8) (x : UInt16) :
    Filling a val ((bs.set i x.toUInt8).set (i + 1) (x >>> 8).toUInt8) (m.storeShort p x) := by
  have hnext : (p.add 1).addr = cell a (i + 1) := by
    rw [← cell_cell, ← hp]
    exact addr_add p 1
  exact (h.store hp (Nat.lt_of_succ_lt hi) _).store hnext hi _

/-- A load and a store of what is made of it. -/
theorem modify (h : Filling a val bs m) (hp : p.addr = cell a i) (hi : i < 8) (f : UInt8 → UInt8) :
    Filling a val (bs.set i (f (bs.getD i 0))) ((m.load p).2.store p (f (m.load p).1)) := by
  have hlen := h.length_eq
  have hloaded : Filling a val bs (m.load p).2 := ⟨h.val_eq, hlen⟩
  have hbyte : (m.load p).1 = bs.getD i 0 := by
    have hval : (m.load p).1 = m.val p.addr := rfl
    rw [hval, h.val_eq, hp, written_cell (by omega), List.getD_eq_getElem _ _ (by omega),
      List.getD_eq_getElem _ _ (by omega)]
  rw [hbyte]
  exact hloaded.store hp hi _

end Filling

/-! ## Bytes of a word -/

theorem byte_congr {n k : Nat} (h : n % 256 = k % 256) : UInt8.ofNat n = UInt8.ofNat k := by
  apply UInt8.toNat_inj.1
  rwa [UInt8.toNat_ofNat', UInt8.toNat_ofNat']

section
variable (x : UInt32)

theorem low_short : (x &&& 0xFFFF).toUInt16 = UInt16.ofNat x.toNat := by
  have hmask : x.toNat &&& 0xFFFF = x.toNat % 2 ^ 16 := Nat.and_two_pow_sub_one_eq_mod x.toNat 16
  apply UInt16.toNat_inj.1
  rw [UInt32.toNat_toUInt16, UInt32.toNat_and, UInt16.toNat_ofNat']
  exact (congrArg (· % 2 ^ 16) hmask).trans (Nat.mod_mod _ _)

theorem masked_byte : (x &&& 0xFF).toUInt8 = UInt8.ofNat x.toNat := by
  have hmask : x.toNat &&& 0xFF = x.toNat % 2 ^ 8 := Nat.and_two_pow_sub_one_eq_mod x.toNat 8
  apply UInt8.toNat_inj.1
  rw [UInt32.toNat_toUInt8, UInt32.toNat_and, UInt8.toNat_ofNat']
  exact (congrArg (· % 2 ^ 8) hmask).trans (Nat.mod_mod _ _)

theorem toNat_shift_16 : (x >>> 16).toNat = x.toNat / 256 ^ 2 := Nat.shiftRight_eq_div_pow x.toNat 16

theorem toNat_shift_24 : (x >>> 24).toNat = x.toNat / 256 ^ 3 := Nat.shiftRight_eq_div_pow x.toNat 24

theorem short_low (n : Nat) : (UInt16.ofNat n).toUInt8 = UInt8.ofNat n := by
  apply UInt8.toNat_inj.1
  rw [UInt16.toNat_toUInt8, UInt16.toNat_ofNat', UInt8.toNat_ofNat']
  omega

theorem short_high (n : Nat) : (UInt16.ofNat n >>> 8).toUInt8 = UInt8.ofNat (n / 256) := by
  have hshift : (UInt16.ofNat n >>> 8).toNat = (UInt16.ofNat n).toNat / 2 ^ 8 := Nat.shiftRight_eq_div_pow _ 8
  apply UInt8.toNat_inj.1
  rw [UInt16.toNat_toUInt8, hshift, UInt16.toNat_ofNat', UInt8.toNat_ofNat']
  omega

theorem high_nibble (g : UInt8) : (g &&& 0xF0).toNat = g.toNat / 16 * 16 := by
  have hbits : g.toBitVec &&& 0xF0 = g.toBitVec >>> 4 <<< 4 := by
    ext i hi
    interval_cases i <;> simp
  have hg := g.toNat_lt
  have hnat : (g &&& 0xF0).toNat = (g.toBitVec >>> 4 <<< 4).toNat := by rw [← hbits]; rfl
  rw [hnat, BitVec.toNat_shiftLeft, BitVec.toNat_ushiftRight, Nat.shiftLeft_eq, Nat.shiftRight_eq_div_pow,
    UInt8.toNat_toBitVec]
  omega

/-- Four bits below four others. -/
theorem nibbles_or (g : UInt8) :
    (x &&& 0x0F).toUInt8 ||| (g &&& 0xF0) = UInt8.ofNat (x.toNat % 16 + 16 * (g.toNat / 16)) := by
  have hmask : x.toNat &&& 0x0F = x.toNat % 2 ^ 4 := Nat.and_two_pow_sub_one_eq_mod x.toNat 4
  have hlow : (x &&& 0x0F).toUInt8.toNat = x.toNat % 16 := by
    have hbyte : (x &&& 0x0F).toUInt8.toNat = x.toNat % 2 ^ 4 % 2 ^ 8 := congrArg (· % 2 ^ 8) hmask
    omega
  have hor := Nat.shiftLeft_add_eq_or_of_lt (i := 4) (Nat.mod_lt x.toNat (show 0 < 16 by decide)) (g.toNat / 16)
  have hg := g.toNat_lt
  rw [Nat.shiftLeft_eq] at hor
  apply UInt8.toNat_inj.1
  rw [UInt8.toNat_or, hlow, high_nibble, Nat.or_comm, ← hor, UInt8.toNat_ofNat']
  omega

end

end HavenOS
