/-
The array `interrupt_handlers` and the pointers to the tables in memory: what is read from them after
the stores of register_interrupt_handler, init_gdt and init_idt, and what those leave alone.
-/
import HavenOS.System.Basic

namespace HavenOS

open Ram X86

/-! ## Words -/

theorem byte_zero (x : UInt32) : x.toUInt16.toUInt8 = Words.byte x 0 := by
  have hshort : x.toUInt16 = UInt16.ofNat x.toNat := UInt16.toNat_inj.1 (by
    rw [UInt32.toNat_toUInt16, UInt16.toNat_ofNat'])
  rw [hshort, short_low, Words.byte, Nat.pow_zero, Nat.div_one]

theorem byte_one (x : UInt32) : (x.toUInt16 >>> 8).toUInt8 = Words.byte x 1 := by
  have hshort : x.toUInt16 = UInt16.ofNat x.toNat := UInt16.toNat_inj.1 (by
    rw [UInt32.toNat_toUInt16, UInt16.toNat_ofNat'])
  rw [hshort, short_high]
  rfl

theorem byte_high (x : UInt32) (k : Nat) : Words.byte (x >>> 16) k = Words.byte x (2 + k) := by
  have hpow : 256 ^ (2 + k) = 256 ^ 2 * 256 ^ k := Nat.pow_add 256 2 k
  rw [Words.byte, Words.byte, toNat_shift_16, Nat.div_div_eq_div_mul, hpow]

/-- The four bytes of a word. -/
theorem storeWord_val (p : Ptr) (x : UInt32) (m : Ram) : (m.storeWord p x).val = Words.write m.val p.addr x := by
  funext b
  obtain ⟨i, hi, rfl⟩ := exists_cell p.addr b
  have hadd : ∀ k : Nat, (p.add k).addr = cell p.addr k := fun k => addr_add p k
  have h0 : p.addr = cell p.addr 0 := (cell_zero _).symm
  have hval : (m.storeWord p x).val = Function.update (Function.update (Function.update (Function.update m.val
      (cell p.addr 0) (Words.byte x 0)) (cell p.addr 1) (Words.byte x 1)) (cell p.addr 2) (Words.byte x 2))
      (cell p.addr 3) (Words.byte x 3) := by
    have hthree : ((p.add 2).add 1).addr = cell p.addr 3 := by rw [Ptr.add_add]; exact hadd 3
    have hone : (p.add 1).addr = cell p.addr 1 := hadd 1
    have htwo : (p.add 2).addr = cell p.addr 2 := hadd 2
    rw [storeWord, storeShort, storeShort, store_val, store_val, store_val, store_val, byte_zero, byte_one, byte_zero,
      byte_one, byte_high, byte_high, hone, htwo, hthree, ← h0]
  have hne : ∀ {k : Nat}, k < 4 → i ≠ k → cell p.addr i ≠ cell p.addr k := fun hk hik e =>
    hik ((cell_inj p.addr hi (Nat.lt_trans hk (by decide))).1 e)
  rw [hval, Words.write, index_cell p.addr hi]
  by_cases h : i < 4
  · rw [if_pos h]
    interval_cases i
    · rw [Function.update_of_ne (hne (by decide) (by decide)), Function.update_of_ne (hne (by decide) (by decide)),
        Function.update_of_ne (hne (by decide) (by decide)), Function.update_self]
    · rw [Function.update_of_ne (hne (by decide) (by decide)), Function.update_of_ne (hne (by decide) (by decide)),
        Function.update_self]
    · rw [Function.update_of_ne (hne (by decide) (by decide)), Function.update_self]
    · rw [Function.update_self]
  · rw [if_neg h, Function.update_of_ne (hne (by decide) (by omega)),
      Function.update_of_ne (hne (by decide) (by omega)), Function.update_of_ne (hne (by decide) (by omega)),
      Function.update_of_ne (hne (by decide) (by omega))]

theorem apart_cells (a : UInt32) {i j : Nat} (hi : i < 2 ^ 30) (hj : j < 2 ^ 30) (h : i + 4 ≤ j ∨ j + 4 ≤ i) :
    Words.Apart (cell a i) (cell a j) := by
  have ha := a.toNat_lt
  rw [Words.Apart, UInt32.toNat_sub, toNat_cell, toNat_cell]
  omega

theorem write_outside_cells (val : UInt32 → UInt8) (a x b : UInt32) (h : ∀ i < 4, b ≠ cell a i) :
    Words.write val a x b = val b := by
  rw [Words.write]
  refine if_neg fun hlt => ?_
  exact h _ hlt (cell_index a b).symm

/-! ## What stores leave alone -/

/-- From `val` to `val'` only the `n` bytes from `a` on may have changed. -/
def Only (a : UInt32) (n : Nat) (val val' : UInt32 → UInt8) : Prop := ∀ b, (∀ i < n, b ≠ cell a i) → val' b = val b

namespace Only

variable {a b : UInt32} {n k : Nat} {val val' val'' : UInt32 → UInt8}

theorem refl (val : UInt32 → UInt8) : Only a n val val := fun _ _ => rfl

theorem trans (h : Only a n val val') (h' : Only a n val' val'') : Only a n val val'' := fun c hc =>
  (h' c hc).trans (h c hc)

/-- A part of the region. -/
theorem of_part {i m : Nat} (h : Only (cell a i) m val val') (hle : i + m ≤ n) : Only a n val val' := fun c hc =>
  h c fun j hj => by
    rw [cell_cell]
    exact hc (i + j) (by omega)

theorem bytes_eq (h : Only a n val val') (hapart : Ram.Apart a n b k) : bytes val' b k = bytes val b k :=
  bytes_congr fun i hi => h _ fun j hj => (hapart j hj i hi).symm

theorem entryBytes_eq (h : Only a n val val') (hapart : Ram.Apart a n b k) {i : Nat} (hi : 8 * i + 8 ≤ k) :
    entryBytes val' b i = entryBytes val b i :=
  h.bytes_eq (hapart.symm.drop hi).symm

theorem read_eq (h : Only a n val val') (hapart : Ram.Apart a n b k) {i : Nat} (hi : i + 4 ≤ k) :
    Words.read val' (cell b i) = Words.read val (cell b i) := by
  have hbyte : ∀ j < 4, val' (cell (cell b i) j) = val (cell (cell b i) j) := fun j hj => by
    rw [cell_cell]
    exact h _ fun l hl => (hapart l hl (i + j) (by omega)).symm
  have h0 := hbyte 0 (by decide)
  have h1 := hbyte 1 (by decide)
  have h2 := hbyte 2 (by decide)
  have h3 := hbyte 3 (by decide)
  rw [cell_zero] at h0
  simp only [cell, UInt32.reduceOfNat] at h0 h1 h2 h3
  simp only [Words.read, cell, h0, h1, h2, h3]

end Only

theorem only_storeWord (p : Ptr) (x : UInt32) (m : Ram) : Only p.addr 4 m.val (m.storeWord p x).val := by
  intro b hb
  rw [storeWord_val]
  exact write_outside_cells m.val p.addr x b hb

theorem only_storeShort (p : Ptr) (x : UInt16) (m : Ram) : Only p.addr 2 m.val (m.storeShort p x).val := by
  intro b hb
  have h0 := hb 0 (by decide)
  rw [cell_zero] at h0
  have h1 : b ≠ (p.add 1).addr := (addr_add p 1).symm ▸ hb 1 (by decide)
  rw [storeShort, store_val, store_val, Function.update_of_ne h1, Function.update_of_ne h0]

theorem only_memset (p : Ptr) (c : UInt8) (len : UInt32) (m : Ram) :
    Only p.addr len.toNat m.val (memset p c len m).val := (memset_val p c len m).2

theorem only_written (a : UInt32) (bs : List UInt8) (val : UInt32 → UInt8) :
    Only a bs.length val (written a bs val) := fun _ hb => written_outside hb

/-! ## The handlers -/

section
variable (sym : Addresses)

theorem handler_eq (s : System) (v : Nat) :
    s.handler sym (UInt32.ofNat v) = Words.read s.ram.val (cell sym.interruptHandlers (4 * v)) := by
  have hmul : (4 : UInt32) * UInt32.ofNat v = UInt32.ofNat (4 * v) := (UInt32.ofNat_mul 4 v).symm
  rw [System.handler, hmul]
  rfl

variable (interruptHandlers pointer : UInt32) (n : UInt8) (b : Board)

theorem registered_addr : ((Ptr.start interruptHandlers).add (4 * n.toNat : Nat)).addr =
    cell interruptHandlers (4 * n.toNat) := by
  rw [addr_add, Ptr.start_addr]

/-- The handler of one vector is set, and all others stay. -/
theorem read_registered {v : Nat} (hv : v < 256) :
    Words.read (registerInterruptHandler interruptHandlers n pointer b).ram.val (cell interruptHandlers (4 * v)) =
      if v = n.toNat then pointer else Words.read b.ram.val (cell interruptHandlers (4 * v)) := by
  have hn := n.toNat_lt
  have hval : (registerInterruptHandler interruptHandlers n pointer b).ram.val =
      Words.write b.ram.val (cell interruptHandlers (4 * n.toNat)) pointer := by
    rw [← registered_addr]
    exact storeWord_val _ _ _
  rw [hval]
  split
  · rename_i heq
    rw [heq]
    exact Words.read_write_self _ _ _
  · exact Words.read_write_apart _ _ (apart_cells interruptHandlers (by omega) (by omega) (by omega))

theorem only_registered : Only interruptHandlers 1024 b.ram.val
    (registerInterruptHandler interruptHandlers n pointer b).ram.val := by
  have hn := n.toNat_lt
  have hstore := only_storeWord ((Ptr.start interruptHandlers).add (4 * n.toNat : Nat)) pointer b.ram
  rw [registered_addr] at hstore
  exact hstore.of_part (by omega)

end

end HavenOS
