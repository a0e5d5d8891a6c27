/-
The placement allocator over whole runs: while the requests fit below 4 GiB the blocks are stacked
above the initial placement address; a request that does not fit wraps the address.
-/
import HavenOS.Lib.Blocks
import HavenOS.Memory.Basic
import Mathlib.Data.Nat.Bitwise
import Mathlib.Order.Bounds.Basic

namespace HavenOS

open Blocks

/-! ## One call -/

/-- Where a block goes from placement address `p`, before any wrap. -/
def Request.start (r : Request) (p : Nat) : Nat := if r.aligned then (p + 4095) / 4096 * 4096 else p

theorem Request.le_start (r : Request) (p : Nat) : p ≤ r.start p := by
  unfold Request.start
  split <;> omega

theorem Request.start_le (r : Request) {p : Nat} (hp : p < 2 ^ 32) : r.start p ≤ 2 ^ 32 := by
  unfold Request.start
  split <;> omega

/-- An aligned block starts at the least multiple of the page size from `p` on. -/
theorem Request.start_isLeast (r : Request) (h : r.aligned = true) (p : Nat) :
    IsLeast {a | 0x1000 ∣ a ∧ p ≤ a} (r.start p) := by
  have hstart : r.start p = (p + 4095) / 4096 * 4096 := if_pos h
  refine ⟨⟨⟨_, by rw [hstart, Nat.mul_comm]⟩, r.le_start p⟩, ?_⟩
  rintro a ⟨⟨k, rfl⟩, hle⟩
  rw [hstart]
  omega

theorem toNat_and_low (a : UInt32) : (a &&& 0x00000FFF).toNat = a.toNat % 4096 := by
  rw [UInt32.toNat_and, show (0x00000FFF : UInt32).toNat = 2 ^ 12 - 1 by rfl, Nat.and_two_pow_sub_one_eq_mod]

theorem toNat_and_high (a : UInt32) : (a &&& 0xFFFFF000).toNat = a.toNat / 4096 * 4096 := by
  have hmask : (0xFFFFF000 : UInt32).toNat = (2 ^ 20 - 1) * 2 ^ 12 := rfl
  rw [UInt32.toNat_and, hmask, show (4096 : Nat) = 2 ^ 12 by rfl]
  apply Nat.eq_of_testBit_eq
  intro i
  rw [Nat.testBit_and, Nat.testBit_mul_two_pow, Nat.testBit_mul_two_pow,
    Nat.testBit_two_pow_sub_one, Nat.testBit_div_two_pow]
  by_cases hi : i < 32
  · by_cases h12 : 12 ≤ i
    · simp [h12, show i - 12 < 20 by omega]
    · simp [h12]
  · have hbit : a.toNat.testBit i = false :=
      Nat.testBit_lt_two_pow (Nat.lt_of_lt_of_le a.toNat_lt (Nat.pow_le_pow_right (by decide) (by omega)))
    simp [hbit, show 12 ≤ i by omega]

/-- A call in closed form: the address is the start and the next one the end, both modulo 4 GiB. -/
theorem kmallocInt_spec (sz : UInt32) (align : Int32) (phys : UInt32) (st : Placement) :
    let start := (Request.kmallocInt sz align phys).start st.placementAddress.toNat
    (kmallocInt sz align phys st).1.toNat = start % 2 ^ 32 ∧
    (kmallocInt sz align phys st).2.placementAddress.toNat = (start + sz.toNat) % 2 ^ 32 ∧
    (kmallocInt sz align phys st).2.memory =
      if phys ≠ 0 then st.memory.set phys (kmallocInt sz align phys st).1 else st.memory := by
  have hlt := st.placementAddress.toNat_lt
  have haligned : (Request.kmallocInt sz align phys).aligned = true ↔ align = 1 := by simp [Request.aligned]
  have hlow : st.placementAddress &&& 0x00000FFF ≠ 0 ↔ st.placementAddress.toNat % 4096 ≠ 0 := by
    rw [← toNat_and_low, ne_eq, ne_eq, ← UInt32.toNat_inj]; rfl
  have hhigh := toNat_and_high st.placementAddress
  simp only [Request.start, haligned]
  unfold kmallocInt
  -- an aligned address is left alone also by an aligned call
  by_cases hround : align = 1 ∧ st.placementAddress &&& 0x00000FFF ≠ 0
  · have hnext : ((st.placementAddress &&& 0xFFFFF000) + 0x1000).toNat =
        (st.placementAddress.toNat + 4095) / 4096 * 4096 % 2 ^ 32 := by
      have := hlow.1 hround.2
      rw [UInt32.toNat_add, hhigh, show (0x1000 : UInt32).toNat = 4096 by rfl]
      omega
    simp only [if_pos hround, if_pos hround.1]
    refine ⟨?_, ?_, ?_⟩
    · split <;> exact hnext
    · split <;> simp only [UInt32.toNat_add, hnext] <;> omega
    · split <;> rfl
  · have hstay : (if align = 1 then (st.placementAddress.toNat + 4095) / 4096 * 4096 else st.placementAddress.toNat) =
        st.placementAddress.toNat := by
      by_cases h1 : align = 1
      · have h0 : ¬ st.placementAddress.toNat % 4096 ≠ 0 := fun h => hround ⟨h1, hlow.2 h⟩
        rw [if_pos h1]; omega
      · rw [if_neg h1]
    simp only [if_neg hround, hstay]
    refine ⟨?_, ?_, ?_⟩
    · split <;> exact (Nat.mod_eq_of_lt hlt).symm
    · split <;> simp only [UInt32.toNat_add]
    · split <;> rfl

section
variable (r : Request) (st : Placement)

theorem Request.call_eq : r.call st = HavenOS.kmallocInt r.sz (if r.aligned then 1 else 0) r.phys st := by
  cases r with
  | kmallocInt sz align phys =>
    by_cases h : align = 1
    · subst h; rfl
    · simp only [Request.aligned, decide_eq_true_eq, if_neg h]
      show HavenOS.kmallocInt sz align phys st = HavenOS.kmallocInt sz 0 phys st
      unfold HavenOS.kmallocInt
      rw [if_neg (fun hr => h hr.1), if_neg (fun hr => absurd hr.1 (by decide))]
  | _ => rfl

/-- `Request.call` as `kmallocInt_spec` has it. -/
theorem Request.call_spec :
    (r.call st).1.toNat = r.start st.placementAddress.toNat % 2 ^ 32 ∧
    (r.call st).2.placementAddress.toNat = (r.start st.placementAddress.toNat + r.sz.toNat) % 2 ^ 32 ∧
    (r.call st).2.memory = if r.phys ≠ 0 then st.memory.set r.phys (r.call st).1 else st.memory := by
  have haligned : (Request.kmallocInt r.sz (if r.aligned then 1 else 0) r.phys).aligned = r.aligned := by
    cases h : r.aligned <;> rfl
  have hstart : (Request.kmallocInt r.sz (if r.aligned then 1 else 0) r.phys).start = r.start := by
    funext p
    rw [Request.start, haligned, Request.start]
  rw [Request.call_eq, ← hstart]
  exact kmallocInt_spec _ _ _ _

end

/-- The block a call hands out. -/
def Call.block (c : Call) : Block Nat := ⟨c.address.toNat, c.address.toNat + c.request.sz.toNat⟩

/-! ## Runs that fit -/

/-- Every start is below 4 GiB, and every end but that of the last request. -/
def Room : List Request → Nat → Prop
  | [], _ => True
  | r :: rs, p => r.start p < 2 ^ 32 ∧ (rs = [] ∨ r.start p + r.sz.toNat < 2 ^ 32) ∧ Room rs (r.start p + r.sz.toNat)

/-- The blocks of a run with room are stacked above the placement address. -/
theorem calls_stacked : ∀ (rs : List Request) (st : Placement), Room rs st.placementAddress.toNat →
    Stacked st.placementAddress.toNat ((calls rs st).map Call.block)
  | [], _, _ => trivial
  | r :: rs, st, ⟨hstart, hend, hroom⟩ => by
    obtain ⟨haddress, hnext, -⟩ := r.call_spec st
    rw [Nat.mod_eq_of_lt hstart] at haddress
    refine ⟨?_, Nat.le_add_right _ _, ?_⟩
    · show _ ≤ (r.call st).1.toNat
      rw [haddress]; exact r.le_start _
    · show Stacked ((r.call st).1.toNat + r.sz.toNat) _
      -- only the last end may wrap, and nothing is stacked on it
      rcases hend with rfl | hend
      · exact trivial
      · rw [Nat.mod_eq_of_lt hend] at hnext
        rw [haddress, ← hnext]
        exact calls_stacked rs _ (by rw [hnext]; exact hroom)

/-- No request has an aligned start plus size beyond `2 ^ 32 - 1`. -/
def Fits : List Request → Nat → Prop
  | [], _ => True
  | r :: rs, p => r.start p + r.sz.toNat ≤ 2 ^ 32 - 1 ∧ Fits rs (r.start p + r.sz.toNat)

theorem Fits.room : ∀ {rs : List Request} {p : Nat}, Fits rs p → Room rs p
  | [], _, _ => trivial
  | _ :: _, _, ⟨h, hrest⟩ => ⟨by omega, .inr (by omega), hrest.room⟩

/-- What one call of a run promises. -/
structure Served (c : Call) : Prop where
  alignedStart : c.request.aligned = true →
    IsLeast {a | 0x1000 ∣ a ∧ c.before.placementAddress.toNat ≤ a} c.address.toNat
  start : c.request.aligned = false → c.address = c.before.placementAddress
  phys : c.request.phys ≠ 0 → c.after.memory.val c.request.phys = c.address
  stop : c.after.placementAddress.toNat = c.block.stop

theorem Request.call_served (r : Request) (st : Placement)
    (h : r.start st.placementAddress.toNat + r.sz.toNat ≤ 2 ^ 32 - 1) :
    Served ⟨r, st, (r.call st).1, (r.call st).2⟩ := by
  obtain ⟨haddress, hnext, hmemory⟩ := r.call_spec st
  rw [Nat.mod_eq_of_lt (by omega)] at haddress hnext
  refine ⟨fun haligned => ?_, fun haligned => ?_, fun hphys => ?_, ?_⟩
  · simp only [haddress]
    exact r.start_isLeast haligned _
  · refine UInt32.toNat_inj.1 (haddress.trans ?_)
    rw [Request.start, haligned]; rfl
  · simp only [hmemory, if_pos hphys, Store.set_val_self]
  · simp only [Call.block, hnext, haddress]

theorem calls_served : ∀ (rs : List Request) (st : Placement), Fits rs st.placementAddress.toNat →
    ∀ c ∈ calls rs st, Served c
  | r :: rs, st, ⟨h, hrest⟩, c, hc => by
    rcases List.mem_cons.1 hc with rfl | hc
    · exact r.call_served st h
    · obtain ⟨-, hnext, -⟩ := r.call_spec st
      rw [Nat.mod_eq_of_lt (by omega)] at hnext
      exact calls_served rs _ (by rw [hnext]; exact hrest) c hc

/-- The allocator after a run. -/
def afterCalls (rs : List Request) (st : Placement) : Placement := rs.foldl (fun st r => (r.call st).2) st

theorem afterCalls_last : ∀ (rs : List Request) (st : Placement) (c : Call), (calls rs st).getLast? = some c →
    afterCalls rs st = c.after
  | [], _, _, h => by cases h
  | [_], _, _, h => by cases h; rfl
  | r :: r' :: rs, st, c, h => by
    refine afterCalls_last (r' :: rs) (r.call st).2 c ?_
    rw [← h]
    exact (List.getLast?_cons_cons).symm

/-- While no aligned start plus size passes `2 ^ 32 - 1`, the allocator is safe: every block lies
above the initial placement address, the blocks come in order and do not overlap, each starts
where it should and is stored through `phys`, and the placement address is the end of the last. -/
theorem placement_safe (rs : List Request) (st : Placement) (h : Fits rs st.placementAddress.toNat) :
    (∀ c ∈ calls rs st, st.placementAddress.toNat ≤ c.block.start ∧ Served c) ∧
    (calls rs st).Pairwise (fun c d => c.address ≤ d.address ∧ Disjoint c.block.points d.block.points) ∧
    ∀ c, (calls rs st).getLast? = some c → (afterCalls rs st).placementAddress.toNat = c.block.stop := by
  have hstacked := calls_stacked rs st h.room
  refine ⟨fun c hc => ⟨hstacked.above _ (List.mem_map_of_mem hc), calls_served rs st h c hc⟩, ?_, ?_⟩
  · have hsorted := List.pairwise_map.1 hstacked.starts_sorted
    have hdisjoint := List.pairwise_map.1 hstacked.disjoint
    exact (hsorted.and hdisjoint).imp fun hcd => ⟨UInt32.le_iff_toNat_le.2 hcd.1, hcd.2⟩
  · intro c hc
    rw [afterCalls_last rs st c hc]
    exact (calls_served rs st h c (List.mem_of_getLast? hc)).stop

/-- Sixteen bytes at the end of the kernel, then a page stored through a pointer. -/
theorem placement_safe_two_calls :
    let rs : List Request := [.kmalloc 0x10, .kmallocAp 0x1000 0x5000]
    let st : Placement := ⟨0x100010, .fresh fun _ => 0⟩
    (∀ c ∈ calls rs st, st.placementAddress.toNat ≤ c.block.start ∧ Served c) ∧
    (calls rs st).Pairwise (fun c d => c.address ≤ d.address ∧ Disjoint c.block.points d.block.points) ∧
    ∀ c, (calls rs st).getLast? = some c → (afterCalls rs st).placementAddress.toNat = c.block.stop :=
  placement_safe [.kmalloc 0x10, .kmallocAp 0x1000 0x5000] ⟨0x100010, .fresh fun _ => 0⟩
    ⟨by decide, by decide, trivial⟩

/-! ## Requests that do not fit -/

/-- The start can be represented and the block ends at 4 GiB at the latest. -/
def Request.FitsBelow (r : Request) (p : Nat) : Prop := r.start p < 2 ^ 32 ∧ r.start p + r.sz.toNat ≤ 2 ^ 32

/-- A request that does not fit leaves the placement address no lower only if padding and size
together go once around the address space. -/
theorem not_lowered_iff (r : Request) (st : Placement) (h : ¬ r.FitsBelow st.placementAddress.toNat) :
    st.placementAddress.toNat ≤ (r.call st).2.placementAddress.toNat ↔
      2 ^ 32 ≤ r.start st.placementAddress.toNat - st.placementAddress.toNat + r.sz.toNat := by
  obtain ⟨-, hnext, -⟩ := r.call_spec st
  have hlo := r.le_start st.placementAddress.toNat
  have hhi := r.start_le st.placementAddress.toNat_lt
  have hsz := r.sz.toNat_lt
  unfold Request.FitsBelow at h
  rw [hnext]
  omega

/-- In a run with room no call returns an address below the initial placement address or inside an
earlier block. -/
theorem room_safe (rs : List Request) (st : Placement) (h : Room rs st.placementAddress.toNat) :
    (∀ c ∈ calls rs st, st.placementAddress ≤ c.address) ∧
    (calls rs st).Pairwise fun c d => d.address.toNat ∉ c.block.points := by
  have hstacked := calls_stacked rs st h
  refine ⟨fun c hc => ?_, List.pairwise_map.1 hstacked.start_notMem⟩
  exact UInt32.le_iff_toNat_le.2 (hstacked.above _ (List.mem_map_of_mem hc))

/-- Exhaustion. A request that does not fit below 4 GiB does not lower the placement address exactly
when padding and size together reach `2 ^ 32`. No call of a run returns an address below the
initial one or inside an earlier block, as long as every start is below 4 GiB and so is every end
but that of the last request. -/
theorem exhaustion_iff (r : Request) (rs : List Request) (st : Placement) :
    (¬ r.FitsBelow st.placementAddress.toNat →
      (st.placementAddress.toNat ≤ (r.call st).2.placementAddress.toNat ↔
        2 ^ 32 ≤ r.start st.placementAddress.toNat - st.placementAddress.toNat + r.sz.toNat)) ∧
    (Room rs st.placementAddress.toNat →
      (∀ c ∈ calls rs st, st.placementAddress ≤ c.address) ∧
      (calls rs st).Pairwise fun c d => d.address.toNat ∉ c.block.points) :=
  ⟨not_lowered_iff r st, room_safe rs st⟩

/-- A request for all but a byte of the address space, and a page request in a run after it. -/
theorem exhaustion_padding :
    (0x1001 ≤ ((Request.kmallocA 0xFFFFFFFF).call ⟨0x1001, .fresh fun _ => 0⟩).2.placementAddress.toNat ↔
      2 ^ 32 ≤ (Request.kmallocA 0xFFFFFFFF).start 0x1001 - 0x1001 + 0xFFFFFFFF) ∧
    (∀ c ∈ calls [.kmallocA 0x1000, .kmalloc 0xFFFFFFFF] ⟨0x1001, .fresh fun _ => 0⟩, 0x1001 ≤ c.address) ∧
    (calls [.kmallocA 0x1000, .kmalloc 0xFFFFFFFF] ⟨0x1001, .fresh fun _ => 0⟩).Pairwise
      fun c d => d.address.toNat ∉ c.block.points :=
  have h := exhaustion_iff (.kmallocA 0xFFFFFFFF) [.kmallocA 0x1000, .kmalloc 0xFFFFFFFF] ⟨0x1001, .fresh fun _ => 0⟩
  ⟨h.1 fun hfits => absurd hfits.2 (by decide), h.2 ⟨by decide, .inr (by decide), by decide, .inl rfl, trivial⟩⟩

/-- A request that does not fit lowers the placement address, and the next call hands out memory
below it, in the kernel. -/
theorem kmalloc_lowers :
    let first := (Request.kmalloc 0xFFFFFFFF).call ⟨0x200000, .fresh fun _ => 0⟩
    ¬ (Request.kmalloc 0xFFFFFFFF).FitsBelow 0x200000 ∧ ¬ 0x200000 ≤ first.2.placementAddress.toNat ∧
    ((Request.kmalloc 0x10).call first.2).1 < 0x200000 :=
  ⟨fun h => absurd h.2 (by decide), by decide, by decide⟩

end HavenOS
