/-
memcmp of common.c: the lexicographic order of sequences of unsigned bytes, and the laws of an order
for each length.
-/
import HavenOS.Common.Bytes
import HavenOS.Lib.Compare

namespace HavenOS

open Ram

/-- `while (count-- > 0)`. -/
def memcmpLoop : Nat → Ptr → Ptr → Ram → Int32 × Ram
  | 0, _, _, m => (0, m)
  | count + 1, p1, p2, m =>
    let (a, m) := m.load p1
    let (b, m) := m.load p2
    if a ≠ b then
      let (a, m) := m.load p1
      let (b, m) := m.load p2
      (if a < b then -1 else 1, m)
    else memcmpLoop count (p1.add 1) (p2.add 1) m

def memcmp (ptr1 ptr2 : Ptr) (count : UInt32) (m : Ram) : Int32 × Ram := memcmpLoop count.toNat ptr1 ptr2 m

/-! ## The order -/

section
variable {n : Nat} {p q : Ptr} {m : Ram}

theorem memcmpLoop_same (h : m.val p.addr = m.val q.addr) :
    memcmpLoop (n + 1) p q m = memcmpLoop n (p.add 1) (q.add 1) ((m.load p).2.load q).2 := if_neg (not_not_intro h)

theorem memcmpLoop_differ (h : m.val p.addr ≠ m.val q.addr) :
    (memcmpLoop (n + 1) p q m).1 = if m.val p.addr < m.val q.addr then -1 else 1 := congrArg Prod.fst (if_pos h)

end

/-- The loop compares what is left, one byte a round. -/
theorem memcmpLoop_threeWay : ∀ (n : Nat) (p q : Ptr) (m : Ram),
    ThreeWay (· < ·) (bytes m.val p.addr n) (bytes m.val q.addr n) (memcmpLoop n p q m).1.toInt
  | 0, p, q, m => .equal _
  | n + 1, p, q, m => by
    have hnext : ∀ r : Ptr, (r.add 1).addr = cell r.addr 1 := fun r => addr_add r 1
    rw [bytes_succ, bytes_succ]
    by_cases hsame : m.val p.addr = m.val q.addr
    · have hrest := memcmpLoop_threeWay n (p.add 1) (q.add 1) ((m.load p).2.load q).2
      rw [hnext, hnext] at hrest
      rw [memcmpLoop_same hsame, hsame]
      exact .cons _ hrest
    · rw [memcmpLoop_differ hsame]
      refine .of_head hsame ?_
      by_cases hlt : m.val p.addr < m.val q.addr
      · rw [if_pos hlt]
        exact .before hlt
      · rw [if_neg hlt]
        exact .behind (((ThreeWay.lt_or_eq_or_gt _ _ _).resolve_left hlt).resolve_left hsame)

theorem memcmp_threeWay (p q : Ptr) (count : UInt32) (m : Ram) : ThreeWay (· < ·) (bytes m.val p.addr count.toNat)
    (bytes m.val q.addr count.toNat) (memcmp p q count m).1.toInt := memcmpLoop_threeWay _ p q m

/-- The bytes at `p` and `q` differ first at a place where the one at `p` is smaller. -/
def SmallerAt (val : UInt32 → UInt8) (p q : UInt32) (n : Nat) : Prop :=
  ∃ i < n, (∀ j < i, val (cell p j) = val (cell q j)) ∧ val (cell p i) < val (cell q i)

theorem bytes_lt_iff (val : UInt32 → UInt8) (p q : UInt32) (n : Nat) :
    bytes val p n < bytes val q n ↔ SmallerAt val p q n := by
  rw [List.lt_iff_exists]
  simp only [bytes_length, bytes_getElem, Nat.lt_irrefl, and_false, false_or]
  constructor
  · rintro ⟨i, hi, -, hbefore, hlt⟩
    exact ⟨i, hi, hbefore, hlt⟩
  · rintro ⟨i, hi, hbefore, hlt⟩
    exact ⟨i, hi, hi, hbefore, hlt⟩

theorem memcmp_le_zero_iff (p q : Ptr) (count : UInt32) (m : Ram) : (memcmp p q count m).1 ≤ 0 ↔
    bytes m.val p.addr count.toNat ≤ bytes m.val q.addr count.toNat := by
  rw [Int32.le_iff_toInt_le, ← List.not_lt]
  exact (memcmp_threeWay p q count m).le_zero_iff

/-- What `memcmp` returns for the bytes at `p` and `q`. -/
structure MemcmpResult (val : UInt32 → UInt8) (p q : UInt32) (n : Nat) (c : Int32) : Prop where
  equal : c = 0 ↔ bytes val p n = bytes val q n
  smaller : c = -1 ↔ SmallerAt val p q n
  greater : c = 1 ↔ SmallerAt val q p n

theorem memcmp_result (p q : Ptr) (count : UInt32) (m : Ram) :
    MemcmpResult m.val p.addr q.addr count.toNat (memcmp p q count m).1 := by
  have h := memcmp_threeWay p q count m
  refine ⟨?_, ?_, ?_⟩
  · rw [← h.zero_iff, ← Int32.toInt_inj]
    rfl
  · rw [← bytes_lt_iff]
    exact Int32.toInt_inj.symm.trans h.neg_iff
  · rw [← bytes_lt_iff]
    exact Int32.toInt_inj.symm.trans h.pos_iff

/-- `memcmp` returns the sign of the lexicographic comparison of unsigned bytes, and the opposite
for its arguments the other way round. For one length, `<= 0` is reflexive, antisymmetric on
contents, transitive, also where the three comparisons are made in different memories, and total. -/
theorem memcmp_order (count : UInt32) :
    (∀ p q m, MemcmpResult m.val p.addr q.addr count.toNat (memcmp p q count m).1) ∧
    (∀ p q m, (memcmp p q count m).1.toInt = -(memcmp q p count m).1.toInt) ∧
    (∀ p m, (memcmp p p count m).1 ≤ 0) ∧
    (∀ p q m, (memcmp p q count m).1 ≤ 0 → (memcmp q p count m).1 ≤ 0 →
      bytes m.val p.addr count.toNat = bytes m.val q.addr count.toNat) ∧
    (∀ p q m q' r m' p' r' m'', bytes m.val p.addr count.toNat = bytes m''.val p'.addr count.toNat →
      bytes m.val q.addr count.toNat = bytes m'.val q'.addr count.toNat →
      bytes m'.val r.addr count.toNat = bytes m''.val r'.addr count.toNat →
      (memcmp p q count m).1 ≤ 0 → (memcmp q' r count m').1 ≤ 0 → (memcmp p' r' count m'').1 ≤ 0) ∧
    (∀ p q m, (memcmp p q count m).1 ≤ 0 ∨ (memcmp q p count m).1 ≤ 0) := by
  simp only [memcmp_le_zero_iff]
  refine ⟨fun p q m => memcmp_result p q count m, fun p q m => ?_, fun p m => List.le_refl _,
    fun p q m hle hge => List.le_antisymm hle hge, ?_, fun p q m => List.le_total _ _⟩
  · exact (memcmp_threeWay p q count m).unique (memcmp_threeWay q p count m).neg
  · intro p q m q' r m' p' r' m'' hp hq hr hle hle'
    rw [← hp, ← hr]
    rw [← hq] at hle'
    exact List.le_trans hle hle'

end HavenOS
