/-
strreverse in memory: the two indices meet in the middle, whatever the parity of the length.
-/
import HavenOS.Cstring.Pointers
import HavenOS.Cstring.Number
import HavenOS.Lib.Mirror

namespace HavenOS

open Ram

/-- A round of the loop; the variables are `start` and `end`. -/
def strreverseRound (str : Ptr) : Int32 × Int32 × Ram → Bool × Int32 × Int32 × Ram
  | (start, «end», m) =>
    if start < «end» then
      let (temp, m) := m.load (str.add start.toInt)
      let (c, m) := m.load (str.add «end».toInt)
      let m := m.store (str.add start.toInt) c
      let m := m.store (str.add «end».toInt) temp
      (true, start + 1, «end» - 1, m)
    else (false, start, «end», m)

def strreverseAt (str : Ptr) (length : Int32) (fuel : Nat) (m : Ram) : Option Ram :=
  (Loop.rounds (strreverseRound str) fuel (0, length - 1, m)).bind fun s => some s.2.2

/-- `end` after `k` rounds. -/
theorem toInt_end {n k : Nat} (hn : n < 2 ^ 31) (hk : k < 2 ^ 31) :
    (Int32.ofNat n - 1 - Int32.ofNat k).toInt = (n : Int) - 1 - k := by
  have hone : (1 : Int32).toInt = 1 := rfl
  have hfirst : ((n : Int) - 1).bmod (2 ^ 32) = n - 1 := Int.bmod_eq_of_le (by omega) (by omega)
  rw [Int32.toInt_sub, Int32.toInt_sub, Int32.toInt_ofNat_of_lt hn, Int32.toInt_ofNat_of_lt hk, hone, hfirst]
  exact Int.bmod_eq_of_le (by omega) (by omega)

/-- The test of the loop. -/
theorem start_lt_end {n k : Nat} (hn : n < 2 ^ 31) (hk : k < 2 ^ 31) :
    Int32.ofNat k < Int32.ofNat n - 1 - Int32.ofNat k ↔ k + k + 1 < n := by
  rw [Int32.lt_iff_toInt_lt, toInt_end hn hk, Int32.toInt_ofNat_of_lt hk]
  omega

theorem addr_end (str : Ptr) {n k : Nat} (hn : n < 2 ^ 31) (hk : k < n) :
    (str.add (Int32.ofNat n - 1 - Int32.ofNat k).toInt).addr = cell str.addr (n - 1 - k) := by
  have hint : (n : Int) - 1 - k = (n - 1 - k : Nat) := by omega
  rw [toInt_end hn (by omega), hint, addr_add]

section
variable (str : Ptr) {n k : Nat} (hn : n < 2 ^ 31)
include hn

/-- The indices have not met: the two characters are swapped. -/
theorem strreverseRound_more (hk : k + k + 1 < n) (m : Ram) : ∃ m',
    strreverseRound str (Int32.ofNat k, Int32.ofNat n - 1 - Int32.ofNat k, m) =
      (true, Int32.ofNat (k + 1), Int32.ofNat n - 1 - Int32.ofNat (k + 1), m') ∧
    m'.val = Function.update (Function.update m.val (cell str.addr k) (m.val (cell str.addr (n - 1 - k))))
      (cell str.addr (n - 1 - k)) (m.val (cell str.addr k)) := by
  refine ⟨(((m.load (str.add (Int32.ofNat k).toInt)).2.load (str.add (Int32.ofNat n - 1 - Int32.ofNat k).toInt)).2.store
      (str.add (Int32.ofNat k).toInt) (m.val (cell str.addr (n - 1 - k)))).store
      (str.add (Int32.ofNat n - 1 - Int32.ofNat k).toInt) (m.val (cell str.addr k)), ?_, ?_⟩
  · rw [strreverseRound, if_pos ((start_lt_end hn (by omega)).2 hk), Int32.ofNat_add k 1, ← Int32.sub_sub,
      ← addr_end str hn (by omega), ← addr_add_int str k]
    rfl
  · rw [store_val, store_val, addr_end str hn (by omega), addr_add_int]
    rfl

/-- After `k` rounds. -/
theorem after_strreverse (m : Ram) : ∀ k, k + k ≤ n → ∃ m',
    Loop.after (strreverseRound str) k (0, Int32.ofNat n - 1, m) =
      (Int32.ofNat k, Int32.ofNat n - 1 - Int32.ofNat k, m') ∧
    Mirrored str.addr n k m.val m'.val
  | 0, _ => by
    have hend : Int32.ofNat n - 1 - Int32.ofNat 0 = Int32.ofNat n - 1 := Int32.sub_zero _
    rw [hend]
    exact ⟨m, rfl, .start⟩
  | k + 1, hk => by
    obtain ⟨m1, hafter, hmirror⟩ := after_strreverse m k (by omega)
    obtain ⟨m2, hround, hval⟩ := strreverseRound_more str hn (show k + k + 1 < n by omega) m1
    refine ⟨m2, by rw [Loop.after, hafter, hround], ?_⟩
    rw [hval]
    exact hmirror.swap (by omega) (by omega)

theorem strreverseAt_settles (m : Ram) :
    ∃ m', Settles (strreverseAt str (Int32.ofNat n) · m) m' ∧ Reversed str.addr n m.val m'.val := by
  obtain ⟨m', hafter, hmirror⟩ := after_strreverse str hn m (n / 2) (by omega)
  have hend : strreverseRound str (Loop.after (strreverseRound str) (n / 2) (0, Int32.ofNat n - 1, m)) =
      (false, Int32.ofNat (n / 2), Int32.ofNat n - 1 - Int32.ofNat (n / 2), m') := by
    have hmet : ¬ Int32.ofNat (n / 2) < Int32.ofNat n - 1 - Int32.ofNat (n / 2) := by
      rw [start_lt_end hn (by omega)]
      omega
    rw [hafter, strreverseRound, if_neg hmet]
  have hsettles := Loop.rounds_settles (strreverseRound str) (k := n / 2) (s := (0, Int32.ofNat n - 1, m))
    (fun k hk => ?_) (by rw [hend])
  · rw [Loop.after, hend] at hsettles
    have hrun := hsettles.bind (g := fun s _ => some s.2.2) (.const _)
    exact ⟨m', hrun, hmirror.reversed (by omega)⟩
  · obtain ⟨m1, hafter1, -⟩ := after_strreverse str hn m k (by omega)
    obtain ⟨m2, hround, -⟩ := strreverseRound_more str hn (show k + k + 1 < n by omega) m1
    rw [hafter1, hround]

end

/-! ## strreverse -/

/-- In memory the array is left as `strreverse` on an array leaves it. -/
theorem strreverseAt_array (str : Ptr) {n : Nat} (hn : n < 2 ^ 31) (m : Ram) : ∃ m',
    Settles (strreverseAt str (Int32.ofNat n) · m) m' ∧
    ∀ k < 2 ^ 32, m'.val (cell str.addr k) = (strreverse (.fresh fun k => m.val (cell str.addr k)) n).val k := by
  obtain ⟨m', hsettles, hrev⟩ := strreverseAt_settles str hn m
  refine ⟨m', hsettles, fun k hk => ?_⟩
  rw [strreverse_val]
  by_cases hin : k < n
  · rw [if_pos hin, hrev.inside k hin]
    rfl
  · rw [if_neg hin, hrev.outside _ fun i hi => (cell_ne str.addr (by omega) hk).symm]
    rfl

/-- `strreverse` ends and leaves its prefix in the opposite order and all else alone; a second call
undoes the first. -/
theorem strreverse_reverses (length : Int32) (hlength : 0 ≤ length) (str : Ptr) (m : Ram) :
    ∃ m', Settles (strreverseAt str length · m) m' ∧
      (∀ i < length.toNatClampNeg, m'.val (cell str.addr i) = m.val (cell str.addr (length.toNatClampNeg - 1 - i))) ∧
      (∀ a, (∀ i < length.toNatClampNeg, a ≠ cell str.addr i) → m'.val a = m.val a) ∧
      ∃ m'', Settles (strreverseAt str length · m') m'' ∧ m''.val = m.val := by
  have hn := length.toNatClampNeg_lt
  have heq := length.ofNat_toNatClampNeg hlength
  obtain ⟨m1, hfirst, hrev1⟩ := strreverseAt_settles str hn m
  obtain ⟨m2, hsecond, hrev2⟩ := strreverseAt_settles str hn m1
  rw [heq] at hfirst hsecond
  exact ⟨m1, hfirst, hrev1.inside, hrev1.outside, m2, hsecond, hrev1.twice hrev2⟩

/-- Five bytes across the top of the memory. -/
theorem strreverse_reverses_five : ∃ m', Settles (strreverseAt (.start 0xFFFFFFFE) 5 · (.fresh UInt32.toUInt8)) m' ∧
    m'.val 0xFFFFFFFE = 2 ∧ m'.val 3 = 3 := by
  obtain ⟨m', hsettles, hin, hout, -⟩ :=
    strreverse_reverses 5 (by decide) (.start 0xFFFFFFFE) (.fresh UInt32.toUInt8)
  exact ⟨m', hsettles, hin 0 (by decide), hout 3 (by decide)⟩

end HavenOS
