/-
Reversing a range in place by swapping its two ends and moving inwards, and that to reverse twice
changes nothing.
-/
import HavenOS.Lib.Ram

namespace Ram

/-- `val'` is `val` with the `n` cells from `a` on in the opposite order. -/
structure Reversed (a : UInt32) (n : Nat) (val val' : UInt32 → UInt8) : Prop where
  inside : ∀ i < n, val' (cell a i) = val (cell a (n - 1 - i))
  outside : ∀ b, (∀ i < n, b ≠ cell a i) → val' b = val b

theorem Reversed.twice {a : UInt32} {n : Nat} {val val' val'' : UInt32 → UInt8} (h : Reversed a n val val')
    (h' : Reversed a n val' val'') : val'' = val := by
  refine eq_of_cells a n (fun i hi => ?_) fun b hout => ?_
  · rw [h'.inside i hi, h.inside (n - 1 - i) (by omega)]
    congr 2
    omega
  · rw [h'.outside b hout, h.outside b hout]

/-- The first `k` cells and the last `k` have been swapped, and those between are as they were. -/
structure Mirrored (a : UInt32) (n k : Nat) (val val' : UInt32 → UInt8) : Prop where
  outer : ∀ i < n, i < k ∨ n ≤ i + k → val' (cell a i) = val (cell a (n - 1 - i))
  middle : ∀ i < n, k ≤ i → i + k < n → val' (cell a i) = val (cell a i)
  outside : ∀ b, (∀ i < n, b ≠ cell a i) → val' b = val b

namespace Mirrored

variable {a : UInt32} {n k : Nat} {val val' : UInt32 → UInt8}

theorem start : Mirrored a n 0 val val where
  outer i hi h := absurd h (by omega)
  middle _ _ _ _ := rfl
  outside _ _ := rfl

/-- The next two cells, from the outside in. -/
theorem swap (h : Mirrored a n k val val') (hn : n ≤ 2 ^ 32) (hk : k + k + 1 < n) :
    Mirrored a n (k + 1) val (Function.update (Function.update val' (cell a k) (val' (cell a (n - 1 - k))))
      (cell a (n - 1 - k)) (val' (cell a k))) := by
  have hother : ∀ i < n, i ≠ k → i ≠ n - 1 - k → Function.update (Function.update val' (cell a k)
      (val' (cell a (n - 1 - k)))) (cell a (n - 1 - k)) (val' (cell a k)) (cell a i) = val' (cell a i) := by
    intro i hi hik hin
    have hfirst : cell a i ≠ cell a k := fun e => hik ((cell_inj a (by omega) (by omega)).1 e)
    have hsecond : cell a i ≠ cell a (n - 1 - k) := fun e => hin ((cell_inj a (by omega) (by omega)).1 e)
    rw [Function.update_of_ne hsecond, Function.update_of_ne hfirst]
  refine ⟨fun i hi hdone => ?_, fun i hi hlow hhigh => ?_, fun b hb => ?_⟩
  · by_cases hlast : i = n - 1 - k
    · rw [hlast, Function.update_self, h.middle k (by omega) (Nat.le_refl k) (by omega)]
      congr 2
      omega
    · by_cases hfirst : i = k
      · rw [hfirst, Function.update_of_ne (cell_ne a (by omega) (by omega)), Function.update_self,
          h.middle (n - 1 - k) (by omega) (by omega) (by omega)]
      · rw [hother i hi hfirst hlast, h.outer i hi (by omega)]
  · rw [hother i hi (by omega) (by omega), h.middle i hi (by omega) (by omega)]
  · rw [Function.update_of_ne (hb _ (by omega)), Function.update_of_ne (hb k (by omega)), h.outside b hb]

/-- No two cells are left to swap. -/
theorem reversed (h : Mirrored a n k val val') (hk : n ≤ k + k + 1) : Reversed a n val val' := by
  refine ⟨fun i hi => ?_, h.outside⟩
  by_cases hdone : i < k ∨ n ≤ i + k
  · exact h.outer i hi hdone
  · rw [h.middle i hi (by omega) (by omega)]
    congr 2
    omega

end Mirrored

end Ram
