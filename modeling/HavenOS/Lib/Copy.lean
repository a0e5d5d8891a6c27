/-
Copying a stretch of a tape onto the same tape, element by element from the first on. To a lower
place the stretch moves as it is; to a higher place that the stretch reaches, the copy reads what it
has stored, and repeats with the distance of the two places as its period.
-/
import Mathlib.Logic.Function.Basic

namespace Copy

variable {α : Type}

/-- `n` rounds of `t[dst++] = t[src++]`. -/
def forward : Nat → Nat → Nat → (Nat → α) → Nat → α
  | 0, _, _, t => t
  | n + 1, src, dst, t => forward n (src + 1) (dst + 1) (Function.update t dst (t src))

/-- The last round, after `n` others. -/
theorem forward_last : ∀ (n src dst : Nat) (t : Nat → α), forward (n + 1) src dst t =
    Function.update (forward n src dst t) (dst + n) (forward n src dst t (src + n))
  | 0, src, dst, t => rfl
  | n + 1, src, dst, t => by
    rw [forward, forward_last n (src + 1) (dst + 1), forward, Nat.add_right_comm dst 1 n, Nat.add_right_comm src 1 n]
    rfl

/-- Nothing changes before the place copied to, nor `n` places on. -/
theorem forward_outside (n src dst : Nat) (t : Nat → α) {j : Nat} (h : j < dst ∨ dst + n ≤ j) :
    forward n src dst t j = t j := by
  induction n with
  | zero => rfl
  | succ n ih => rw [forward_last, Function.update_of_ne (by omega), ih (by omega)]

/-- A lower place: every element is read before it is stored to. -/
theorem forward_down {src dst : Nat} (hle : dst ≤ src) (t : Nat → α) {n k : Nat} (hk : k < n) :
    forward n src dst t (dst + k) = t (src + k) := by
  induction n with
  | zero => omega
  | succ n ih =>
    rw [forward_last]
    rcases Nat.lt_or_eq_of_le (Nat.le_of_lt_succ hk) with hlt | rfl
    · rw [Function.update_of_ne (by omega), ih hlt]
    · rw [Function.update_self, forward_outside k src dst t (.inr (by omega))]

/-- A higher place: the elements from `src` to `dst` again and again. -/
theorem forward_up {src dst : Nat} (hlt : src < dst) (t : Nat → α) {n k : Nat} (hk : k < n) :
    forward n src dst t (dst + k) = t (src + k % (dst - src)) := by
  induction n generalizing k with
  | zero => omega
  | succ n ih =>
    rw [forward_last]
    rcases Nat.lt_or_eq_of_le (Nat.le_of_lt_succ hk) with hk' | rfl
    · rw [Function.update_of_ne (by omega), ih hk']
    · rw [Function.update_self]
      -- the last element is read from the copy once the copy has come that far
      by_cases hfar : dst - src ≤ k
      · rw [show src + k = dst + (k - (dst - src)) by omega, ih (by omega), ← Nat.mod_eq_sub_mod hfar]
      · rw [forward_outside k src dst t (.inl (by omega)), Nat.mod_eq_of_lt (by omega)]

/-- The place itself. -/
theorem forward_self (n src : Nat) (t : Nat → α) : forward n src src t = t := by
  funext j
  by_cases hin : src ≤ j ∧ j < src + n
  · obtain ⟨k, rfl⟩ := Nat.exists_eq_add_of_le hin.1
    exact forward_down (Nat.le_refl src) t (by omega)
  · exact forward_outside n src src t (by omega)

end Copy
