/-
Painting: giving a set of places one value and leaving the others alone. What strokes one after the
other paint, over loops and nested loops, and that the set painted says all about the result.
-/
import Mathlib.Data.Set.Basic

/-- From `s` to `s'` exactly the places in `S` were painted with `a`; `view` shows the places of a
state. -/
structure Painted {σ ι α : Type} (view : σ → ι → α) (a : α) (S : Set ι) (s s' : σ) : Prop where
  inside : ∀ i ∈ S, view s' i = a
  outside : ∀ i ∉ S, view s' i = view s i

namespace Painted

variable {σ ι α : Type} {view : σ → ι → α} {a : α} {S T : Set ι} {s s' s'' : σ}

theorem refl (s : σ) : Painted view a ∅ s s := ⟨fun _ hi => absurd hi (Set.notMem_empty _), fun _ _ => rfl⟩

theorem congr (h : Painted view a S s s') (hST : ∀ i, i ∈ T ↔ i ∈ S) : Painted view a T s s' :=
  ⟨fun i hi => h.inside i ((hST i).1 hi), fun i hi => h.outside i fun hS => hi ((hST i).2 hS)⟩

/-- One stroke after the other. -/
theorem union (h : Painted view a S s s') (h' : Painted view a T s' s'') : Painted view a (S ∪ T) s s'' := by
  constructor
  · intro i hi
    by_cases hT : i ∈ T
    · exact h'.inside i hT
    · rw [h'.outside i hT]
      exact h.inside i (hi.resolve_right hT)
  · intro i hi
    rw [h'.outside i fun hT => hi (.inr hT), h.outside i fun hS => hi (.inl hS)]

/-- A stroke that depends on a condition. -/
theorem ite {P : Prop} [Decidable P] (h : Painted view a S s s') :
    Painted view a {i | P ∧ i ∈ S} s (if P then s' else s) := by
  by_cases hP : P
  · rw [if_pos hP]
    exact h.congr fun i => by simp [hP]
  · rw [if_neg hP]
    exact (refl s).congr fun i => by simp [hP]

/-- A loop paints what its rounds paint. -/
theorem foldl {κ : Type} {step : σ → κ → σ} {R : κ → Set ι} : ∀ (l : List κ) (s : σ),
    (∀ k ∈ l, ∀ s, Painted view a (R k) s (step s k)) → Painted view a {i | ∃ k ∈ l, i ∈ R k} s (l.foldl step s)
  | [], s, _ => (refl s).congr fun i => by simp
  | k :: l, s, h => by
    have hfirst := h k List.mem_cons_self s
    have hrest := foldl l (step s k) fun k' hk' => h k' (List.mem_cons_of_mem _ hk')
    exact (hfirst.union hrest).congr fun i => by simp

/-- The set painted determines the result. -/
theorem unique (h : Painted view a S s s') (h' : Painted view a S s s'') : view s' = view s'' := by
  funext i
  by_cases hi : i ∈ S
  · rw [h.inside i hi, h'.inside i hi]
  · rw [h.outside i hi, h'.outside i hi]

end Painted
