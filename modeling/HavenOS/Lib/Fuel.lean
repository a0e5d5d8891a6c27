/-
Computations on fuel: a result that all large enough amounts of fuel give, how results of
consecutive computations on the same fuel combine, loops that end before their bound on rounds, and
loops whose rounds say which is the last.
-/
import Mathlib.Logic.Function.Basic

/-- From some amount of fuel on, the computation gives `a`. -/
def Settles {α : Type} (f : Nat → Option α) (a : α) : Prop := ∃ N, ∀ n ≥ N, f n = some a

namespace Settles

variable {α β : Type} {f : Nat → Option α} {a b : α}

theorem const (a : α) : Settles (fun _ => some a) a := ⟨0, fun _ _ => rfl⟩

/-- One computation after the other, on the same fuel. -/
theorem bind {g : α → Nat → Option β} {b : β} (hf : Settles f a) (hg : Settles (g a) b) :
    Settles (fun n => (f n).bind fun a => g a n) b := by
  obtain ⟨N, hN⟩ := hf
  obtain ⟨M, hM⟩ := hg
  refine ⟨N + M, fun n hn => ?_⟩
  simp only [hN n (by omega)]
  exact hM n (by omega)

/-- What follows a computation that gives `a` is what is left of the two together. -/
theorem of_bind {g : α → Nat → Option β} {b : β} (hf : Settles f a)
    (h : Settles (fun n => (f n).bind fun a => g a n) b) :
    Settles (g a) b := by
  obtain ⟨N, hN⟩ := hf
  obtain ⟨M, hM⟩ := h
  refine ⟨N + M, fun n hn => ?_⟩
  have hboth : (f n).bind (fun a => g a n) = some b := hM n (by omega)
  rwa [hN n (by omega)] at hboth

/-- There is one result. -/
theorem unique (ha : Settles f a) (hb : Settles f b) : a = b := by
  obtain ⟨N, hN⟩ := ha
  obtain ⟨M, hM⟩ := hb
  have h := (hN (N + M) (by omega)).symm.trans (hM (N + M) (by omega))
  cases h
  rfl

/-- A computation that takes one unit of fuel first. -/
theorem succ (h : Settles (fun n => f (n + 1)) a) : Settles f a := by
  obtain ⟨N, hN⟩ := h
  refine ⟨N + 1, fun n hn => ?_⟩
  obtain ⟨m, rfl⟩ := Nat.exists_eq_add_of_le hn
  rw [Nat.add_right_comm]
  exact hN (N + m) (by omega)

end Settles

namespace Loop

variable {σ : Type} (cond : σ → Prop) [DecidablePred cond] (body : σ → σ)

/-- `while (cond) body`, with at most so many rounds. -/
def upTo : Nat → σ → σ
  | 0, s => s
  | n + 1, s => if cond s then upTo n (body s) else s

/-- A loop that has ended does not care for more rounds. -/
theorem upTo_ended : ∀ {n m : Nat} {s : σ}, n ≤ m → ¬ cond (upTo cond body n s) →
    upTo cond body m s = upTo cond body n s
  | 0, 0, _, _, _ => rfl
  | 0, m + 1, s, _, h => by rw [upTo]; exact if_neg h
  | n + 1, m + 1, s, hle, h => by
    rw [upTo] at h
    rw [upTo, upTo]
    split
    · rename_i hcond
      rw [if_pos hcond] at h
      exact upTo_ended (Nat.le_of_succ_le_succ hle) h
    · rfl

/-! ## Rounds -/

variable (round : σ → Bool × σ)

/-- Rounds that say whether there is another one; no result when the fuel runs out before the last. -/
def rounds : Nat → σ → Option σ
  | 0, _ => none
  | fuel + 1, s => if (round s).1 then rounds fuel (round s).2 else some (round s).2

/-- The state after `k` rounds, whatever they say. -/
def after : Nat → σ → σ
  | 0, s => s
  | k + 1, s => (round (after k s)).2

theorem after_succ : ∀ (k : Nat) (s : σ), after round (k + 1) s = after round k (round s).2
  | 0, _ => rfl
  | k + 1, s => by rw [after, after_succ k s]; rfl

/-- The result is the state after the first round that says it is the last. -/
theorem rounds_settles : ∀ {k : Nat} {s : σ}, (∀ i < k, (round (after round i s)).1 = true) →
    (round (after round k s)).1 = false → Settles (fun fuel => rounds round fuel s) (after round (k + 1) s)
  | 0, s, _, hlast => by
    have hlast : (round s).1 = false := hlast
    refine .succ ⟨0, fun fuel _ => ?_⟩
    simp only [rounds, hlast, Bool.false_eq_true, if_false]
    rfl
  | k + 1, s, hmore, hlast => by
    have hfirst : (round s).1 = true := hmore 0 (Nat.succ_pos k)
    rw [after_succ] at hlast ⊢
    refine .succ ?_
    simp only [rounds, hfirst, if_true]
    refine rounds_settles (fun i hi => ?_) hlast
    rw [← after_succ]
    exact hmore (i + 1) (Nat.succ_lt_succ hi)

/-- More fuel changes no result. -/
theorem settles_of_rounds : ∀ {fuel : Nat} {s s' : σ}, rounds round fuel s = some s' →
    Settles (fun fuel => rounds round fuel s) s'
  | 0, _, _, h => by cases h
  | fuel + 1, s, s', h => by
    rw [rounds] at h
    refine .succ ?_
    by_cases hmore : (round s).1 = true
    · rw [if_pos hmore] at h
      simp only [rounds, if_pos hmore]
      exact settles_of_rounds h
    · rw [if_neg hmore] at h
      cases h
      simp only [rounds, if_neg hmore]
      exact .const _

/-- Without a last round there is no result. -/
theorem rounds_never : ∀ (fuel : Nat) {s : σ}, (∀ i, (round (after round i s)).1 = true) → rounds round fuel s = none
  | 0, _, _ => rfl
  | fuel + 1, s, hmore => by
    have hfirst : (round s).1 = true := hmore 0
    rw [rounds, if_pos hfirst]
    refine rounds_never fuel fun i => ?_
    rw [← after_succ]
    exact hmore (i + 1)

/-- A fact that holds after the first round and that every round keeps holds of the result. -/
theorem rounds_induct {P : σ → Prop} (hround : ∀ s, P s → P (round s).2) : ∀ {fuel : Nat} {s s' : σ},
    rounds round fuel s = some s' → P (round s).2 → P s'
  | 0, _, _, h, _ => by cases h
  | fuel + 1, s, s', h, hs => by
    rw [rounds] at h
    split at h
    · exact rounds_induct hround h (hround _ hs)
    · cases h
      exact hs

end Loop
