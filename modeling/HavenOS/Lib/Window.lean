/-
A window on a tape: `size` cells showing the tape from position `top` on. Overwriting a shown
cell and scrolling by `width` cells (the last `width` cells are filled) keep the window showing
the tape, provided the tape holds the fill wherever the window moves to.
-/
import Mathlib.Logic.Function.Iterate

namespace Window

variable {α : Type}

/-- Cell `c < size` of the window holds position `c + top` of the tape. -/
def Shows (size : Nat) (win tape : Nat → α) (top : Nat) : Prop := ∀ c < size, win c = tape (c + top)

/-- The window after scrolling: every cell takes the one `width` further, the last `width` cells
the fill. -/
def scroll (size width : Nat) (fill : α) (win : Nat → α) (c : Nat) : α :=
  if c + width < size then win (c + width) else fill

/-- An operation that scrolls the window it shows, on the states it keeps in `P`, moves it `k`
widths when run `k` times. -/
theorem iterate_scroll {σ : Type} {size width : Nat} {fill : α} {f : σ → σ} (win : σ → Nat → α) (P : σ → Prop)
    (hP : ∀ s, P s → P (f s)) (hf : ∀ s, P s → ∀ c < size, win (f s) c = scroll size width fill (win s) c) :
    ∀ (k : Nat) (s : σ), P s → ∀ c < size,
      win (f^[k] s) c = if c + k * width < size then win s (c + k * width) else fill
  | 0, s, _, c, hc => by simp [hc]
  | k + 1, s, hs, c, hc => by
    have e : (k + 1) * width = k * width + width := Nat.succ_mul k width
    rw [Function.iterate_succ_apply, iterate_scroll win P hP hf k (f s) (hP s hs) c hc, e]
    split
    · rename_i h
      rw [hf s hs _ h, scroll, Nat.add_assoc]
    · rename_i h
      rw [if_neg (by omega)]

theorem Shows.congr {size top : Nat} {win win' tape tape' : Nat → α} (h : Shows size win tape top)
    (hw : ∀ c < size, win' c = win c) (ht : ∀ c < size, tape' (c + top) = tape (c + top)) :
    Shows size win' tape' top := by
  intro c hc
  rw [hw c hc, ht c hc, h c hc]

/-- Overwriting a shown cell overwrites the tape position it shows. -/
theorem Shows.write {size top : Nat} {win win' tape tape' : Nat → α} (h : Shows size win tape top)
    {p : Nat} {a : α} (hw : ∀ c < size, win' c = if c = p then a else win c)
    (ht : ∀ v, tape' v = if v = p + top then a else tape v) : Shows size win' tape' top := by
  intro c hc
  rw [hw c hc, ht, h c hc]
  simp only [Nat.add_right_cancel_iff]

/-- Scrolling moves the window down the tape when the tape holds the fill below it. -/
theorem Shows.scrolled {size width top : Nat} {fill : α} {win win' tape : Nat → α}
    (h : Shows size win tape top) (hw : ∀ c < size, win' c = scroll size width fill win c)
    (ht : ∀ v, size + top ≤ v → tape v = fill) : Shows size win' tape (top + width) := by
  intro c hc
  rw [hw c hc, scroll]
  split
  · rename_i hlt
    rw [h _ hlt]; congr 1; omega
  · rw [ht _ (by omega)]

end Window
