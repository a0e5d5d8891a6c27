/-
Half-open blocks stacked over a base: each starts at or above the end of the one before it. Such
blocks stay above the base, come in order and do not overlap, also where some are empty.
-/
import Mathlib.Order.CompletePartialOrder
import Mathlib.Order.Interval.Set.Disjoint

namespace Blocks

/-- The points from `start` up to, and without, `stop`. -/
structure Block (α : Type) where
  start : α
  stop : α
deriving DecidableEq, Repr

variable {α : Type} [Preorder α]

def Block.points (b : Block α) : Set α := Set.Ico b.start b.stop

def Stacked : α → List (Block α) → Prop
  | _, [] => True
  | base, b :: bs => base ≤ b.start ∧ b.start ≤ b.stop ∧ Stacked b.stop bs

theorem Stacked.above : ∀ {bs : List (Block α)} {base : α}, Stacked base bs → ∀ b ∈ bs, base ≤ b.start
  | b :: bs, base, ⟨h1, h2, h3⟩, c, hc => by
    rcases List.mem_cons.1 hc with rfl | hc
    · exact h1
    · exact h1.trans (h2.trans (h3.above c hc))

theorem Stacked.pairwise : ∀ {bs : List (Block α)} {base : α}, Stacked base bs →
    bs.Pairwise fun b c => b.start ≤ b.stop ∧ b.stop ≤ c.start
  | [], _, _ => .nil
  | _ :: _, _, ⟨_, h2, h3⟩ => .cons (fun c hc => ⟨h2, h3.above c hc⟩) h3.pairwise

theorem Stacked.starts_sorted {bs : List (Block α)} {base : α} (h : Stacked base bs) :
    bs.Pairwise fun b c => b.start ≤ c.start :=
  h.pairwise.imp fun hbc => hbc.1.trans hbc.2

theorem Stacked.disjoint {bs : List (Block α)} {base : α} (h : Stacked base bs) :
    bs.Pairwise fun b c => Disjoint b.points c.points :=
  h.pairwise.imp fun hbc => Set.disjoint_left.2 fun _ hb hc => (hb.2.trans_le (hbc.2.trans hc.1)).false

/-- No block starts inside an earlier one. -/
theorem Stacked.start_notMem {bs : List (Block α)} {base : α} (h : Stacked base bs) :
    bs.Pairwise fun b c => c.start ∉ b.points :=
  h.pairwise.imp fun hbc hin => (hin.2.trans_le hbc.2).false

end Blocks
