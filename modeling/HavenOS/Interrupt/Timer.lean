/-
init_timer: the divisor of the timer's input clock goes out in two bytes, and is what was asked for
when it fits in them.
-/
import HavenOS.Interrupt.Board
import HavenOS.Interrupt.Table

namespace HavenOS

/-! ## The functions -/

def irq0 : UInt8 := 32

/-- `interrupt_handlers[n] = handler;`, an array of pointers. -/
def registerInterruptHandler (interruptHandlers : UInt32) (n : UInt8) (handler : UInt32) (s : Board) : Board :=
  { s with ram := s.ram.storeWord ((Ptr.start interruptHandlers).add (4 * n.toNat : Nat)) handler }

/-- The processor raises an exception where the divisor is 0. -/
def divide (x y : UInt32) : Option UInt32 := if y = 0 then none else some (x / y)

/-- The command byte, and the divisor in two bytes. -/
def sendDivisor (divisor : UInt32) (s : Board) : Board :=
  let s := s.outb 0x43 0x36
  let l := (divisor &&& 0xFF).toUInt8
  let h := ((divisor >>> 8) &&& 0xFF).toUInt8
  let s := s.outb 0x40 l
  s.outb 0x40 h

def initTimer (interruptHandlers timerCallback frequency : UInt32) (s : Board) : Option Board := do
  let s ← s.print (ascii "Initializing Timer \x7b%d\x7d -> \x7b%\n\x7d") [frequency.toInt32] 1 1
  let s := registerInterruptHandler interruptHandlers irq0 timerCallback s
  let divisor ← divide 1193180 frequency
  some (sendDivisor divisor s)

/-! ## What is sent -/

section
variable (interruptHandlers timerCallback : UInt32) (s : Board)

/-- No division by zero, and the two bytes sent to port 0x40 are those of the quotient, which is not
0. -/
def DivisorSent (frequency : UInt32) : Prop :=
  ∃ s' l h, initTimer interruptHandlers timerCallback frequency s = some s' ∧
    s'.vga.sentTo 0x40 = s.vga.sentTo 0x40 ++ [l, h] ∧ l.toNat + 256 * h.toNat = 1193180 / frequency.toNat ∧
    1 ≤ 1193180 / frequency.toNat ∧ 1193180 / frequency.toNat ≤ 65535

theorem initTimer_prints (frequency : UInt32) : ∃ s1 : Board,
    s.print (ascii "Initializing Timer \x7b%d\x7d -> \x7b%\n\x7d") [frequency.toInt32] 1 1 = some s1 ∧
      s1.vga.sentTo 0x40 = s.vga.sentTo 0x40 := by
  have hformat : ascii "Initializing Timer \x7b%d\x7d -> \x7b%\n\x7d" =
      numberLine (ascii "Initializing Timer ") (ascii " -> ") := by
    decide
  obtain ⟨s1, hprint, -, hcrt⟩ := Board.print_numberLine (ascii "Initializing Timer ") (ascii " -> ") (by decide)
    (by decide) (by decide) (by decide) frequency.toInt32 1 1 s
  exact ⟨s1, hformat ▸ hprint, hcrt 0x40 (by decide) (by decide)⟩

theorem sendDivisor_sent (divisor : UInt32) (s : Board) : (sendDivisor divisor s).vga.sentTo 0x40 =
    s.vga.sentTo 0x40 ++ [UInt8.ofNat divisor.toNat, UInt8.ofNat (divisor.toNat / 256)] := by
  have hshift : (divisor >>> 8).toNat = divisor.toNat / 256 := Nat.shiftRight_eq_div_pow _ 8
  have hcommand : (0x43 : UInt16) ≠ 0x40 := by decide
  rw [sendDivisor]
  simp only [Board.outb, sentTo_outb, masked_byte, hshift, if_neg hcommand, if_true, List.append_nil, List.append_assoc,
    List.singleton_append]

theorem initTimer_zero : initTimer interruptHandlers timerCallback 0 s = none := by
  obtain ⟨s1, hprint, -⟩ := initTimer_prints s 0
  rw [initTimer, hprint]
  rfl

/-- The two lowest bytes of the quotient. -/
theorem initTimer_sends {frequency : UInt32} (hfrequency : frequency ≠ 0) : ∃ s' l h,
    initTimer interruptHandlers timerCallback frequency s = some s' ∧
    s'.vga.sentTo 0x40 = s.vga.sentTo 0x40 ++ [l, h] ∧ l.toNat + 256 * h.toNat = 1193180 / frequency.toNat % 65536 := by
  obtain ⟨s1, hprint, hsent⟩ := initTimer_prints s frequency
  have hdivide : divide 1193180 frequency = some (1193180 / frequency) := if_neg hfrequency
  have hquotient : (1193180 / frequency).toNat = 1193180 / frequency.toNat := UInt32.toNat_div _ _
  refine ⟨sendDivisor (1193180 / frequency)
    (registerInterruptHandler interruptHandlers irq0 timerCallback s1), _, _, ?_,
    (sendDivisor_sent _ _).trans (congrArg (· ++ _) hsent), ?_⟩
  · rw [initTimer, hprint]
    simp only [Option.bind_eq_bind, Option.bind_some, hdivide]
  · rw [hquotient, UInt8.toNat_ofNat', UInt8.toNat_ofNat']
    omega

theorem divisor_bounds (n : Nat) : (1 ≤ 1193180 / n ∧ 1193180 / n ≤ 65535) ↔ 19 ≤ n ∧ n ≤ 1193180 := by
  rcases Nat.eq_zero_or_pos n with rfl | hpos
  · decide
  · rw [Nat.le_div_iff_mul_le hpos, Nat.div_le_iff_le_mul hpos]
    omega

/-- A divisor of 0, more than two bytes or nothing. -/
theorem not_divisorSent {frequency : UInt32} (h : ¬ (19 ≤ frequency.toNat ∧ frequency.toNat ≤ 1193180)) :
    ¬ DivisorSent interruptHandlers timerCallback s frequency := by
  rintro ⟨s', l, h', -, -, -, hbounds⟩
  exact h ((divisor_bounds frequency.toNat).1 hbounds)

/-- `init_timer` sends the divisor for the frequencies from 19 to 1193180, and for no others. -/
theorem initTimer_divisor_iff (frequency : UInt32) : DivisorSent interruptHandlers timerCallback s frequency ↔
    19 ≤ frequency.toNat ∧ frequency.toNat ≤ 1193180 := by
  refine ⟨fun h => ?_, fun h => ?_⟩
  · by_contra hnot
    exact not_divisorSent interruptHandlers timerCallback s hnot h
  · have hnonzero : frequency ≠ 0 := fun e => by
      rw [e] at h
      exact absurd h (by decide)
    obtain ⟨s', l, h', hrun, hsent, hbytes⟩ := initTimer_sends interruptHandlers timerCallback s hnonzero
    obtain ⟨hpos, hle⟩ := (divisor_bounds frequency.toNat).2 h
    exact ⟨s', l, h', hrun, hsent, by omega, hpos, hle⟩

end

/-- A division by zero, a quotient of 66287, and one of 0. -/
theorem initTimer_loses_divisor : let s : Board := ⟨.fresh fun _ => 0, .powerOn⟩
    ¬ DivisorSent 0x100000 0x101000 s 0 ∧ ¬ DivisorSent 0x100000 0x101000 s 18 ∧
      ¬ DivisorSent 0x100000 0x101000 s 1193181 := by
  intro s
  refine ⟨?_, not_divisorSent _ _ s (by decide), not_divisorSent _ _ s (by decide)⟩
  rintro ⟨s', l, h, hrun, -⟩
  rw [initTimer_zero] at hrun
  cases hrun

end HavenOS
