/-
The transmitter of a 16550: the bytes that program it, the FIFO, and what has gone out on the wire. The
receiver, the interrupts and the other status bits are left out.
-/
import Mathlib.Data.UInt
import Mathlib.Data.List.Basic

/-- The registers that are set. -/
structure Uart.Settings where
  lineControl : UInt8
  divisorLow : UInt8
  divisorHigh : UInt8
  modemControl : UInt8
  fifo : Bool
deriving DecidableEq, Repr

/-- The bytes that wait, those on the wire, and those that came when no more could wait, the first ones
first. -/
structure Uart where
  settings : Uart.Settings
  waiting : List UInt8
  wire : List UInt8
  lost : List UInt8
deriving DecidableEq, Repr

namespace Uart

namespace Settings

/-- The divisor latch is in front of the data port. -/
def latched (s : Settings) : Bool := s.lineControl.toNat.testBit 7

/-- A byte for the port at an offset from the first one. -/
def write (offset : UInt16) (data : UInt8) (s : Settings) : Settings :=
  if offset = 0 then if s.latched then { s with divisorLow := data } else s
  else if offset = 1 then if s.latched then { s with divisorHigh := data } else s
  else if offset = 2 then { s with fifo := data.toNat.testBit 0 }
  else if offset = 3 then { s with lineControl := data }
  else if offset = 4 then { s with modemControl := data }
  else s

theorem write_latched {s : Settings} (h : s.latched = true) (data : UInt8) :
    s.write 0 data = { s with divisorLow := data } := by
  rw [write, if_pos rfl, if_pos h]

end Settings

def capacity (u : Uart) : Nat := if u.settings.fifo then 16 else 1

def transmit (data : UInt8) (u : Uart) : Uart :=
  if u.waiting.length < u.capacity then { u with waiting := u.waiting ++ [data] }
  else { u with lost := u.lost ++ [data] }

/-- A byte for the FIFO control register clears the FIFO by its bit 2, and by turning it on or off. -/
def clearFifo (data : UInt8) (u : Uart) : Uart :=
  if data.toNat.testBit 0 ≠ u.settings.fifo ∨ data.toNat.testBit 2 = true then { u with waiting := [] } else u

/-- What a byte does to those that wait. -/
def accept (offset : UInt16) (data : UInt8) (u : Uart) : Uart :=
  if offset = 0 ∧ u.settings.latched = false then u.transmit data
  else if offset = 2 then u.clearFifo data
  else u

def write (offset : UInt16) (data : UInt8) (u : Uart) : Uart :=
  { u.accept offset data with settings := u.settings.write offset data }

theorem clearFifo_lost (data : UInt8) (u : Uart) : (u.clearFifo data).lost = u.lost := by
  unfold clearFifo
  split <;> rfl

theorem clearFifo_waiting {data : UInt8} (h : data.toNat.testBit 2 = true) (u : Uart) :
    (u.clearFifo data).waiting = [] := by
  rw [clearFifo, if_pos (.inr h)]

/-- Only a byte to be sent can be lost. -/
theorem write_lost {offset : UInt16} {u : Uart} (h : offset ≠ 0 ∨ u.settings.latched = true) (data : UInt8) :
    (u.write offset data).lost = u.lost := by
  have hother : ¬ (offset = 0 ∧ u.settings.latched = false) := fun hdata =>
    h.elim (fun hoffset => hoffset hdata.1) fun hlatched => Bool.noConfusion (hlatched.symm.trans hdata.2)
  show (u.accept offset data).lost = u.lost
  rw [accept, if_neg hother]
  split
  · exact clearFifo_lost data u
  · rfl

/-- So many bytes go out, as far as there are any. -/
def shift (n : Nat) (u : Uart) : Uart :=
  { u with waiting := u.waiting.drop n, wire := u.wire ++ u.waiting.take n }

/-- The line status: bits 5 and 6 while nothing waits. -/
def lineStatus (u : Uart) : UInt8 := if u.waiting = [] then 0x60 else 0

theorem lineStatus_empty {u : Uart} : u.lineStatus &&& 0x20 ≠ 0 ↔ u.waiting = [] := by
  unfold lineStatus
  split
  · rename_i h
    exact iff_of_true (by decide) h
  · rename_i h
    exact iff_of_false (by decide) h

theorem shift_shift (n m : Nat) (u : Uart) : (u.shift n).shift m = u.shift (n + m) := by
  simp only [shift, List.drop_drop, List.append_assoc, ← List.take_add]

theorem shift_of_empty {u : Uart} (h : u.waiting = []) (n : Nat) : u.shift n = u := by
  cases u
  cases h
  simp only [shift, List.drop_nil, List.take_nil, List.append_nil]

/-! ## What was accepted -/

/-- What is on the wire or will be. -/
def stream (u : Uart) : List UInt8 := u.wire ++ u.waiting

/-- From `u` to `u'` just these bytes were accepted, and none was lost. -/
structure Accepts (u u' : Uart) (bytes : List UInt8) : Prop where
  stream : u'.stream = u.stream ++ bytes
  lost : u'.lost = u.lost
  settings : u'.settings = u.settings

namespace Accepts

variable {u u' u'' : Uart} {bytes bytes' : List UInt8}

theorem refl (u : Uart) : Accepts u u [] := ⟨(List.append_nil _).symm, rfl, rfl⟩

theorem trans (h : Accepts u u' bytes) (h' : Accepts u' u'' bytes') : Accepts u u'' (bytes ++ bytes') :=
  ⟨by rw [h'.stream, h.stream, List.append_assoc], h'.lost.trans h.lost, h'.settings.trans h.settings⟩

theorem shift (u : Uart) (n : Nat) : Accepts u (u.shift n) [] :=
  ⟨by simp only [Uart.stream, Uart.shift, List.append_assoc, List.take_append_drop, List.append_nil], rfl, rfl⟩

/-- A byte for the data port, with nothing waiting. -/
theorem write (hlatched : u.settings.latched = false) (hempty : u.waiting = []) (data : UInt8) :
    Accepts u (u.write 0 data) [data] := by
  have hroom : u.waiting.length < u.capacity := by
    rw [hempty, capacity]
    split <;> decide
  have haccept : u.accept 0 data = { u with waiting := u.waiting ++ [data] } := by
    rw [accept, if_pos ⟨rfl, hlatched⟩, transmit, if_pos hroom]
  have hsettings : u.settings.write 0 data = u.settings := by
    rw [Settings.write, if_pos rfl, hlatched, if_neg Bool.false_ne_true]
  have hwrite : u.write 0 data = { u with waiting := u.waiting ++ [data] } := by
    rw [Uart.write, haccept, hsettings]
  rw [hwrite]
  exact ⟨(List.append_assoc _ _ _).symm, rfl, rfl⟩

end Accepts

end Uart
