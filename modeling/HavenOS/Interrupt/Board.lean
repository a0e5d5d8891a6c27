/-
What the drivers of the timer and of the interrupt controllers act on.
-/
import HavenOS.Lib.Ram
import HavenOS.Vga.Message

namespace HavenOS

/-- The memory, and the console with all that `outb` sends. -/
structure Board where
  ram : Ram
  vga : Vga

namespace Board

def outb (s : Board) (port : UInt16) (data : UInt8) : Board := { s with vga := s.vga.outb port data }

def print (str : List UInt8) (args : List Int32) (fg bg : UInt8) (s : Board) : Option Board :=
  (fbFprintStr str args fg bg s.vga).bind fun v => some { s with vga := v }

@[simp] theorem outb_ram (s : Board) (port : UInt16) (data : UInt8) : (s.outb port data).ram = s.ram := rfl

theorem print_numberLine (pre mid : List UInt8) (hpre : 123 ∉ pre) (hmid : 123 ∉ mid) (h0 : 0 ∉ numberLine pre mid)
    (hclosed : Closed (numberLine pre mid)) (n : Int32) (fg bg : UInt8) (s : Board) :
    ∃ s', s.print (numberLine pre mid) [n] fg bg = some s' ∧ s'.ram = s.ram ∧ CrtOnly s.vga s'.vga := by
  obtain ⟨v, hprint, hcrt⟩ := fbFprintStr_numberLine hpre hmid h0 hclosed n fg bg s.vga
  refine ⟨{ s with vga := v }, ?_, rfl, hcrt⟩
  rw [print, hprint]
  rfl

end Board

end HavenOS
