/-
paging.c and the two routines of pager.s it calls: the page directories and tables in physical
memory, the directory switch and the set-up. The busy waits of `delay` have no effect and are left
out.
-/
import HavenOS.Vga.Format
import HavenOS.Lib.Run
import HavenOS.Lib.Walk

namespace HavenOS

/-- Where the linker puts the four arrays: at distinct aligned addresses
(`__attribute__((aligned(4096)))`), each one page long. -/
structure Layout where
  kernelPageDirectory : UInt32
  kernelPageTable : UInt32
  otherPageDirectory : UInt32
  otherPageTable : UInt32
  aligned : ∀ a ∈ [kernelPageDirectory, kernelPageTable, otherPageDirectory, otherPageTable], X86.PageAligned a
  distinct : [kernelPageDirectory, kernelPageTable, otherPageDirectory, otherPageTable].Nodup

/-- What paging.c acts on: the console, physical memory in aligned words, the array
`directories` and the control registers. -/
structure Machine where
  vga : Vga
  memory : Store Nat UInt32
  directories : Nat → UInt32
  cr3 : UInt32
  cr0 : UInt32

/-- The machine before anything ran. -/
def Machine.powerOn : Machine := ⟨.powerOn, .fresh fun _ => 0, fun _ => 0, 0, 0⟩

/-! ## Switching -/

def loadPageDirectory (pd : UInt32) (m : Machine) : Machine := { m with cr3 := pd }

def enablePaging (m : Machine) : Machine := { m with cr0 := m.cr0 ||| 0x80000000 }

def switchPageDirectory (pd : UInt32) (m : Machine) : Option Machine := do
  let vga ← fbFprintStr (ascii "Loading Page Directory \x7b%h\x7d") [pd.toInt32] 0 15 m.vga
  let vga := fbOffsetCursor (fbNumColumns - 1) vga
  let vga := fbMoveCursorToStartOfRow vga
  some (loadPageDirectory pd { m with vga := vga })

def switchPageDirectoryI (i : UInt32) (m : Machine) : Option Machine :=
  switchPageDirectory (m.directories i.toNat) m

/-! ## The set-up -/

/-- Both loops of `initialise_paging`: `kernel[i] = other[i] = entry i` for every `i < 1024`. -/
def fillBoth (kernel other : UInt32) (entry : Nat → UInt32) (memory : Store Nat UInt32) : Store Nat UInt32 :=
  (List.range 1024).foldl (fun memory i =>
    (memory.set (kernel.toNat + 4 * i) (entry i)).set (other.toNat + 4 * i) (entry i)) memory

/-- A message on a line of its own. -/
def printLine (message : String) (offset : Int) (v : Vga) : Vga :=
  fbMoveCursorToStartOfRow (fbOffsetCursor offset (fbPrintStr (ascii message) 0 15 v))

def Machine.printLine (m : Machine) (message : String) (offset : Int) : Machine :=
  { m with vga := HavenOS.printLine message offset m.vga }

section
variable (m : Machine) (message : String) (offset : Int)

@[simp] theorem Machine.printLine_memory : (m.printLine message offset).memory = m.memory := rfl
@[simp] theorem Machine.printLine_directories : (m.printLine message offset).directories = m.directories := rfl
@[simp] theorem Machine.printLine_cr3 : (m.printLine message offset).cr3 = m.cr3 := rfl

@[simp] theorem enablePaging_memory : (enablePaging m).memory = m.memory := rfl
@[simp] theorem enablePaging_directories : (enablePaging m).directories = m.directories := rfl
@[simp] theorem enablePaging_cr3 : (enablePaging m).cr3 = m.cr3 := rfl

end

/-- The tables, up to the first switch of directories. -/
def fillTables (layout : Layout) (m : Machine) : Machine :=
  let m := { m with vga := fbMoveCursor 0 { m.vga with fb := fbClear 0 0 m.vga.fb } }
  let m := m.printLine "Setting up Paging..." fbNumColumns
  let m := m.printLine "Page Directory Setup..." (fbNumColumns - 1)
  -- supervisor, writable, not present
  let m := { m with memory := fillBoth layout.kernelPageDirectory layout.otherPageDirectory (fun _ => 2) m.memory }
  let directories := Function.update m.directories 0 layout.kernelPageDirectory
  let m := { m with directories := Function.update directories 1 layout.otherPageDirectory }
  let m := m.printLine "Page Table Setup..." (fbNumColumns - 1)
  -- supervisor, writable, present
  let entry := fun j : Nat => (j.toUInt32 * 0x1000) ||| 3
  let m := { m with memory := fillBoth layout.kernelPageTable layout.otherPageTable entry m.memory }
  let m := m.printLine "Insert Page Table -> Page Directory..." (fbNumColumns - 1)
  let memory := m.memory.set layout.kernelPageDirectory.toNat (layout.kernelPageTable ||| 3)
  { m with memory := memory.set layout.otherPageDirectory.toNat (layout.otherPageTable ||| 3) }

def initialisePaging (layout : Layout) (m : Machine) : Option Machine := do
  let m ← switchPageDirectoryI 0 (fillTables layout m)
  let m := enablePaging (m.printLine "Enabling Paging Mode..." (fbNumColumns - 1))
  some (m.printLine "Done?..." (fbNumColumns - 1))

/-- `switch_page_directory_i` on every index in turn. -/
def switchAll : List UInt32 → Machine → Option Machine := Run.run switchPageDirectoryI

end HavenOS
