/-
kmemory.c: the placement allocator. An `unsigned int` store through `phys` goes to memory in
words; a null `phys` stores nothing.
-/
import HavenOS.Lib.Store
import Mathlib.Data.UInt

namespace HavenOS

/-- What kmemory.c acts on. -/
structure Placement where
  placementAddress : UInt32
  memory : Store UInt32 UInt32

/-- The returned address, and the allocator afterwards. -/
def kmallocInt (sz : UInt32) (align : Int32) (phys : UInt32) (st : Placement) : UInt32 × Placement :=
  let st :=
    if align = 1 ∧ st.placementAddress &&& 0x00000FFF ≠ 0 then
      let placementAddress := st.placementAddress &&& 0xFFFFF000
      { st with placementAddress := placementAddress + 0x1000 }
    else st
  let st := if phys ≠ 0 then { st with memory := st.memory.set phys st.placementAddress } else st
  -- nothing checks that there are `sz` bytes left
  let tmp := st.placementAddress
  (tmp, { st with placementAddress := st.placementAddress + sz })

def kmallocA (sz : UInt32) : Placement → UInt32 × Placement := kmallocInt sz 1 0
def kmallocP (sz phys : UInt32) : Placement → UInt32 × Placement := kmallocInt sz 0 phys
def kmallocAp (sz phys : UInt32) : Placement → UInt32 × Placement := kmallocInt sz 1 phys
def kmalloc (sz : UInt32) : Placement → UInt32 × Placement := kmallocInt sz 0 0

/-! ## Calls -/

/-- A call of one of the five functions, with its arguments. -/
inductive Request where
  | kmallocInt (sz : UInt32) (align : Int32) (phys : UInt32)
  | kmallocA (sz : UInt32)
  | kmallocP (sz phys : UInt32)
  | kmallocAp (sz phys : UInt32)
  | kmalloc (sz : UInt32)
deriving DecidableEq, Repr

namespace Request

def sz : Request → UInt32
  | .kmallocInt sz _ _ | .kmallocA sz | .kmallocP sz _ | .kmallocAp sz _ | .kmalloc sz => sz

/-- The call asks for a page-aligned chunk. -/
def aligned : Request → Bool
  | .kmallocInt _ align _ => align = 1
  | .kmallocA _ | .kmallocAp _ _ => true
  | .kmallocP _ _ | .kmalloc _ => false

/-- The pointer the address is stored through; 0 for none. -/
def phys : Request → UInt32
  | .kmallocInt _ _ phys | .kmallocP _ phys | .kmallocAp _ phys => phys
  | .kmallocA _ | .kmalloc _ => 0

def call : Request → Placement → UInt32 × Placement
  | .kmallocInt sz align phys => HavenOS.kmallocInt sz align phys
  | .kmallocA sz => HavenOS.kmallocA sz
  | .kmallocP sz phys => HavenOS.kmallocP sz phys
  | .kmallocAp sz phys => HavenOS.kmallocAp sz phys
  | .kmalloc sz => HavenOS.kmalloc sz

end Request

/-- A call of a run: the allocator before it, the address it returns and the allocator after it. -/
structure Call where
  request : Request
  before : Placement
  address : UInt32
  after : Placement

/-- The calls of a run of requests. -/
def calls : List Request → Placement → List Call
  | [], _ => []
  | r :: rs, st => ⟨r, st, (r.call st).1, (r.call st).2⟩ :: calls rs (r.call st).2

end HavenOS
