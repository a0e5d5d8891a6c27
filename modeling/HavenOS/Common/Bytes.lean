/-
The bytes of an array as a list.
-/
import HavenOS.Lib.Packed

namespace HavenOS

open Ram

/-- The bytes of an array. -/
def bytes (val : UInt32 → UInt8) (a : UInt32) (n : Nat) : List UInt8 := (List.range n).map fun i => val (cell a i)

section
variable {val val' : UInt32 → UInt8} {a : UInt32}

@[simp] theorem bytes_length (val : UInt32 → UInt8) (a : UInt32) (n : Nat) :
    (bytes val a n).length = n := by simp [bytes]

theorem bytes_getElem (val : UInt32 → UInt8) (a : UInt32) {n i : Nat} (h : i < (bytes val a n).length) :
    (bytes val a n)[i] = val (cell a i) := by simp [bytes]

theorem bytes_succ (val : UInt32 → UInt8) (a : UInt32) (n : Nat) :
    bytes val a (n + 1) = val a :: bytes val (cell a 1) n := by
  rw [bytes, List.range_succ_eq_map, List.map_cons, List.map_map, cell_zero]
  refine congrArg _ (List.map_congr_left fun i _ => ?_)
  rw [Function.comp_apply, cell_cell, Nat.add_comm 1 i]

theorem bytes_congr {n : Nat} (h : ∀ i < n, val' (cell a i) = val (cell a i)) : bytes val' a n = bytes val a n :=
  List.map_congr_left fun i hi => h i (List.mem_range.1 hi)

theorem bytes_written {bs : List UInt8} (hfits : bs.length ≤ 2 ^ 32) : bytes (written a bs val) a bs.length = bs := by
  refine List.ext_getElem (bytes_length _ _ _) fun i hi hi' => ?_
  rw [bytes_getElem, written_cell (by omega), List.getD_eq_getElem _ _ hi']

theorem bytes_written_apart {b : UInt32} {bs : List UInt8} {n : Nat} (h : Apart a n b bs.length) :
    bytes (written b bs val) a n = bytes val a n := bytes_congr fun i hi => written_outside fun j hj => h i hi j hj

end

end HavenOS
