/-
Packed structures in memory: where their members start, stores of two and four bytes, and a list of
bytes put at an address.
-/
import HavenOS.Lib.Ram

namespace Packed

variable {F : Type}

/-- The bytes before a member, with no padding; the members come with their sizes. -/
def offset [DecidableEq F] : List (F × Nat) → F → Nat
  | [], _ => 0
  | (g, n) :: members, f => if g = f then 0 else n + offset members f

def size : List (F × Nat) → Nat
  | [] => 0
  | (_, n) :: members => n + size members

end Packed

namespace Ram

/-- A store of two bytes, the lower one first. -/
def storeShort (p : Ptr) (x : UInt16) (m : Ram) : Ram := (m.store p x.toUInt8).store (p.add 1) (x >>> 8).toUInt8

/-- A store of four bytes, the lowest one first. -/
def storeWord (p : Ptr) (x : UInt32) (m : Ram) : Ram :=
  (m.storeShort p x.toUInt16).storeShort (p.add 2) (x >>> 16).toUInt16

/-- `val` with the bytes `bs` from `a` on. -/
def written (a : UInt32) (bs : List UInt8) (val : UInt32 → UInt8) : UInt32 → UInt8 :=
  fun b => bs.getD (b - a).toNat (val b)

section
variable {a : UInt32} {bs : List UInt8} {val : UInt32 → UInt8}

theorem written_cell {i : Nat} (hi : i < 2 ^ 32) : written a bs val (cell a i) = bs.getD i (val (cell a i)) := by
  rw [written, index_cell a hi]

theorem written_outside {b : UInt32} (h : ∀ i < bs.length, b ≠ cell a i) : written a bs val b = val b := by
  refine List.getD_eq_default _ _ ?_
  by_contra hlt
  exact h (b - a).toNat (Nat.lt_of_not_le hlt) (cell_index a b).symm

/-- The bytes that are there already. -/
theorem written_self (n : Nat) : written a ((List.range n).map fun i => val (cell a i)) val = val := by
  funext b
  rw [written, List.getD_eq_getElem?_getD, List.getElem?_map]
  by_cases hi : (b - a).toNat < n
  · rw [List.getElem?_range hi, Option.map_some, Option.getD_some, cell_index]
  · rw [List.getElem?_eq_none (by simpa using hi)]
    rfl

/-- A store to one of the bytes. -/
theorem update_written {i : Nat} (hi : i < bs.length) (hfits : bs.length ≤ 2 ^ 32) (c : UInt8) :
    Function.update (written a bs val) (cell a i) c = written a (bs.set i c) val := by
  funext b
  obtain ⟨j, hj, rfl⟩ := exists_cell a b
  rw [written_cell hj]
  by_cases hij : j = i
  · rw [hij, Function.update_self, List.getD_eq_getElem _ _ (by rwa [List.length_set]), List.getElem_set_self]
  · have hne : cell a j ≠ cell a i := fun e => hij ((cell_inj a hj (by omega)).1 e)
    rw [Function.update_of_ne hne, written_cell hj, List.getD_eq_getElem?_getD, List.getD_eq_getElem?_getD,
      List.getElem?_set_ne (Ne.symm hij)]

/-- The order does not matter where the bytes are apart. -/
theorem written_comm {b : UInt32} {cs : List UInt8} (h : Apart a bs.length b cs.length) :
    written a bs (written b cs val) = written b cs (written a bs val) := by
  funext x
  obtain ⟨i, hi, rfl⟩ := exists_cell a x
  by_cases hin : i < bs.length
  · have hout : ∀ j < cs.length, cell a i ≠ cell b j := fun j hj => h i hin j hj
    rw [written_outside hout, written_cell hi, written_cell hi, List.getD_eq_getElem _ _ hin,
      List.getD_eq_getElem _ _ hin]
  · have hout : ∀ j < bs.length, cell a i ≠ cell a j := fun j hj => (cell_ne a (by omega) hi).symm
    rw [written_outside hout, written, written, written_outside hout]

end

end Ram
