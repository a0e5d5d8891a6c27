/-
A memory of 2^32 bytes with its history. Addresses wrap around; a pointer knows the object it was made
from, so that the history says through which pointer a byte was loaded or stored.
-/
import HavenOS.Lib.Store
import Mathlib.Algebra.Group.Nat.Defs
import Mathlib.Data.List.GetD
import Mathlib.Logic.Function.Basic

/-- A pointer into the object at `base`. -/
structure Ptr where
  base : UInt32
  off : Int
deriving DecidableEq

namespace Ptr

/-- The pointer to the start of an object. -/
def start (a : UInt32) : Ptr := ⟨a, 0⟩

def add (p : Ptr) (i : Int) : Ptr := ⟨p.base, p.off + i⟩

def addr (p : Ptr) : UInt32 := p.base + UInt32.ofInt p.off

@[simp] theorem add_zero (p : Ptr) : p.add 0 = p := by simp [add]

@[simp] theorem add_add (p : Ptr) (i j : Int) : (p.add i).add j = p.add (i + j) := by simp [add, Int.add_assoc]

@[simp] theorem add_base (p : Ptr) (i : Int) : (p.add i).base = p.base := rfl

@[simp] theorem add_off (p : Ptr) (i : Int) : (p.add i).off = p.off + i := rfl

@[simp] theorem start_base (a : UInt32) : (start a).base = a := rfl

@[simp] theorem start_off (a : UInt32) : (start a).off = 0 := rfl

@[simp] theorem start_addr (a : UInt32) : (start a).addr = a := UInt32.add_zero a

end Ptr

/-- The bytes by address, and the pointers loaded from and stored to, latest first. -/
structure Ram where
  val : UInt32 → UInt8
  loads : List Ptr
  stores : List Ptr

namespace Ram

/-- `*p` as a value. -/
def load (p : Ptr) (m : Ram) : UInt8 × Ram := (m.val p.addr, { m with loads := p :: m.loads })

/-- `*p = c`. -/
def store (p : Ptr) (c : UInt8) (m : Ram) : Ram :=
  { m with val := Function.update m.val p.addr c, stores := p :: m.stores }

@[simp] theorem load_val (p : Ptr) (m : Ram) : (m.load p).2.val = m.val := rfl

@[simp] theorem store_val (p : Ptr) (c : UInt8) (m : Ram) : (m.store p c).val = Function.update m.val p.addr c := rfl

@[simp] theorem store_stores (p : Ptr) (c : UInt8) (m : Ram) : (m.store p c).stores = p :: m.stores := rfl

/-- Contents whose history starts here. -/
def fresh (val : UInt32 → UInt8) : Ram := ⟨val, [], []⟩

@[simp] theorem fresh_val (val : UInt32 → UInt8) : (fresh val).val = val := rfl

/-- The history of `m'` goes on from that of `m`. -/
structure Extends (m m' : Ram) : Prop where
  loads : m.loads ⊆ m'.loads
  stores : m.stores ⊆ m'.stores

/-- From `m` to `m'` there were only loads from pointers of `L` and stores to pointers of `S`. -/
structure Within (L S : Ptr → Prop) (m m' : Ram) : Prop where
  loads : ∀ p ∈ m'.loads, p ∈ m.loads ∨ L p
  stores : ∀ p ∈ m'.stores, p ∈ m.stores ∨ S p

theorem Extends.refl (m : Ram) : Extends m m := ⟨fun _ h => h, fun _ h => h⟩

theorem Extends.trans {m m' m'' : Ram} (h : Extends m m') (h' : Extends m' m'') : Extends m m'' :=
  ⟨fun _ hp => h'.loads (h.loads hp), fun _ hp => h'.stores (h.stores hp)⟩

theorem extends_load (p : Ptr) (m : Ram) : Extends m (m.load p).2 := ⟨List.subset_cons_self p m.loads, fun _ h => h⟩

theorem extends_store (p : Ptr) (c : UInt8) (m : Ram) : Extends m (m.store p c) :=
  ⟨fun _ h => h, List.subset_cons_self p m.stores⟩

namespace Within

variable {L S L' S' : Ptr → Prop} {m m' m'' : Ram} {p : Ptr}

theorem refl (L S : Ptr → Prop) (m : Ram) : Within L S m m := ⟨fun _ => .inl, fun _ => .inl⟩

theorem mono (h : Within L S m m') (hL : ∀ p, L p → L' p) (hS : ∀ p, S p → S' p) : Within L' S' m m' :=
  ⟨fun p hp => (h.loads p hp).imp_right (hL p), fun p hp => (h.stores p hp).imp_right (hS p)⟩

theorem trans (h : Within L S m m') (h' : Within L S m' m'') : Within L S m m'' :=
  ⟨fun p hp => (h'.loads p hp).elim (h.loads p) .inr, fun p hp => (h'.stores p hp).elim (h.stores p) .inr⟩

theorem load (h : Within L S m m') (hp : L p) : Within L S m (m'.load p).2 := by
  refine ⟨fun q hq => ?_, h.stores⟩
  rcases List.mem_cons.1 hq with rfl | hq
  · exact .inr hp
  · exact h.loads q hq

theorem store (h : Within L S m m') (hp : S p) (c : UInt8) : Within L S m (m'.store p c) := by
  refine ⟨h.loads, fun q hq => ?_⟩
  rcases List.mem_cons.1 hq with rfl | hq
  · exact .inr hp
  · exact h.stores q hq

end Within

/-! ## Cells -/

/-- The address `i` places on. -/
def cell (a : UInt32) (i : Nat) : UInt32 := a + UInt32.ofNat i

theorem toNat_cell (a : UInt32) (i : Nat) : (cell a i).toNat = (a.toNat + i) % 2 ^ 32 := by
  rw [cell, UInt32.toNat_add, UInt32.toNat_ofNat', Nat.add_mod_mod]

@[simp] theorem cell_zero (a : UInt32) : cell a 0 = a := UInt32.add_zero a

theorem cell_cell (a : UInt32) (i j : Nat) : cell (cell a i) j = cell a (i + j) := by
  rw [cell, cell, cell, UInt32.ofNat_add, UInt32.add_assoc]

theorem ofInt_natCast (i : Nat) : UInt32.ofInt i = UInt32.ofNat i := by
  apply UInt32.toNat_inj.1
  rw [UInt32.ofInt, UInt32.toNat_ofNat', UInt32.toNat_ofNat']
  omega

theorem addr_add (p : Ptr) (i : Nat) : (p.add i).addr = cell p.addr i := by
  rw [Ptr.addr, Ptr.add, UInt32.ofInt_add, ← UInt32.add_assoc, ofInt_natCast]
  rfl

/-- Once around the memory. -/
theorem cell_around (a : UInt32) : cell a (2 ^ 32) = a := by
  apply UInt32.toNat_inj.1
  have ha := a.toNat_lt
  rw [toNat_cell]
  omega

theorem cell_inj (a : UInt32) {i j : Nat} (hi : i < 2 ^ 32) (hj : j < 2 ^ 32) : cell a i = cell a j ↔ i = j := by
  refine ⟨fun h => ?_, fun h => by rw [h]⟩
  have ha := a.toNat_lt
  have h := congrArg UInt32.toNat h
  rw [toNat_cell, toNat_cell] at h
  omega

theorem cell_ne (a : UInt32) {i j : Nat} (hij : i < j) (hj : j < 2 ^ 32) : cell a i ≠ cell a j := fun h =>
  Nat.ne_of_lt hij ((cell_inj a (Nat.lt_trans hij hj) hj).1 h)

/-- The cells of one turn around the memory are different ones. -/
theorem cell_ne_around (a : UInt32) {i j : Nat} (hi : 0 < i) (hij : i < j) (hj : j ≤ 2 ^ 32) : cell a i ≠ cell a j := by
  rcases Nat.lt_or_eq_of_le hj with hlt | rfl
  · exact cell_ne a hij hlt
  · rw [cell_around]
    intro h
    exact cell_ne a hi hij ((cell_zero a).trans h.symm)

/-- How many places on from `a` an address is. -/
theorem cell_index (a b : UInt32) : cell a (b - a).toNat = b := by
  have ha := a.toNat_lt
  have hb := b.toNat_lt
  apply UInt32.toNat_inj.1
  rw [toNat_cell, UInt32.toNat_sub]
  omega

theorem index_cell (a : UInt32) {i : Nat} (hi : i < 2 ^ 32) : (cell a i - a).toNat = i :=
  (cell_inj a (UInt32.toNat_lt _) hi).1 (cell_index a _)

theorem exists_cell (a b : UInt32) : ∃ i < 2 ^ 32, cell a i = b := ⟨_, UInt32.toNat_lt _, cell_index a b⟩

/-- Two memories that agree on some cells and everywhere else. -/
theorem eq_of_cells {val val' : UInt32 → UInt8} (a : UInt32) (n : Nat) (hin : ∀ i < n, val (cell a i) = val' (cell a i))
    (hout : ∀ b, (∀ i < n, b ≠ cell a i) → val b = val' b) : val = val' := by
  funext b
  by_cases hcell : ∃ i < n, b = cell a i
  · obtain ⟨i, hi, rfl⟩ := hcell
    exact hin i hi
  · exact hout b fun i hi e => hcell ⟨i, hi, e⟩

/-! ## Regions -/

/-- The `n` cells from `a` and the `k` cells from `b` are different ones. -/
def Apart (a : UInt32) (n : Nat) (b : UInt32) (k : Nat) : Prop := ∀ i < n, ∀ j < k, cell a i ≠ cell b j

namespace Apart

variable {a b : UInt32} {n k : Nat}

theorem symm (h : Apart a n b k) : Apart b k a n := fun j hj i hi e => h i hi j hj e.symm

theorem mono (h : Apart a n b k) {n' k' : Nat} (hn : n' ≤ n) (hk : k' ≤ k) : Apart a n' b k' := fun i hi j hj =>
  h i (Nat.lt_of_lt_of_le hi hn) j (Nat.lt_of_lt_of_le hj hk)

/-- So many cells from the `i`th on. -/
theorem drop (h : Apart a n b k) {i m : Nat} (hle : i + m ≤ n) : Apart (cell a i) m b k := fun l hl j hj => by
  rw [cell_cell]
  exact h (i + l) (by omega) j hj

/-- One region after the other. -/
theorem of_le (h : a.toNat + n ≤ b.toNat) (hk : b.toNat + k ≤ 2 ^ 32) : Apart a n b k := by
  intro i hi j hj e
  have hb := b.toNat_lt
  have e := congrArg UInt32.toNat e
  rw [toNat_cell, toNat_cell] at e
  omega

/-- Two regions fit in the memory together. -/
theorem le_size (h : Apart a n b k) (hn : 0 < n) (hk : 0 < k) : n + k ≤ 2 ^ 32 := by
  obtain ⟨d, hd, hb⟩ := exists_cell a b
  have hbelow : n ≤ d := by
    by_contra hlt
    exact h d (by omega) 0 hk (by rw [hb, cell_zero])
  by_contra hgt
  -- going on from `b`, the first region comes before the end of the second
  refine h 0 hn (2 ^ 32 - d) (by omega) ?_
  rw [← hb, cell_cell, show d + (2 ^ 32 - d) = 2 ^ 32 by omega, cell_around, cell_zero]

end Apart

/-- The characters from `a` on are those of `s`, and then a NUL. -/
structure HasText (val : UInt32 → UInt8) (a : UInt32) (s : List UInt8) : Prop where
  noNul : 0 ∉ s
  byte : ∀ i ≤ s.length, val (cell a i) = s.getD i 0
  fits : s.length < 2 ^ 32

namespace HasText

variable {val val' : UInt32 → UInt8} {a : UInt32} {s : List UInt8}

theorem nul (h : HasText val a s) : val (cell a s.length) = 0 := by
  rw [h.byte _ (Nat.le_refl _), List.getD_eq_default _ _ (Nat.le_refl _)]

theorem byte_ne (h : HasText val a s) {i : Nat} (hi : i < s.length) : val (cell a i) ≠ 0 := by
  rw [h.byte i (Nat.le_of_lt hi), List.getD_eq_getElem _ _ hi]
  exact fun e => h.noNul (e ▸ List.getElem_mem hi)

/-- The first byte is the first character, or the NUL of an empty text. -/
theorem head (h : HasText val a s) : val a = s.headD 0 := by
  have hfirst := h.byte 0 (Nat.zero_le _)
  rw [cell_zero] at hfirst
  rw [hfirst]
  cases s <;> rfl

theorem head_ne {c : UInt8} (h : HasText val a (c :: s)) : c ≠ 0 := fun e => h.noNul (e ▸ List.mem_cons_self)

theorem tail {c : UInt8} (h : HasText val a (c :: s)) : HasText val (cell a 1) s where
  noNul hs := h.noNul (List.mem_cons_of_mem c hs)
  byte i hi := by rw [cell_cell, Nat.add_comm, h.byte (i + 1) (Nat.succ_le_succ hi), List.getD_cons_succ]
  fits := Nat.lt_of_succ_lt h.fits

theorem length_unique {t : List UInt8} (hs : HasText val a s) (ht : HasText val a t) : s.length = t.length := by
  rcases Nat.lt_trichotomy s.length t.length with hlt | heq | hgt
  · exact absurd hs.nul (ht.byte_ne hlt)
  · exact heq
  · exact absurd ht.nul (hs.byte_ne hgt)

/-- A memory that holds a text and NULs. -/
theorem of_getD (a : UInt32) (hs : 0 ∉ s) (hfits : s.length < 2 ^ 32) : HasText (fun b => s.getD (b - a).toNat 0) a s :=
  ⟨hs, fun i hi => by rw [index_cell a (Nat.lt_of_le_of_lt hi hfits)], hfits⟩

/-- A text depends on its own cells only. -/
theorem congr (h : HasText val a s) (hval : ∀ i ≤ s.length, val' (cell a i) = val (cell a i)) : HasText val' a s :=
  ⟨h.noNul, fun i hi => (hval i hi).trans (h.byte i hi), h.fits⟩

end HasText

/-! ## Arrays -/

/-- The stores of a log, latest first, to the array at `a`. -/
def replay (a : UInt32) (val : Nat → UInt8) : List Nat → Ram → Ram
  | [], m => m
  | k :: log, m => (replay a val log m).store ((Ptr.start a).add k) (val k)

/-- A function on an array, run on the one at `a`. -/
def onArray (a : UInt32) (f : Store Nat UInt8 → Store Nat UInt8) (m : Ram) : Ram :=
  let out := f (.fresh fun k => m.val (cell a k))
  replay a out.val out.log m

section
variable {a : UInt32} {val : Nat → UInt8} {m : Ram}

theorem replay_val_eq :
    ∀ {log : List Nat} {b : UInt32}, (∀ k ∈ log, b ≠ cell a k) → (replay a val log m).val b = m.val b
  | [], _, _ => rfl
  | k :: log, b, h => by
    have hk : b ≠ ((Ptr.start a).add k).addr := by
      rw [addr_add, Ptr.start_addr]
      exact h k List.mem_cons_self
    rw [replay, store_val, Function.update_of_ne hk, replay_val_eq fun l hl => h l (List.mem_cons_of_mem _ hl)]

theorem replay_val_cell : ∀ {log : List Nat} {k : Nat}, (∀ l ∈ log, l < 2 ^ 32) → k ∈ log →
    (replay a val log m).val (cell a k) = val k
  | l :: log, k, hlt, hk => by
    rw [replay, store_val, addr_add, Ptr.start_addr]
    by_cases hl : k = l
    · rw [hl, Function.update_self]
    · have hlog := (List.mem_cons.1 hk).resolve_left hl
      have hne : cell a k ≠ cell a l := fun e =>
        hl ((cell_inj a (hlt k hk) (hlt l List.mem_cons_self)).1 e)
      rw [Function.update_of_ne hne, replay_val_cell (fun l hl => hlt l (List.mem_cons_of_mem _ hl)) hlog]

theorem mem_replay_stores {p : Ptr} : ∀ {log : List Nat},
    p ∈ (replay a val log m).stores ↔ (∃ k ∈ log, p = (Ptr.start a).add k) ∨ p ∈ m.stores
  | [] => by simp [replay]
  | k :: log => by
    rw [replay, store_stores, List.mem_cons, mem_replay_stores, ← or_assoc]
    simp

end

section
variable {a : UInt32} {f : Store Nat UInt8 → Store Nat UInt8} {m : Ram} {n : Nat}
  (hlog : ∀ k, k ∈ (f (.fresh fun k => m.val (cell a k))).log ↔ k < n)
include hlog

/-- A function that stores to the first `n` elements leaves there what it computes. -/
theorem onArray_val_cell (hn : n ≤ 2 ^ 32) {k : Nat} (hk : k < n) :
    (onArray a f m).val (cell a k) = (f (.fresh fun k => m.val (cell a k))).val k :=
  replay_val_cell (fun l hl => Nat.lt_of_lt_of_le ((hlog l).1 hl) hn) ((hlog k).2 hk)

theorem onArray_val_eq {b : UInt32} (h : ∀ k < n, b ≠ cell a k) : (onArray a f m).val b = m.val b :=
  replay_val_eq fun k hk => h k ((hlog k).1 hk)

theorem mem_onArray_stores {p : Ptr} :
    p ∈ (onArray a f m).stores ↔ (∃ k : Nat, k < n ∧ p = (Ptr.start a).add k) ∨ p ∈ m.stores := by
  rw [onArray, mem_replay_stores]
  simp only [hlog]

end

/-! ## Copying -/

/-- The memory after `n` rounds of `*d++ = *s++`. -/
def copied (d s : UInt32) : Nat → (UInt32 → UInt8) → UInt32 → UInt8
  | 0, val => val
  | n + 1, val => Function.update (copied d s n val) (cell d n) (copied d s n val (cell s n))

section
variable {d s : UInt32} {n : Nat} (val : UInt32 → UInt8)

theorem copied_other : ∀ {n : Nat} {a : UInt32}, (∀ i < n, a ≠ cell d i) → copied d s n val a = val a
  | 0, _, _ => rfl
  | n + 1, a, h => by
    rw [copied, Function.update_of_ne (h n (Nat.lt_succ_self n)), copied_other fun i hi => h i (Nat.lt_succ_of_lt hi)]

/-- A cell keeps what it was given in its round. -/
theorem copied_at : ∀ {n i : Nat}, i < n → n ≤ 2 ^ 32 → copied d s n val (cell d i) = copied d s i val (cell s i)
  | n + 1, i, hi, hn => by
    rw [copied]
    by_cases hlast : i = n
    · rw [hlast, Function.update_self]
    · rw [Function.update_of_ne (cell_ne d (by omega) (by omega)), copied_at (by omega) (by omega)]

/-- From another region. -/
theorem copied_apart (h : Apart d n s n) {i : Nat} (hi : i < n) (hn : n ≤ 2 ^ 32) :
    copied d s n val (cell d i) = val (cell s i) := by
  rw [copied_at val hi hn, copied_other val fun j hj => (h j (by omega) i hi).symm]

/-- A source out of reach stays as it was. -/
theorem copied_source {k i j : Nat} (h : Apart d n s k) (hi : i ≤ n) (hj : j < k) :
    copied d s i val (cell s j) = val (cell s j) :=
  copied_other val fun l hl => (h l (by omega) j hj).symm

theorem copied_later {i j : Nat} (hij : i ≤ j) (hj : j < 2 ^ 32) : copied d s i val (cell d j) = val (cell d j) :=
  copied_other val fun _ hl => (cell_ne d (Nat.lt_of_lt_of_le hl hij) hj).symm

/-- The first round, before the others. -/
theorem copied_first : ∀ (n : Nat) (d s : UInt32) (val : UInt32 → UInt8),
    copied d s (n + 1) val = copied (cell d 1) (cell s 1) n (Function.update val d (val s))
  | 0, d, s, val => by rw [copied, copied, copied, cell_zero, cell_zero]
  | n + 1, d, s, val => by
    rw [copied, copied_first n d s val, copied, cell_cell, cell_cell, Nat.add_comm 1 n]

/-- Onto itself. -/
theorem copied_self (n : Nat) : copied d d n val = val := by
  induction n with
  | zero => rfl
  | succ n ih => rw [copied, ih, Function.update_eq_self]

end

/-- `val'` is `val` with `n` cells from `s` on put at `d`, as they were before. -/
structure Moved (d s : UInt32) (n : Nat) (val val' : UInt32 → UInt8) : Prop where
  inside : ∀ i < n, val' (cell d i) = val (cell s i)
  outside : ∀ a, (∀ i < n, a ≠ cell d i) → val' a = val a

namespace Moved

variable {d s : UInt32} {n : Nat} {val val' val'' : UInt32 → UInt8}

theorem unique (h : Moved d s n val val') (h' : Moved d s n val val'') : val' = val'' := by
  refine eq_of_cells d n (fun i hi => ?_) fun a hout => ?_
  · rw [h.inside i hi, h'.inside i hi]
  · rw [h.outside a hout, h'.outside a hout]

/-- Upwards, where no cell is written before it is read. -/
theorem of_copied (hn : n ≤ 2 ^ 32) (hread : ∀ i < n, ∀ j < i, cell s i ≠ cell d j) :
    Moved d s n val (copied d s n val) where
  inside i hi := by rw [copied_at val hi hn, copied_other val fun j hj => hread i hi j hj]
  outside _ ha := copied_other val ha

/-- Downwards: the last cell first, where it is none of those that are read later. -/
theorem of_last (hn : n < 2 ^ 32) (hread : ∀ j < n, cell s j ≠ cell d n)
    (h : Moved d s n (Function.update val (cell d n) (val (cell s n))) val') : Moved d s (n + 1) val val' := by
  refine ⟨fun i hi => ?_, fun a ha => ?_⟩
  · rcases Nat.lt_or_eq_of_le (Nat.le_of_lt_succ hi) with hlt | rfl
    · rw [h.inside i hlt, Function.update_of_ne (hread i hlt)]
    · rw [h.outside _ fun j hj => (cell_ne d hj hn).symm, Function.update_self]
  · rw [h.outside a fun i hi => ha i (Nat.lt_succ_of_lt hi), Function.update_of_ne (ha n (Nat.lt_succ_self n))]

end Moved

end Ram
