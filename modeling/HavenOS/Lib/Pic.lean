/-
The 8259A interrupt controller and the pair of them in a PC, where the second one asks for the
processor through input 2 of the first: the bytes that program them, the request that is
acknowledged first, and that the end of an interrupt leaves the pair as if the request had not been
made. Rotating priorities, polling and the special modes are left out.
-/
import Mathlib.Data.Finset.Max
import Mathlib.Data.Fintype.Basic
import Mathlib.Order.Basic
import Mathlib.Data.UInt

namespace Pic

/-! ## One controller -/

/-- What a byte on the data port is: the mask, or the next word of an initialisation. -/
inductive Expects where
  | mask
  | base
  | cascade
  | mode
deriving DecidableEq, Repr

structure Chip where
  expects : Expects
  single : Bool
  needsMode : Bool
  base : UInt8
  cascade : UInt8
  autoEoi : Bool
  mask : UInt8
  requested : Finset (Fin 8)
  inService : Finset (Fin 8)

def bit (data : UInt8) (i : Nat) : Bool := data.toNat.testBit i

/-- The first one has the highest priority. -/
def highest {α : Type} [LinearOrder α] (s : Finset α) : Option α := if h : s.Nonempty then some (s.min' h) else none

namespace Chip

/-- A request that is not masked waits for those in service that are not lower than it. -/
def pending (c : Chip) : Finset (Fin 8) :=
  c.requested.filter fun n => bit c.mask n = false ∧ ∀ m ∈ c.inService, n < m

/-- The end of the highest interrupt in service. -/
def endHighest (c : Chip) : Chip :=
  match highest c.inService with
  | some n => { c with inService := c.inService.erase n }
  | none => c

/-- A byte on the command port. -/
def command (data : UInt8) (c : Chip) : Chip :=
  if bit data 4 then
    { c with
      expects := .base, single := bit data 1, needsMode := bit data 0, autoEoi := false, mask := 0,
      requested := ∅, inService := ∅ }
  else if bit data 3 then c
  else if data >>> 5 = 1 then c.endHighest
  else if data >>> 5 = 3 then
    { c with inService := c.inService.filter fun n => n.val ≠ data.toNat % 8 }
  else c

/-- A byte on the data port. -/
def data (data : UInt8) (c : Chip) : Chip :=
  let lastWord : Expects := if c.needsMode then .mode else .mask
  match c.expects with
  | .base => { c with base := data &&& 0xF8, expects := if c.single then lastWord else .cascade }
  | .cascade => { c with cascade := data, expects := lastWord }
  | .mode => { c with autoEoi := bit data 1, expects := .mask }
  | .mask => { c with mask := data }

def request (n : Fin 8) (c : Chip) : Chip := { c with requested := insert n c.requested }

/-- The request is acknowledged. -/
def start (n : Fin 8) (c : Chip) : Chip :=
  { c with
    requested := c.requested.erase n, inService := if c.autoEoi then c.inService else insert n c.inService }

def vector (c : Chip) (n : Fin 8) : UInt8 := c.base + UInt8.ofNat n

/-- Initialised, with no input masked and every interrupt to be ended by a command. -/
structure Open (c : Chip) : Prop where
  expects : c.expects = .mask
  autoEoi : c.autoEoi = false
  mask : c.mask = 0

end Chip

section
variable {α : Type} [LinearOrder α] {s : Finset α}

theorem highest_eq_none_iff : highest s = none ↔ s = ∅ := by
  unfold highest
  split
  · rename_i h
    exact iff_of_false (Option.some_ne_none _) h.ne_empty
  · rename_i h
    exact iff_of_true rfl (Finset.not_nonempty_iff_eq_empty.1 h)

theorem highest_eq_some_iff {n : α} : highest s = some n ↔ n ∈ s ∧ ∀ m ∈ s, n ≤ m := by
  unfold highest
  constructor
  · intro h
    split at h
    · cases h
      exact ⟨s.min'_mem _, fun m hm => s.min'_le m hm⟩
    · cases h
  · rintro ⟨hmem, hleast⟩
    rw [dif_pos ⟨n, hmem⟩]
    exact congrArg some (le_antisymm (s.min'_le n hmem) (hleast _ (s.min'_mem _)))

end

section
variable {c : Chip}

theorem bit_zero (i : Nat) : bit 0 i = false := Nat.zero_testBit i

/-- With nothing in service every request is let through. -/
theorem Chip.Open.pending_eq (h : c.Open) (hidle : c.inService = ∅) : c.pending = c.requested := by
  unfold Chip.pending
  rw [h.mask, hidle]
  exact Finset.filter_true_of_mem fun n _ => ⟨bit_zero n, fun m hm => absurd hm (Finset.notMem_empty m)⟩

theorem Chip.Open.request (h : c.Open) (n : Fin 8) : (c.request n).Open := ⟨h.expects, h.autoEoi, h.mask⟩

/-- The end of the one interrupt in service. -/
theorem Chip.Open.endHighest_start (h : c.Open) (hidle : c.inService = ∅) (n : Fin 8) :
    (c.start n).endHighest = { c with requested := c.requested.erase n } := by
  have hservice : (c.start n).inService = {n} := by
    unfold Chip.start
    rw [h.autoEoi, hidle]
    rfl
  have hhighest : highest (c.start n).inService = some n := by
    rw [hservice, highest_eq_some_iff]
    exact ⟨Finset.mem_singleton_self n, fun m hm => (Finset.mem_singleton.1 hm).ge⟩
  unfold Chip.endHighest
  rw [hhighest]
  simp only [hservice, Finset.erase_singleton]
  rw [← hidle]
  rfl

end

/-! ## Two controllers -/

/-- An input for a device; input 2 of the first controller is taken by the second one. -/
inductive Line where
  | master (n : Fin 8) (free : n ≠ 2)
  | slave (n : Fin 8)
deriving DecidableEq, Repr

/-- By the controller of the line. -/
def Line.elim {α : Type} (master slave : Fin 8 → α) : Line → α
  | .master n _ => master n
  | .slave n => slave n

/-- The place in the order of priority. -/
def Line.rank : Line → Nat
  | .master n _ => if n.val < 2 then n else 8 + n
  | .slave n => 2 + n

theorem Line.rank_master (n : Fin 8) (free : n ≠ 2) :
    (Line.master n free).rank = if n.val < 2 then n.val else 8 + n.val := rfl

theorem Line.rank_slave (n : Fin 8) : (Line.slave n).rank = 2 + n.val := rfl

theorem Line.rank_injective : Function.Injective Line.rank := by
  intro a b h
  cases a with
  | master n hn =>
    have hn2 : n.val ≠ 2 := fun e => hn (Fin.ext e)
    cases b with
    | master m hm =>
      simp only [rank_master] at h
      have hnm : n = m := Fin.ext (by split at h <;> split at h <;> omega)
      subst hnm
      rfl
    | slave m =>
      simp only [rank_master, rank_slave] at h
      split at h <;> omega
  | slave n =>
    cases b with
    | master m hm =>
      have hm2 : m.val ≠ 2 := fun e => hm (Fin.ext e)
      simp only [rank_master, rank_slave] at h
      split at h <;> omega
    | slave m =>
      simp only [rank_slave] at h
      exact congrArg Line.slave (Fin.ext (by omega))

/-- The highest priority first. -/
instance : LinearOrder Line := LinearOrder.lift' Line.rank Line.rank_injective

theorem Line.le_iff {a b : Line} : a ≤ b ↔ a.rank ≤ b.rank := Iff.rfl

structure Pair where
  master : Chip
  slave : Chip

inductive Port where
  | masterCommand
  | masterData
  | slaveCommand
  | slaveData
deriving DecidableEq, Repr

namespace Pair

def out (p : Pair) (byte : UInt8) : Port → Pair
  | .masterCommand => { p with master := p.master.command byte }
  | .masterData => { p with master := p.master.data byte }
  | .slaveCommand => { p with slave := p.slave.command byte }
  | .slaveData => { p with slave := p.slave.data byte }

/-- A device makes a request. -/
def raise (line : Line) (p : Pair) : Pair :=
  match line with
  | .master n _ => { p with master := p.master.request n }
  | .slave n => { p with slave := p.slave.request n }

/-- The first controller with the second one on its input 2. -/
def wired (p : Pair) : Chip :=
  { p.master with
    requested := if p.slave.pending.Nonempty then insert 2 p.master.requested else p.master.requested.erase 2 }

/-- Both were told of the input between them. -/
def linked (p : Pair) : Bool := !p.master.single && bit p.master.cascade 2 && p.slave.cascade.toNat % 8 = 2

/-- The vector the processor is given, and the pair after it; `none` without a request. -/
def acknowledge (p : Pair) : Option (UInt8 × Pair) :=
  match highest p.wired.pending with
  | none => none
  | some n =>
    match if n = 2 ∧ p.linked then highest p.slave.pending else none with
    | some l => some (p.slave.vector l, ⟨p.master.start n, p.slave.start l⟩)
    | none => some (p.master.vector n, ⟨p.master.start n, p.slave⟩)

/-! ### Requests -/

/-- The lines with a request. -/
def requests (p : Pair) : Finset Line :=
  ((p.master.requested.erase 2).attach.image fun n => Line.master n.1 (Finset.ne_of_mem_erase n.2)) ∪
    p.slave.requested.image Line.slave

/-- A line is acknowledged. -/
def start (line : Line) (p : Pair) : Pair :=
  match line with
  | .master n _ => { p with master := p.master.start n }
  | .slave n => ⟨p.master.start 2, p.slave.start n⟩

def vector (p : Pair) : Line → UInt8
  | .master n _ => p.master.vector n
  | .slave n => p.slave.vector n

/-- Both are programmed, with the input between them, and nothing is in service. -/
structure Ready (p : Pair) : Prop where
  master : p.master.Open
  slave : p.slave.Open
  linked : p.linked = true
  masterIdle : p.master.inService = ∅
  slaveIdle : p.slave.inService = ∅

variable {p : Pair}

@[simp] theorem mem_requests_master {n : Fin 8} {h : n ≠ 2} :
    Line.master n h ∈ p.requests ↔ n ∈ p.master.requested := by
  simp [requests, h]

@[simp] theorem mem_requests_slave {n : Fin 8} : Line.slave n ∈ p.requests ↔ n ∈ p.slave.requested := by
  simp [requests]

theorem requests_raise (line : Line) : (p.raise line).requests = insert line p.requests := by
  ext other
  rw [Finset.mem_insert]
  cases line <;> cases other <;> simp [raise, Chip.request]

theorem Ready.raise (h : p.Ready) (line : Line) : (p.raise line).Ready := by
  cases line with
  | master n => exact ⟨h.master.request n, h.slave, h.linked, h.masterIdle, h.slaveIdle⟩
  | slave n => exact ⟨h.master, h.slave.request n, h.linked, h.masterIdle, h.slaveIdle⟩

/-! ### Acknowledging -/

theorem Ready.wired_pending (h : p.Ready) : p.wired.pending =
    if p.slave.requested.Nonempty then insert 2 p.master.requested else p.master.requested.erase 2 := by
  have hopen : p.wired.Open := ⟨h.master.expects, h.master.autoEoi, h.master.mask⟩
  rw [hopen.pending_eq h.masterIdle, wired, h.slave.pending_eq h.slaveIdle]

/-- The processor is asked for exactly when a line has a request. -/
theorem Ready.acknowledge_eq_none_iff (h : p.Ready) : p.acknowledge = none ↔ p.requests = ∅ := by
  have hnone : p.acknowledge = none ↔ highest p.wired.pending = none := by
    unfold acknowledge
    split
    · rename_i he
      exact iff_of_true rfl he
    · rename_i n he
      rw [he]
      split <;> exact iff_of_false (Option.some_ne_none _) (Option.some_ne_none _)
  rw [hnone, highest_eq_none_iff, h.wired_pending]
  constructor
  · intro hempty
    split at hempty
    · exact absurd hempty (Finset.insert_ne_empty _ _)
    · rename_i hslave
      refine Finset.eq_empty_of_forall_notMem fun line hline => ?_
      cases line with
      | master n free =>
        have hmem : n ∈ p.master.requested.erase 2 := Finset.mem_erase.2 ⟨free, mem_requests_master.1 hline⟩
        rw [hempty] at hmem
        exact Finset.notMem_empty n hmem
      | slave n => exact hslave ⟨n, mem_requests_slave.1 hline⟩
  · intro hempty
    have hslave : ¬ p.slave.requested.Nonempty := by
      rintro ⟨n, hn⟩
      have hmem := mem_requests_slave.2 hn
      rw [hempty] at hmem
      exact Finset.notMem_empty _ hmem
    rw [if_neg hslave]
    refine Finset.eq_empty_of_forall_notMem fun n hn => ?_
    obtain ⟨free, hmem⟩ := Finset.mem_erase.1 hn
    have hline := (mem_requests_master (h := free)).2 hmem
    rw [hempty] at hline
    exact Finset.notMem_empty _ hline

/-- A line of the first controller that comes before all others is its highest request. -/
theorem Ready.highest_master (h : p.Ready) {n : Fin 8} {free : n ≠ 2} (hmem : .master n free ∈ p.requests)
    (hfirst : ∀ other ∈ p.requests, .master n free ≤ other) : highest p.wired.pending = some n := by
  have hn2 : n.val ≠ 2 := fun e => free (Fin.ext e)
  have hn := mem_requests_master.1 hmem
  have hothers : ∀ m ∈ p.master.requested, m ≠ 2 → n ≤ m := by
    intro m hm hm2
    have hm2' : m.val ≠ 2 := fun e => hm2 (Fin.ext e)
    have hrank := Line.le_iff.1 (hfirst _ (mem_requests_master (h := hm2).2 hm))
    simp only [Line.rank_master] at hrank
    rw [Fin.le_def]
    split at hrank <;> split at hrank <;> omega
  rw [h.wired_pending, highest_eq_some_iff]
  split
  · rename_i hslave
    obtain ⟨l, hl⟩ := hslave
    have hrank := Line.le_iff.1 (hfirst _ (mem_requests_slave.2 hl))
    simp only [Line.rank_master, Line.rank_slave] at hrank
    refine ⟨Finset.mem_insert_of_mem hn, fun m hm => ?_⟩
    by_cases hm2 : m = 2
    · rw [hm2, Fin.le_def, show ((2 : Fin 8) : Nat) = 2 from rfl]
      split at hrank <;> omega
    · exact hothers m (Finset.mem_of_mem_insert_of_ne hm hm2) hm2
  · exact ⟨Finset.mem_erase.2 ⟨free, hn⟩, fun m hm =>
      hothers m (Finset.mem_of_mem_erase hm) (Finset.ne_of_mem_erase hm)⟩

/-- A line of the second controller that comes before all others is the highest request of both. -/
theorem Ready.highest_slave (h : p.Ready) {n : Fin 8} (hmem : .slave n ∈ p.requests)
    (hfirst : ∀ other ∈ p.requests, .slave n ≤ other) :
    highest p.wired.pending = some 2 ∧ highest p.slave.pending = some n := by
  have hn := mem_requests_slave.1 hmem
  rw [h.wired_pending, h.slave.pending_eq h.slaveIdle, if_pos ⟨n, hn⟩, highest_eq_some_iff, highest_eq_some_iff]
  refine ⟨⟨Finset.mem_insert_self _ _, fun m hm => ?_⟩, hn, fun m hm => ?_⟩
  · by_cases hm2 : m = 2
    · exact hm2.ge
    · have hrank := Line.le_iff.1
        (hfirst _ (mem_requests_master (h := hm2).2 (Finset.mem_of_mem_insert_of_ne hm hm2)))
      simp only [Line.rank_master, Line.rank_slave] at hrank
      rw [Fin.le_def, show ((2 : Fin 8) : Nat) = 2 from rfl]
      split at hrank <;> omega
  · have hrank := Line.le_iff.1 (hfirst _ (mem_requests_slave.2 hm))
    simp only [Line.rank_slave] at hrank
    rw [Fin.le_def]
    omega

theorem Ready.acknowledge_first (h : p.Ready) {line : Line} (hmem : line ∈ p.requests)
    (hfirst : ∀ other ∈ p.requests, line ≤ other) : p.acknowledge = some (p.vector line, p.start line) := by
  unfold acknowledge
  cases line with
  | master n free =>
    rw [h.highest_master hmem hfirst]
    simp only [free, false_and, if_false]
    rfl
  | slave n =>
    obtain ⟨hmaster, hslave⟩ := h.highest_slave hmem hfirst
    rw [hmaster]
    simp only [h.linked, and_self, if_true, hslave]
    rfl

/-- The line with the highest priority is acknowledged. -/
theorem Ready.acknowledge_eq (h : p.Ready) :
    p.acknowledge = (highest p.requests).map fun line => (p.vector line, p.start line) := by
  cases hfirst : highest p.requests with
  | none => exact h.acknowledge_eq_none_iff.2 (highest_eq_none_iff.1 hfirst)
  | some line =>
    obtain ⟨hmem, hle⟩ := highest_eq_some_iff.1 hfirst
    exact h.acknowledge_first hmem hle

/-! ### Ending -/

/-- The command that ends the highest interrupt in service. -/
def endOfInterrupt : UInt8 := 0x20

/-- A line is ended at each controller it came through. -/
def finish (line : Line) (p : Pair) : Pair :=
  match line with
  | .master _ _ => p.out endOfInterrupt .masterCommand
  | .slave _ => (p.out endOfInterrupt .slaveCommand).out endOfInterrupt .masterCommand

/-- Without the request that was acknowledged and ended the pair is as it was. -/
theorem Ready.finish_start (h : p.Ready) (line : Line) :
    ((p.start line).finish line).Ready ∧ ((p.start line).finish line).requests = p.requests.erase line := by
  have hcommand : ∀ c : Chip, c.command endOfInterrupt = c.endHighest := fun _ => rfl
  cases line with
  | master n free =>
    have hend := h.master.endHighest_start h.masterIdle n
    simp only [finish, start, out, hcommand, hend]
    refine ⟨⟨⟨h.master.expects, h.master.autoEoi, h.master.mask⟩, h.slave, h.linked, h.masterIdle, h.slaveIdle⟩, ?_⟩
    ext other
    cases other <;> simp
  | slave n =>
    have hmaster := h.master.endHighest_start h.masterIdle 2
    have hslave := h.slave.endHighest_start h.slaveIdle n
    simp only [finish, start, out, hcommand, hmaster, hslave]
    refine ⟨⟨⟨h.master.expects, h.master.autoEoi, h.master.mask⟩, ⟨h.slave.expects, h.slave.autoEoi, h.slave.mask⟩,
      h.linked, h.masterIdle, h.slaveIdle⟩, ?_⟩
    ext other
    cases other <;> simp [*]

/-- The controllers keep their vectors. -/
theorem vector_raise (line other : Line) : (p.raise line).vector other = p.vector other := by
  cases line <;> cases other <;> rfl

theorem Ready.vector_finish_start (h : p.Ready) (line other : Line) :
    ((p.start line).finish line).vector other = p.vector other := by
  have hcommand : ∀ c : Chip, c.command endOfInterrupt = c.endHighest := fun _ => rfl
  cases line with
  | master n free =>
    simp only [finish, start, out, hcommand, h.master.endHighest_start h.masterIdle n]
    cases other <;> rfl
  | slave n =>
    simp only [finish, start, out, hcommand, h.master.endHighest_start h.masterIdle 2,
      h.slave.endHighest_start h.slaveIdle n]
    cases other <;> rfl

end Pair

end Pic
