/-
What serial_write reads, waits for and sends, for every length: right for all but 0, from which it
subtracts 1.
-/
import HavenOS.Serial.Log

namespace HavenOS

theorem Polls.load_notMem {com : UInt16} {ps : List SerialEvent} (h : Polls com ps) (k : Nat) :
    SerialEvent.load k ∉ ps := by
  induction h with
  | ready => exact List.not_mem_cons_of_ne_of_not_mem (by rintro ⟨⟩) List.not_mem_nil
  | busy _ _ ih => exact List.not_mem_cons_of_ne_of_not_mem (by rintro ⟨⟩) ih

/-- What is read are the elements that are sent. -/
theorem Transmits.load_mem_iff {com : UInt16} {c : List UInt8} {i n : Nat} {es : List SerialEvent}
    (h : Transmits com c i n es) (k : Nat) : SerialEvent.load k ∈ es ↔ i ≤ k ∧ k < i + n := by
  induction h with
  | done i =>
    have hnone : ¬ (i ≤ k ∧ k < i + 0) := fun ⟨hle, hlt⟩ => Nat.not_lt_of_le hle hlt
    exact ⟨fun hmem => absurd hmem List.not_mem_nil, fun h => absurd h hnone⟩
  | @byte i n ps es polls _ ih =>
    rw [List.mem_append, List.mem_cons, List.mem_cons, ih, SerialEvent.load.injEq]
    have hpolls := polls.load_notMem k
    have hsend : SerialEvent.load k ≠ .outb (serialDataPort com) (c.getD i 0) := by rintro ⟨⟩
    simp only [hpolls, hsend, false_or]
    omega

/-- `serial_write` ends and reads no element from `length` on. With the port open it sends all
elements before the last, in order and each after a line status that reports an empty FIFO, and with
the port closed nothing. -/
def WritesInBound (device : Device) (com : UInt16) (c : List UInt8) (length : UInt32) (s : Serial) : Prop :=
  ∃ s' es, Settles (serialWrite device com c length · s) s' ∧ Did es s s' ∧ (∀ i, .load i ∈ es → i < length.toNat) ∧
    if s.serialOpen ≠ 0 then Transmits com c 0 (length.toNat - 1) es else es = []

section
variable {device : Device} {com : UInt16} (c : List UInt8) {s : Serial}

theorem writesInBound_closed (length : UInt32) (hclosed : s.serialOpen = 0) : WritesInBound device com c length s := by
  refine ⟨s, [], ⟨0, fun fuel _ => ?_⟩, .nil s, fun i hi => absurd hi List.not_mem_nil, ?_⟩
  · exact if_neg (not_not_intro hclosed)
  · rw [if_neg (not_not_intro hclosed)]

variable (hready : EventuallyReady device com)
include hready

theorem writesInBound_pos {length : UInt32} (hlength : length ≠ 0) : WritesInBound device com c length s := by
  by_cases hopen : s.serialOpen ≠ 0
  · obtain ⟨s', es, hwrite, hdid, htransmits⟩ := serialWrite_transmits hready c length hopen
    have hpos : length.toNat ≠ 0 := fun h => hlength (UInt32.toNat_inj.1 h)
    have hcount : (length - 1).toNat = length.toNat - 1 := by
      have hlt := length.toNat_lt
      rw [UInt32.toNat_sub, UInt32.toNat_one]
      omega
    rw [hcount] at htransmits
    refine ⟨s', es, hwrite, hdid, fun i hi => ?_, by rwa [if_pos hopen]⟩
    have hi := (htransmits.load_mem_iff i).1 hi
    omega
  · exact writesInBound_closed c length (not_not.1 hopen)

/-- A length of 0 asks for 4294967295 elements. -/
theorem not_writesInBound_zero (hopen : s.serialOpen ≠ 0) : ¬ WritesInBound device com c 0 s := by
  rintro ⟨s1, es1, hwrite1, hdid1, hbound, -⟩
  obtain ⟨s2, es2, hwrite2, hdid2, htransmits⟩ := serialWrite_transmits hready c 0 hopen
  obtain rfl := hwrite1.unique hwrite2
  obtain rfl := hdid1.unique hdid2
  exact absurd (hbound 0 ((htransmits.load_mem_iff 0).2 ⟨Nat.le_refl 0, by decide⟩)) (Nat.not_lt_zero 0)

/-- `serial_write` keeps to its bound for every length but 0, and for that one when the port is
closed. -/
theorem serialWrite_inBound_iff (length : UInt32) :
    WritesInBound device com c length s ↔ length ≠ 0 ∨ s.serialOpen = 0 := by
  refine ⟨fun h => ?_, fun h => h.elim (writesInBound_pos c hready) (writesInBound_closed c length)⟩
  by_contra hnot
  obtain ⟨hlength, hopen⟩ := not_or.1 hnot
  obtain rfl := not_not.1 hlength
  exact not_writesInBound_zero c hready hopen h

end

theorem serialWrite_inBound_three :
    WritesInBound slowUart serialCom1Base (ascii "OK" ++ [0]) 3 (serialStart .powerOn) :=
  (serialWrite_inBound_iff (ascii "OK" ++ [0]) (slowUart_ready serialCom1Base) 3).2 (.inl (by decide))

/-- An empty buffer. -/
theorem serialWrite_empty : ¬ WritesInBound slowUart serialCom1Base [] 0 (serialStart .powerOn) :=
  not_writesInBound_zero [] (slowUart_ready serialCom1Base) (by decide)

end HavenOS
