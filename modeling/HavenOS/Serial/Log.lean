/-
log.c: the three debug loggers, and what each of them sends to COM1.
-/
import HavenOS.Serial.Basic
import HavenOS.Cstring.Number

namespace HavenOS

/-- A C string: characters before a NUL, in a 32-bit address space. -/
structure CString where
  chars : List UInt8
  noNul : 0 ∉ chars
  fits : chars.length < 2 ^ 32

/-- The bytes from the string's pointer on, with `beyond` the memory after its NUL. -/
def CString.bytes (s : CString) (beyond : List UInt8) : List UInt8 := s.chars ++ 0 :: beyond

theorem strlen_bytes (s : CString) (beyond : List UInt8) : strlen (s.bytes beyond) = s.chars.length := by
  rw [strlen_eq_length, CString.bytes, cstr_append_nul s.noNul]

/-! ## The loggers -/

/-- `_debug`, of nine elements with its NUL. -/
def debugTag : List UInt8 := ascii "[DEBUG] " ++ [0]

def charNewLine : List UInt8 := [10]

section
variable (device : Device)

def printDebug (str : List UInt8) (length : UInt32) (fuel : Nat) (s : Serial) : Option Serial := do
  let s ← serialWrite device serialCom1Base debugTag 9 fuel s
  let s ← serialWrite device serialCom1Base str (length + 1) fuel s
  serialWrite device serialCom1Base charNewLine (1 + 1) fuel s

def printDebugStr (str : List UInt8) (fuel : Nat) (s : Serial) : Option Serial := do
  let s ← serialWrite device serialCom1Base debugTag 9 fuel s
  let s ← serialWrite device serialCom1Base str (UInt32.ofNat (strlen str) + 1) fuel s
  serialWrite device serialCom1Base charNewLine (1 + 1) fuel s

/-- `int_to_str` fills its buffer before it is read, so what is on the stack before does not show. -/
def printDebugDec (i : Int32) (fuel : Nat) (s : Serial) : Option Serial := do
  let s ← serialWrite device serialCom1Base debugTag 9 fuel s
  let buffer := (intToStr i (.fresh fun _ => 0)).read 12
  -- one less than in `print_debug_str`
  let s ← serialWrite device serialCom1Base buffer (UInt32.ofNat (strlen buffer)) fuel s
  serialWrite device serialCom1Base charNewLine (1 + 1) fuel s

end

/-! ## What they send -/

/-- `f` ends, and has sent `text` to the data port of COM1 after what was sent before. -/
def Sends (f : Nat → Serial → Option Serial) (s : Serial) (text : List UInt8) : Prop :=
  ∃ s', Settles (f · s) s' ∧ s'.sent (serialDataPort serialCom1Base) = s.sent (serialDataPort serialCom1Base) ++ text

theorem Sends.unique {f : Nat → Serial → Option Serial} {s : Serial} {text text' : List UInt8} (h : Sends f s text)
    (h' : Sends f s text') : text = text' := by
  obtain ⟨s1, hf, hsent⟩ := h
  obtain ⟨s2, hf', hsent'⟩ := h'
  obtain rfl := hf.unique hf'
  exact List.append_cancel_left (hsent.symm.trans hsent')

/-- The tag, a text and a newline. -/
def debugMessage (text : List UInt8) : List UInt8 := ascii "[DEBUG] " ++ text ++ [10]

theorem map_range_getD (c : List UInt8) {n : Nat} (h : n ≤ c.length) : (List.range n).map (c.getD · 0) = c.take n := by
  apply List.ext_getElem
  · simp [h]
  · intro i hi _
    simp only [List.length_map, List.length_range] at hi
    rw [List.getElem_map, List.getElem_range, List.getElem_take, List.getD_eq_getElem?_getD,
      List.getElem?_eq_getElem (by omega)]
    rfl

/-- The tag, `length - 1` bytes of `c`, and a newline. -/
theorem three_writes {device : Device} (hready : EventuallyReady device serialCom1Base) {s : Serial}
    (hopen : s.serialOpen ≠ 0) (c : List UInt8) (length : UInt32) (hlen : (length - 1).toNat ≤ c.length) :
    Sends (fun fuel s => do
      let s ← serialWrite device serialCom1Base debugTag 9 fuel s
      let s ← serialWrite device serialCom1Base c length fuel s
      serialWrite device serialCom1Base charNewLine (1 + 1) fuel s) s (debugMessage (c.take (length - 1).toNat)) := by
  obtain ⟨s1, hw1, hopen1, hsent1⟩ := serialWrite_settles hready debugTag 9 hopen
  obtain ⟨s2, hw2, hopen2, hsent2⟩ := serialWrite_settles hready c length hopen1
  obtain ⟨s3, hw3, -, hsent3⟩ := serialWrite_settles hready charNewLine (1 + 1) hopen2
  refine ⟨s3, hw1.bind (hw2.bind hw3), ?_⟩
  have htag : (List.range ((9 : UInt32) - 1).toNat).map (debugTag.getD · 0) = ascii "[DEBUG] " := by decide
  have hnewline : (List.range ((1 + 1 : UInt32) - 1).toNat).map (charNewLine.getD · 0) = [10] := by decide
  rw [hsent3, hsent2, hsent1, htag, hnewline, map_range_getD c hlen, debugMessage, List.append_assoc, List.append_assoc,
    List.append_assoc]

theorem toNat_ofNat_sub_one {n : Nat} (h1 : 0 < n) (h2 : n < 2 ^ 32) : (UInt32.ofNat n - 1).toNat = n - 1 := by
  rw [UInt32.toNat_sub, UInt32.toNat_ofNat', UInt32.toNat_one]
  omega

section
variable {device : Device} (hready : EventuallyReady device serialCom1Base) {s : Serial} (hopen : s.serialOpen ≠ 0)
include hready hopen

/-- The length of a string survives being counted one up and one down, even if it wraps. -/
theorem printDebug_sends (str : CString) (beyond : List UInt8) :
    Sends (printDebug device (str.bytes beyond) (UInt32.ofNat (strlen (str.bytes beyond)))) s
      (debugMessage str.chars) := by
  have hlen : (UInt32.ofNat (strlen (str.bytes beyond)) + 1 - 1).toNat = str.chars.length := by
    have hfits := str.fits
    rw [UInt32.add_sub_cancel, strlen_bytes, UInt32.toNat_ofNat']
    omega
  have hsends := three_writes hready hopen (str.bytes beyond) (UInt32.ofNat (strlen (str.bytes beyond)) + 1)
    (by rw [hlen, CString.bytes, List.length_append]; omega)
  rw [hlen, CString.bytes, List.take_left] at hsends
  exact hsends

theorem printDebugStr_sends (str : CString) (beyond : List UInt8) :
    Sends (printDebugStr device (str.bytes beyond)) s (debugMessage str.chars) :=
  printDebug_sends hready hopen str beyond

/-- The text of a number is sent without its last character. -/
theorem printDebugDec_sends (i : Int32) : Sends (printDebugDec device i) s (debugMessage (decText i).dropLast) := by
  have hcstr := cstr_intToStr (n := 12) le_rfl i (.fresh fun _ => 0)
  have htext := decText_eq i
  have hpos : 0 < (decText i).length := List.length_pos_iff.2 (decText_ne_nil i)
  have hle := decText_length_le i
  generalize hbuffer : (intToStr i (.fresh fun _ => 0)).read 12 = buffer at hcstr
  have hstrlen : strlen buffer = (decText i).length := by rw [strlen_eq_length, hcstr, htext]
  have hlen : (UInt32.ofNat (strlen buffer) - 1).toNat = (decText i).length - 1 := by
    rw [hstrlen, toNat_ofNat_sub_one hpos (by omega)]
  have htake : buffer.take ((decText i).length - 1) = (decText i).dropLast := by
    have hsplit : cstr buffer ++ buffer.dropWhile (· ≠ 0) = buffer := List.takeWhile_append_dropWhile
    rw [hcstr, ← htext] at hsplit
    rw [← hsplit, List.take_append_of_le_length (Nat.sub_le _ _), List.dropLast_eq_take]
  have hbytes : (decText i).length ≤ buffer.length := by
    rw [← hbuffer, Store.read_length]
    omega
  have hsends := three_writes hready hopen buffer (UInt32.ofNat (strlen buffer)) (by omega)
  rw [hlen, htake, ← hbuffer] at hsends
  exact hsends

end

/-- The text of a number as a C string. -/
def CString.ofInt (i : Int32) : CString where
  chars := decText i
  noNul := zero_notMem_decText i
  fits := Nat.lt_of_le_of_lt (decText_length_le i) (by decide)

theorem debugMessage_injective {text text' : List UInt8}
    (h : debugMessage text = debugMessage text') : text = text' := by
  unfold debugMessage at h
  rw [List.append_assoc, List.append_assoc] at h
  exact List.append_cancel_right (List.append_cancel_left h)

/-- `print_debug_dec` sends what `print_debug_str` sends for the text of the number. -/
def DecAgrees (device : Device) (i : Int32) (s : Serial) : Prop :=
  ∃ text, Sends (printDebugDec device i) s text ∧ Sends (printDebugStr device ((CString.ofInt i).bytes [])) s text

theorem not_decAgrees {device : Device} (hready : EventuallyReady device serialCom1Base) {s : Serial}
    (hopen : s.serialOpen ≠ 0) (i : Int32) : ¬ DecAgrees device i s := by
  rintro ⟨text, hdec, hstr⟩
  have hsame : debugMessage (decText i).dropLast = debugMessage (decText i) :=
    ((printDebugDec_sends hready hopen i).unique hdec).trans
      (hstr.unique (printDebugStr_sends hready hopen (CString.ofInt i) []))
  have hlength := congrArg List.length (debugMessage_injective hsame)
  have hpos := List.length_pos_iff.2 (decText_ne_nil i)
  rw [List.length_dropLast] at hlength
  omega

/-- The two loggers of strings send the same message for every string; the one of numbers sends
another one for every number, without the last character. -/
theorem loggers_agree {device : Device} (hready : EventuallyReady device serialCom1Base) {s : Serial}
    (hopen : s.serialOpen ≠ 0) :
    (∀ (str : CString) (beyond : List UInt8),
      Sends (printDebugStr device (str.bytes beyond)) s (debugMessage str.chars) ∧
      Sends (printDebug device (str.bytes beyond) (UInt32.ofNat (strlen (str.bytes beyond)))) s
        (debugMessage str.chars)) ∧
    ∀ i, Sends (printDebugDec device i) s (debugMessage (decText i).dropLast) ∧ ¬ DecAgrees device i s :=
  ⟨fun str beyond => ⟨printDebugStr_sends hready hopen str beyond, printDebug_sends hready hopen str beyond⟩,
    fun i => ⟨printDebugDec_sends hready hopen i, not_decAgrees hready hopen i⟩⟩

/-- A UART that is busy at the first reading after each byte. -/
def slowUart : Device
  | .outb _ _ :: _, _ => 0x00
  | _, _ => 0x60

theorem slowUart_ready (com : UInt16) : EventuallyReady slowUart com := by
  have hempty : (0x60 &&& 0x20 : UInt8) ≠ 0 := by decide
  rintro ⟨serialOpen, events⟩
  cases events with
  | nil => exact ⟨0, hempty⟩
  | cons e events => cases e with
    | outb => exact ⟨1, hempty⟩
    | inb => exact ⟨0, hempty⟩
    | load => exact ⟨0, hempty⟩

theorem loggers_agree_start : Sends (printDebugDec slowUart 42) (serialStart .powerOn) (debugMessage (ascii "4")) :=
  ((loggers_agree (slowUart_ready serialCom1Base) (s := serialStart .powerOn) (by decide)).2 42).1

theorem dec_loses_digit : ¬ DecAgrees slowUart 42 (serialStart .powerOn) :=
  not_decAgrees (slowUart_ready serialCom1Base) (by decide) 42

end HavenOS
