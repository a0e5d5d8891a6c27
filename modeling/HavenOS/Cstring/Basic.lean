/-
string.c: the C string functions the console uses. A `char *` that is only read is the list of
the bytes from the pointer to the end of its object, with a NUL after the last one; an array that
is written is a `Store`.
-/
import HavenOS.Lib.Store
import Mathlib.Data.List.TakeWhile

namespace HavenOS

/-- The bytes of an ASCII literal. -/
def ascii (s : String) : List UInt8 := s.toList.map Char.toUInt8

/-- The characters of a C string: the bytes before the first NUL. -/
def cstr (str : List UInt8) : List UInt8 := str.takeWhile (· ≠ 0)

/-! ## Length, slices and comparison -/

def strlen : List UInt8 → Nat
  | [] => 0
  | c :: str => if c = 0 then 0 else strlen str + 1

/-- The loop of `strslice` from `str[i]`, `out[j]`, with at most `n` rounds before `i > to`. -/
def strsliceLoop (str : List UInt8) : Nat → Nat → Nat → Store Nat UInt8 → Store Nat UInt8
  | 0, _, j, out => out.set j 0
  | n + 1, i, j, out =>
    if str.getD i 0 = 0 then out.set j 0
    else strsliceLoop str n (i + 1) (j + 1) (out.set j (str.getD i 0))

def strslice (str : List UInt8) («from» «to» : Nat) (out : Store Nat UInt8) : Store Nat UInt8 :=
  strsliceLoop str («to» + 1 - «from») «from» 0 out

/-- Why the loop of `strcmp` exited: `failed` when just one string has ended. -/
def strcmpExit (c1 c2 : UInt8) : Int :=
  if (c1 = 0 ∧ c2 ≠ 0) ∨ (c1 ≠ 0 ∧ c2 = 0) then 1 else 0

def strcmp : List UInt8 → List UInt8 → Int
  | [], str2 => strcmpExit 0 (str2.headD 0)
  | c1 :: str1, str2 =>
    let c2 := str2.headD 0
    if c1 ≠ 0 ∧ c2 ≠ 0 then
      if c1 ≠ c2 then 1 else strcmp str1 str2.tail
    else strcmpExit c1 c2

/-! ## Numbers -/

/-- The loop of `strreverse`: at most `length` swaps before `start` and `end` meet. -/
def strreverseLoop : Nat → Nat → Nat → Store Nat UInt8 → Store Nat UInt8
  | 0, _, _, str => str
  | n + 1, start, «end», str =>
    if start < «end» then
      let temp := str.val start
      strreverseLoop n (start + 1) («end» - 1) ((str.set start (str.val «end»)).set «end» temp)
    else str

def strreverse (str : Store Nat UInt8) (length : Nat) : Store Nat UInt8 :=
  strreverseLoop length 0 (length - 1) str

def hexChars : List UInt8 := ascii "0123456789ABCDEF"

/-- The loop of `int_to_hex` over the nibbles `i - 1, …, 0`, writing from `hexString[p]` on. -/
def intToHexLoop (uValue : UInt32) : Nat → Nat → Store Nat UInt8 → Store Nat UInt8
  | 0, p, hexString => hexString.set p 0
  | i + 1, p, hexString =>
    let nibble := (uValue >>> (4 * i).toUInt32) &&& 0xF
    intToHexLoop uValue i (p + 1) (hexString.set p (hexChars.getD nibble.toNat 0))

def intToHex (value : Int32) (hexString : Store Nat UInt8) : Store Nat UInt8 :=
  intToHexLoop value.toUInt32 8 0 hexString

/-- The digit loop of `int_to_str`: the next index and the buffer. A 32-bit number has at most
ten digits, so ten rounds always reach `num == 0`. -/
def digitLoop : Nat → Int32 → Nat → Store Nat UInt8 → Nat × Store Nat UInt8
  | 0, _, i, buffer => (i, buffer)
  | rounds + 1, num, i, buffer =>
    let buffer := buffer.set i (num % 10 + 48).toUInt32.toUInt8
    if num / 10 ≠ 0 then digitLoop rounds (num / 10) (i + 1) buffer else (i + 1, buffer)

def intToStr (num : Int32) (buffer : Store Nat UInt8) : Store Nat UInt8 :=
  let isNegative : Bool := num < 0
  let num := if isNegative then -num else num
  let (i, buffer) := digitLoop 10 num 0 buffer
  let (i, buffer) := if isNegative then (i + 1, buffer.set i 45) else (i, buffer)
  strreverse (buffer.set i 0) i

/-! ## Laws -/

theorem strlen_eq_length (str : List UInt8) : strlen str = (cstr str).length := by
  induction str with
  | nil => rfl
  | cons c str ih =>
    unfold strlen cstr
    by_cases hc : c = 0
    · simp [hc]
    · simp [hc, ih, cstr]

theorem cstr_of_notMem {s : List UInt8} (h : 0 ∉ s) : cstr s = s := by
  rw [cstr, List.takeWhile_eq_self_iff]
  intro c hc
  simpa using fun e : c = 0 => h (e ▸ hc)

theorem strlen_of_notMem {s : List UInt8} (h : 0 ∉ s) : strlen s = s.length := by
  rw [strlen_eq_length, cstr_of_notMem h]

end HavenOS
