/-
keyboard.c: a scancode byte from the controller to its effect on the console, the modifiers and
the page directory. Plain `char` is signed, so a release code is negative as a `scancode` and
positive in the `unsigned char` fields of the event. Fields no code reads (the key pad, the lock
keys, `sidedness`, `repeating`) are left out.
-/
import HavenOS.Paging.Basic

namespace HavenOS

def kbdRelease : Int := 0x80

/-- The fields of `keyboard_event` that are read. -/
structure KeyboardEvent where
  released : UInt8
  scancode : UInt8
  rscancode : UInt8
  isShift : Bool
  isCtrl : Bool
  isAlt : Bool
  isReturn : Bool
  isTab : Bool
  isMinus : Bool
  isEquals : Bool
  isOpenBrace : Bool
  isCloseBrace : Bool
  isComma : Bool
  isPeriod : Bool
  isForwardslash : Bool
  isColon : Bool
  isQuote : Bool
  isPipe : Bool
  isBacktick : Bool
  isArrowLeft : Bool
  isArrowUp : Bool
  isArrowDown : Bool
  isArrowRight : Bool
  isNumeric : Bool
  isDelete : Bool
  isBackspace : Bool
  isEscape : Bool
  isSpace : Bool
deriving DecidableEq, Repr

/-- The console and the paging, with the modifier flags. -/
structure Kernel extends Machine where
  kbShift : UInt8
  kbCtrl : UInt8
  kbAlt : UInt8

/-- `KB_SHIFT`, `KB_CTRL` and `KB_ALT` as they are initialised. -/
def Kernel.start (m : Machine) : Kernel := { m with kbShift := 0, kbCtrl := 0, kbAlt := 0 }

def Kernel.onVga (s : Kernel) (f : Vga → Vga) : Kernel := { s with vga := f s.vga }

section
variable (s : Kernel) (f : Vga → Vga)

@[simp] theorem Kernel.onVga_vga : (s.onVga f).vga = f s.vga := rfl
@[simp] theorem Kernel.onVga_directories : (s.onVga f).directories = s.directories := rfl
@[simp] theorem Kernel.onVga_kbShift : (s.onVga f).kbShift = s.kbShift := rfl
@[simp] theorem Kernel.onVga_kbCtrl : (s.onVga f).kbCtrl = s.kbCtrl := rfl
@[simp] theorem Kernel.onVga_kbAlt : (s.onVga f).kbAlt = s.kbAlt := rfl

end

/-! ## Reading a scancode -/

/-- `scancode == code || scancode == (code + KBD_RELEASE)`, compared as `int`. -/
def isCode (scancode : Int8) (code : Int) : Bool :=
  scancode.toInt = code || scancode.toInt = code + kbdRelease

def getNumeric (scancode : Int8) : Int8 :=
  ([(0x02, 1), (0x03, 2), (0x04, 3), (0x05, 4), (0x06, 5), (0x07, 6), (0x08, 7), (0x09, 8), (0x0A, 9),
    (0x0B, 0)] : List (Int8 × Int8)).lookup scancode |>.getD (-1)

/-- `data` is the byte `inb` reads from the keyboard's data port. -/
def readScanCode (data : UInt8) : KeyboardEvent :=
  -- a plain `char`, so the release codes it is compared with are never met
  let scancode := data.toInt8
  let k : KeyboardEvent := {
    released := data &&& 0x80
    scancode := data
    rscancode := 0
    isShift := false
    isCtrl := scancode.toInt = 0x1D || scancode.toInt = 0x9D
    isAlt := scancode.toInt = 0x38 || scancode.toInt = 0xB8
    isReturn := isCode scancode 0x1C
    isTab := false
    isMinus := isCode scancode 0x0C
    isEquals := isCode scancode 0x0D
    isOpenBrace := isCode scancode 0x1A
    isCloseBrace := isCode scancode 0x1B
    isComma := isCode scancode 0x33
    isPeriod := isCode scancode 0x34
    isForwardslash := isCode scancode 0x35
    isColon := isCode scancode 0x27
    isQuote := isCode scancode 0x28
    isPipe := isCode scancode 0x2B
    isBacktick := isCode scancode 0x29
    isArrowLeft := isCode scancode 0x4B
    isArrowUp := isCode scancode 0x48
    isArrowDown := isCode scancode 0x50
    isArrowRight := isCode scancode 0x4D
    isNumeric := false
    isDelete := isCode scancode 0x53
    isBackspace := isCode scancode 0x0E
    isEscape := isCode scancode 0x01
    isSpace := isCode scancode 0x39 }
  let k :=
    if k.released ≠ 0 then { k with rscancode := UInt8.ofInt (scancode.toInt - 0x80) }
    else { k with rscancode := data }
  -- the release of Tab is 0x8F
  let k := if k.scancode = 0x0F ∨ k.scancode = 0x80 then { k with isTab := true, rscancode := 0x0F } else k
  let k := { k with isNumeric := getNumeric k.rscancode.toInt8 > -1 }
  { k with isShift := k.rscancode = 0x2A || k.rscancode = 0x36 }

/-! ## The character of a key -/

/-- A `switch` that returns a character for each listed code. -/
def caseChar (cases : List (Int8 × Char)) (dflt : Char) (code : Int8) : UInt8 :=
  ((cases.lookup code).getD dflt).toUInt8

def scancodeToChar (shifted : Bool) (scancode : Int8) : UInt8 :=
  if shifted then
    caseChar [(0x10, 'Q'), (0x11, 'W'), (0x12, 'E'), (0x13, 'R'), (0x14, 'T'), (0x15, 'Y'), (0x16, 'U'),
      (0x17, 'I'), (0x18, 'O'), (0x19, 'P'), (0x1E, 'A'), (0x1F, 'S'), (0x20, 'D'), (0x21, 'F'), (0x22, 'G'),
      (0x23, 'H'), (0x24, 'J'), (0x25, 'K'), (0x26, 'L'), (0x2C, 'Z'), (0x2D, 'X'), (0x2E, 'C'), (0x2F, 'V'),
      (0x30, 'B'), (0x31, 'N'), (0x32, 'M')] '\x00' scancode
  else
    caseChar [(0x10, 'q'), (0x11, 'w'), (0x12, 'e'), (0x13, 'r'), (0x14, 't'), (0x15, 'y'), (0x16, 'u'),
      (0x17, 'i'), (0x18, 'o'), (0x19, 'p'), (0x1E, 'a'), (0x1F, 's'), (0x20, 'd'), (0x21, 'f'), (0x22, 'g'),
      (0x23, 'h'), (0x24, 'j'), (0x25, 'k'), (0x26, 'l'), (0x2C, 'z'), (0x2D, 'x'), (0x2E, 'c'), (0x2F, 'v'),
      (0x30, 'b'), (0x31, 'n'), (0x32, 'm')] '\x00' scancode

/-- The number row; the codes are compared as `int`, `rscancode` being unsigned. -/
def numericChar (shifted : Bool) (rscancode : UInt8) : UInt8 :=
  if shifted then
    caseChar [(0x02, '!'), (0x03, '@'), (0x04, '#'), (0x05, '$'), (0x06, '%'), (0x07, '^'), (0x08, '&'),
      (0x09, '*'), (0x0A, '('), (0x0B, ')')] '-' rscancode.toInt8
  else
    caseChar [(0x02, '1'), (0x03, '2'), (0x04, '3'), (0x05, '4'), (0x06, '5'), (0x07, '6'), (0x08, '7'),
      (0x09, '8'), (0x0A, '9'), (0x0B, '0')] '=' rscancode.toInt8

/-- `compute_key` once it is past the modifiers; `shifted` is whether `KB_SHIFT` is nonzero. -/
def keyChar (k : KeyboardEvent) (shifted : Bool) : UInt8 :=
  let either := fun up down : Char => (if shifted then up else down).toUInt8
  if k.isNumeric then numericChar shifted k.rscancode
  else if k.isMinus then either '_' '-'
  else if k.isEquals then either '+' '='
  else if k.isForwardslash then either '?' '/'
  else if k.isOpenBrace then either '\x7b' '['
  else if k.isCloseBrace then either '\x7d' ']'
  else if k.isComma then either '<' ','
  else if k.isPeriod then either '>' '.'
  else if k.isColon then either ':' ';'
  else if k.isQuote then either '?' '/'
  else if k.isPipe then either '|' '\\'
  else if k.isBacktick then either '~' '\x60'
  else if k.isSpace then 32
  else if k.isEscape then 0
  else if k.isBackspace then 0
  else if k.isReturn then 0
  else if k.isTab then 0
  else if k.isDelete then 0
  else if k.isArrowLeft then 0
  else if k.isArrowRight then 0
  else if k.isArrowUp then 0
  else if k.isArrowDown then 0
  else scancodeToChar shifted k.rscancode.toInt8

def computeKey (k : KeyboardEvent) (s : Kernel) : UInt8 × Kernel :=
  let indicator := fun c v => { v with fb := fbWriteCell 1 c 0 15 v.fb }
  if k.isShift then
    if k.scancode = 0xAA ∨ k.scancode = 0xB6 then (0, { s.onVga (indicator 115) with kbShift := 0 })
    else (0, { s.onVga (indicator 83) with kbShift := 1 })
  else if k.isCtrl then (0, { s with kbCtrl := if k.released = 0 then 1 else 0 })
  else if k.isAlt then (0, { s with kbAlt := if k.released = 0 then 1 else 0 })
  else (keyChar k (s.kbShift ≠ 0), s)

/-! ## The special keys -/

def onBackspace (v : Vga) : Vga := fbOffsetCursor (-1) (fbPrintCell 32 0 15 (fbOffsetCursor (-1) v))

def onReturn (v : Vga) : Vga :=
  let v := fbOffsetCursor fbNumColumns v
  let v := { v with fb := fbShiftDown (fbGetCurrentRow v) v.fb }
  fbMoveCursorToStartOfRow v

def onTab (v : Vga) : Vga := fbPrintStr (ascii "    ") 0 15 v

def onDelete (v : Vga) : Vga := fbPrintCell 32 0 15 (fbOffsetCursor (-1) v)

def onEscape (s : Kernel) : Option Kernel := do
  let m ← switchPageDirectoryI 1 s.toMachine
  some { s with toMachine := m }

/-- `data` is the byte the handler reads from the keyboard. -/
def keyboardCallback (data : UInt8) (s : Kernel) : Option Kernel :=
  let k := readScanCode data
  let (ch, s) := computeKey k s
  if ch = 0 then
    if k.isBackspace then some (s.onVga onBackspace)
    else if k.isReturn then some (s.onVga onReturn)
    else if k.isTab then some (s.onVga onTab)
    else if k.isDelete then some (s.onVga onDelete)
    else if k.isArrowLeft then some (s.onVga (fbOffsetCursor (-1)))
    else if k.isArrowRight then some (s.onVga (fbOffsetCursor 1))
    else if k.isArrowUp then some (s.onVga (fbOffsetCursor (-80)))
    else if k.isArrowDown then some (s.onVga (fbOffsetCursor 80))
    else if k.isEscape then onEscape s
    else some s
  -- only here, past the special keys, is a release told from a press
  else if k.released ≠ 0 then some s
  else some (s.onVga (fbPrintCell ch 0 15))

/-- The handler on every byte of a run. -/
def keyboardRun : List UInt8 → Kernel → Option Kernel := Run.run keyboardCallback

end HavenOS
