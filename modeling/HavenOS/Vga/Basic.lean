/-
vga.c: the frame buffer and the cursor. The frame buffer is the memory from 0xB8000 on, indexed
like `fb[i]` (a 32-bit index), so cells beyond the 80x25 screen are there too. `Vga` adds the
cursor and the bytes sent to the CRT controller.
-/
import HavenOS.Cstring.Basic
import Mathlib.Algebra.Group.Int.Defs
import Mathlib.Algebra.Group.Nat.Defs
import Mathlib.Logic.Function.Iterate

namespace HavenOS

def fbNumColumns : Nat := 80
def fbNumRows : Nat := 25

@[simp] theorem fbNumColumns_eq : fbNumColumns = 80 := rfl
@[simp] theorem fbNumRows_eq : fbNumRows = 25 := rfl

def fbCommandPort : UInt16 := 0x3D4
def fbDataPort : UInt16 := 0x3D5
def fbHighByteCommand : UInt8 := 14
def fbLowByteCommand : UInt8 := 15

/-- The bytes `fb[i]`, with the history of the stores through `fb`. -/
abbrev FrameBuffer := Store Nat UInt8

/-- What vga.c acts on: `fb`, `cursor_pos` and the bytes sent by `outb`, latest first. -/
structure Vga where
  fb : FrameBuffer
  cursorPos : Int16
  ports : List (UInt16 × UInt8)

/-- The console before anything ran: `short cursor_pos = 0` and a memory of zeros. -/
def Vga.powerOn : Vga := ⟨.fresh fun _ => 0, 0, []⟩

/-- An `int` (or a promoted `short`) passed as an `unsigned int`. -/
def toUnsigned (x : Int) : Nat := (x % 2 ^ 32).toNat

/-! ## Cells -/

/-- `((fg & 0x0F) << 4) | (bg & 0x0F)`. -/
def colorByte (fg bg : UInt8) : UInt8 := ((fg &&& 0x0F) <<< 4) ||| (bg &&& 0x0F)

def fbWriteCell (i : Nat) (c fg bg : UInt8) (fb : FrameBuffer) : FrameBuffer :=
  let i := i * 2 % 2 ^ 32
  (fb.set i c).set (i + 1) (colorByte fg bg)

/-- The loop of `fb_write_lstr` with `length - j` rounds left. -/
def writeLstrLoop (fg bg : UInt8) : Nat → Nat → List UInt8 → FrameBuffer → FrameBuffer
  | 0, _, _, fb => fb
  | n + 1, i, str, fb => writeLstrLoop fg bg n (i + 1) str.tail (fbWriteCell i (str.headD 0) fg bg fb)

def fbWriteLstr (i : Nat) (str : List UInt8) (length : Int) (fg bg : UInt8) (fb : FrameBuffer) : FrameBuffer :=
  writeLstrLoop fg bg length.toNat i str fb

def fbGetRow (i : Int) : Int := i.tdiv fbNumColumns

def fbRowColumnToIndex (column row : Nat) : UInt16 := UInt16.ofNat (row * fbNumColumns + column)

/-- The loop of `fb_clear_row` with `n` columns left, from cell `i` on. -/
def clearRowLoop (fg bg : UInt8) : Nat → Nat → FrameBuffer → FrameBuffer
  | 0, _, fb => fb
  | n + 1, i, fb => clearRowLoop fg bg n (i + 1) (fbWriteCell i 32 fg bg fb)

def fbClearRow (r : Nat) (fg bg : UInt8) (fb : FrameBuffer) : FrameBuffer :=
  clearRowLoop fg bg fbNumColumns (fbNumColumns * r) fb

def fbClear (fg bg : UInt8) (fb : FrameBuffer) : FrameBuffer :=
  (List.range fbNumRows).foldl (fun fb row => fbClearRow row fg bg fb) fb

/-! ## Rows -/

/-- The loop of `fb_copy_row` with `n` rounds left. The attribute is taken and stored after both
indices have moved on. -/
def copyRowLoop : Nat → Nat → Nat → FrameBuffer → FrameBuffer
  | 0, _, _, fb => fb
  | n + 1, rowIn, rowOut, fb =>
    let fb := fb.set (rowOut * 2) (fb.val (rowIn * 2))
    let fb := fb.set ((rowOut + 1) * 2 + 1) (fb.val ((rowIn + 1) * 2 + 1))
    copyRowLoop n (rowIn + 1) (rowOut + 1) fb

def fbCopyRow («from» «to» : Int) (fb : FrameBuffer) : FrameBuffer :=
  -- the rows are 0 to 24, yet row 25 passes
  if «from» < 0 ∨ «from» > fbNumRows ∨ «to» < 0 ∨ «to» > fbNumRows then fb
  else
    copyRowLoop (fbNumColumns + 1) (fbRowColumnToIndex 0 (toUnsigned «from»)).toNat
      (fbRowColumnToIndex 0 (toUnsigned «to»)).toNat fb

/-- The loop of `fb_shift_down` with `n` rows left, from `row` down. -/
def shiftDownLoop : Nat → Int → FrameBuffer → FrameBuffer
  | 0, _, fb => fb
  | n + 1, row, fb => shiftDownLoop n (row - 1) (fbCopyRow row (row + 1) fb)

def fbShiftDown («from» : Int) (fb : FrameBuffer) : FrameBuffer :=
  shiftDownLoop (fbNumRows - «from» + 1).toNat fbNumRows fb

/-- The loop of `fb_scroll` with `n` rows left, from `row` on. -/
def scrollRows : Nat → Nat → FrameBuffer → FrameBuffer
  | 0, _, fb => fb
  | n + 1, row, fb => scrollRows n (row + 1) (fbCopyRow row (row - 1) fb)

def fbScroll (fb : FrameBuffer) : FrameBuffer :=
  let fb := scrollRows (fbNumRows - 1) 1 fb
  -- the attribute of the last cell, as both colours of the new row
  let color := fb.val (fbNumColumns * fbNumRows * 2 - 1)
  fbClearRow (fbNumRows - 1) color color fb

/-! ## The cursor -/

def Vga.outb (v : Vga) (port : UInt16) (data : UInt8) : Vga := { v with ports := (port, data) :: v.ports }

/-- The four `outb` calls that end every function moving the cursor. -/
def outCursor (v : Vga) : Vga :=
  let high := ((v.cursorPos >>> 8) &&& 0x00FF).toUInt16.toUInt8
  let low := (v.cursorPos &&& 0x00FF).toUInt16.toUInt8
  (((v.outb fbCommandPort fbHighByteCommand).outb fbDataPort high).outb fbCommandPort fbLowByteCommand).outb
    fbDataPort low

def fbMoveCursor (pos : UInt16) (v : Vga) : Vga := outCursor { v with cursorPos := pos.toInt16 }

def fbMoveCursorColRow (posX posY : UInt16) (v : Vga) : Vga :=
  outCursor { v with cursorPos := (fbRowColumnToIndex posX.toNat posY.toNat).toInt16 }

def fbGetCurrentRow (v : Vga) : Int := fbGetRow v.cursorPos.toInt

def fbMoveCursorToStartOfRow (v : Vga) : Vga :=
  fbMoveCursorColRow 0 (UInt16.ofInt (fbGetCurrentRow v)) v

/-- `while(cursor_pos > FB_NUM_COLUMNS * FB_NUM_ROWS)`, with at most `rounds` rounds. -/
def scrollLoop : Nat → Vga → Vga
  | 0, v => v
  | rounds + 1, v =>
    -- the first cell beyond the screen, 2000, does not scroll
    if v.cursorPos.toInt > fbNumColumns * fbNumRows then
      scrollLoop rounds { v with cursorPos := v.cursorPos - 80, fb := fbScroll v.fb }
    else v

/-- `while(cursor_pos < 0)`, with at most `rounds` rounds. -/
def shiftLoop : Nat → Vga → Vga
  | 0, v => v
  | rounds + 1, v =>
    if v.cursorPos.toInt < 0 then
      shiftLoop rounds { v with cursorPos := v.cursorPos + 80, fb := fbShiftDown fbNumRows v.fb }
    else v

/-- A `short` is less than 410 rows of 80 away from the screen, so 410 rounds end both loops. -/
def fbOffsetCursor (offset : Int) (v : Vga) : Vga :=
  let cursorPos :=
    if offset > 0 then (· + 1)^[offset.toNat] v.cursorPos
    else (· - 1)^[(-offset).toNat] v.cursorPos
  outCursor (shiftLoop 410 (scrollLoop 410 { v with cursorPos := cursorPos }))

/-! ## Printing at the cursor -/

def fbPrintCell (c fg bg : UInt8) (v : Vga) : Vga :=
  fbOffsetCursor 1 { v with fb := fbWriteCell (toUnsigned v.cursorPos.toInt) c fg bg v.fb }

def fbPrintLstr (str : List UInt8) (length : Int) (fg bg : UInt8) (v : Vga) : Vga :=
  fbOffsetCursor length { v with fb := fbWriteLstr (toUnsigned v.cursorPos.toInt) str length fg bg v.fb }

def fbPrintStr (str : List UInt8) (fg bg : UInt8) (v : Vga) : Vga :=
  fbOffsetCursor (strlen str)
    { v with fb := fbWriteLstr (toUnsigned v.cursorPos.toInt) str (strlen str) fg bg v.fb }

/-! ## What the screen shows -/

/-- The character of a cell. -/
def FrameBuffer.chr (fb : FrameBuffer) (c : Nat) : UInt8 := fb.val (2 * c)

/-- The attribute byte of a cell. -/
def FrameBuffer.attr (fb : FrameBuffer) (c : Nat) : UInt8 := fb.val (2 * c + 1)

end HavenOS
