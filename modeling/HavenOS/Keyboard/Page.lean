/-
The console as its user sees it: a page of characters and a cursor, with the keys as an editor of it. From
any console whose cursor is on the screen, every run of scancode bytes does to the characters and the cursor
what the editor does to its page, at the edges of the screen too.
-/
import HavenOS.Keyboard.OnScreen
import HavenOS.Lib.Grid
import HavenOS.Vga.Shift

namespace HavenOS

/-! ## The page -/

abbrev Page := Grid UInt8

namespace Page

def move (offset : Int) (g : Page) : Page := Grid.move 80 2000 32 offset g

/-- A text stored from cell `start` on; the cursor stays. -/
def putAt (start : Nat) (text : List UInt8) (g : Page) : Page :=
  { g with cell := fun c => if start ≤ c then text.getD (c - start) (g.cell c) else g.cell c }

def print (text : List UInt8) (g : Page) : Page := Grid.print 80 2000 32 text g

def startOfRow (g : Page) : Page := Grid.startOfRow 80 g

/-- The rows beneath row `row` move down a row; all but the first of them have the first character of the
row above that. -/
def openLine (row : Nat) (g : Page) : Page :=
  { g with cell := fun c =>
    if c < 80 * (row + 1) then g.cell c
    else if c % 80 = 0 ∧ c ≠ 80 * (row + 1) then g.cell (c - 160)
    else g.cell (c - 80) }

/-- Enter. -/
def newline (g : Page) : Page :=
  let g := g.move 80
  (g.openLine (g.cursor / 80)).startOfRow

/-- Escape: the message of a switch to the directory at `pd`. -/
def loading (pd : UInt32) (g : Page) : Page :=
  let g := (ascii "Loading Page Directory ").foldl (fun g c => g.print [c]) g
  ((g.print (hexText pd.toInt32)).move 79).startOfRow

end Page

/-- An action on the page. -/
def KeyAction.onPage (pd : UInt32) : KeyAction → Page → Page
  | .shift held, g => g.set 1 (if held then 83 else 115)
  | .print ch, g => g.print [ch]
  | .backspace, g => Grid.erase 80 2000 32 g
  | .return, g => g.newline
  | .tab, g => g.print (ascii "    ")
  | .delete, g => (g.move (-1)).print [32]
  | .left, g => g.move (-1)
  | .right, g => g.move 1
  | .up, g => g.move (-80)
  | .down, g => g.move 80
  | .escape, g => g.loading pd
  | .nothing, g | .ctrl, g | .alt, g => g

/-- A page, and whether Shift is held. -/
structure Editor where
  page : Page
  shifted : Bool

def Editor.press (pd : UInt32) (data : UInt8) (e : Editor) : Editor :=
  let action := keyAction data e.shifted
  { page := action.onPage pd e.page
    shifted := match action with | .shift held => held | _ => e.shifted }

def Editor.run (pd : UInt32) (keys : List UInt8) (e : Editor) : Editor := keys.foldl (fun e data => e.press pd data) e

/-! ## The console and the page -/

/-- The console shows the page. -/
structure Shows (v : Vga) (g : Page) : Prop where
  cursor : v.cursorPos.toInt = g.cursor
  onPage : g.cursor ≤ 2000
  cells : ∀ c < 2000, v.fb.chr c = g.cell c

namespace Shows

variable {v : Vga} {g : Page} (h : Shows v g)
include h

/-- As long as a `short` holds the target. -/
theorem move (offset : Int) (hlow : -32768 ≤ offset) (hhigh : offset ≤ 30767) :
    Shows (fbOffsetCursor offset v) (g.move offset) := by
  have hon := h.onPage
  have htarget : offsetTarget offset v = g.cursor + offset := by
    simp only [offsetTarget, h.cursor, wrapShort]
    omega
  obtain ⟨hcursor, hfb⟩ := fbOffsetCursor_spec offset v
  rw [htarget] at hcursor hfb
  by_cases habove : (g.cursor : Int) + offset < 0
  · rw [Page.move, Grid.move_above habove]
    refine ⟨?_, ?_, fun c hc => ?_⟩
    · rw [hcursor, settle, if_pos habove]
      show _ = (((((g.cursor : Int) + offset) % (80 : Nat)).toNat : Nat) : Int)
      omega
    · show (((g.cursor : Int) + offset) % (80 : Nat)).toNat ≤ 2000
      omega
    · rw [hfb, scrollCount_screen (by omega), Function.iterate_zero, id_eq]
      exact h.cells c hc
  · obtain ⟨q, hq⟩ := Int.eq_ofNat_of_zero_le (Int.not_lt.1 habove)
    rw [hq] at hcursor hfb
    have hrows : Grid.rowsBelow 80 2000 q = scrollCount q := by
      unfold Grid.rowsBelow scrollCount
      omega
    have hback : 80 * scrollCount q ≤ q ∧ q ≤ 2000 + 80 * scrollCount q := by
      unfold scrollCount
      omega
    rw [Page.move, Grid.move_to hq, hrows]
    refine ⟨?_, ?_, fun c hc => ?_⟩
    · rw [hcursor, settle, if_neg (by omega)]
      show _ = ((q - 80 * scrollCount q : Nat) : Int)
      omega
    · show q - 80 * scrollCount q ≤ 2000
      omega
    · show _ = (Grid.scroll 80 2000 32 (scrollCount q) g).cell c
      rw [Grid.scroll_cell _ hc, hfb, chr_fbScroll_iterate _ _ _ hc, Nat.mul_comm _ 80]
      split
      · rename_i hin
        exact h.cells _ hin
      · rfl

theorem putAt (start : Nat) (text : List UInt8) (fg bg : UInt8) (hlen : start + text.length ≤ 2 ^ 31) :
    Shows { v with fb := writeLstrLoop fg bg text.length start text v.fb } (g.putAt start text) := by
  refine ⟨h.cursor, h.onPage, fun c hc => ?_⟩
  have hlast : lastOn start text.length c = c := by
    unfold lastOn
    omega
  show (writeLstrLoop fg bg text.length start text v.fb).chr c =
    if start ≤ c then text.getD (c - start) (g.cell c) else g.cell c
  rw [chr_writeLstrLoop fg bg _ _ _ _ c (by omega), hlast, h.cells c hc]
  by_cases hfrom : start ≤ c
  · rw [if_pos hfrom]
    by_cases hin : c < start + text.length
    · rw [if_pos ⟨hin, hfrom⟩, List.getD_eq_getElem _ _ (by omega), List.getD_eq_getElem _ _ (by omega)]
    · rw [if_neg (fun hboth => hin hboth.1), List.getD_eq_default _ _ (by omega)]
  · rw [if_neg (fun hboth => hfrom hboth.2), if_neg hfrom]

/-- A string is stored as a whole, beyond the screen too. -/
theorem put (text : List UInt8) (fg bg : UInt8) (hlen : text.length ≤ 30767) :
    Shows { v with fb := writeLstrLoop fg bg text.length g.cursor text v.fb } (g.put text) := by
  have hon := h.onPage
  exact h.putAt g.cursor text fg bg (by omega)

theorem printStr (text : List UInt8) (hnul : 0 ∉ text) (hlen : text.length ≤ 30767) (fg bg : UInt8) :
    Shows (fbPrintStr text fg bg v) (g.print text) := by
  have hon := h.onPage
  have hcell : toUnsigned v.cursorPos.toInt = g.cursor := by
    rw [toUnsigned_nat h.cursor]
    omega
  rw [fbPrintStr_eq text hnul, fbPrintLstr, hcell]
  exact (h.put text fg bg hlen).move text.length (by omega) (by omega)

theorem printCell (c fg bg : UInt8) : Shows (fbPrintCell c fg bg v) (g.print [c]) := by
  have hon := h.onPage
  have hcell : toUnsigned v.cursorPos.toInt = g.cursor := by
    rw [toUnsigned_nat h.cursor]
    omega
  rw [fbPrintCell, hcell]
  exact (h.put [c] fg bg (show 1 ≤ 30767 by decide)).move 1 (by decide) (by decide)

theorem set {c : Nat} (hc : c < 2000) (a fg bg : UInt8) :
    Shows { v with fb := fbWriteCell c a fg bg v.fb } (g.set c a) := by
  refine ⟨h.cursor, h.onPage, fun j hj => ?_⟩
  show (fbWriteCell c a fg bg v.fb).chr j = Function.update g.cell c a j
  rw [chr_writeCell, Nat.mod_eq_of_lt (by omega), Function.update_apply, h.cells j hj]

theorem startOfRow : Shows (fbMoveCursorToStartOfRow v) g.startOfRow := by
  have hon := h.onPage
  refine ⟨startOfRow_at hon h.cursor, ?_, h.cells⟩
  show 80 * (g.cursor / 80) ≤ 2000
  omega

/-- From row 25 on nothing is stored. -/
theorem openLine (row : Nat) : Shows { v with fb := fbShiftDown row v.fb } (g.openLine row) := by
  refine ⟨h.cursor, h.onPage, fun c hc => ?_⟩
  show (fbShiftDown row v.fb).chr c = if c < 80 * (row + 1) then g.cell c else _
  by_cases hrow : row ≤ 24
  · rw [view_fbShiftDown v.fb copies_chr hrow]
    by_cases habove : c < 80 * (row + 1)
    · rw [if_neg (by omega), if_pos habove, h.cells c hc]
    · rw [if_pos (by omega), if_neg habove, shiftSource, Nat.sub_zero, Nat.add_zero]
      split
      · exact h.cells _ (by omega)
      · exact h.cells _ (by omega)
  · have hnone : fbShiftDown row v.fb = v.fb := by
      rcases (show 25 ≤ row by omega).eq_or_lt with rfl | hbeyond
      · exact fbShiftDown_last v.fb
      · have hrounds : ((fbNumRows : Int) - row + 1).toNat = 0 := by
          rw [fbNumRows_eq]
          omega
        rw [fbShiftDown, hrounds]
        rfl
    rw [hnone, if_pos (by omega), h.cells c hc]

theorem newline : Shows (onReturn v) g.newline := by
  have hdown := h.move 80 (by decide) (by decide)
  have hopened := hdown.openLine ((g.move 80).cursor / 80)
  rw [← currentRow_at hdown.cursor] at hopened
  exact hopened.startOfRow

omit h in
theorem printCells (text : List UInt8) (fg bg : UInt8) : ∀ {v : Vga} {g : Page}, Shows v g →
    Shows (HavenOS.printCells text fg bg v) (text.foldl (fun g c => g.print [c]) g) := by
  induction text with
  | nil => exact fun h => h
  | cons c text ih => exact fun h => ih (h.printCell c fg bg)

theorem loading (pd : UInt32) : Shows (switchConsole pd v) (g.loading pd) := by
  have htext := Shows.printCells (ascii "Loading Page Directory ") 0 15 h
  have hdigits := htext.printStr (hexText pd.toInt32) (notMem_cstr _) (by rw [hexText_length]; decide) 0 15
  exact (hdigits.move 79 (by decide) (by decide)).startOfRow

end Shows

/-! ## The cursor -/

/-- The cursor is on a cell of the screen or right behind the last one. -/
structure Within (v : Vga) : Prop where
  low : 0 ≤ v.cursorPos.toInt
  high : v.cursorPos.toInt ≤ 2000

/-- Whatever it was before. -/
theorem within_offsetCursor (offset : Int) (v : Vga) : Within (fbOffsetCursor offset v) := by
  obtain ⟨hlow, hhigh⟩ := settle_bounds (offsetTarget offset v)
  rw [← fbOffsetCursor_cursor] at hlow hhigh
  exact ⟨hlow, hhigh⟩

theorem Shows.within {v : Vga} {g : Page} (h : Shows v g) : Within v := by
  have hon := h.onPage
  constructor
  · rw [h.cursor]
    omega
  · rw [h.cursor]
    omega

namespace Within

variable {v : Vga} (h : Within v)
include h

/-- What is on the screen. -/
theorem shows_page : Shows v ⟨v.cursorPos.toInt.toNat, v.fb.chr⟩ :=
  ⟨(Int.toNat_of_nonneg h.low).symm, Int.toNat_le.2 h.high, fun _ _ => rfl⟩

theorem startOfRow : Within (fbMoveCursorToStartOfRow v) := h.shows_page.startOfRow.within

omit h in
theorem runDirective (text : List UInt8) (arg : Int32) (fg bg : UInt8) (v : Vga) :
    Within (HavenOS.runDirective text arg fg bg v) := by
  unfold HavenOS.runDirective
  split
  · exact within_offsetCursor _ _
  · split
    · exact within_offsetCursor _ _
    · split
      · exact (within_offsetCursor _ _).startOfRow
      · exact within_offsetCursor _ _

omit h in
theorem runPieces (args : List Int32) (fg bg : UInt8) : ∀ (pieces : List Piece) (j : Nat) {v : Vga}, Within v →
    Within (HavenOS.runPieces args fg bg j pieces v)
  | [], _, _, h => h
  | .literal _ :: pieces, j, _, _ => runPieces args fg bg pieces j (within_offsetCursor 1 _)
  | .directive text :: pieces, j, v, _ => runPieces args fg bg pieces (j + 1) (runDirective text _ fg bg v)

end Within

/-! ## The keys -/

/-- Every action. -/
theorem KeyAction.onScreen_shows (a : KeyAction) (pd : UInt32) {v : Vga} {g : Page} (h : Shows v g) :
    Shows (a.onScreen pd v) (a.onPage pd g) := by
  have hback := h.move (-1) (by decide) (by decide)
  cases a with
  | nothing | ctrl | alt => exact h
  | shift held => exact h.set (by decide) _ 0 15
  | print ch => exact h.printCell ch 0 15
  | backspace => exact (hback.printCell 32 0 15).move (-1) (by decide) (by decide)
  | «return» => exact h.newline
  | tab => exact h.printStr _ (by decide) (by decide) 0 15
  | delete => exact hback.printCell 32 0 15
  | left => exact hback
  | right => exact h.move 1 (by decide) (by decide)
  | up => exact h.move (-80) (by decide) (by decide)
  | down => exact h.move 80 (by decide) (by decide)
  | escape => exact h.loading pd

/-- The kernel is at work on what the editor holds. -/
structure Edits (pd : UInt32) (k : Kernel) (e : Editor) : Prop where
  page : Shows k.vga e.page
  shifted : e.shifted = decide (k.kbShift ≠ 0)
  directory : k.directories 1 = pd

theorem Edits.press {pd : UInt32} {k : Kernel} {e : Editor} (h : Edits pd k e) (data : UInt8) :
    ∃ k', keyboardCallback data k = some k' ∧ Edits pd k' (e.press pd data) := by
  obtain ⟨k', hk, hvga, hdirectories, hshift, -⟩ := keyboardCallback_spec data k
  rw [← h.shifted] at hvga hshift
  refine ⟨k', hk, ?_, ?_, ?_⟩
  · rw [hvga, h.directory]
    exact (keyAction data e.shifted).onScreen_shows pd h.page
  · rw [hshift, Editor.press]
    cases keyAction data e.shifted with
    | shift held => cases held <;> rfl
    | _ => exact h.shifted
  · rw [hdirectories, h.directory]

theorem Edits.run {pd : UInt32} {k : Kernel} {e : Editor} (h : Edits pd k e) (keys : List UInt8) :
    ∃ k', keyboardRun keys k = some k' ∧ Edits pd k' (e.run pd keys) := by
  have hpress : ∀ data k e, Edits pd k e → ∃ k', keyboardCallback data k = some k' ∧ Edits pd k' (e.press pd data) :=
    fun data _ _ h => h.press data
  exact Run.run_simulates keyboardCallback hpress keys h

/-- What the user sees of a kernel. -/
def Editor.of (k : Kernel) : Editor := ⟨⟨k.vga.cursorPos.toInt.toNat, k.vga.fb.chr⟩, k.kbShift ≠ 0⟩

/-- Any bytes do to the screen what they do to the page. -/
theorem keyboard_edits (keys : List UInt8) {k : Kernel} (h : Within k.vga) : ∃ k', keyboardRun keys k = some k' ∧
    Edits (k.directories 1) k' ((Editor.of k).run (k.directories 1) keys) := by
  have hedits : Edits (k.directories 1) k (.of k) := ⟨h.shows_page, rfl, rfl⟩
  exact hedits.run keys

end HavenOS
