/-
The driver of the screen as a whole: every call of vga.c, in any order and with keys in between, does to the
characters and the cursor what an operation does to a page, and `fb_get_char` and `get_cursor_pos` read the
page. What a call has to keep to for that is said call by call.
-/
import HavenOS.Console.Crtc
import HavenOS.Cstring.Number
import HavenOS.Keyboard.Page
import HavenOS.Vga.Getters
import HavenOS.Vga.Rect

namespace HavenOS

/-! ## The calls -/

/-- The loop of `fb_write_str`, up to the NUL. -/
def fbWriteStr (fg bg : UInt8) : Nat → List UInt8 → FrameBuffer → FrameBuffer
  | _, [], fb => fb
  | i, c :: str, fb => if c = 0 then fb else fbWriteStr fg bg (i + 1) str (fbWriteCell i c fg bg fb)

def fbClearRect (x y width height : UInt32) (color : UInt8) (fb : FrameBuffer) : FrameBuffer :=
  fbWriteFrect 32 x y width height color color fb

def getCursorPos (v : Vga) : Int16 := v.cursorPos

/-- The calls that store in cells their caller names. -/
inductive Drawing where
  | writeCell (i : UInt32) (c fg bg : UInt8)
  | writeStr (i : UInt32) (str : List UInt8) (fg bg : UInt8)
  | writeLstr (i : UInt32) (str : List UInt8) (length : Int) (fg bg : UInt8)
  | clearRow (r : UInt32) (fg bg : UInt8)
  | writeFrect (c : UInt8) (x y width height : UInt32) (fg bg : UInt8)
  | writeRect (c : UInt8) (x y width height : UInt32) (fg bg : UInt8)
  | clearRect (x y width height : UInt32) (color : UInt8)

def Drawing.run : Drawing → FrameBuffer → FrameBuffer
  | writeCell i c fg bg, fb => fbWriteCell i.toNat c fg bg fb
  | writeStr i str fg bg, fb => fbWriteStr fg bg i.toNat str fb
  | writeLstr i str length fg bg, fb => fbWriteLstr i.toNat str length fg bg fb
  | clearRow r fg bg, fb => fbClearRow r.toNat fg bg fb
  | writeFrect c x y width height fg bg, fb => fbWriteFrect c x y width height fg bg fb
  | writeRect c x y width height fg bg, fb => fbWriteRect c x y width height fg bg fb
  | clearRect x y width height color, fb => fbClearRect x y width height color fb

/-- A call of the driver, or a key. -/
inductive DriverCall where
  | console (op : ConsoleOp)
  | draw (drawing : Drawing)

def DriverCall.run : DriverCall → Kernel → Option Kernel
  | console op, k => op.run k
  | draw drawing, k => some (k.onVga fun v => { v with fb := drawing.run v.fb })

/-- The calls one after another. -/
def driverRun : List DriverCall → Kernel → Option Kernel := Run.run DriverCall.run

/-! ## The calls on a page -/

namespace Page

def moveTo (c : Nat) (g : Page) : Page := { g with cursor := c }

/-- One character in all cells of `S`. -/
def paint (S : Set Nat) [DecidablePred (· ∈ S)] (a : UInt8) (g : Page) : Page :=
  { g with cell := fun c => if c ∈ S then a else g.cell c }

/-- Row `to` and the first cell of the row after it take those of row `from`; row 25 is let pass. -/
def copyRow («from» «to» : Int) (g : Page) : Page :=
  if «from» < 0 ∨ «from» > 25 ∨ «to» < 0 ∨ «to» > 25 then g
  else
    let a := «from».toNat
    let b := «to».toNat
    { g with cell := fun c =>
      if 80 * b ≤ c ∧ c ≤ 80 * b + 80 then g.cell (80 * a + copied a b (c - 80 * b)) else g.cell c }

def printLstr (str : List UInt8) (length : Int) (g : Page) : Page :=
  Page.move length (g.put (str.take length.toNat))

def directive (text : List UInt8) (arg : Int32) (g : Page) : Page :=
  if text = ascii "\x7b%d\x7d" then g.print (decText arg)
  else if text = ascii "\x7b%h\x7d" then g.print (hexText arg)
  else if text = ascii "\x7b%\n\x7d" then (g.move 80).startOfRow
  else (g.print [63]).print text

def pieces (args : List Int32) : Nat → List Piece → Page → Page
  | _, [], g => g
  | j, .literal c :: rest, g => pieces args j rest (g.print [c])
  | j, .directive text :: rest, g => pieces args (j + 1) rest (g.directive text (args.getD j 0))

end Page

instance (x y width height : Nat) : DecidablePred (· ∈ rectCells x y width height) := fun j =>
  inferInstanceAs (Decidable ((x ≤ j % 80 ∧ j % 80 < x + width) ∧ y ≤ j / 80 ∧ j / 80 < y + height))

instance (x y width height : Nat) : DecidablePred (· ∈ perimeterCells x y width height) := fun j =>
  inferInstanceAs (Decidable (j ∈ rectCells x y width height ∧
    (j / 80 = y ∨ j / 80 + 1 = y + height ∨ j % 80 = x ∨ j % 80 + 1 = x + width)))

def Drawing.onPage : Drawing → Page → Page
  | writeCell i c _ _, g => g.set i.toNat c
  | writeStr i str _ _, g => g.putAt i.toNat (cstr str)
  | writeLstr i str length _ _, g => g.putAt i.toNat (str.take length.toNat)
  | clearRow r _ _, g => g.paint (rectCells 0 r.toNat 80 1) 32
  | writeFrect c x y width height _ _, g => g.paint (rectCells x.toNat y.toNat width.toNat height.toNat) c
  | writeRect c x y width height _ _, g => g.paint (perimeterCells x.toNat y.toNat width.toNat height.toNat) c
  | clearRect x y width height _, g => g.paint (rectCells x.toNat y.toNat width.toNat height.toNat) 32

def Editor.onPage (f : Page → Page) (e : Editor) : Editor := { e with page := f e.page }

/-- A console operation on the page, keys included. -/
def ConsoleOp.edit (pd : UInt32) : ConsoleOp → Editor → Editor
  | moveCursor pos, e => e.onPage (Page.moveTo pos.toNat)
  | moveCursorColRow posX posY, e => e.onPage (Page.moveTo (80 * posY.toNat + posX.toNat))
  | moveCursorToStartOfRow, e => e.onPage Page.startOfRow
  | offsetCursor offset, e => e.onPage (Page.move offset)
  | printCell c _ _, e => e.onPage (Page.print [c])
  | printStr str _ _, e => e.onPage (Page.print (cstr str))
  | printLstr str length _ _, e => e.onPage (Page.printLstr str length)
  | fprintStr format _ _, e => e.onPage (Page.pieces format.args 0 (splitFormat format.str))
  | scroll, e => e.onPage (Grid.scroll 80 2000 32 1)
  | shiftDown row, e => e.onPage (Page.openLine row.toNat)
  | copyRow «from» «to», e => e.onPage (Page.copyRow «from» «to»)
  | clear _ _, e => e.onPage (Page.paint (rectCells 0 0 80 25) 32)
  | keyboard data, e => e.press pd data

def DriverCall.edit (pd : UInt32) : DriverCall → Editor → Editor
  | console op, e => op.edit pd e
  | draw drawing, e => e.onPage drawing.onPage

/-! ## What the calls keep to -/

/-- A place on the screen, and for a string a length its buffer has. -/
def Drawing.Fits : Drawing → Prop
  | writeCell i _ _ _ => i.toNat < 2000
  | writeStr i str _ _ => i.toNat + strlen str ≤ 2 ^ 31
  | writeLstr i str length _ _ => length ≤ str.length ∧ i.toNat + length.toNat ≤ 2 ^ 31
  | clearRow r _ _ => r.toNat < 25
  | writeFrect _ x y width height _ _ | writeRect _ x y width height _ _ | clearRect x y width height _ =>
    x.toNat + width.toNat ≤ 80 ∧ y.toNat + height.toNat ≤ 25

/-- A cursor on the screen, moves that a `short` holds, and no row that is not on the page as a source. -/
def ConsoleOp.Fits : ConsoleOp → Prop
  | moveCursor pos => pos.toNat ≤ 2000
  | moveCursorColRow posX posY => 80 * posY.toNat + posX.toNat ≤ 2000
  | offsetCursor offset => -32768 ≤ offset ∧ offset ≤ 30767
  | printStr str _ _ => strlen str ≤ 30767
  | printLstr str length _ _ => length ≤ str.length ∧ -32768 ≤ length ∧ length ≤ 30767
  | fprintStr format _ _ => ∀ text, .directive text ∈ splitFormat format.str → text.length ≤ 30767
  -- row 24 is copied with the first cell beyond the screen
  | copyRow «from» _ => «from» ≤ 23 ∨ 25 < «from»
  | moveCursorToStartOfRow | printCell _ _ _ | scroll | shiftDown _ | clear _ _ | keyboard _ => True

def DriverCall.Fits : DriverCall → Prop
  | console op => op.Fits
  | draw drawing => drawing.Fits

/-! ## One call -/

theorem fbPrintStr_cstr (str : List UInt8) (fg bg : UInt8) (v : Vga) :
    fbPrintStr str fg bg v = fbPrintStr (cstr str) fg bg v := fbPrintLstr_cstr str fg bg v

theorem fbWriteStr_eq (fg bg : UInt8) : ∀ (i : Nat) (str : List UInt8) (fb : FrameBuffer),
    fbWriteStr fg bg i str fb = writeLstrLoop fg bg (cstr str).length i (cstr str) fb
  | _, [], _ => rfl
  | i, c :: str, fb => by
    by_cases hc : c = 0
    · rw [fbWriteStr, if_pos hc, hc]
      rfl
    · rw [fbWriteStr, if_neg hc, cstr_cons hc, fbWriteStr_eq fg bg (i + 1) str]
      rfl

theorem shiftDownLoop_above : ∀ (n : Nat) {row : Int} (fb : FrameBuffer), row < 0 → shiftDownLoop n row fb = fb
  | 0, _, _, _ => rfl
  | n + 1, row, fb, h => by
    rw [shiftDownLoop, fbCopyRow_invalid fb _ _ (.inl h)]
    exact shiftDownLoop_above n fb (by omega)

theorem shiftDownLoop_add : ∀ (m n : Nat) (row : Int) (fb : FrameBuffer),
    shiftDownLoop (m + n) row fb = shiftDownLoop n (row - m) (shiftDownLoop m row fb)
  | 0, n, row, fb => by
    rw [Nat.zero_add]
    exact congrArg (shiftDownLoop n · fb) (Int.sub_zero row).symm
  | m + 1, n, row, fb => by
    have hrow : row - 1 - (m : Int) = row - (m + 1 : Nat) := by omega
    rw [Nat.add_right_comm, shiftDownLoop, shiftDownLoop_add m n, hrow]
    rfl

/-- Rows above the screen are not copied. -/
theorem fbShiftDown_toNat (row : Int) (fb : FrameBuffer) : fbShiftDown row fb = fbShiftDown row.toNat fb := by
  by_cases hrow : 0 ≤ row
  · rw [Int.toNat_of_nonneg hrow]
  · have hrounds : ((fbNumRows : Int) - row + 1).toNat = 26 + (-row).toNat := by
      rw [fbNumRows_eq]
      omega
    have htop : row.toNat = 0 := Int.toNat_of_nonpos (by omega)
    rw [fbShiftDown, hrounds, shiftDownLoop_add, htop]
    exact shiftDownLoop_above _ _ (show (25 : Int) - 26 < 0 by decide)

theorem directive_noNul {str : List UInt8} (hnul : 0 ∉ str) {text : List UInt8}
    (h : .directive text ∈ splitFormat str) : 0 ∉ text := by
  induction str using splitFormat.induct with
  | case1 =>
    rw [splitFormat] at h
    exact absurd h List.not_mem_nil
  | case2 c str hopen ih =>
    rw [splitFormat, if_pos hopen] at h
    rcases List.mem_cons.1 h with hfirst | hrest
    · rw [Piece.directive.inj hfirst]
      intro hmem
      rcases List.mem_append.1 hmem with hbody | hclose
      · rcases List.mem_cons.1 hbody with hc | hin
        · exact hnul (hc ▸ List.mem_cons_self)
        · exact hnul (List.mem_cons_of_mem c ((List.takeWhile_sublist _).subset hin))
      · exact absurd (List.mem_singleton.1 hclose) (by decide)
    · refine ih (fun hmem => ?_) hrest
      exact hnul (List.mem_cons_of_mem c ((List.dropWhile_sublist _).subset (List.mem_of_mem_tail hmem)))
  | case3 c str hopen ih =>
    rw [splitFormat, if_neg hopen] at h
    rcases List.mem_cons.1 h with hfirst | hrest
    · exact Piece.noConfusion hfirst
    · exact ih (fun hmem => hnul (List.mem_cons_of_mem c hmem)) hrest

namespace Shows

variable {v : Vga} {g : Page} (h : Shows v g)
include h

theorem moveTo {pos : Int16} {c : Nat} (hpos : pos.toInt = c) (hc : c ≤ 2000) :
    Shows (outCursor { v with cursorPos := pos }) (g.moveTo c) := ⟨hpos, hc, h.cells⟩

theorem scroll : Shows { v with fb := fbScroll v.fb } (Grid.scroll 80 2000 32 1 g) := by
  refine ⟨h.cursor, h.onPage, fun c hc => ?_⟩
  have hscrolled := chr_fbScroll_iterate v.fb 1 c hc
  rw [Grid.scroll_cell 1 hc, show (fbScroll v.fb).chr c = (fbScroll^[1] v.fb).chr c by rfl, hscrolled]
  split
  · rename_i hin
    exact h.cells _ hin
  · rfl

theorem shiftDown (row : Int) : Shows { v with fb := fbShiftDown row v.fb } (g.openLine row.toNat) := by
  rw [fbShiftDown_toNat]
  exact h.openLine row.toNat

theorem copyRow {«from» : Int} (hfrom : «from» ≤ 23 ∨ 25 < «from») («to» : Int) :
    Shows { v with fb := fbCopyRow «from» «to» v.fb } (g.copyRow «from» «to») := by
  by_cases hguard : «from» < 0 ∨ «from» > 25 ∨ «to» < 0 ∨ «to» > 25
  · rw [fbCopyRow_invalid v.fb _ _ hguard, Page.copyRow, if_pos hguard]
    exact h
  · obtain ⟨a, rfl⟩ := Int.eq_ofNat_of_zero_le (show 0 ≤ «from» by omega)
    obtain ⟨b, rfl⟩ := Int.eq_ofNat_of_zero_le (show 0 ≤ «to» by omega)
    rw [Page.copyRow, if_neg hguard]
    refine ⟨h.cursor, h.onPage, fun c hc => ?_⟩
    show (fbCopyRow a b v.fb).chr c =
      if 80 * b ≤ c ∧ c ≤ 80 * b + 80 then g.cell (80 * a + copied a b (c - 80 * b)) else g.cell c
    rw [view_fbCopyRow v.fb copies_chr (by omega) (by omega), Nat.add_zero, Nat.add_zero]
    split
    · have hcopied : copied a b (c - 80 * b) ≤ 80 := by
        unfold copied
        split
        · exact (Nat.mod_lt _ (by decide)).le
        · omega
      exact h.cells _ (by omega)
    · exact h.cells c hc

theorem paint {S : Set Nat} [DecidablePred (· ∈ S)] {a color : UInt8} {fb : FrameBuffer}
    (hpainted : Painted FrameBuffer.cell (a, color) S v.fb fb) : Shows { v with fb := fb } (g.paint S a) := by
  refine ⟨h.cursor, h.onPage, fun c hc => ?_⟩
  show fb.chr c = if c ∈ S then a else g.cell c
  by_cases hin : c ∈ S
  · rw [if_pos hin]
    exact congrArg Prod.fst (hpainted.inside c hin)
  · rw [if_neg hin, ← h.cells c hc]
    exact congrArg Prod.fst (hpainted.outside c hin)

theorem clearRow {r : Nat} (hr : r < 25) (fg bg : UInt8) :
    Shows { v with fb := fbClearRow r fg bg v.fb } (g.paint (rectCells 0 r 80 1) 32) := by
  refine ⟨h.cursor, h.onPage, fun c hc => ?_⟩
  show (clearRowLoop fg bg 80 (80 * r) v.fb).chr c = if c ∈ rectCells 0 r 80 1 then 32 else g.cell c
  rw [chr_clearRowLoop fg bg _ _ _ _ (by omega), h.cells c hc]
  refine if_congr ?_ rfl rfl
  simp only [rectCells, Set.mem_ofPred_eq]
  omega

theorem clear (fg bg : UInt8) : Shows { v with fb := fbClear fg bg v.fb } (g.paint (rectCells 0 0 80 25) 32) := by
  refine ⟨h.cursor, h.onPage, fun c hc => ?_⟩
  have hin : c ∈ rectCells 0 0 80 25 := by
    simp only [rectCells, Set.mem_ofPred_eq]
    omega
  show (fbClear fg bg v.fb).chr c = if c ∈ rectCells 0 0 80 25 then 32 else g.cell c
  rw [chr_fbClear v.fb fg bg c hc, if_pos hin]

theorem writeStr {start : Nat} {str : List UInt8} (hlen : start + strlen str ≤ 2 ^ 31) (fg bg : UInt8) :
    Shows { v with fb := fbWriteStr fg bg start str v.fb } (g.putAt start (cstr str)) := by
  rw [strlen_eq_length] at hlen
  rw [fbWriteStr_eq]
  exact h.putAt start (cstr str) fg bg hlen

/-- As many characters as the buffer has at least. -/
theorem writeLstr {start n : Nat} {str : List UInt8} (hn : n ≤ str.length) (hlen : start + n ≤ 2 ^ 31)
    (fg bg : UInt8) : Shows { v with fb := writeLstrLoop fg bg n start str v.fb } (g.putAt start (str.take n)) := by
  have htake : (str.take n).length = n := List.length_take_of_le hn
  have hwrite := writeLstrLoop_append fg bg (str.drop n) (str.take n) start v.fb
  rw [List.take_append_drop, htake] at hwrite
  have hput := h.putAt start (str.take n) fg bg (by omega)
  rw [htake] at hput
  rw [hwrite]
  exact hput

theorem printLstr {str : List UInt8} {length : Int} (hbuffer : length ≤ str.length) (hlow : -32768 ≤ length)
    (hhigh : length ≤ 30767) (fg bg : UInt8) :
    Shows (fbPrintLstr str length fg bg v) (g.printLstr str length) := by
  have hon := h.onPage
  have hcell : toUnsigned v.cursorPos.toInt = g.cursor := by
    rw [toUnsigned_nat h.cursor]
    omega
  rw [fbPrintLstr, hcell]
  exact (h.writeLstr (by omega) (by omega) fg bg).move length hlow hhigh

theorem directive {text : List UInt8} (hnul : 0 ∉ text) (hlen : text.length ≤ 30767) (arg : Int32) (fg bg : UInt8) :
    Shows (runDirective text arg fg bg v) (g.directive text arg) := by
  unfold runDirective Page.directive
  split
  · have hdigits := decText_length_le arg
    exact h.printStr _ (zero_notMem_decText arg) (by omega) fg bg
  · split
    · exact h.printStr (hexText arg) (notMem_cstr _) (by rw [hexText_length]; decide) fg bg
    · split
      · exact (h.move 80 (by decide) (by decide)).startOfRow
      · exact (h.printCell 63 fg bg).printStr text hnul hlen fg bg

omit h in
theorem pieces (args : List Int32) (fg bg : UInt8) : ∀ (pieces : List Piece) (j : Nat) {v : Vga} {g : Page},
    (∀ text, .directive text ∈ pieces → 0 ∉ text ∧ text.length ≤ 30767) → Shows v g →
    Shows (runPieces args fg bg j pieces v) (Page.pieces args j pieces g)
  | [], _, _, _, _, h => h
  | .literal c :: rest, j, _, _, htexts, h =>
    pieces args fg bg rest j (fun text hmem => htexts text (List.mem_cons_of_mem _ hmem)) (h.printCell c fg bg)
  | .directive text :: rest, j, _, _, htexts, h => by
    obtain ⟨hnul, hlen⟩ := htexts text List.mem_cons_self
    exact pieces args fg bg rest (j + 1) (fun text hmem => htexts text (List.mem_cons_of_mem _ hmem))
      (h.directive hnul hlen _ fg bg)

/-- A drawing stores what it shows on the page. -/
theorem draw {drawing : Drawing} (hfits : drawing.Fits) :
    Shows { v with fb := drawing.run v.fb } (drawing.onPage g) := by
  cases drawing with
  | writeCell i c fg bg => exact h.set hfits c fg bg
  | writeStr i str fg bg => exact h.writeStr hfits fg bg
  | writeLstr i str length fg bg =>
    obtain ⟨hbuffer, hlen⟩ := hfits
    exact h.writeLstr (by omega) hlen fg bg
  | clearRow r fg bg => exact h.clearRow hfits fg bg
  | writeFrect c x y width height fg bg => exact h.paint (fbWriteFrect_painted hfits.1 hfits.2 c fg bg v.fb)
  | writeRect c x y width height fg bg => exact h.paint (fbWriteRect_painted hfits.1 hfits.2 c fg bg v.fb)
  | clearRect x y width height color => exact h.paint (fbWriteFrect_painted hfits.1 hfits.2 32 color color v.fb)

end Shows

namespace Edits

variable {pd : UInt32} {k : Kernel} {e : Editor} (h : Edits pd k e)
include h

theorem onVga {f : Vga → Vga} {f' : Page → Page} (hshows : Shows (f k.vga) (f' e.page)) :
    Edits pd (k.onVga f) (e.onPage f') := ⟨hshows, h.shifted, h.directory⟩

theorem console {op : ConsoleOp} (hfits : op.Fits) : ∃ k', op.run k = some k' ∧ Edits pd k' (op.edit pd e) := by
  have hpage := h.page
  cases op with
  | moveCursor pos =>
    have hcursor : pos.toInt16.toInt = pos.toNat := toInt_toInt16 (lt_of_le_of_lt hfits (by decide))
    exact ⟨_, rfl, h.onVga (hpage.moveTo hcursor hfits)⟩
  | moveCursorColRow posX posY =>
    have hon : 80 * posY.toNat + posX.toNat ≤ 2000 := hfits
    have hindex : (fbRowColumnToIndex posX.toNat posY.toNat).toNat = 80 * posY.toNat + posX.toNat := by
      rw [fbRowColumnToIndex, UInt16.toNat_ofNat', fbNumColumns_eq]
      omega
    have hcursor := toInt_toInt16 (i := fbRowColumnToIndex posX.toNat posY.toNat) (by omega)
    rw [hindex] at hcursor
    exact ⟨_, rfl, h.onVga (hpage.moveTo hcursor hon)⟩
  | moveCursorToStartOfRow => exact ⟨_, rfl, h.onVga hpage.startOfRow⟩
  | offsetCursor offset => exact ⟨_, rfl, h.onVga (hpage.move offset hfits.1 hfits.2)⟩
  | printCell c fg bg => exact ⟨_, rfl, h.onVga (hpage.printCell c fg bg)⟩
  | printStr str fg bg =>
    have hlen : (cstr str).length ≤ 30767 := by
      rw [← strlen_eq_length]
      exact hfits
    have hprint := hpage.printStr (cstr str) (notMem_cstr str) hlen fg bg
    rw [← fbPrintStr_cstr] at hprint
    exact ⟨_, rfl, h.onVga hprint⟩
  | printLstr str length fg bg =>
    obtain ⟨hbuffer, hlow, hhigh⟩ := hfits
    exact ⟨_, rfl, h.onVga (hpage.printLstr hbuffer hlow hhigh fg bg)⟩
  | fprintStr format fg bg =>
    have htexts := fun text hmem => And.intro (directive_noNul format.noNul hmem) (hfits text hmem)
    have hpieces := Shows.pieces format.args fg bg (splitFormat format.str) 0 htexts hpage
    refine ⟨_, ?_, h.onVga hpieces⟩
    rw [ConsoleOp.run, format_run]
    rfl
  | scroll => exact ⟨_, rfl, h.onVga hpage.scroll⟩
  | shiftDown row => exact ⟨_, rfl, h.onVga (hpage.shiftDown row)⟩
  | copyRow «from» «to» => exact ⟨_, rfl, h.onVga (hpage.copyRow hfits «to»)⟩
  | clear fg bg => exact ⟨_, rfl, h.onVga (hpage.clear fg bg)⟩
  | keyboard data => exact h.press data

/-- One call, which leaves the controller in step with the cursor if it was. -/
theorem call {call : DriverCall} (hfits : call.Fits) : ∃ k', call.run k = some k' ∧ Edits pd k' (call.edit pd e) ∧
    ∀ c, Coherent c k.vga → Coherent c k'.vga := by
  cases call with
  | draw drawing => exact ⟨_, rfl, h.onVga (h.page.draw hfits), fun _ hcoherent => hcoherent⟩
  | console op =>
    obtain ⟨k', hk, hedits⟩ := h.console hfits
    refine ⟨k', hk, hedits, fun c hcoherent => ?_⟩
    obtain ⟨k1, hk1, hsets, hkeeps⟩ := op.run_spec c k
    cases hk.symm.trans hk1
    by_cases hset : op.SetsCursor k
    · exact hsets hset
    · obtain ⟨hcursor, hports⟩ := hkeeps hset
      rw [Coherent, hcursor, hports]
      exact hcoherent

end Edits

/-- What there is to see of a kernel that is at work on a page: the characters and the cursor that vga.c's
getters give, and the cursor in the registers of the controller. -/
structure Displays (c : Crtc) (k : Kernel) (g : Page) : Prop where
  chars : ∀ i : UInt16, i.toNat < 2000 → fbGetChar i k.vga.fb = g.cell i.toNat
  cursor : (getCursorPos k.vga).toInt = g.cursor
  register : (c.after k.vga.ports).cursor = g.cursor

theorem Edits.displays {pd : UInt32} {k : Kernel} {e : Editor} (h : Edits pd k e) {c : Crtc}
    (hcoherent : Coherent c k.vga) : Displays c k e.page where
  chars i hi := by
    rw [← h.page.cells i.toNat hi, fbGetChar, Nat.mul_comm]
    rfl
  cursor := h.page.cursor
  register := by
    have hon := h.page.onPage
    have hregister := hcoherent
    rw [Coherent, h.page.cursor] at hregister
    omega

/-- Calls that keep to what `Fits` says, and keys, in any order: whatever is read afterwards is read from the
page. -/
theorem driver_refines_page {c : Crtc} {k : Kernel} (hcoherent : Coherent c k.vga) (hwithin : Within k.vga)
    {calls : List DriverCall} (hfits : ∀ call ∈ calls, call.Fits) : ∃ k', driverRun calls k = some k' ∧
      let e := calls.foldl (fun e call => call.edit (k.directories 1) e) (Editor.of k)
      Edits (k.directories 1) k' e ∧ Displays c k' e.page := by
  have hstart : Edits (k.directories 1) k (.of k) ∧ Coherent c k.vga := ⟨⟨hwithin.shows_page, rfl, rfl⟩, hcoherent⟩
  have hcall (call : DriverCall) (k1 : Kernel) (e : Editor) (hcall : call.Fits)
      (h : Edits (k.directories 1) k1 e ∧ Coherent c k1.vga) : ∃ k2, call.run k1 = some k2 ∧
        Edits (k.directories 1) k2 (call.edit (k.directories 1) e) ∧ Coherent c k2.vga := by
    obtain ⟨hedits, hstep⟩ := h
    obtain ⟨k2, hk2, hedits2, hkeeps⟩ := hedits.call hcall
    exact ⟨k2, hk2, hedits2, hkeeps c hstep⟩
  obtain ⟨k', hk', hedits, hstep⟩ := Run.run_simulates_of DriverCall.run hcall calls hfits hstart
  exact ⟨k', hk', hedits, hedits.displays hstep⟩

/-- A text in a box, scrolled up by a row, and Enter. -/
theorem driver_refines_page_box : ∃ k', driverRun [.draw (.writeRect 35 2 1 10 3 0 15),
      .console (.moveCursorColRow 3 2), .console (.printStr (ascii "haven") 0 15), .console .scroll,
      .console (.keyboard 0x1C)] (.start .powerOn) = some k' ∧
    ∃ g : Page, Displays ⟨0, fun _ => 0⟩ k' g ∧ g.cursor = 240 ∧ g.cell 2 = 35 ∧ g.cell 83 = 104 := by
  have hfits : ∀ call ∈ ([.draw (.writeRect 35 2 1 10 3 0 15), .console (.moveCursorColRow 3 2),
      .console (.printStr (ascii "haven") 0 15), .console .scroll, .console (.keyboard 0x1C)] : List DriverCall),
      call.Fits := by
    simp only [List.forall_mem_cons, DriverCall.Fits, Drawing.Fits, ConsoleOp.Fits]
    exact ⟨by decide, by decide, by decide, trivial, trivial, fun _ h => absurd h List.not_mem_nil⟩
  obtain ⟨k', hk', -, hdisplays⟩ := driver_refines_page (c := ⟨0, fun _ => 0⟩) (k := .start .powerOn) rfl
    ⟨by decide, by decide⟩ hfits
  exact ⟨k', hk', _, hdisplays, by decide, by decide, by decide⟩

end HavenOS
