/-
Typing a line: characters go to its end, Backspace takes the last one away, Shift is kept, and the keys that
do nothing are let through. As long as the line has room and no other key is pressed, the screen shows the
line from where it starts on, with the cursor behind it.
-/
import HavenOS.Keyboard.Page

namespace HavenOS

/-! ## The line -/

structure TypedLine where
  text : List UInt8
  shifted : Bool
deriving DecidableEq, Repr

/-- The next byte on a line with `room` cells; `none` when it does something else than edit the line. -/
def TypedLine.press (room : Nat) (data : UInt8) (l : TypedLine) : Option TypedLine :=
  match keyAction data l.shifted with
  | .print ch => if l.text.length < room then some { l with text := l.text ++ [ch] } else none
  | .backspace => if l.text = [] then none else some { l with text := l.text.dropLast }
  | .shift held => some { l with shifted := held }
  | .nothing | .ctrl | .alt => some l
  | .return | .tab | .delete | .left | .right | .up | .down | .escape => none

/-- The screen shows `text` from cell `start` on and blanks behind it, and the cursor is there. The cells in
front of it are `above`, but for cell 1, which shows Shift. -/
structure LineShown (start : Nat) (above : Nat → UInt8) (text : List UInt8) (v : Vga) : Prop where
  fits : start + text.length ≤ 2000
  cursor : v.cursorPos.toInt = (start + text.length : Nat)
  shown : ∀ i a, text[i]? = some a → v.fb.chr (start + i) = a
  blanks : ∀ c, start + text.length ≤ c → c < 2000 → v.fb.chr c = 32
  above : ∀ c < start, c ≠ 1 → v.fb.chr c = above c

/-! ## The line and the page -/

/-- The page holds the line. -/
structure TypedLine.On (start : Nat) (above : Nat → UInt8) (l : TypedLine) (e : Editor) : Prop where
  holds : Grid.Holds 2000 32 start l.text e.page
  above : ∀ c < start, c ≠ 1 → e.page.cell c = above c
  shifted : e.shifted = l.shifted

section
variable {start : Nat} {above : Nat → UInt8} {l l' : TypedLine}

theorem TypedLine.On.press {e : Editor} (h : l.On start above e) (hstart : 1 < start) (pd : UInt32) {data : UInt8}
    (hl : l.press (2000 - start) data = some l') : l'.On start above (e.press pd data) := by
  have hcursor := h.holds.cursor
  have hfits := h.holds.fits
  rw [TypedLine.press, ← h.shifted] at hl
  rw [Editor.press]
  cases haction : keyAction data e.shifted with
  | nothing | ctrl | alt =>
    rw [haction] at hl
    cases hl
    exact h
  | shift held =>
    rw [haction] at hl
    cases hl
    refine ⟨h.holds.set hstart _, fun c hc hne => ?_, rfl⟩
    show Function.update e.page.cell 1 _ c = above c
    rw [Function.update_of_ne hne]
    exact h.above c hc hne
  | print ch =>
    rw [haction] at hl
    obtain ⟨hroom, hl⟩ := Option.ite_none_right_eq_some.1 hl
    cases hl
    refine ⟨h.holds.print (by decide) (by omega) ch, fun c hc hne => ?_, rfl⟩
    have hprint : e.page.print [ch] = { e.page.set e.page.cursor ch with cursor := e.page.cursor + 1 } :=
      Grid.print_inside (by decide) (by omega) ch
    show (e.page.print [ch]).cell c = above c
    rw [hprint]
    show Function.update e.page.cell e.page.cursor ch c = above c
    rw [Function.update_of_ne (by omega)]
    exact h.above c hc hne
  | backspace =>
    rw [haction] at hl
    obtain ⟨hsome, hl⟩ := Option.ite_none_left_eq_some.1 hl
    cases hl
    have hsplit := List.dropLast_append_getLast hsome
    have hlen := congrArg List.length hsplit
    rw [List.length_append, List.length_singleton] at hlen
    have hholds := h.holds
    rw [← hsplit] at hholds
    refine ⟨hholds.erase (by decide), fun c hc hne => ?_, rfl⟩
    have herase : Grid.erase 80 2000 32 e.page = { e.page.set (start + l.text.dropLast.length) 32 with
        cursor := start + l.text.dropLast.length } := Grid.erase_inside (by decide) (by omega) (by omega)
    show (Grid.erase 80 2000 32 e.page).cell c = above c
    rw [herase]
    show Function.update e.page.cell (start + l.text.dropLast.length) 32 c = above c
    rw [Function.update_of_ne (by omega)]
    exact h.above c hc hne
  | «return» | tab | delete | left | right | up | down | escape =>
    rw [haction] at hl
    cases hl

theorem TypedLine.On.run (hstart : 1 < start) (pd : UInt32) (keys : List UInt8) {l : TypedLine} {e : Editor}
    (h : l.On start above e) (hl : Run.run (TypedLine.press (2000 - start)) keys l = some l') :
    l'.On start above (e.run pd keys) := by
  induction keys generalizing l e with
  | nil =>
    cases hl
    exact h
  | cons data keys ih =>
    obtain ⟨l1, hfirst, hrest⟩ := Option.bind_eq_some_iff.1 hl
    exact ih (h.press hstart pd hfirst) hrest

/-! ## The line and the screen -/

theorem LineShown.on {k : Kernel} (h : LineShown start above l.text k.vga)
    (hshift : l.shifted = decide (k.kbShift ≠ 0)) : l.On start above (.of k) where
  holds := ⟨by rw [Editor.of, h.cursor, Int.toNat_natCast], h.fits, h.shown, h.blanks⟩
  above := h.above
  shifted := hshift.symm

theorem TypedLine.On.lineShown {pd : UInt32} {k : Kernel} {e : Editor} (h : l.On start above e) (hk : Edits pd k e) :
    LineShown start above l.text k.vga := by
  have hfits := h.holds.fits
  refine ⟨hfits, ?_, fun i a ha => ?_, fun c hc hlast => ?_, fun c hc hne => ?_⟩
  · rw [hk.page.cursor, h.holds.cursor]
  · have hlen := (List.getElem?_eq_some_iff.1 ha).1
    rw [hk.page.cells _ (by omega)]
    exact h.holds.shown i a ha
  · rw [hk.page.cells c hlast]
    exact h.holds.blanks c hc hlast
  · rw [hk.page.cells c (by omega)]
    exact h.above c hc hne

/-- The keys that edit a line leave it on the screen as they leave the line. -/
theorem keyboardRun_types (hstart : 1 < start) (keys : List UInt8) {k : Kernel} (h : LineShown start above l.text k.vga)
    (hshift : l.shifted = decide (k.kbShift ≠ 0)) (hl : Run.run (TypedLine.press (2000 - start)) keys l = some l') :
    ∃ k', keyboardRun keys k = some k' ∧ LineShown start above l'.text k'.vga ∧
      l'.shifted = decide (k'.kbShift ≠ 0) := by
  have hfits := h.fits
  obtain ⟨k', hk, hedits⟩ := keyboard_edits keys (k := k) ⟨by rw [h.cursor]; omega, by rw [h.cursor]; omega⟩
  have hon := TypedLine.On.run hstart (k.directories 1) keys (h.on hshift) hl
  exact ⟨k', hk, hon.lineShown hedits, hon.shifted.symm.trans hedits.shifted⟩

end

end HavenOS
