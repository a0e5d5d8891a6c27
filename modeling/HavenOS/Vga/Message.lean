/-
Messages of the kernel with a number and a line end, and to which ports printing sends: those of the
CRT controller only.
-/
import HavenOS.Vga.Format

namespace HavenOS

/-! ## Formats with a number and a line end -/

/-- `{%d}` and `{%\n}`, each after some text. The line end takes no argument. -/
def numberLine (pre mid : List UInt8) : List UInt8 :=
  pre ++ 123 :: (ascii "%d" ++ 125 :: (mid ++ 123 :: (ascii "%\n" ++ [125])))

theorem enough_numberLine {pre mid : List UInt8} (hpre : 123 ∉ pre) (hmid : 123 ∉ mid) (n : Int32) :
    Enough [n] 0 (splitFormat (numberLine pre mid)) := by
  have hsplit : splitFormat (numberLine pre mid) = pre.map .literal ++ .directive (ascii "\x7b%d\x7d") ::
      (mid.map .literal ++ [.directive (ascii "\x7b%\n\x7d")]) := by
    rw [numberLine, splitFormat_literals hpre, splitFormat_directive (by decide) (by decide), splitFormat_literals hmid,
      splitFormat_directive (by decide) (by decide), splitFormat]
    rfl
  rw [hsplit, enough_literals]
  have hline : ¬ ReadsArgument (ascii "\x7b%\n\x7d") := not_or.2 ⟨by decide, by decide⟩
  exact ⟨fun _ => Nat.zero_lt_one, (enough_literals mid).2 ⟨fun hreads => absurd hreads hline, trivial⟩⟩

/-! ## Ports -/

/-- The bytes sent to a port, the first one first. -/
def Vga.sentTo (v : Vga) (port : UInt16) : List UInt8 :=
  v.ports.reverse.filterMap fun write => if write.1 = port then some write.2 else none

theorem sentTo_outb (v : Vga) (p port : UInt16) (data : UInt8) :
    (v.outb p data).sentTo port = v.sentTo port ++ if p = port then [data] else [] := by
  rw [Vga.sentTo, Vga.outb, List.reverse_cons, List.filterMap_append]
  split <;> simp [*, Vga.sentTo]

/-- From `v` to `v'` bytes were sent to the ports of the CRT controller only. -/
def CrtOnly (v v' : Vga) : Prop := ∀ port, port ≠ fbCommandPort → port ≠ fbDataPort → v'.sentTo port = v.sentTo port

theorem CrtOnly.trans {v v' v'' : Vga} (h : CrtOnly v v') (h' : CrtOnly v' v'') : CrtOnly v v'' := fun port hc hd =>
  (h' port hc hd).trans (h port hc hd)

theorem crtOnly_of_ports {v v' : Vga} (h : v'.ports = v.ports) : CrtOnly v v' := fun port _ _ => by
  rw [Vga.sentTo, Vga.sentTo, h]

theorem crtOnly_outCursor (v : Vga) : CrtOnly v (outCursor v) := by
  intro port hc hd
  rw [outCursor, sentTo_outb, sentTo_outb, sentTo_outb, sentTo_outb, if_neg hd.symm, if_neg hc.symm, if_neg hd.symm,
    if_neg hc.symm]
  simp only [List.append_nil]

theorem crtOnly_offsetCursor (offset : Int) (v : Vga) : CrtOnly v (fbOffsetCursor offset v) := by
  unfold fbOffsetCursor
  refine CrtOnly.trans (crtOnly_of_ports ?_) (crtOnly_outCursor _)
  rw [shiftLoop_ports, scrollLoop_ports]

theorem crtOnly_printCell (c fg bg : UInt8) (v : Vga) : CrtOnly v (fbPrintCell c fg bg v) := by
  unfold fbPrintCell
  refine CrtOnly.trans ?_ (crtOnly_offsetCursor 1 _)
  exact crtOnly_of_ports rfl

theorem crtOnly_printStr (str : List UInt8) (fg bg : UInt8) (v : Vga) : CrtOnly v (fbPrintStr str fg bg v) := by
  unfold fbPrintStr
  refine CrtOnly.trans ?_ (crtOnly_offsetCursor _ _)
  exact crtOnly_of_ports rfl

theorem crtOnly_directive (text : List UInt8) (arg : Int32) (fg bg : UInt8) (v : Vga) :
    CrtOnly v (runDirective text arg fg bg v) := by
  unfold runDirective
  split
  · exact crtOnly_printStr _ fg bg v
  · split
    · exact crtOnly_printStr _ fg bg v
    · split
      · unfold fbMoveCursorToStartOfRow fbMoveCursorColRow
        refine (crtOnly_offsetCursor 80 v).trans (CrtOnly.trans ?_ (crtOnly_outCursor _))
        exact crtOnly_of_ports rfl
      · exact (crtOnly_printCell 63 fg bg v).trans (crtOnly_printStr text fg bg _)

theorem crtOnly_pieces (args : List Int32) (fg bg : UInt8) : ∀ (pieces : List Piece) (j : Nat) (v : Vga),
    CrtOnly v (runPieces args fg bg j pieces v)
  | [], _, _ => crtOnly_of_ports rfl
  | .literal c :: pieces, j, v => by
    rw [runPieces]
    exact (crtOnly_printCell c fg bg v).trans (crtOnly_pieces args fg bg pieces j _)
  | .directive text :: pieces, j, v => by
    rw [runPieces]
    exact (crtOnly_directive text (args.getD j 0) fg bg v).trans (crtOnly_pieces args fg bg pieces (j + 1) _)

/-- Such a message is printed, whatever the number. -/
theorem fbFprintStr_numberLine {pre mid : List UInt8} (hpre : 123 ∉ pre) (hmid : 123 ∉ mid)
    (h0 : 0 ∉ numberLine pre mid)
    (hclosed : Closed (numberLine pre mid)) (n : Int32) (fg bg : UInt8) (v : Vga) :
    ∃ v', fbFprintStr (numberLine pre mid) [n] fg bg v = some v' ∧ CrtOnly v v' :=
  ⟨_, fbFprintStr_enough fg bg v h0 hclosed (enough_numberLine hpre hmid n), crtOnly_pieces _ _ _ _ _ _⟩

end HavenOS
