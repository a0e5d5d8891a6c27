/-
The machine as an editor: what the keys do after `kmain` is done is what an editor of a page of text does,
whatever the timer, the other devices and the exceptions do in between; and what they type is a line behind
the prompt.
-/
import HavenOS.Keyboard.Line
import HavenOS.System.Kmain

namespace HavenOS

/-! ## The prompt -/

/-- The cells in front of the line. -/
def promptCells (c : Nat) : UInt8 := if c = 3 then 62 else 32

theorem prompt_lineShown (v : Vga) : LineShown 4 promptCells [] (prompt v) := by
  obtain ⟨hcursor, hfb⟩ := fbPrintCell_inside (v := fbMoveCursor 3 { v with fb := fbClear 0 15 v.fb }) 62 0 15
    (show ((3 : UInt16).toInt16).toInt = (3 : Nat) by decide) (by decide)
  have hcells : ∀ c < 2000, (prompt v).fb.chr c = promptCells c := fun c hc => by
    rw [prompt, hfb, chr_writeCell, promptCells]
    exact if_congr Iff.rfl rfl (chr_fbClear v.fb 0 15 c hc)
  refine ⟨by decide, hcursor, fun i a ha => ?_, fun c hc hlast => ?_, fun c hc _ => hcells c (by omega)⟩
  · rw [List.getElem?_nil] at ha
    exact absurd ha.symm (Option.some_ne_none a)
  · have hlow : 4 ≤ c := hc
    rw [hcells c hlast, promptCells, if_neg (by omega)]

/-- The statements of `kmain` end with the prompt; where no key is read in between, it is on the screen. -/
theorem Agenda.run_prompt (s : System) {events : List Event} (hloop : 5 ≤ events.countP Event.isProceed)
    (hunread : ((Agenda.start s).run events).read = s.keys.read) :
    ((Agenda.start s).run events).console.vga = prompt (timerMessage s.kernel.vga) ∧
      ((Agenda.start s).run events).console.kbShift = s.kernel.kbShift := by
  have hstart : (Agenda.start s).Balanced ∨ (Agenda.start s).Deaf := Agenda.run_start s []
  obtain ⟨handled, hread, hconsole⟩ := Agenda.run_unread hstart events
  have hnone : handled = [] := by
    rw [hunread] at hread
    exact List.reverse_eq_nil_iff.1 (List.append_left_eq_self.1 hread.symm)
  have hall : (Agenda.start s).todo.take (events.countP Event.isProceed) = (Agenda.start s).todo :=
    List.take_of_length_le hloop
  rw [hconsole hnone, hall]
  exact ⟨rfl, rfl⟩

/-- The keys read from then on are on the screen behind it, as long as they edit a line. -/
theorem Agenda.run_types (s : System) {events : List Event} (hloop : 5 ≤ events.countP Event.isProceed)
    (hunread : ((Agenda.start s).run events).read = s.keys.read) (more : List Event) : ∃ handled,
    ((Agenda.start s).run events).Handles (((Agenda.start s).run events).run more) handled ∧
    ∀ l, Run.run (TypedLine.press 1996) handled ⟨[], s.kernel.kbShift ≠ 0⟩ = some l →
      LineShown 4 promptCells l.text (((Agenda.start s).run events).run more).console.vga ∧
      l.shifted = decide ((((Agenda.start s).run events).run more).console.kbShift ≠ 0) := by
  obtain ⟨hvga, hshift⟩ := Agenda.run_prompt s hloop hunread
  have hnothing : ((Agenda.start s).run events).todo = [] :=
    (Agenda.run_todo events (Agenda.start s)).trans (List.drop_eq_nil_of_le hloop)
  obtain ⟨handled, hhandles⟩ := Agenda.run_handles (Agenda.run_start s events) hnothing more
  refine ⟨handled, hhandles, fun l hl => ?_⟩
  have hshown := prompt_lineShown (timerMessage s.kernel.vga)
  rw [← hvga] at hshown
  obtain ⟨k, hk, hline⟩ := keyboardRun_types (l := ⟨[], s.kernel.kbShift ≠ 0⟩) (show 1 < 4 by decide) handled hshown
    (by rw [hshift]) hl
  obtain rfl := Option.some.inj (hk.symm.trans hhandles.console)
  exact hline

theorem LineShown.withPorts {start : Nat} {above : Nat → UInt8} {text : List UInt8} {k : Kernel}
    (h : LineShown start above text k.vga) (ps : List (UInt16 × UInt8)) :
    LineShown start above text (k.withPorts ps).vga :=
  ⟨h.fits, h.cursor, h.shown, h.blanks, h.above⟩

/-- Once nothing waits, the keys read are all those that were waiting or came in between. -/
theorem Agenda.Handles.all {a : Agenda} {more : List Event} {handled : List UInt8} (h : a.Handles (a.run more) handled)
    (hkeyboard : a.Balanced ∨ a.Deaf) (hqueue : (a.run more).queue = []) :
    handled = a.queue ++ more.filterMap Event.typed := by
  have hkeys := Agenda.run_keys more hkeyboard
  rw [Agenda.keys, Agenda.keys, hqueue, h.read, List.reverse_append, List.reverse_reverse, List.append_nil,
    List.append_assoc] at hkeys
  exact List.append_cancel_left hkeys

/-! ## The machine -/

section
variable (sym : Symbols) (env : Compiled) {device : Device}

/-- In the loop of `kmain` the keys read edit what is on the screen, in their order, and nothing else does; the
cursor never leaves it. -/
theorem kmain_edits (hready : EventuallyReady device serialCom1Base) (s : System) {events : List Event}
    (hloop : 5 ≤ events.countP Event.isProceed) : ∃ s', Reaches sym env device s events s' ∧ Within s'.kernel.vga ∧
    ∀ more, ∃ s2 handled, s'.run sym.toAddresses env more = some s2 ∧
      s2.keys.read = handled.reverse ++ s'.keys.read ∧
      Edits sym.layout.otherPageDirectory s2.kernel
        ((Editor.of s'.kernel).run sym.layout.otherPageDirectory handled) := by
  obtain ⟨s0, hstarted, hreaches, hfollows⟩ := reaches_follows sym env hready s
  obtain ⟨s', hrun, h⟩ := hfollows events
  have hwithin := Agenda.run_within (a := Agenda.start s0) hstarted.within events
  have hother := (Agenda.run_paged (a := Agenda.start s0) hstarted.paged events).tables.other
  have htodo := Agenda.run_todo events (Agenda.start s0)
  have hstart := Agenda.run_start s0 events
  obtain ⟨ps, hkernel, -⟩ := h.console
  generalize (Agenda.start s0).run events = a at *
  have hof : Editor.of s'.kernel = Editor.of a.console := by
    rw [hkernel]
    rfl
  refine ⟨s', (hreaches events s').2 hrun, ?_, fun more => ?_⟩
  · rw [hkernel]
    exact ⟨hwithin.low, hwithin.high⟩
  · obtain ⟨s2, hmore, h2⟩ := h.run env more
    obtain ⟨handled, hread, hconsole⟩ := Agenda.run_handles hstart (htodo.trans (List.drop_eq_nil_of_le hloop)) more
    obtain ⟨k, hk, hedits⟩ := keyboard_edits handled hwithin
    obtain rfl : k = (a.run more).console := Option.some.inj (hk.symm.trans hconsole)
    obtain ⟨ps2, hkernel2, -⟩ := h2.console
    rw [hother] at hedits
    refine ⟨s2, handled, hmore, ?_, ?_⟩
    · rw [h2.read_eq, h.read_eq, hread]
    · rw [hof, hkernel2]
      exact ⟨⟨hedits.page.cursor, hedits.page.onPage, hedits.page.cells⟩, hedits.shifted, hedits.directory⟩

/-- After the last statement. -/
theorem kmain_edits_loop : ∃ s', Reaches codeAtOneMiB idle slowUart .powerOn (List.replicate 5 .proceed) s' ∧
    Within s'.kernel.vga ∧ ∀ more, ∃ s2 handled, s'.run codeAtOneMiB.toAddresses idle more = some s2 ∧
      s2.keys.read = handled.reverse ++ s'.keys.read ∧
      Edits 0x10E000 s2.kernel ((Editor.of s'.kernel).run 0x10E000 handled) :=
  kmain_edits codeAtOneMiB idle (slowUart_ready serialCom1Base) .powerOn (by decide)

/-- When `kmain` gets to its loop and no key has been read, the keys read from then on are on the screen
behind the prompt as a line, for as long as they edit one. -/
theorem kmain_types_line (hready : EventuallyReady device serialCom1Base) (s : System) {events : List Event}
    (hloop : 5 ≤ events.countP Event.isProceed) : ∃ s', Reaches sym env device s events s' ∧
    (s'.keys.read = s.keys.read → ∀ more, ∃ s2 handled, s'.run sym.toAddresses env more = some s2 ∧
      s2.keys.read = handled.reverse ++ s.keys.read ∧
      ∀ l, Run.run (TypedLine.press 1996) handled ⟨[], s.kernel.kbShift ≠ 0⟩ = some l →
        LineShown 4 promptCells l.text s2.kernel.vga ∧ l.shifted = decide (s2.kernel.kbShift ≠ 0)) := by
  obtain ⟨s0, hstarted, hreaches, hfollows⟩ := reaches_follows sym env hready s
  obtain ⟨s', hrun, h⟩ := hfollows events
  refine ⟨s', (hreaches events s').2 hrun, fun hunread more => ?_⟩
  obtain ⟨s2, hmore, h2⟩ := h.run env more
  rw [h.read_eq, ← hstarted.keys] at hunread
  obtain ⟨handled, hhandles, hline⟩ := Agenda.run_types s0 hloop hunread more
  rw [hstarted.modifiers.1] at hline
  obtain ⟨ps, hkernel, -⟩ := h2.console
  refine ⟨s2, handled, hmore, ?_, fun l hl => ?_⟩
  · rw [h2.read_eq, hhandles.read, hunread, hstarted.keys]
  · obtain ⟨hshown, hshifted⟩ := hline l hl
    rw [hkernel]
    exact ⟨hshown.withPorts ps, hshifted⟩

/-- In a run without keys. -/
theorem powerOn_loop {s' : System} (h : Reaches codeAtOneMiB idle slowUart .powerOn (List.replicate 5 .proceed) s') :
    s'.keys = ⟨[], []⟩ := by
  obtain ⟨s0, hstarted, hreaches, hfollows⟩ := reaches_follows codeAtOneMiB idle (slowUart_ready serialCom1Base)
    .powerOn
  obtain ⟨s1, hrun, h1⟩ := hfollows (List.replicate 5 .proceed)
  obtain rfl : s1 = s' := Option.some.inj (hrun.symm.trans ((hreaches _ _).1 h))
  have hkeys : s1.keys = s0.keys := h1.keys
  rw [hkeys, hstarted.keys]
  rfl

/-- A capital H, an x that is taken back and an i. -/
theorem kmain_types_line_hi : ∃ s', Reaches codeAtOneMiB idle slowUart .powerOn (List.replicate 5 .proceed) s' ∧
    ∀ more, ∃ s2 handled, s'.run codeAtOneMiB.toAddresses idle more = some s2 ∧ s2.keys.read = handled.reverse ∧
      (handled = [0x2A, 0x23, 0xAA, 0x2D, 0x0E, 0x17] → LineShown 4 promptCells (ascii "Hi") s2.kernel.vga) := by
  obtain ⟨s', hreaches, h⟩ := kmain_types_line codeAtOneMiB idle (slowUart_ready serialCom1Base) .powerOn
    (show 5 ≤ (List.replicate 5 Event.proceed).countP Event.isProceed by decide)
  refine ⟨s', hreaches, fun more => ?_⟩
  obtain ⟨s2, handled, hrun, hread, hline⟩ := h (by rw [powerOn_loop hreaches]; rfl) more
  refine ⟨s2, handled, hrun, hread.trans (List.append_nil _), fun hhandled => ?_⟩
  exact (hline ⟨ascii "Hi", false⟩ (by rw [hhandled]; decide)).1

/-- What is typed appears: whatever happens meanwhile, once the devices are quiet an interrupt for each
request and each key puts the line that all the keys make behind the prompt. -/
theorem kmain_displays (hready : EventuallyReady device serialCom1Base) (s : System) {events : List Event}
    (hloop : 5 ≤ events.countP Event.isProceed) : ∃ s', Reaches sym env device s events s' ∧
    (s'.keys.read = s.keys.read → ¬ s'.Deaf → ∀ more, ∃ s2, s'.run sym.toAddresses env more = some s2 ∧
      ∀ n ≥ s2.backlog, ∃ s3, s2.run sym.toAddresses env (List.replicate n .interrupt) = some s3 ∧
        ∀ l, Run.run (TypedLine.press 1996) (s'.keys.queue ++ more.filterMap Event.typed)
            ⟨[], s.kernel.kbShift ≠ 0⟩ = some l →
          LineShown 4 promptCells l.text s3.kernel.vga) := by
  obtain ⟨s0, hstarted, hreaches, hfollows⟩ := reaches_follows sym env hready s
  obtain ⟨s', hrun, h⟩ := hfollows events
  refine ⟨s', (hreaches events s').2 hrun, fun hunread hhears more => ?_⟩
  obtain ⟨s2, hmore, h2⟩ := h.run env more
  refine ⟨s2, hmore, fun n hn => ?_⟩
  obtain ⟨s3, hdrain, h3⟩ := h2.run env (List.replicate n .interrupt)
  have hattentive := (h.attentive (Nat.le_trans (by decide) hloop) hhears).run more
  have hdrains := Agenda.run_drains hattentive n
  rw [← h2.backlog_eq, Nat.sub_eq_zero_of_le hn] at hdrains
  obtain ⟨-, hqueue⟩ := (Agenda.backlog_eq_zero (hattentive.run _)).1 hdrains
  rw [h.read_eq, ← hstarted.keys] at hunread
  obtain ⟨handled, hhandles, hline⟩ := Agenda.run_types s0 hloop hunread (more ++ List.replicate n .interrupt)
  rw [Agenda.run_append] at hhandles hline
  rw [hstarted.modifiers.1] at hline
  have htyped : (List.replicate n Event.interrupt).filterMap Event.typed = [] :=
    List.filterMap_eq_nil_iff.2 fun event hevent => by rw [List.eq_of_mem_replicate hevent]; rfl
  rw [← Agenda.run_append] at hhandles hqueue
  have hall := hhandles.all (Agenda.run_start s0 events) hqueue
  rw [List.filterMap_append, htyped, List.append_nil, ← h.queue_eq] at hall
  obtain ⟨ps, hkernel, -⟩ := h3.console
  refine ⟨s3, hdrain, fun l hl => ?_⟩
  rw [← hall] at hl
  rw [hkernel]
  exact (hline l hl).1.withPorts ps

/-- The same keys, with a tick and a page fault among them. -/
theorem kmain_displays_hi : ∃ s' s2, Reaches codeAtOneMiB idle slowUart .powerOn (List.replicate 5 .proceed) s' ∧
    s'.run codeAtOneMiB.toAddresses idle [.key 0x2A, .timer, .key 0x23, .interrupt, .key 0xAA, .key 0x2D,
      .fault 14 2 (by decide), .key 0x0E, .key 0x17] = some s2 ∧
    ∀ n ≥ s2.backlog, ∃ s3, s2.run codeAtOneMiB.toAddresses idle (List.replicate n .interrupt) = some s3 ∧
      LineShown 4 promptCells (ascii "Hi") s3.kernel.vga := by
  obtain ⟨s', hreaches, h⟩ := kmain_displays codeAtOneMiB idle (slowUart_ready serialCom1Base) .powerOn
    (show 5 ≤ (List.replicate 5 Event.proceed).countP Event.isProceed by decide)
  have hkeys := powerOn_loop hreaches
  obtain ⟨s2, hrun, hdisplays⟩ := h (by rw [hkeys]; rfl) (fun hdeaf => hdeaf.2 (by rw [hkeys]))
    [.key 0x2A, .timer, .key 0x23, .interrupt, .key 0xAA, .key 0x2D, .fault 14 2 (by decide), .key 0x0E, .key 0x17]
  refine ⟨s', s2, hreaches, hrun, fun n hn => ?_⟩
  obtain ⟨s3, hdrain, hline⟩ := hdisplays n hn
  exact ⟨s3, hdrain, hline ⟨ascii "Hi", false⟩ (by rw [hkeys]; decide)⟩

end

end HavenOS
