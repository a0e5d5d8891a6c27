/-
The text that typing leaves: the characters `keyboard_callback` passes to `fb_print_cell` over a run
of scancode bytes, against the legends of a US keyboard and the shift keys that are held.
-/
import HavenOS.Keyboard.Modifiers
import HavenOS.Vga.Terminal

namespace HavenOS

/-! ## The keyboard -/

/-- The printable keys of the main block in scancode set 1, with the lower and the upper legend. -/
def usLayout : List (UInt8 × Char × Char) := [
  (0x29, '\x60', '~'), (0x02, '1', '!'), (0x03, '2', '@'), (0x04, '3', '#'), (0x05, '4', '$'), (0x06, '5', '%'),
  (0x07, '6', '^'), (0x08, '7', '&'), (0x09, '8', '*'), (0x0A, '9', '('), (0x0B, '0', ')'), (0x0C, '-', '_'),
  (0x0D, '=', '+'),
  (0x10, 'q', 'Q'), (0x11, 'w', 'W'), (0x12, 'e', 'E'), (0x13, 'r', 'R'), (0x14, 't', 'T'), (0x15, 'y', 'Y'),
  (0x16, 'u', 'U'), (0x17, 'i', 'I'), (0x18, 'o', 'O'), (0x19, 'p', 'P'), (0x1A, '[', '\x7b'), (0x1B, ']', '\x7d'),
  (0x2B, '\\', '|'),
  (0x1E, 'a', 'A'), (0x1F, 's', 'S'), (0x20, 'd', 'D'), (0x21, 'f', 'F'), (0x22, 'g', 'G'), (0x23, 'h', 'H'),
  (0x24, 'j', 'J'), (0x25, 'k', 'K'), (0x26, 'l', 'L'), (0x27, ';', ':'), (0x28, '\'', '"'),
  (0x2C, 'z', 'Z'), (0x2D, 'x', 'X'), (0x2E, 'c', 'C'), (0x2F, 'v', 'V'), (0x30, 'b', 'B'), (0x31, 'n', 'N'),
  (0x32, 'm', 'M'), (0x33, ',', '<'), (0x34, '.', '>'), (0x35, '/', '?'),
  (0x39, ' ', ' ')]

def legendOf (legends : Char × Char) (shifted : Bool) : UInt8 := (if shifted then legends.2 else legends.1).toUInt8

/-- The character of a key, with a shift key held or not; nothing for a byte that is no press of one. -/
def legend (data : UInt8) (shifted : Bool) : List UInt8 :=
  match usLayout.lookup data with
  | some legends => [legendOf legends shifted]
  | none => []

def IsPrintable (data : UInt8) : Prop := (usLayout.lookup data).isSome

instance (data : UInt8) : Decidable (IsPrintable data) := inferInstanceAs (Decidable (_ = true))

/-- The press or release of a printable key or of a shift key. -/
def InBlock (data : UInt8) : Prop := IsPrintable (data &&& 0x7F) ∨ data &&& 0x7F = 0x2A ∨ data &&& 0x7F = 0x36

instance (data : UInt8) : Decidable (InBlock data) := inferInstanceAs (Decidable (_ ∨ _))

/-- A shift key is held. -/
def shiftHeld (run : List UInt8) : Bool := held 0x2A 0xAA run || held 0x36 0xB6 run

/-- The characters a run should type; `done` has come before it. -/
def expectedText : List UInt8 → List UInt8 → List UInt8
  | _, [] => []
  | done, data :: run => legend data (shiftHeld done) ++ expectedText (done ++ [data]) run

/-! ## The handler -/

/-- The characters that `keyboard_callback` passes to `fb_print_cell`, with `ch` from `compute_key`. -/
def cellsOf (k : KeyboardEvent) (ch : UInt8) : List UInt8 :=
  if ch = 0 then
    if k.isBackspace then [32]
    else if k.isReturn then []
    -- four spaces by `fb_print_str`
    else if k.isTab then []
    else if k.isDelete then [32]
    else if k.isArrowLeft then []
    else if k.isArrowRight then []
    else if k.isArrowUp then []
    else if k.isArrowDown then []
    -- the literals of the message of `switch_page_directory`
    else if k.isEscape then ascii "Loading Page Directory "
    else []
  else if k.released ≠ 0 then []
  else [ch]

def printedCells (data : UInt8) (s : Kernel) : List UInt8 :=
  cellsOf (readScanCode data) (computeKey (readScanCode data) s).1

/-- The characters of a whole run. -/
def typedText : List UInt8 → Kernel → List UInt8
  | [], _ => []
  | data :: run, s => printedCells data s ++ (keyboardCallback data s).elim [] (typedText run)

theorem typedText_cons (data : UInt8) (run : List UInt8) (s : Kernel) : typedText (data :: run) s =
    printedCells data s ++ (keyboardCallback data s).elim [] (typedText run) := rfl

/-! ## One byte -/

/-- The characters an action prints with `fb_print_cell`. -/
def KeyAction.cells : KeyAction → List UInt8
  | .print ch => [ch]
  | .backspace | .delete => [32]
  | .escape => ascii "Loading Page Directory "
  | _ => []

theorem specialAction_cells (k : KeyboardEvent) : (specialAction k).cells = cellsOf k 0 := by
  simp only [specialAction, apply_ite KeyAction.cells]
  rfl

theorem printedCells_eq (data : UInt8) (s : Kernel) : printedCells data s = (keyAction data (s.kbShift ≠ 0)).cells := by
  have hmodifier := @specialAction_modifier data
  unfold printedCells keyAction computeKey
  generalize readScanCode data = k at hmodifier ⊢
  by_cases hshift : k.isShift
  · have hnone : cellsOf k 0 = [] := by rw [← specialAction_cells, hmodifier (.inl hshift)]; rfl
    simp only [if_pos hshift]
    split
    · exact hnone
    · exact hnone
  · by_cases hctrl : k.isCtrl
    · simp only [if_neg hshift, if_pos hctrl]
      rw [← specialAction_cells, hmodifier (.inr (.inl hctrl))]
      rfl
    · by_cases halt : k.isAlt
      · simp only [if_neg hshift, if_neg hctrl, if_pos halt]
        rw [← specialAction_cells, hmodifier (.inr (.inr halt))]
        rfl
      · simp only [if_neg hshift, if_neg hctrl, if_neg halt]
        generalize keyChar k (s.kbShift ≠ 0) = ch
        by_cases hch : ch = 0
        · rw [if_pos hch, specialAction_cells, hch]
        · rw [if_neg hch, cellsOf, if_neg hch]
          split <;> rfl

/-- What the press of a key prints: its legend, but for the quote, which prints the slash. -/
def keyPrints (data : UInt8) (legends : Char × Char) (shifted : Bool) : UInt8 :=
  if data = 0x28 then legendOf ('/', '?') shifted else legendOf legends shifted

theorem keyAction_layout : ∀ key ∈ usLayout, ∀ shifted : Bool,
    keyAction key.1 shifted = .print (keyPrints key.1 key.2 shifted) := by
  decide +kernel

/-- The two legends of a key differ, but for the space, and the slash is none of the quote's. -/
theorem keyPrints_eq_iff : ∀ key ∈ usLayout, ∀ shifted down : Bool,
    keyPrints key.1 key.2 shifted = legendOf key.2 down ↔ key.1 ≠ 0x28 ∧ (key.1 = 0x39 ∨ shifted = down) := by
  decide +kernel

theorem IsPrintable.key {data : UInt8} (h : IsPrintable data) :
    ∃ legends, (data, legends) ∈ usLayout ∧ ∀ down, legend data down = [legendOf legends down] := by
  obtain ⟨legends, hlegends⟩ := Option.isSome_iff_exists.1 h
  obtain ⟨before, after, hlayout, -⟩ := List.lookup_eq_some_iff.1 hlegends
  refine ⟨legends, by rw [hlayout]; simp, fun down => ?_⟩
  rw [legend, hlegends]

/-- The press of a printable key prints one character, and does nothing else. -/
theorem keyboardCallback_printable {data : UInt8} (h : IsPrintable data) (s : Kernel) :
    (printedCells data s).length = 1 ∧
      keyboardCallback data s = some (s.onVga (printCells (printedCells data s) 0 15)) := by
  obtain ⟨legends, hkey, -⟩ := h.key
  have haction := keyAction_layout (data, legends) hkey (s.kbShift ≠ 0)
  rw [printedCells_eq, keyboardCallback_eq, haction]
  exact ⟨rfl, rfl⟩

/-- It is the character of the key when the key is not the quote and `KB_SHIFT` is right, or the key
the space. -/
theorem printedCells_legend_iff {data : UInt8} (h : IsPrintable data) (s : Kernel) (down : Bool) :
    printedCells data s = legend data down ↔ data ≠ 0x28 ∧ (data = 0x39 ∨ decide (s.kbShift ≠ 0) = down) := by
  obtain ⟨legends, hkey, hlegend⟩ := h.key
  rw [printedCells_eq, keyAction_layout (data, legends) hkey (s.kbShift ≠ 0), hlegend,
    ← keyPrints_eq_iff (data, legends) hkey (s.kbShift ≠ 0) down]
  exact ⟨fun heq => List.head_eq_of_cons_eq heq, fun heq => congrArg (fun c => [c]) heq⟩

theorem and_seven_bits : ∀ data : UInt8, data < 0x80 → data &&& 0x7F = data := by
  decide +kernel

/-- All other bytes of the block print nothing, and none of them is a press of a printable key. -/
theorem printedCells_other {data : UInt8} (hblock : InBlock data) (h : ¬ IsPrintable data) (s : Kernel) (down : Bool) :
    printedCells data s = [] ∧ legend data down = [] := by
  have hlegend : legend data down = [] := by
    rw [legend, Option.not_isSome_iff_eq_none.1 h]
  refine ⟨?_, hlegend⟩
  rw [printedCells_eq]
  by_cases hrelease : 0x80 ≤ data
  · rw [keyAction_release data _ hrelease]
    split
    · rfl
    · split <;> rfl
  · have hshift : data = 0x2A ∨ data = 0x36 := by
      rw [InBlock, and_seven_bits data (UInt8.not_le.1 hrelease)] at hblock
      exact hblock.resolve_left h
    rcases keyAction_cases data (s.kbShift ≠ 0) with ⟨-, haction⟩ | ⟨hr, -⟩ | ⟨rfl, -⟩ | ⟨rfl, -⟩ | ⟨⟨hp, -⟩, -⟩
    · rw [haction]; rfl
    · rcases hr with rfl | rfl <;> exact absurd hshift (by decide)
    · exact absurd hshift (by decide)
    · exact absurd hshift (by decide)
    · exact absurd hshift hp

/-! ## Runs -/

/-- Whether the latest event of the two shift keys is a press. -/
def shiftFlag (run : List UInt8) : Bool :=
  run.foldl (fun flag data =>
    if data = 0x2A ∨ data = 0x36 then true else if data = 0xAA ∨ data = 0xB6 then false else flag) false

theorem shiftFlag_snoc (run : List UInt8) (data : UInt8) : shiftFlag (run ++ [data]) =
    if data = 0x2A ∨ data = 0x36 then true else if data = 0xAA ∨ data = 0xB6 then false else shiftFlag run := by
  rw [shiftFlag, List.foldl_append]
  rfl

/-- A press that comes out as it should after `done`. -/
def TypesLegend (done : List UInt8) (data : UInt8) : Prop :=
  IsPrintable data → data ≠ 0x28 ∧ (data = 0x39 ∨ shiftFlag done = shiftHeld done)

/-- What one event prints: as many characters as it should, and the right ones when the press comes out
as it should. -/
theorem printedCells_iff {data : UInt8} (hblock : InBlock data) {done : List UInt8} {s : Kernel}
    (hflag : s.kbShift ≠ 0 ↔ shiftFlag done) :
    (printedCells data s).length = (legend data (shiftHeld done)).length ∧
    (printedCells data s = legend data (shiftHeld done) ↔ TypesLegend done data) := by
  by_cases hprint : IsPrintable data
  · obtain ⟨legends, -, hlegend⟩ := hprint.key
    have hbool : decide (s.kbShift ≠ 0) = shiftFlag done := by
      rw [Bool.eq_iff_iff, decide_eq_true_eq]
      exact hflag
    constructor
    · rw [hlegend]
      exact (keyboardCallback_printable hprint s).1
    · rw [printedCells_legend_iff hprint, hbool]
      exact ⟨fun h _ => h, fun h => h hprint⟩
  · obtain ⟨hcells, hlegend⟩ := printedCells_other hblock hprint s (shiftHeld done)
    rw [hcells, hlegend]
    exact ⟨rfl, iff_of_true rfl fun h => absurd h hprint⟩

theorem typedText_iff : ∀ (run done : List UInt8) (s : Kernel), (∀ data ∈ run, InBlock data) →
    (s.kbShift ≠ 0 ↔ shiftFlag done) →
    (typedText run s = expectedText done run ↔ ∀ pre data, pre ++ [data] <+: run → TypesLegend (done ++ pre) data)
  | [], done, s, _, _ => by
    refine iff_of_true rfl fun pre data hpre => ?_
    exact absurd (List.prefix_nil.1 hpre) (by simp)
  | data :: run, done, s, hblock, hflag => by
    obtain ⟨s', hs', hshift, -, -⟩ := keyboardCallback_flags data s
    have hflag' : s'.kbShift ≠ 0 ↔ shiftFlag (done ++ [data]) := by
      rw [hshift, shiftFlag_snoc]
      split
      · simp
      · split
        · simp
        · exact hflag
    have hrest := typedText_iff run (done ++ [data]) s' (fun d hd => hblock d (List.mem_cons_of_mem _ hd)) hflag'
    obtain ⟨hlength, hfirst⟩ := printedCells_iff (hblock data List.mem_cons_self) hflag
    rw [typedText_cons, hs', expectedText, Run.forall_prefix_cons, List.append_nil, ← hfirst, Option.elim_some]
    simp only [← List.append_cons] at hrest ⊢
    rw [← hrest]
    constructor
    · intro h
      exact List.append_inj h hlength
    · rintro ⟨h1, h2⟩
      rw [h1, h2]

/-- One shift key at a time: never both, and a key is released only while it is held. -/
structure OneShift (run : List UInt8) : Prop where
  atMostOne : ∀ pre, pre <+: run → ¬ (held 0x2A 0xAA pre ∧ held 0x36 0xB6 pre)
  releases : ∀ pre data, pre ++ [data] <+: run →
    (data = 0xAA → held 0x2A 0xAA pre) ∧ (data = 0xB6 → held 0x36 0xB6 pre)

/-- With one shift key at a time the flag is right. -/
theorem OneShift.flag {run : List UInt8} (h : OneShift run) : ∀ pre, pre <+: run → shiftFlag pre = shiftHeld pre := by
  intro pre
  induction pre using List.reverseRecOn with
  | nil => exact fun _ => rfl
  | append_singleton pre data ih =>
    intro hpre
    have hpre' : pre <+: run := (List.prefix_append pre [data]).trans hpre
    have hflag := ih hpre'
    have hone := h.atMostOne pre hpre'
    obtain ⟨hleft, hright⟩ := h.releases pre data hpre
    rw [shiftFlag_snoc, shiftHeld, held_snoc, held_snoc, hflag, shiftHeld]
    rcases eq_or_ne data 0x2A with rfl | hl
    · rfl
    rcases eq_or_ne data 0x36 with rfl | hr
    · simp
    rcases eq_or_ne data 0xAA with rfl | hlu
    · have hother : held 0x36 0xB6 pre = false := Bool.eq_false_iff.2 fun hr => hone ⟨hleft rfl, hr⟩
      simp [hother]
    rcases eq_or_ne data 0xB6 with rfl | hru
    · have hother : held 0x2A 0xAA pre = false := Bool.eq_false_iff.2 fun hl => hone ⟨hl, hright rfl⟩
      simp [hother]
    · simp only [hl, hr, hlu, hru, or_self, if_false]

/-- From all keys up, a run types what the keys say exactly when the quote is not pressed and
`KB_SHIFT` is right at every other press but the space's; with one shift key at a time it always is. -/
theorem typing_faithful_iff (m : Machine) (run : List UInt8) (hblock : ∀ data ∈ run, InBlock data) :
    (typedText run (.start m) = expectedText [] run ↔ ∀ pre data, pre ++ [data] <+: run → TypesLegend pre data) ∧
    (OneShift run → (typedText run (.start m) = expectedText [] run ↔ 0x28 ∉ run)) := by
  have htyped := typedText_iff run [] (.start m) hblock (by simp [Kernel.start, shiftFlag])
  simp only [List.nil_append] at htyped
  refine ⟨htyped, fun hone => htyped.trans ?_⟩
  constructor
  · intro h hmem
    obtain ⟨pre, post, rfl⟩ := List.append_of_mem hmem
    have hquote := h pre 0x28 ⟨post, by simp⟩ (by decide)
    exact hquote.1 rfl
  · intro h pre data hpre _
    have hpre' : pre <+: run := (List.prefix_append pre [data]).trans hpre
    refine ⟨?_, .inr (hone.flag pre hpre')⟩
    rintro rfl
    exact h (hpre.subset (by simp))

/-- Shift and `h`, then `i`. -/
theorem typing_faithful_hi :
    typedText [0x2A, 0x23, 0xA3, 0xAA, 0x17, 0x97] (.start .powerOn) = ascii "Hi" := by
  have hgood : ∀ pre data, pre ++ [data] <+: [0x2A, 0x23, 0xA3, 0xAA, 0x17, 0x97] → TypesLegend pre data := by
    simp only [Run.forall_prefix_cons, TypesLegend]
    refine ⟨by decide, by decide, by decide, by decide, by decide, by decide, fun pre data hpre => ?_⟩
    exact absurd (List.prefix_nil.1 hpre) (by simp)
  have htyped := (typing_faithful_iff .powerOn [0x2A, 0x23, 0xA3, 0xAA, 0x17, 0x97] (by decide +kernel)).1.2 hgood
  rw [htyped]
  decide

/-- The quote types a slash. -/
theorem quote_types_slash : typedText [0x28] (.start .powerOn) = ascii "/" ∧
    typedText [0x28] (.start .powerOn) ≠ expectedText [] [0x28] := by
  have hprint : IsPrintable 0x28 := by decide
  have htyped : typedText [0x28] (.start .powerOn) = ascii "/" := by
    rw [typedText_cons, (keyboardCallback_printable hprint _).2, printedCells_eq]
    decide
  refine ⟨htyped, ?_⟩
  rw [htyped]
  decide

end HavenOS
