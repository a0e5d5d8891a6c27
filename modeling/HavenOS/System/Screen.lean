/-
What holds of the console and of the memory in every run: the cursor on the screen is `cursor_pos`, which
never leaves the screen, and a program sees the first 4 MiB as they are, through any segment and either
directory, and nothing else.
-/
import HavenOS.System.Attention
import HavenOS.System.Start

namespace HavenOS

open Ram X86

/-! ## What every event keeps -/

/-- What every key and every statement of `kmain` keep of the console is kept in every run. -/
theorem Agenda.run_console {P : Kernel → Prop}
    (hkey : ∀ code k k', keyboardCallback code k = some k' → P k → P k')
    (hstatement : ∀ (statement : Statement) k, P k → P (k.onVga statement.onScreen)) {a : Agenda} (h : P a.console)
    (events : List Event) : P (a.run events).console := by
  have htype : ∀ code (a : Agenda), P a.console → P (a.type code).console := fun code a ha => by
    obtain ⟨k, hk, -⟩ := keyboardCallback_spec code a.console
    show P ((keyboardCallback code a.console).getD a.console)
    rw [hk]
    exact hkey code a.console k hk ha
  have htake : ∀ a : Agenda, P a.console → P a.takeKey.console := fun a ha => by
    cases hqueue : a.queue with
    | nil =>
      rw [a.takeKey_nil hqueue]
      exact htype _ _ ha
    | cons code queue =>
      rw [a.takeKey_cons hqueue]
      exact htype _ _ ha
  induction events generalizing a with
  | nil => exact h
  | cons event events ih =>
    refine ih (show P (a.step event).console from ?_)
    cases event with
    | timer | device | fault => exact h
    | key code =>
      rw [step, press_eq]
      exact h
    | interrupt =>
      rcases a.interrupt_cases with ⟨hsame, -⟩ | ⟨line, hserve, -⟩
      · rwa [hsame]
      · rw [hserve]
        rcases a.serve_cases line with ⟨-, -, heq⟩ | ⟨-, -, heq⟩ | ⟨-, -, heq⟩
        · rwa [heq]
        · rw [heq]
          exact htake _ h
        · rwa [heq]
    | proceed =>
      rcases a.proceed_cases with ⟨hsame, -⟩ | ⟨statement, todo, -, heq⟩
      · rwa [hsame]
      · have hshown := hstatement statement a.console h
        rw [heq]
        cases statement <;> exact hshown

/-! ## The cursor -/

/-- Bytes for other devices do not show. -/
theorem Crtc.after_crtSent (c : Crtc) (ps : List (UInt16 × UInt8)) : c.after (crtSent ps) = c.after ps := by
  induction ps with
  | nil => rfl
  | cons write ps ih =>
    rw [crtSent, List.filter_cons]
    split
    · exact congrArg (fun c : Crtc => c.out write) ih
    · rename_i hother
      simp only [decide_eq_true_eq, not_or] at hother
      have hout : ∀ c : Crtc, c.out write = c := fun c => by rw [Crtc.out, if_neg hother.1, if_neg hother.2]
      exact ih.trans (hout _).symm

theorem Coherent.congr {c : Crtc} {v v' : Vga} (h : Coherent c v) (hcursor : v'.cursorPos = v.cursorPos)
    (hsent : crtSent v'.ports = crtSent v.ports) : Coherent c v' := by
  rw [Coherent, ← Crtc.after_crtSent, hsent, Crtc.after_crtSent, hcursor]
  exact h

theorem Coherent.keyboardCallback {c : Crtc} {code : UInt8} {k k' : Kernel}
    (hk : HavenOS.keyboardCallback code k = some k') (h : Coherent c k.vga) : Coherent c k'.vga := by
  obtain ⟨k1, hk1, hvga, -⟩ := keyboardCallback_spec code k
  cases hk.symm.trans hk1
  obtain ⟨hsets, hkeeps⟩ := (keyAction code (k.kbShift ≠ 0)).onScreen_cursor c (k.directories 1) k.vga
  rw [hvga]
  cases hset : (keyAction code (k.kbShift ≠ 0)).setsCursor with
  | true => exact hsets hset
  | false =>
    obtain ⟨hcursor, hports⟩ := hkeeps hset
    exact h.congr hcursor (congrArg crtSent hports)

theorem Coherent.onScreen {c : Crtc} (statement : Statement) {v : Vga} (h : Coherent c v) :
    Coherent c (statement.onScreen v) := by
  cases statement with
  | initTimer => exact coherent_runPieces c _ 1 1 _ 0 v (.inr h)
  | initKeyboard | clear => exact h
  | moveCursor => exact coherent_outCursor c _
  | printCell => exact coherent_offsetCursor c 1 _

theorem Agenda.run_coherent {c : Crtc} {a : Agenda} (h : Coherent c a.console.vga) (events : List Event) :
    Coherent c (a.run events).console.vga :=
  Agenda.run_console (P := fun k => Coherent c k.vga) (fun _ _ _ hk => Coherent.keyboardCallback hk)
    (fun statement _ => Coherent.onScreen statement) h events

/-! ## The place of the cursor -/

theorem Within.keyboardCallback {code : UInt8} {k k' : Kernel} (hk : HavenOS.keyboardCallback code k = some k')
    (h : Within k.vga) : Within k'.vga := by
  obtain ⟨k1, hk1, hvga, -⟩ := keyboardCallback_spec code k
  cases hk.symm.trans hk1
  rw [hvga]
  exact ((keyAction code (k.kbShift ≠ 0)).onScreen_shows (k.directories 1) h.shows_page).within

theorem Within.onScreen (statement : Statement) {v : Vga} (h : Within v) : Within (statement.onScreen v) := by
  cases statement with
  | initTimer => exact Within.runPieces _ 1 1 _ 0 h
  | initKeyboard | clear => exact ⟨h.low, h.high⟩
  | moveCursor =>
    have hcursor : ((3 : UInt16).toInt16).toInt = 3 := rfl
    exact ⟨by rw [Statement.onScreen, fbMoveCursor, outCursor_cursorPos, hcursor]; decide,
      by rw [Statement.onScreen, fbMoveCursor, outCursor_cursorPos, hcursor]; decide⟩
  | printCell => exact within_offsetCursor 1 _

theorem Agenda.run_within {a : Agenda} (h : Within a.console.vga) (events : List Event) :
    Within (a.run events).console.vga :=
  Agenda.run_console (P := fun k => Within k.vga) (fun _ _ _ hk => Within.keyboardCallback hk)
    (fun statement _ => Within.onScreen statement) h events

/-! ## The memory -/

theorem Kernel.onVga_paging (k : Kernel) (f : Vga → Vga) : (k.onVga f).memory = k.memory ∧
    (k.onVga f).directories = k.directories ∧ (k.onVga f).cr0 = k.cr0 ∧
    ((k.onVga f).cr3 = k.cr3 ∨ (k.onVga f).cr3 = k.directories 1) := ⟨rfl, rfl, rfl, .inl rfl⟩

/-- A key loads the other directory or none. -/
theorem KeyAction.run_paging (a : KeyAction) (k : Kernel) : ∃ k', a.run k = some k' ∧ k'.memory = k.memory ∧
    k'.directories = k.directories ∧ k'.cr0 = k.cr0 ∧ (k'.cr3 = k.cr3 ∨ k'.cr3 = k.directories 1) := by
  cases a with
  | escape =>
    refine ⟨_, (show KeyAction.run .escape k = onEscape k from rfl).trans (onEscape_eq k), ?_⟩
    exact ⟨rfl, rfl, rfl, .inr rfl⟩
  | shift | ctrl | alt => exact ⟨_, rfl, rfl, rfl, rfl, .inl rfl⟩
  | _ => exact ⟨k.onVga _, rfl, k.onVga_paging _⟩

/-- The tables are as `initialise_paging` leaves them, and one of the two directories is in use. -/
structure Paged (layout : Layout) (m : Machine) : Prop where
  tables : TablesReady layout m
  directory : m.cr3 = layout.kernelPageDirectory ∨ m.cr3 = layout.otherPageDirectory
  enabled : m.cr0 &&& 0x80000000 ≠ 0

namespace Paged

variable {layout : Layout}

theorem congr {m m' : Machine} (h : Paged layout m) (hmemory : m'.memory = m.memory)
    (hdirectories : m'.directories = m.directories) (hcr0 : m'.cr0 = m.cr0)
    (hcr3 : m'.cr3 = m.cr3 ∨ m'.cr3 = m.directories 1) : Paged layout m' where
  tables := h.tables.congr hmemory hdirectories
  directory := by
    rcases hcr3 with hsame | hother
    · rw [hsame]
      exact h.directory
    · rw [hother]
      exact .inr h.tables.other
  enabled := by
    rw [hcr0]
    exact h.enabled

theorem keyboardCallback {code : UInt8} {k k' : Kernel} (hk : HavenOS.keyboardCallback code k = some k')
    (h : Paged layout k.toMachine) : Paged layout k'.toMachine := by
  obtain ⟨k1, hk1, hmemory, hdirectories, hcr0, hcr3⟩ := (keyAction code (k.kbShift ≠ 0)).run_paging k
  rw [keyboardCallback_eq, hk1] at hk
  obtain rfl : k1 = k' := Option.some.inj hk
  exact h.congr hmemory hdirectories hcr0 hcr3

theorem identityMapped {m : Machine} (h : Paged layout m) : IdentityMapped m.memory.val m.cr3 := by
  obtain ⟨hkernel, hother⟩ := h.tables.identityMapped
  rcases h.directory with hcr3 | hcr3
  · rw [hcr3, ← h.tables.kernel]
    exact hkernel
  · rw [hcr3, ← h.tables.other]
    exact hother

end Paged

theorem Agenda.run_paged {layout : Layout} {a : Agenda} (h : Paged layout a.console.toMachine) (events : List Event) :
    Paged layout (a.run events).console.toMachine :=
  Agenda.run_console (P := fun k => Paged layout k.toMachine) (fun _ _ _ hk => Paged.keyboardCallback hk)
    (fun _ _ hk => hk.congr rfl rfl rfl (.inl rfl)) h events

theorem Started.paged {sym : Symbols} {s s' : System} (h : Started sym s s') :
    Paged sym.layout s'.kernel.toMachine where
  tables := h.tables
  directory := .inl h.directory
  enabled := by
    rw [h.paging]
    exact or_and_self_ne_zero _ (by decide)

/-- What an address stands for, through the descriptor of its selector and, with paging on, the page
tables; `none` is a fault. -/
def System.translate (s : System) (selector : UInt16) (offset : UInt32) : Option Translation := do
  let a ← (s.segment selector).linear offset
  if s.kernel.cr0 &&& 0x80000000 ≠ 0 then walk s.kernel.memory.val s.kernel.cr3 a
  else some ⟨a.toNat, true, true⟩

/-- The four segments but the first are flat. -/
theorem gdtSegments_linear {i : Nat} (hi : i < gdtSegments.length) (hpos : 0 < i) (offset : UInt32) :
    gdtSegments[i].linear offset = some offset := by
  have hlast : offset.toNat ≤ 4294967295 := Nat.le_of_lt_succ offset.toNat_lt
  have hkinds : ∀ segment ∈ gdtSegments.drop 1, (segment.isCode || segment.isData) = true ∧
      segment.last = 4294967295 ∧ segment.base = 0 := by decide
  have hmem : gdtSegments[i] ∈ gdtSegments.drop 1 := by
    rw [List.mem_drop_iff_getElem]
    exact ⟨i - 1, by omega, by congr 1; omega⟩
  obtain ⟨hkind, hlimit, hbase⟩ := hkinds _ hmem
  rw [Segment.linear, hkind, hlimit, hbase, decide_eq_true hlast, UInt32.zero_add]
  rfl

/-- The first 4 MiB as they are, and nothing else. -/
theorem Wired.translate {sym : Addresses} {layout : Layout} {s : System} (h : Wired sym s)
    (hpaged : Paged layout s.kernel.toMachine) {selector : UInt16} (hpos : 8 ≤ selector.toNat)
    (hlast : selector.toNat < 40) (offset : UInt32) :
    s.translate selector offset = if offset < 0x400000 then some ⟨offset.toNat, true, false⟩ else none := by
  have hi : selector.toNat / 8 < gdtSegments.length := by
    show selector.toNat / 8 < 5
    omega
  rw [System.translate, segment_of_entries h.gdtr h.entries hi, gdtSegments_linear hi (by omega)]
  show (if s.kernel.cr0 &&& 0x80000000 ≠ 0 then walk s.kernel.memory.val s.kernel.cr3 offset
    else some ⟨offset.toNat, true, true⟩) = _
  rw [if_pos hpaged.enabled]
  exact hpaged.identityMapped offset

end HavenOS
