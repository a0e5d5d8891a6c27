/-
What `kmain` has set up when it turns the interrupts on, from any state of the machine: the machine
follows an agenda with nothing on it, the message has gone out over COM1, the page tables are filled and
in use, and the cursor is on the screen and shown where it is.
-/
import HavenOS.Console.Crtc
import HavenOS.Keyboard.Page
import HavenOS.System.Boot

namespace HavenOS

open Ram X86

/-! ## initialise_paging -/

/-- The messages of `initialise_paging` up to the first switch. -/
def pagingMessages (v : Vga) : Vga :=
  let v := fbMoveCursor 0 { v with fb := fbClear 0 0 v.fb }
  let v := printLine "Setting up Paging..." fbNumColumns v
  let v := printLine "Page Directory Setup..." (fbNumColumns - 1) v
  let v := printLine "Page Table Setup..." (fbNumColumns - 1) v
  printLine "Insert Page Table -> Page Directory..." (fbNumColumns - 1) v

theorem sendsCrt_pagingMessages : SendsCrt pagingMessages := by
  have hclear : SendsCrt fun v => { v with fb := fbClear 0 0 v.fb } := .of_silent fun _ _ => rfl
  have hstart := (sendsCrt_moveCursor 0).comp hclear
  have hsetting := (sendsCrt_printLine "Setting up Paging..." fbNumColumns).comp hstart
  have hdirectory := (sendsCrt_printLine "Page Directory Setup..." (fbNumColumns - 1)).comp hsetting
  have htable := (sendsCrt_printLine "Page Table Setup..." (fbNumColumns - 1)).comp hdirectory
  exact (sendsCrt_printLine "Insert Page Table -> Page Directory..." (fbNumColumns - 1)).comp htable

theorem fillTables_vga (layout : Layout) (m : Machine) : (fillTables layout m).vga = pagingMessages m.vga := by
  simp only [fillTables, Machine.printLine, pagingMessages]

theorem fillTables_cr0 (layout : Layout) (m : Machine) : (fillTables layout m).cr0 = m.cr0 := by
  simp only [fillTables, Machine.printLine]

/-- The console after `initialise_paging`. -/
def pagingConsole (layout : Layout) (v : Vga) : Vga :=
  printLine "Done?..." (fbNumColumns - 1) (printLine "Enabling Paging Mode..." (fbNumColumns - 1)
    (switchConsole layout.kernelPageDirectory (pagingMessages v)))

theorem sendsCrt_pagingConsole (layout : Layout) : SendsCrt (pagingConsole layout) := by
  have hswitch := (sendsCrt_switchConsole layout.kernelPageDirectory).comp sendsCrt_pagingMessages
  have henabling := (sendsCrt_printLine "Enabling Paging Mode..." (fbNumColumns - 1)).comp hswitch
  exact (sendsCrt_printLine "Done?..." (fbNumColumns - 1)).comp henabling

theorem coherent_pagingConsole (layout : Layout) (c : Crtc) (v : Vga) : Coherent c (pagingConsole layout v) := by
  rw [pagingConsole, printLine]
  exact coherent_startOfRow c _

theorem within_pagingConsole (layout : Layout) (v : Vga) : Within (pagingConsole layout v) := by
  rw [pagingConsole, printLine]
  exact (within_offsetCursor _ _).startOfRow

theorem initialisePaging_spec (layout : Layout) (m : Machine) : ∃ m', initialisePaging layout m = some m' ∧
    TablesReady layout m' ∧ m'.cr3 = layout.kernelPageDirectory ∧ m'.cr0 = m.cr0 ||| 0x80000000 ∧
    m'.vga = pagingConsole layout m.vga := by
  have hready := fillTables_ready layout m
  have hdirectory : (fillTables layout m).directories (0 : UInt32).toNat = layout.kernelPageDirectory := hready.kernel
  have hvga := fillTables_vga layout m
  have hcr0 := fillTables_cr0 layout m
  rw [initialisePaging, switchPageDirectoryI, hdirectory, switchPageDirectory_eq]
  generalize fillTables layout m = filled at hready hvga hcr0 ⊢
  refine ⟨_, rfl, hready.congr ?_ ?_, ?_, ?_, ?_⟩
  · simp only [Machine.printLine_memory, enablePaging_memory]
  · simp only [Machine.printLine_directories, enablePaging_directories]
  · simp only [Machine.printLine_cr3, enablePaging_cr3]
  · simp only [Machine.printLine, enablePaging, hcr0]
  · simp only [Machine.printLine, enablePaging, hvga, pagingConsole]

/-! ## The agenda -/

/-- With nothing requested and nothing registered, and the rest of `kmain` to be done. -/
def Agenda.start (s : System) : Agenda where
  requests := ∅
  read := s.keys.read
  queue := s.keys.queue
  tick := s.tick
  console := s.kernel
  timer := false
  keyboard := false
  todo := [.initTimer, .initKeyboard, .clear, .moveCursor, .printCell]
  program := s.cpu

/-- A bit that was just set. -/
theorem or_and_self_ne_zero (x : UInt32) {flag : UInt32} (h : flag ≠ 0) : (x ||| flag) &&& flag ≠ 0 := by
  intro hzero
  refine h (UInt32.toNat_inj.1 (Nat.eq_of_testBit_eq fun i => ?_))
  have hbit := congrArg (fun y : UInt32 => y.toNat.testBit i) hzero
  simp only [UInt32.toNat_and, UInt32.toNat_or, Nat.testBit_and, Nat.testBit_or, UInt32.toNat_zero,
    Nat.zero_testBit] at hbit ⊢
  cases hflag : flag.toNat.testBit i with
  | false => rfl
  | true =>
    rw [hflag, Bool.or_true] at hbit
    exact hbit

/-- What `kmain` has done when the interrupts are on. -/
structure Started (sym : Symbols) (s s' : System) : Prop where
  follows : Follows sym.toAddresses s' (.start s')
  keys : s'.keys = s.keys
  tick : s'.tick = s.tick
  modifiers : s'.kernel.kbShift = s.kernel.kbShift ∧ s'.kernel.kbCtrl = s.kernel.kbCtrl ∧
    s'.kernel.kbAlt = s.kernel.kbAlt
  tables : TablesReady sym.layout s'.kernel.toMachine
  directory : s'.kernel.cr3 = sym.layout.kernelPageDirectory
  paging : s'.kernel.cr0 = s.kernel.cr0 ||| 0x80000000
  shown : ∀ c, Coherent c s'.kernel.vga
  within : Within s'.kernel.vga
  sent : s'.serial.sent (serialDataPort serialCom1Base) =
    (serialStart s.serial).sent (serialDataPort serialCom1Base) ++ debugMessage bootMessage

variable (sym : Symbols) (env : Compiled) {device : Device}

/-- The message is sent with its NUL: its size is passed as its length. -/
theorem bootMessage_sends (hready : EventuallyReady device serialCom1Base) (p : Serial) :
    Sends (printDebug device bootMessage (UInt32.ofNat bootMessage.length)) (serialStart p)
      (debugMessage bootMessage) := by
  have hopen : (serialStart p).serialOpen ≠ 0 := by
    show (1 : UInt8) ≠ 0
    decide
  exact three_writes hready hopen bootMessage (UInt32.ofNat bootMessage.length + 1) (by decide)

/-- Nothing is sent. -/
theorem onKernel_silent {s : System} {f : Kernel → Kernel} (h : (f s.kernel).vga.ports = s.kernel.vga.ports) :
    s.onKernel (fun k => some (f k)) = some { s with kernel := f s.kernel } := by
  rw [System.onKernel, Option.bind_some, h, received_self]

theorem kmainStart_spec (hready : EventuallyReady device serialCom1Base) (s : System) :
    ∃ s', Settles (kmainStart sym env device · s) s' ∧ Started sym s s' := by
  obtain ⟨s1, htables, hprepared⟩ := initDescriptorTables_spec sym s
  obtain ⟨m, hpaging, hmaps, hcr3, hcr0, hvga⟩ := initialisePaging_spec sym.layout s1.kernel.toMachine
  obtain ⟨serial, ⟨N, hserial⟩, hsent⟩ := bootMessage_sends hready s.serial
  obtain ⟨v, hkernel⟩ := hprepared.kernel
  have hquiet1 : received s1.kernel.vga.ports m.vga.ports s1.pics = s1.pics := by
    rw [hvga]
    exact (sendsCrt_pagingConsole sym.layout).received s1.kernel.vga s1.pics
  -- the machine in front of the breakpoint
  let paged : System := { s1 with kernel := { s1.kernel with toMachine := m } }
  let s2 : System := { paged with
    kernel := paged.kernel.onVga fun v => { v with fb := fbClear 1 1 v.fb }, serial := serial }
  have hwired : Wired sym.toAddresses s2 := ⟨hprepared.wired.flat, hprepared.wired.gdtr, hprepared.wired.idtr,
    hprepared.wired.entries, hprepared.wired.gates⟩
  obtain ⟨cpu, hcpu, hbreak⟩ := hwired.deliver_ignored sym env (v := 3) (by decide) (hprepared.handlers 3 (by decide)) 0
  have hpaged : s1.onKernel (Kernel.onMachine (initialisePaging sym.layout)) =
      some paged := by
    rw [System.onKernel, Kernel.onMachine, hpaging]
    simp only [Option.bind_eq_bind, Option.bind_some, hquiet1]
    rfl
  have hcleared : ({ paged with serial := serialStart s1.serial } : System).onKernel (fun k => some (k.onVga fun v =>
      { v with fb := fbClear 1 1 v.fb })) = some { paged with
        kernel := paged.kernel.onVga fun v => { v with fb := fbClear 1 1 v.fb },
        serial := serialStart s1.serial } := onKernel_silent rfl
  refine ⟨{ s2 with
    cpu := { cpu with eflags := cpu.eflags ||| 0x200 },
    todo := [.initTimer, .initKeyboard, .clear, .moveCursor, .printCell] }, ⟨N, fun fuel hfuel => ?_⟩, ?_⟩
  · have hfuel := hserial fuel hfuel
    rw [← hprepared.serial] at hfuel
    show kmainStart sym env device fuel s = _
    rw [kmainStart]
    refine Option.bind_eq_some_iff.2 ⟨s1, htables, Option.bind_eq_some_iff.2 ⟨paged, hpaged, ?_⟩⟩
    refine Option.bind_eq_some_iff.2 ⟨_, hcleared, Option.bind_eq_some_iff.2 ⟨serial, hfuel, ?_⟩⟩
    exact Option.bind_eq_some_iff.2 ⟨_, hbreak, rfl⟩
  · have hserving : Serving sym.toAddresses { s2 with
        cpu := { cpu with eflags := cpu.eflags ||| 0x200 },
        todo := [.initTimer, .initKeyboard, .clear, .moveCursor, .printCell] } :=
      ⟨⟨⟨(hcpu.flat hwired.flat).es, (hcpu.flat hwired.flat).fs, (hcpu.flat hwired.flat).gs⟩, hwired.gdtr, hwired.idtr,
        hwired.entries, hwired.gates⟩, or_and_self_ne_zero _ (by decide), hprepared.pics ▸ remapped_ready⟩
    refine ⟨⟨hserving, ?_, rfl, rfl, ⟨_, rfl, rfl⟩, fun v hv => ?_, rfl, .refl _⟩, hprepared.keys, hprepared.tick, ?_,
      hmaps.congr rfl rfl, hcr3, ?_, fun c => ?_, ?_, hsent⟩
    · show s1.pics.requests = ∅
      rw [hprepared.pics, remapped_requests]
    · have hnone : Agenda.registered (.start s2) sym.toAddresses v = 0 := by simp [Agenda.registered, Agenda.start]
      exact (hprepared.handlers v hv).trans hnone.symm
    · have hsame : s1.kernel.kbShift = s.kernel.kbShift ∧ s1.kernel.kbCtrl = s.kernel.kbCtrl ∧
          s1.kernel.kbAlt = s.kernel.kbAlt := by
        rw [hkernel]
        exact ⟨rfl, rfl, rfl⟩
      exact hsame
    · have hbefore : s1.kernel.cr0 = s.kernel.cr0 := by
        rw [hkernel]
        rfl
      exact hcr0.trans (congrArg (· ||| 0x80000000) hbefore)
    · -- the last message moves the cursor, and `fb_clear` does not
      have hshown := coherent_pagingConsole sym.layout c s1.kernel.vga
      rw [← hvga] at hshown
      exact hshown
    · have hwithin := within_pagingConsole sym.layout s1.kernel.vga
      rw [← hvga] at hwithin
      exact ⟨hwithin.low, hwithin.high⟩

end HavenOS
