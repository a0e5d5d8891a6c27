/-
The kernel from its first instruction on: `kmain` from any state of the machine, and then any events in
any order.
-/
import HavenOS.System.Screen
import HavenOS.System.Waiting

namespace HavenOS

open Ram X86

/-! ## Runs -/

section
variable (sym : Symbols) (env : Compiled) (device : Device)

/-- `kmain` up to its `sti`, and then the events, take the machine from `s` to `s'`. -/
def Reaches (s : System) (events : List Event) (s' : System) : Prop :=
  ∃ s0, Settles (kmainStart sym env device · s) s0 ∧ s0.run sym.toAddresses env events = some s'

end

/-- A key waits without a request, so the controller puts no other key on its port. -/
def System.Deaf (s : System) : Prop := keyboardLine ∉ s.pics.requests ∧ s.keys.queue ≠ []

/-- The next interrupt is that of the keyboard, and nothing is registered for it. -/
def System.Misses (sym : Addresses) (s : System) : Prop :=
  s.handler sym 33 = 0 ∧ Pic.highest s.pics.requests = some keyboardLine

/-- 1 while the timer has a request. -/
def System.timerWaits (s : System) : Nat := if timerLine ∈ s.pics.requests then 1 else 0

/-- The requests of other devices, and the keys. -/
def System.backlog (s : System) : Nat := (s.pics.requests.erase keyboardLine).card + s.keys.queue.length

/-- The requests of the timer that find none waiting, in a run. -/
def System.accepted (sym : Addresses) (env : Compiled) : List Event → System → Nat
  | [], _ => 0
  | event :: events, s => (if event.isTimer ∧ timerLine ∉ s.pics.requests then 1 else 0) +
      (event.run sym env s).elim 0 (System.accepted sym env events)

/-! ## The machine and its agenda -/

namespace Follows

variable {sym : Symbols} {s : System} {a : Agenda} (h : Follows sym.toAddresses s a)
include h

theorem queue_eq : s.keys.queue = a.queue := by rw [h.keys]

theorem read_eq : s.keys.read = a.read := by rw [h.keys]

theorem handler_keyboard : s.handler sym.toAddresses 33 = if a.keyboard then sym.keyboardCallback else 0 :=
  (h.handlers 33 (by decide)).trans (by simp [Agenda.registered])

theorem deaf_iff : s.Deaf ↔ a.Deaf := by
  rw [System.Deaf, Agenda.Deaf, h.requests, h.queue_eq]

theorem misses_iff : s.Misses sym.toAddresses ↔ a.Misses .interrupt := by
  rw [System.Misses, Agenda.Misses, h.requests, h.handler_keyboard]
  cases a.keyboard with
  | true => exact iff_of_false (fun hmiss => sym.keyboard_ne_null hmiss.1) fun hmiss => Bool.noConfusion hmiss.1
  | false => exact and_congr_left' (iff_of_true rfl rfl)

theorem timerWaits_eq : s.timerWaits = a.timerWaits := by
  rw [System.timerWaits, Agenda.timerWaits, h.requests]

theorem backlog_eq : s.backlog = a.backlog := by
  rw [System.backlog, Agenda.backlog, h.requests, h.queue_eq]

theorem faults (env : Compiled) (faults : List Event) (hfaults : ∀ fault ∈ faults, Event.isFault fault) :
    ∃ cpu, s.run sym.toAddresses env faults = some { s with cpu := cpu } ∧ Resumed s.cpu cpu := by
  induction faults generalizing s with
  | nil => exact ⟨s.cpu, rfl, .refl _⟩
  | cons fault faults ih =>
    cases fault with
    | timer | key | device | interrupt | proceed => exact absurd (hfaults _ List.mem_cons_self) Bool.false_ne_true
    | fault v errorCode ordinary =>
      obtain ⟨cpu, hcpu, hdeliver⟩ := h.fault env ordinary errorCode
      obtain ⟨cpu', hrest, hcpu'⟩ := ih (h.withCpu hcpu) fun fault hmem => hfaults fault (List.mem_cons_of_mem _ hmem)
      refine ⟨cpu', ?_, hcpu.trans hcpu'⟩
      rw [System.run, Run.run_cons]
      exact Option.bind_eq_some_iff.2 ⟨_, hdeliver, hrest⟩

theorem accepted_eq (env : Compiled) (events : List Event) :
    s.accepted sym.toAddresses env events = a.accepted events := by
  induction events generalizing s a with
  | nil => rfl
  | cons event events ih =>
    obtain ⟨s', hs', h'⟩ := h.step env event
    have hfirst : (if event.isTimer ∧ timerLine ∉ s.pics.requests then 1 else 0) = a.accepts event := by
      rw [h.requests]
      cases event with
      | timer =>
        by_cases hmem : timerLine ∈ a.requests <;> simp [Event.isTimer, Agenda.accepts, hmem]
      | key | device | fault | interrupt | proceed => rfl
    rw [System.accepted, Agenda.accepted, hs', hfirst, Option.elim_some, ih h']

end Follows

namespace Agenda

theorem start_balanced {s : System} (h : s.keys.queue = []) : (start s).Balanced :=
  iff_of_false (Finset.notMem_empty _) (not_not_intro h)

theorem start_deaf {s : System} (h : s.keys.queue ≠ []) : (start s).Deaf := ⟨Finset.notMem_empty _, h⟩

theorem start_balanced_or_deaf (s : System) : (start s).Balanced ∨ (start s).Deaf := by
  by_cases hempty : s.keys.queue = []
  · exact .inl (start_balanced hempty)
  · exact .inr (start_deaf hempty)

theorem run_start (s : System) (events : List Event) :
    ((start s).run events).Balanced ∨ ((start s).run events).Deaf :=
  run_balanced_or_deaf (start_balanced_or_deaf s) events

end Agenda

/-- A machine that hears its keyboard. -/
theorem Follows.attentive {sym : Symbols} {s0 s' : System} {events : List Event}
    (h : Follows sym.toAddresses s' ((Agenda.start s0).run events)) (htwo : 2 ≤ events.countP Event.isProceed)
    (hhears : ¬ s'.Deaf) : ((Agenda.start s0).run events).Attentive where
  keyboard := by
    have hfirst : Statement.initKeyboard ∈ (Agenda.start s0).todo.take 2 := List.mem_of_elem_eq_true rfl
    exact Agenda.run_has events _ (List.take_subset_take_left _ htwo hfirst)
  balanced := (Agenda.run_start s0 events).resolve_right fun hdeaf => hhears (h.deaf_iff.2 hdeaf)

/-! ## A machine -/

theorem apart_of_le {a b : UInt32} {n k : Nat} (h : a.toNat + n ≤ b.toNat) (hb : b.toNat + k ≤ 2 ^ 32) :
    Ram.Apart a n b k := fun i hi j hj e => by
  have hnat := congrArg UInt32.toNat e
  rw [toNat_cell, toNat_cell] at hnat
  omega

/-- The code from 1 MiB on, and the tables after it. -/
def codeAtOneMiB : Symbols where
  gdtEntries := 0x109000
  gdtPtr := 0x108000
  idtEntries := 0x10B000
  idtPtr := 0x108008
  interruptHandlers := 0x10A000
  isr v := UInt32.ofNat (0x100100 + 16 * v)
  irq n := UInt32.ofNat (0x100100 + 16 * (32 + n))
  timerCallback := 0x102000
  keyboardCallback := 0x102100
  layout := ⟨0x10C000, 0x10D000, 0x10E000, 0x10F000, by simp [X86.PageAligned], by decide⟩
  gdtPtr_gdt := apart_of_le (by decide) (by decide)
  idtPtr_gdt := apart_of_le (by decide) (by decide)
  idt_gdt := (apart_of_le (by decide) (by decide)).symm
  idtPtr_idt := apart_of_le (by decide) (by decide)
  handlers_gdt := (apart_of_le (by decide) (by decide)).symm
  handlers_idt := apart_of_le (by decide) (by decide)
  stubs_distinct v hv w hw h := by
    have hstub : ∀ n < 48, (if n < 32 then UInt32.ofNat (0x100100 + 16 * n)
        else UInt32.ofNat (0x100100 + 16 * (32 + (n - 32)))).toNat = 0x100100 + 16 * n := fun n hn => by
      split
      · rw [UInt32.toNat_ofNat']
        omega
      · rw [UInt32.toNat_ofNat']
        omega
    have hnat := congrArg UInt32.toNat h
    have heq := (hstub v hv).symm.trans (hnat.trans (hstub w hw))
    omega
  timer_ne_null := by decide
  keyboard_ne_null := by decide
  callbacks_distinct := by decide

/-- C code that leaves all registers alone. -/
def idle : Compiled := ⟨idleEnv, fun _ _ => rfl, fun _ _ _ _ => rfl⟩

/-- What the boot loader leaves: its own stack, memory all zeros, and the controllers unset. -/
def System.powerOn : System where
  cpu := {
    eax := 0, ecx := 0, edx := 0, ebx := 0, esp := 0x90000, ebp := 0, esi := 0, edi := 0, ds := 0x10, es := 0x10,
    fs := 0x10, gs := 0x10, cs := 0x08, eip := 0x100000, eflags := 2, memory := fun _ => 0, calls := [] }
  gdtr := ⟨0, 0⟩
  idtr := ⟨0, 0⟩
  ram := .fresh fun _ => 0
  kernel := .start .powerOn
  pics := ⟨⟨.mask, false, false, 0, 0, false, 0, ∅, ∅⟩, ⟨.mask, false, false, 0, 0, false, 0, ∅, ∅⟩⟩
  keys := ⟨[], []⟩
  serial := .powerOn
  tick := 0
  todo := []

section
variable (sym : Symbols) (env : Compiled) {device : Device}

/-- Any events can follow, and the machine is then at work on what the agenda makes of them. -/
theorem reaches_follows (hready : EventuallyReady device serialCom1Base) (s : System) : ∃ s0, Started sym s s0 ∧
    (∀ events s', Reaches sym env device s events s' ↔ s0.run sym.toAddresses env events = some s') ∧
    ∀ events, ∃ s', s0.run sym.toAddresses env events = some s' ∧
      Follows sym.toAddresses s' ((Agenda.start s0).run events) := by
  obtain ⟨s0, hstart, hstarted⟩ := kmainStart_spec sym env hready s
  refine ⟨s0, hstarted, fun events s' => ⟨?_, fun hrun => ⟨s0, hstart, hrun⟩⟩, fun events =>
    hstarted.follows.run env events⟩
  rintro ⟨s1, hstart', hrun⟩
  rwa [hstart.unique hstart']

/-- From any state: every vector but 17 gets to its handler with the interrupted registers, and back. -/
theorem kmain_boots (hready : EventuallyReady device serialCom1Base) (s : System) : ∃ s0,
    Settles (kmainStart sym env device · s) s0 ∧ Started sym s s0 ∧
    ∀ v < 48, v ≠ 17 → ∀ errorCode, ∃ cpu regs, Resumed s0.cpu cpu ∧ Delivered v errorCode s0.cpu regs ∧
      s0.deliver sym.toAddresses env v errorCode =
        Handler.run sym.toAddresses (handlerOf v, regs) { s0 with cpu := cpu } := by
  obtain ⟨s0, hstart, hstarted⟩ := kmainStart_spec sym env hready s
  exact ⟨s0, hstart, hstarted, fun v hv hne errorCode =>
    hstarted.follows.serving.toWired.deliver_eq sym env hv hne errorCode⟩

theorem kmain_boots_powerOn : ∃ s0, Settles (kmainStart codeAtOneMiB idle slowUart · .powerOn) s0 ∧
    Started codeAtOneMiB .powerOn s0 ∧
    ∀ v < 48, v ≠ 17 → ∀ errorCode, ∃ cpu regs, Resumed s0.cpu cpu ∧ Delivered v errorCode s0.cpu regs ∧
      s0.deliver codeAtOneMiB.toAddresses idle v errorCode =
        Handler.run codeAtOneMiB.toAddresses (handlerOf v, regs) { s0 with cpu := cpu } :=
  kmain_boots codeAtOneMiB idle (slowUart_ready serialCom1Base) .powerOn

/-- Any events in any order: the machine never gets stuck, does what the agenda says, and the program it
interrupts is always resumed. -/
theorem kmain_follows (hready : EventuallyReady device serialCom1Base) (s : System) : ∃ s0,
    Settles (kmainStart sym env device · s) s0 ∧
    ∀ events, ∃ s', s0.run sym.toAddresses env events = some s' ∧
      Follows sym.toAddresses s' ((Agenda.start s0).run events) ∧ Resumed s0.cpu s'.cpu := by
  obtain ⟨s0, hstart, hstarted⟩ := kmainStart_spec sym env hready s
  refine ⟨s0, hstart, fun events => ?_⟩
  obtain ⟨s', hrun, h⟩ := hstarted.follows.run env events
  have hprogram := h.program
  rw [Agenda.run_program] at hprogram
  exact ⟨s', hrun, h, hprogram⟩

theorem kmain_follows_powerOn : ∃ s0, Settles (kmainStart codeAtOneMiB idle slowUart · .powerOn) s0 ∧
    ∀ events, ∃ s', s0.run codeAtOneMiB.toAddresses idle events = some s' ∧
      Follows codeAtOneMiB.toAddresses s' ((Agenda.start s0).run events) ∧ Resumed s0.cpu s'.cpu :=
  kmain_follows codeAtOneMiB idle (slowUart_ready serialCom1Base) .powerOn

/-- Exceptions are ignored at any time, a page fault too: the program goes on at the instruction that
caused it. -/
theorem kmain_ignores_faults (hready : EventuallyReady device serialCom1Base) (s : System)
    (events : List Event) : ∃ s', Reaches sym env device s events s' ∧
    ∀ faults, (∀ fault ∈ faults, Event.isFault fault) →
      ∃ cpu, s'.run sym.toAddresses env faults = some { s' with cpu := cpu } ∧ Resumed s'.cpu cpu := by
  obtain ⟨s0, -, hreaches, hfollows⟩ := reaches_follows sym env hready s
  obtain ⟨s', hrun, h⟩ := hfollows events
  exact ⟨s', (hreaches events s').2 hrun, fun faults hfaults => h.faults env faults hfaults⟩

/-- Page faults while a key waits. -/
theorem kmain_ignores_faults_page : ∃ s', Reaches codeAtOneMiB idle slowUart .powerOn [.key 0x23] s' ∧
    ∀ faults, (∀ fault ∈ faults, Event.isFault fault) →
      ∃ cpu, s'.run codeAtOneMiB.toAddresses idle faults = some { s' with cpu := cpu } ∧ Resumed s'.cpu cpu :=
  kmain_ignores_faults codeAtOneMiB idle (slowUart_ready serialCom1Base) .powerOn [.key 0x23]

/-! ## Keys -/

/-- What the reads of the data port have given are the keys, each once and in the order they came, up to those
that still wait: no read finds the port without a new key. -/
theorem kmain_reads_keys (hready : EventuallyReady device serialCom1Base) (s : System)
    (events : List Event) : ∃ s', Reaches sym env device s events s' ∧
    s'.keys.read.reverse ++ s'.keys.queue =
      s.keys.read.reverse ++ s.keys.queue ++ events.filterMap Event.typed := by
  obtain ⟨s0, hstarted, hreaches, hfollows⟩ := reaches_follows sym env hready s
  obtain ⟨s', hrun, h⟩ := hfollows events
  have hkeys := Agenda.run_keys events (Agenda.start_balanced_or_deaf s0)
  refine ⟨s', (hreaches events s').2 hrun, ?_⟩
  rw [h.read_eq, h.queue_eq, ← hstarted.keys]
  exact hkeys

theorem kmain_reads_keys_hi : ∃ s', Reaches codeAtOneMiB idle slowUart .powerOn
      [.proceed, .proceed, .key 0x23, .key 0xA3, .interrupt] s' ∧
    s'.keys.read.reverse ++ s'.keys.queue = [0x23, 0xA3] :=
  kmain_reads_keys codeAtOneMiB idle (slowUart_ready serialCom1Base) .powerOn
    [.proceed, .proceed, .key 0x23, .key 0xA3, .interrupt]

/-- The keyboard is deaf when a key came before `kmain` or its request was served before `init_keyboard`,
and not otherwise; and no key is read after that. -/
theorem kmain_deaf_iff (hready : EventuallyReady device serialCom1Base) (s : System)
    (events : List Event) : ∃ s', Reaches sym env device s events s' ∧
    (s'.Deaf ↔ s.keys.queue ≠ [] ∨ ∃ pre s1, pre ++ [Event.interrupt] <+: events ∧
      Reaches sym env device s pre s1 ∧ s1.Misses sym.toAddresses) ∧
    (s'.Deaf → ∀ more, ∃ s2, s'.run sym.toAddresses env more = some s2 ∧ s2.Deaf ∧ s2.keys.read = s'.keys.read) := by
  obtain ⟨s0, hstarted, hreaches, hfollows⟩ := reaches_follows sym env hready s
  obtain ⟨s', hrun, h⟩ := hfollows events
  refine ⟨s', (hreaches events s').2 hrun, ⟨fun hnow => ?_, ?_⟩, fun hnow more => ?_⟩
  · by_cases hempty : s.keys.queue = []
    · have hstart : (Agenda.start s0).Balanced := Agenda.start_balanced (by rw [hstarted.keys]; exact hempty)
      obtain ⟨pre, event, hprefix, hmiss⟩ := (Agenda.run_deaf_iff hstart events).1 (h.deaf_iff.1 hnow)
      obtain ⟨s1, hpre, h1⟩ := hfollows pre
      cases event with
      | interrupt => exact .inr ⟨pre, s1, hprefix, (hreaches pre s1).2 hpre, h1.misses_iff.2 hmiss⟩
      | timer | key | device | fault | proceed => exact hmiss.elim
    · exact .inl hempty
  · rintro (hwaiting | ⟨pre, s1, hprefix, hpre, hmiss⟩)
    · have hstart : (Agenda.start s0).Deaf := Agenda.start_deaf (by rw [hstarted.keys]; exact hwaiting)
      exact h.deaf_iff.2 (hstart.run events).1
    · obtain ⟨s1', hpre', h1⟩ := hfollows pre
      obtain rfl : s1' = s1 := Option.some.inj (hpre'.symm.trans ((hreaches pre s1).1 hpre))
      have hmiss' := h1.misses_iff.1 hmiss
      by_cases hempty : s0.keys.queue = []
      · have hstart := Agenda.run_deaf_iff (Agenda.start_balanced hempty) events
        exact h.deaf_iff.2 (hstart.2 ⟨pre, _, hprefix, hmiss'⟩)
      · exact h.deaf_iff.2 ((Agenda.start_deaf hempty).run events).1
  · obtain ⟨s2, hmore, h2⟩ := h.run env more
    obtain ⟨hdeaf2, hread⟩ := (h.deaf_iff.1 hnow).run more
    exact ⟨s2, hmore, h2.deaf_iff.2 hdeaf2, by rw [h2.read_eq, h.read_eq, hread]⟩

/-- A key before `init_keyboard`. -/
theorem kmain_deaf_iff_early : ∃ s', Reaches codeAtOneMiB idle slowUart .powerOn [.key 0x23, .interrupt] s' ∧
    (s'.Deaf ↔ System.powerOn.keys.queue ≠ [] ∨ ∃ pre s1, pre ++ [Event.interrupt] <+: [.key 0x23, .interrupt] ∧
      Reaches codeAtOneMiB idle slowUart .powerOn pre s1 ∧ s1.Misses codeAtOneMiB.toAddresses) ∧
    (s'.Deaf → ∀ more, ∃ s2, s'.run codeAtOneMiB.toAddresses idle more = some s2 ∧ s2.Deaf ∧
      s2.keys.read = s'.keys.read) :=
  kmain_deaf_iff codeAtOneMiB idle (slowUart_ready serialCom1Base) .powerOn [.key 0x23, .interrupt]

/-- In the loop at its end the console does what the keys read make of it, in their order, and nothing
else. -/
theorem kmain_handles_keys (hready : EventuallyReady device serialCom1Base) (s : System) {events : List Event}
    (hloop : 5 ≤ events.countP Event.isProceed) : ∃ s', Reaches sym env device s events s' ∧
    ∀ more, ∃ s2 handled k ps, s'.run sym.toAddresses env more = some s2 ∧
      s2.keys.read = handled.reverse ++ s'.keys.read ∧ keyboardRun handled s'.kernel = some k ∧
      s2.kernel = k.withPorts ps ∧ crtSent ps = crtSent k.vga.ports := by
  obtain ⟨s0, hstarted, hreaches, hfollows⟩ := reaches_follows sym env hready s
  obtain ⟨s', hrun, h⟩ := hfollows events
  refine ⟨s', (hreaches events s').2 hrun, fun more => ?_⟩
  obtain ⟨s2, hmore, h2⟩ := h.run env more
  have htodo := Agenda.run_todo events (Agenda.start s0)
  obtain ⟨handled, hread, hconsole⟩ := Agenda.run_handles (Agenda.run_start s0 events)
    (htodo.trans (List.drop_eq_nil_of_le hloop)) more
  obtain ⟨ps, hkernel, hcrt⟩ := h.console
  obtain ⟨ps2, hkernel2, hcrt2⟩ := h2.console
  generalize (Agenda.start s0).run events = a at *
  obtain ⟨k, sent, hk, hsent, hports⟩ := keyboardRun_sends handled a.console
  obtain rfl : k = (a.run more).console := Option.some.inj (hk.symm.trans hconsole)
  have hown : (a.run more).console.vga.ports = sent ++ a.console.vga.ports := by
    have hsame := hports a.console.vga.ports
    rw [Kernel.withPorts_self, hk] at hsame
    exact congrArg (fun k : Kernel => k.vga.ports) (Option.some.inj hsame)
  refine ⟨s2, handled, (a.run more).console.withPorts (sent ++ ps), ps2, hmore, ?_, ?_, hkernel2, ?_⟩
  · rw [h2.read_eq, h.read_eq, hread]
  · rw [hkernel]
    exact hports ps
  · show crtSent ps2 = crtSent (sent ++ ps)
    rw [hcrt2, hown, crtSent_append hsent, crtSent_append hsent, hcrt]

/-- After the last statement. -/
theorem kmain_handles_keys_loop : ∃ s', Reaches codeAtOneMiB idle slowUart .powerOn (List.replicate 5 .proceed) s' ∧
    ∀ more, ∃ s2 handled k ps, s'.run codeAtOneMiB.toAddresses idle more = some s2 ∧
      s2.keys.read = handled.reverse ++ s'.keys.read ∧ keyboardRun handled s'.kernel = some k ∧
      s2.kernel = k.withPorts ps ∧ crtSent ps = crtSent k.vga.ports :=
  kmain_handles_keys codeAtOneMiB idle (slowUart_ready serialCom1Base) .powerOn (by decide)

/-! ## Waiting -/

/-- Until a key comes. -/
theorem hears_registered {s' : System} (h : Reaches codeAtOneMiB idle slowUart .powerOn [.proceed, .proceed] s') :
    ¬ s'.Deaf := by
  obtain ⟨s0, hstarted, hreaches, hfollows⟩ := reaches_follows codeAtOneMiB idle (slowUart_ready serialCom1Base)
    .powerOn
  obtain ⟨s1, hrun, h1⟩ := hfollows [.proceed, .proceed]
  obtain rfl : s1 = s' := Option.some.inj (hrun.symm.trans ((hreaches _ _).1 h))
  have hqueue : s1.keys.queue = s0.keys.queue := h1.queue_eq
  rw [hstarted.keys] at hqueue
  exact fun hdeaf => hdeaf.2 hqueue

/-- From its registration on, the timer counts every request but those made while one waits. -/
theorem kmain_counts_ticks (hready : EventuallyReady device serialCom1Base) (s : System) {events : List Event}
    (hregistered : 1 ≤ events.countP Event.isProceed) : ∃ s', Reaches sym env device s events s' ∧
    ∀ more, ∃ s2, s'.run sym.toAddresses env more = some s2 ∧ s2.tick + UInt32.ofNat s2.timerWaits =
      s'.tick + UInt32.ofNat (s'.timerWaits + s'.accepted sym.toAddresses env more) := by
  obtain ⟨s0, -, hreaches, hfollows⟩ := reaches_follows sym env hready s
  obtain ⟨s', hrun, h⟩ := hfollows events
  refine ⟨s', (hreaches events s').2 hrun, fun more => ?_⟩
  obtain ⟨s2, hmore, h2⟩ := h.run env more
  have hfirst : Statement.initTimer ∈ (Agenda.start s0).todo.take 1 := List.mem_of_elem_eq_true rfl
  have htimer := Agenda.run_has events _ (List.take_subset_take_left _ hregistered hfirst)
  refine ⟨s2, hmore, ?_⟩
  rw [h2.tick, h2.timerWaits_eq, h.tick, h.timerWaits_eq, h.accepted_eq env more]
  exact Agenda.run_ticks htimer more

theorem kmain_counts_ticks_first : ∃ s', Reaches codeAtOneMiB idle slowUart .powerOn [.proceed] s' ∧
    ∀ more, ∃ s2, s'.run codeAtOneMiB.toAddresses idle more = some s2 ∧ s2.tick + UInt32.ofNat s2.timerWaits =
      s'.tick + UInt32.ofNat (s'.timerWaits + s'.accepted codeAtOneMiB.toAddresses idle more) :=
  kmain_counts_ticks codeAtOneMiB idle (slowUart_ready serialCom1Base) .powerOn (by decide)

/-! ## The screen and the memory -/

/-- After every event the CRT controller shows `cursor_pos`, whatever it held before. -/
theorem kmain_shows_cursor (hready : EventuallyReady device serialCom1Base) (c : Crtc) (s : System)
    (events : List Event) : ∃ s', Reaches sym env device s events s' ∧ Coherent c s'.kernel.vga := by
  obtain ⟨s0, hstarted, hreaches, hfollows⟩ := reaches_follows sym env hready s
  obtain ⟨s', hrun, h⟩ := hfollows events
  obtain ⟨ps, hkernel, hcrt⟩ := h.console
  have hconsole := Agenda.run_coherent (a := Agenda.start s0) (hstarted.shown c) events
  refine ⟨s', (hreaches events s').2 hrun, ?_⟩
  rw [hkernel]
  exact hconsole.congr rfl hcrt

/-- A controller that shows another place before. -/
theorem kmain_shows_cursor_later : ∃ s', Reaches codeAtOneMiB idle slowUart .powerOn (List.replicate 5 .proceed) s' ∧
    Coherent ⟨7, fun _ => 0xFF⟩ s'.kernel.vga :=
  kmain_shows_cursor codeAtOneMiB idle (slowUart_ready serialCom1Base) ⟨7, fun _ => 0xFF⟩ .powerOn
    (List.replicate 5 .proceed)

end

end HavenOS
