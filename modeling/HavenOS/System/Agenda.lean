/-
What interrupts are for: requests are served one at a time, the first in the order of the lines before
all others; those of the timer are counted, and each of the keyboard takes the key that has waited
longest to the console. The machine does this in every run, however its events are mixed.
-/
import HavenOS.System.Service
import HavenOS.System.Tables

namespace HavenOS

open Ram X86

/-! ## The abstract machine -/

/-- The requests that wait, the bytes read (latest first) and the keys that wait, the ticks, the console
by itself, which handlers are registered, what is left of `kmain`, and the program that is
interrupted. -/
structure Agenda where
  requests : Finset Pic.Line
  read : List UInt8
  queue : List UInt8
  tick : UInt32
  console : Kernel
  timer : Bool
  keyboard : Bool
  todo : List Statement
  program : Cpu

namespace Agenda

variable (a : Agenda)

def raise (line : Pic.Line) : Agenda := { a with requests := insert line a.requests }

def press (code : UInt8) : Agenda :=
  let waiting := { a with queue := a.queue ++ [code] }
  if a.queue = [] then waiting.raise keyboardLine else waiting

/-- The console handles a key. -/
def type (code : UInt8) : Agenda := { a with console := (keyboardCallback code a.console).getD a.console }

/-- The key that has waited longest, and a request for the next one; with none waiting, the last one again. -/
def takeKey : Agenda :=
  match a.queue with
  | [] =>
    let code := a.read.headD 0
    { a with read := code :: a.read, queue := [] }.type code
  | code :: queue =>
    let rest := { a with read := code :: a.read, queue := queue }
    (if queue = [] then rest else rest.raise keyboardLine).type code

/-- One request is served. -/
def serve (line : Pic.Line) : Agenda :=
  let rest := { a with requests := a.requests.erase line }
  if line = timerLine ∧ a.timer then { rest with tick := a.tick + 1 }
  else if line = keyboardLine ∧ a.keyboard then rest.takeKey
  else rest

end Agenda

/-- The message of init_timer. -/
def timerMessage : Vga → Vga :=
  runPieces [50] 1 1 0 (splitFormat (ascii "Initializing Timer \x7b%d\x7d -> \x7b%\n\x7d"))

/-- A statement of `kmain` on the console. -/
def Statement.onScreen : Statement → Vga → Vga
  | initTimer, v => timerMessage v
  | initKeyboard, v => v
  | clear, v => { v with fb := fbClear 0 15 v.fb }
  | moveCursor, v => fbMoveCursor 3 v
  | printCell, v => fbPrintCell 62 0 15 v

def Agenda.execute (statement : Statement) (a : Agenda) : Agenda :=
  let shown := { a with console := a.console.onVga statement.onScreen }
  match statement with
  | .initTimer => { shown with timer := true }
  | .initKeyboard => { shown with keyboard := true }
  | .clear | .moveCursor | .printCell => shown

def Agenda.step : Event → Agenda → Agenda
  | .timer, a => a.raise timerLine
  | .key code, a => a.press code
  | .device line _, a => a.raise line
  | .fault _ _ _, a => a
  | .interrupt, a =>
    match Pic.highest a.requests with
    | some line => a.serve line
    | none => a
  | .proceed, a =>
    match a.todo with
    | statement :: todo => Agenda.execute statement { a with todo := todo }
    | [] => a

def Agenda.run (events : List Event) (a : Agenda) : Agenda := events.foldl (fun a event => a.step event) a

/-! ## The relation -/

/-- The handler registered for a vector. -/
def Agenda.registered (a : Agenda) (sym : Addresses) (v : Nat) : UInt32 :=
  if v = 32 ∧ a.timer then sym.timerCallback
  else if v = 33 ∧ a.keyboard then sym.keyboardCallback
  else 0

/-- The machine is at work on an agenda. The console has sent the same to the CRT controller. -/
structure Follows (sym : Addresses) (s : System) (a : Agenda) : Prop where
  serving : Serving sym s
  requests : s.pics.requests = a.requests
  keys : s.keys = ⟨a.read, a.queue⟩
  tick : s.tick = a.tick
  console : ∃ ps, s.kernel = a.console.withPorts ps ∧ crtSent ps = crtSent a.console.vga.ports
  handlers : ∀ v < 256, s.handler sym (UInt32.ofNat v) = a.registered sym v
  todo : s.todo = a.todo
  program : Resumed a.program s.cpu

/-! ## What keeps the machine in order -/

theorem Resumed.refl (c : Cpu) : Resumed c c :=
  ⟨rfl, rfl, rfl, rfl, rfl, rfl, rfl, rfl, rfl, rfl, rfl, rfl, rfl, rfl, rfl⟩

theorem Resumed.trans {c c' c'' : Cpu} (h : Resumed c c') (h' : Resumed c' c'') : Resumed c c'' where
  eax := h'.eax.trans h.eax
  ecx := h'.ecx.trans h.ecx
  edx := h'.edx.trans h.edx
  ebx := h'.ebx.trans h.ebx
  esp := h'.esp.trans h.esp
  ebp := h'.ebp.trans h.ebp
  esi := h'.esi.trans h.esi
  edi := h'.edi.trans h.edi
  ds := h'.ds.trans h.ds
  es := h'.es.trans h.es
  fs := h'.fs.trans h.fs
  gs := h'.gs.trans h.gs
  cs := h'.cs.trans h.cs
  eip := h'.eip.trans h.eip
  eflags := h'.eflags.trans h.eflags

theorem Resumed.flat {c c' : Cpu} (h : Resumed c c') (hflat : Flat c) : Flat c' :=
  ⟨by rw [h.es, h.ds, hflat.es], by rw [h.fs, h.ds, hflat.fs], by rw [h.gs, h.ds, hflat.gs]⟩

theorem entryBytes_gdt (sym : Symbols) {val val' : UInt32 → UInt8} (h : Only sym.interruptHandlers 1024 val val')
    {i : Nat} (hi : i < 5) : entryBytes val' sym.gdtEntries i = entryBytes val sym.gdtEntries i :=
  h.entryBytes_eq sym.handlers_gdt (by omega)

theorem entryBytes_idt (sym : Symbols) {val val' : UInt32 → UInt8} (h : Only sym.interruptHandlers 1024 val val')
    {i : Nat} (hi : i < 256) : entryBytes val' sym.idtEntries i = entryBytes val sym.idtEntries i :=
  h.entryBytes_eq sym.handlers_idt (by omega)

variable {sym : Symbols}

/-- An interrupted program that is resumed, and stores to the handlers only. -/
theorem Serving.keep {s s' : System} (h : Serving sym.toAddresses s) (hcpu : Resumed s.cpu s'.cpu)
    (hgdtr : s'.gdtr = s.gdtr) (hidtr : s'.idtr = s.idtr)
    (hram : Only sym.interruptHandlers 1024 s.ram.val s'.ram.val) (hpics : PicsReady s'.pics) :
    Serving sym.toAddresses s' := by
  refine ⟨⟨hcpu.flat h.flat, hgdtr.trans h.gdtr, hidtr.trans h.idtr,
    fun i hi => (entryBytes_gdt sym hram hi).trans (h.entries i hi), fun v hv => ?_⟩,
    by rw [hcpu.eflags]; exact h.enabled, hpics⟩
  have hgate := h.gates v hv
  have hentry := entryBytes_idt sym hram (i := v) (by omega)
  unfold System.gate at hgate ⊢
  rw [h.idtr] at hgate
  rw [hidtr, h.idtr, hentry, hgate]

theorem registered_line (a : Agenda) (line : Pic.Line) : a.registered sym.toAddresses (vectorOf line) =
    if line = timerLine ∧ a.timer then sym.timerCallback
    else if line = keyboardLine ∧ a.keyboard then sym.keyboardCallback
    else 0 := by
  have htimer : vectorOf line = 32 ↔ line = timerLine := vectorOf_injective.eq_iff (b := timerLine)
  have hkeyboard : vectorOf line = 33 ↔ line = keyboardLine := vectorOf_injective.eq_iff (b := keyboardLine)
  simp only [Agenda.registered, htimer, hkeyboard]

/-! ## One event -/

namespace Follows

variable {s : System} {a : Agenda} (h : Follows sym.toAddresses s a)
include h

theorem raise (line : Pic.Line) : Follows sym.toAddresses (s.raise line) (a.raise line) where
  serving := h.serving.keep (.refl _) rfl rfl (.refl _) (h.serving.pics.raise line)
  requests := (Pic.Pair.requests_raise line).trans (congrArg (insert line) h.requests)
  keys := h.keys
  tick := h.tick
  console := h.console
  handlers := h.handlers
  todo := h.todo
  program := h.program

/-- Other keys at the controller of the keyboard. -/
theorem withKeys (read queue : List UInt8) :
    Follows sym.toAddresses { s with keys := ⟨read, queue⟩ } { a with read := read, queue := queue } where
  serving := h.serving.keep (.refl _) rfl rfl (.refl _) h.serving.pics
  requests := h.requests
  keys := rfl
  tick := h.tick
  console := h.console
  handlers := h.handlers
  todo := h.todo
  program := h.program

/-- Another console. -/
theorem withConsole (k : Kernel) {ps : List (UInt16 × UInt8)} (hps : crtSent ps = crtSent k.vga.ports) :
    Follows sym.toAddresses { s with kernel := k.withPorts ps } { a with console := k } where
  serving := h.serving.keep (.refl _) rfl rfl (.refl _) h.serving.pics
  requests := h.requests
  keys := h.keys
  tick := h.tick
  console := ⟨ps, rfl, hps⟩
  handlers := h.handlers
  todo := h.todo
  program := h.program

/-- A handler that is registered. -/
theorem withHandler (n : UInt8) (pointer : UInt32) (timer keyboard : Bool)
    (hregistered : ∀ v < 256,
      { a with timer := timer, keyboard := keyboard }.registered sym.toAddresses v =
        if v = n.toNat then pointer else a.registered sym.toAddresses v) :
    Follows sym.toAddresses
      { s with ram := (registerInterruptHandler sym.interruptHandlers n pointer ⟨s.ram, s.kernel.vga⟩).ram }
      { a with timer := timer, keyboard := keyboard } where
  serving := h.serving.keep (.refl _) rfl rfl (only_registered _ _ _ _) h.serving.pics
  requests := h.requests
  keys := h.keys
  tick := h.tick
  console := h.console
  handlers v hv := by
    have hbefore := h.handlers v hv
    rw [handler_eq] at hbefore ⊢
    rw [read_registered _ _ _ _ hv, hregistered v hv, ← hbefore]
  todo := h.todo
  program := h.program

theorem press (code : UInt8) : Follows sym.toAddresses (s.press code) (a.press code) := by
  have hwaiting := h.withKeys a.read (a.queue ++ [code])
  rw [System.press, Agenda.press, h.keys]
  split
  · exact hwaiting.raise keyboardLine
  · exact hwaiting

/-- A part of the kernel that sends to the CRT controller only. -/
theorem onKernel {f : Kernel → Option Kernel} (hf : Kernel.SendsCrt f a.console) :
    ∃ s', s.onKernel f = some s' ∧ Follows sym.toAddresses s' { a with console := (f a.console).getD a.console } := by
  obtain ⟨k, sent, hk, hsent, hports⟩ := hf
  obtain ⟨ps, hps, hcrt⟩ := h.console
  have hown : k = k.withPorts (sent ++ a.console.vga.ports) := by
    have hsame := hports a.console.vga.ports
    rw [Kernel.withPorts_self, hk] at hsame
    exact Option.some.inj hsame
  have hcrt' : crtSent (sent ++ ps) = crtSent k.vga.ports := by
    rw [hown]
    show crtSent (sent ++ ps) = crtSent (sent ++ a.console.vga.ports)
    rw [crtSent_append hsent, crtSent_append hsent, hcrt]
  have hpics : received s.kernel.vga.ports (k.withPorts (sent ++ ps)).vga.ports s.pics = s.pics := by
    rw [hps]
    exact received_crt sent ps s.pics hsent
  have hrun : s.onKernel f = some { s with kernel := k.withPorts (sent ++ ps) } := by
    rw [System.onKernel, hps, hports, Option.bind_some, ← hps, hpics]
  rw [hk]
  exact ⟨_, hrun, h.withConsole k hcrt'⟩

theorem type (code : UInt8) : ∃ s', s.onKernel (keyboardCallback code) = some s' ∧
    Follows sym.toAddresses s' (a.type code) := h.onKernel (keyboardCallback_sends code a.console)

theorem takeKey (regs : Registers) : ∃ s', keyboardInterrupt regs s = some s' ∧
    Follows sym.toAddresses s' a.takeKey := by
  rw [keyboardInterrupt, System.readKey, h.keys, Agenda.takeKey]
  cases hqueue : a.queue with
  | nil => exact (h.withKeys (a.read.headD 0 :: a.read) []).type (a.read.headD 0)
  | cons code queue =>
    have hrest := h.withKeys (code :: a.read) queue
    simp only
    split
    · exact hrest.type code
    · exact (hrest.raise keyboardLine).type code

/-- A request that is acknowledged and ended. -/
theorem ended {cpu : Cpu} (hcpu : Resumed s.cpu cpu) (line : Pic.Line) :
    Follows sym.toAddresses (s.ended line cpu) { a with requests := a.requests.erase line } where
  serving := h.serving.keep hcpu rfl rfl (.refl _) (h.serving.pics.finish_start line)
  requests := (h.serving.pics.ready.finish_start line).2.trans (congrArg (Finset.erase · line) h.requests)
  keys := h.keys
  tick := h.tick
  console := by
    obtain ⟨ps, hps, hcrt⟩ := h.console
    refine ⟨endsSent line ++ ps, by rw [System.ended, hps]; rfl, ?_⟩
    rw [← hcrt]
    cases line <;> rfl
  handlers := h.handlers
  todo := h.todo
  program := h.program.trans hcpu

/-- Another state of the processor, with the program to be resumed. -/
theorem withCpu {cpu : Cpu} (hcpu : Resumed s.cpu cpu) : Follows sym.toAddresses { s with cpu := cpu } a where
  serving := h.serving.keep hcpu rfl rfl (.refl _) h.serving.pics
  requests := h.requests
  keys := h.keys
  tick := h.tick
  console := h.console
  handlers := h.handlers
  todo := h.todo
  program := h.program.trans hcpu

/-- Nothing is registered for an exception. -/
theorem fault (env : Compiled) {v : Nat} (hv : v < 32 ∧ v ≠ 17) (errorCode : UInt32) : ∃ cpu, Resumed s.cpu cpu ∧
    s.deliver sym.toAddresses env v errorCode = some { s with cpu := cpu } := by
  have hnone : s.handler sym.toAddresses (UInt32.ofNat v) = 0 := by
    have htimer : v ≠ 32 := by omega
    have hkeyboard : v ≠ 33 := by omega
    rw [h.handlers v (by omega), Agenda.registered, if_neg fun hv => htimer hv.1, if_neg fun hv => hkeyboard hv.1]
  exact h.serving.toWired.deliver_ignored sym env hv hnone errorCode

/-- The handler registered for a line does what the agenda says. -/
theorem serve (env : Compiled) {line : Pic.Line} (hfirst : Pic.highest s.pics.requests = some line) :
    ∃ s', Event.run sym.toAddresses env .interrupt s = some s' ∧ Follows sym.toAddresses s' (a.serve line) := by
  obtain ⟨cpu, regs, hcpu, hrun⟩ := h.serving.interrupt_eq sym env hfirst
  obtain ⟨hlow, hhigh⟩ := vectorOf_bounds line
  have hended := h.ended hcpu line
  rw [hrun, h.handlers (vectorOf line) (by omega), registered_line]
  unfold Agenda.serve
  by_cases ht : line = timerLine ∧ a.timer
  · rw [if_pos ht, if_pos ht, if_pos sym.timer_ne_null, callPointer, if_pos rfl]
    exact ⟨_, rfl, hended.serving.keep (.refl _) rfl rfl (.refl _) hended.serving.pics, hended.requests, hended.keys,
      congrArg (· + 1) hended.tick, hended.console, hended.handlers, hended.todo, hended.program⟩
  · rw [if_neg ht, if_neg ht]
    by_cases hk : line = keyboardLine ∧ a.keyboard
    · rw [if_pos hk, if_pos hk, if_pos sym.keyboard_ne_null, callPointer, if_neg sym.callbacks_distinct.symm,
        if_pos rfl]
      exact hended.takeKey regs
    · rw [if_neg hk, if_neg hk, if_neg (not_not_intro rfl)]
      exact ⟨_, rfl, hended⟩

end Follows

/-! ## The statements of `kmain` -/

theorem sendsCrt_timerMessage : SendsCrt timerMessage := sendsCrt_pieces _ 1 1 _ 0

theorem timerMessage_prints (v : Vga) :
    fbFprintStr (ascii "Initializing Timer \x7b%d\x7d -> \x7b%\n\x7d") [(50 : UInt32).toInt32] 1 1 v =
      some (timerMessage v) := by
  have hformat : ascii "Initializing Timer \x7b%d\x7d -> \x7b%\n\x7d" =
      numberLine (ascii "Initializing Timer ") (ascii " -> ") := by
    decide
  refine fbFprintStr_enough 1 1 v (by decide) (by decide) ?_
  rw [hformat]
  exact enough_numberLine (by decide) (by decide) _

/-- `init_timer(50)`: its message, its handler, and 23863 in two bytes. -/
theorem initTimer_eq (interruptHandlers pointer : UInt32) (b : Board) : initTimer interruptHandlers pointer 50 b =
    some (sendDivisor 23863
      (registerInterruptHandler interruptHandlers irq0 pointer { b with vga := timerMessage b.vga })) := by
  have hdivide : divide 1193180 50 = some 23863 := by decide
  rw [initTimer, Board.print, timerMessage_prints]
  simp only [Option.bind_eq_bind, Option.bind_some, hdivide]

/-- The command byte for the timer, and 23863 in two bytes, latest first. -/
def divisorSent : List (UInt16 × UInt8) := [(0x40, 0x5D), (0x40, 0x37), (0x43, 0x36)]

namespace Follows

variable {s : System} {a : Agenda} (h : Follows sym.toAddresses s a)
include h

theorem initTimer : ∃ s', Statement.run sym.toAddresses s .initTimer = some s' ∧
    Follows sym.toAddresses s' (a.execute .initTimer) := by
  obtain ⟨ps, hps, hcrt⟩ := h.console
  obtain ⟨sent, hsent, hv⟩ := sendsCrt_timerMessage a.console.vga
  have hvga : s.kernel.vga = a.console.vga.withPorts ps := congrArg (fun k : Kernel => k.vga) hps
  -- the three bytes for the timer reach no controller either
  have hpics : received ps (divisorSent ++ (sent ++ ps)) s.pics = s.pics := by
    rw [← List.append_assoc, received_append, List.foldr_append]
    exact (congrArg (divisorSent.foldr busWrite) ((received_append sent ps s.pics).symm.trans
      (received_crt sent ps s.pics hsent))).trans rfl
  have hcrt' : crtSent (divisorSent ++ (sent ++ ps)) = crtSent (timerMessage a.console.vga).ports := by
    have hsame := congrArg Vga.ports (hv a.console.vga.ports)
    have hown : (timerMessage a.console.vga).ports = sent ++ a.console.vga.ports := hsame
    rw [hown, crtSent_append hsent, ← hcrt, ← crtSent_append hsent]
    rfl
  have hshown := h.withConsole (a.console.onVga timerMessage) hcrt'
  refine ⟨_, ?_, hshown.withHandler irq0 sym.timerCallback true a.keyboard fun v _ => ?_⟩
  · rw [Statement.run, System.onBoard, initTimer_eq, Option.bind_some, hvga, hv ps]
    have hsame : (sendDivisor 23863 (registerInterruptHandler sym.interruptHandlers irq0 sym.timerCallback
        ⟨s.ram, (timerMessage a.console.vga).withPorts (sent ++ ps)⟩)).vga =
        (timerMessage a.console.vga).withPorts (divisorSent ++ (sent ++ ps)) := rfl
    simp only [hsame, Vga.withPorts_ports, hpics]
    rw [hps]
    rfl
  · simp only [Agenda.registered]
    by_cases hv : v = 32
    · subst hv
      simp [irq0]
    · have hne : v ≠ irq0.toNat := hv
      simp [hv, hne]

theorem initKeyboard : ∃ s', Statement.run sym.toAddresses s .initKeyboard = some s' ∧
    Follows sym.toAddresses s' (a.execute .initKeyboard) := by
  refine ⟨_, ?_, h.withHandler irq1 sym.keyboardCallback a.timer true fun v _ => ?_⟩
  · rw [Statement.run, System.onBoard, Option.bind_some]
    simp only [registerInterruptHandler, received_self]
    rfl
  · simp only [Agenda.registered]
    by_cases hv : v = 33
    · subst hv
      simp [irq1]
    · have hne : v ≠ irq1.toNat := hv
      simp [hv, hne]

theorem execute (statement : Statement) : ∃ s', statement.run sym.toAddresses s = some s' ∧
    Follows sym.toAddresses s' (a.execute statement) := by
  cases statement with
  | clear =>
    have hf : SendsCrt fun v => { v with fb := fbClear 0 15 v.fb } := .of_silent fun _ _ => rfl
    exact h.onKernel (hf.onVga a.console)
  | moveCursor => exact h.onKernel ((sendsCrt_moveCursor 3).onVga a.console)
  | printCell => exact h.onKernel ((sendsCrt_printCell 62 0 15).onVga a.console)
  | initKeyboard => exact h.initKeyboard
  | initTimer => exact h.initTimer

/-! ## Runs -/

theorem step (env : Compiled) (event : Event) : ∃ s', event.run sym.toAddresses env s = some s' ∧
    Follows sym.toAddresses s' (a.step event) := by
  cases event with
  | timer => exact ⟨_, rfl, h.raise timerLine⟩
  | key code => exact ⟨_, rfl, h.press code⟩
  | device line => exact ⟨_, rfl, h.raise line⟩
  | fault v errorCode ordinary =>
    obtain ⟨cpu, hcpu, hdeliver⟩ := h.fault env ordinary errorCode
    exact ⟨_, hdeliver, h.withCpu hcpu⟩
  | interrupt =>
    rw [Agenda.step, ← h.requests]
    cases hfirst : Pic.highest s.pics.requests with
    | none => exact ⟨s, h.serving.interrupt_idle sym env hfirst, h⟩
    | some line => exact h.serve env hfirst
  | proceed =>
    rw [Event.run, Agenda.step, h.todo]
    cases htodo : a.todo with
    | nil => exact ⟨s, rfl, h⟩
    | cons statement todo =>
      have hrest : Follows sym.toAddresses { s with todo := todo } { a with todo := todo } :=
        ⟨h.serving.keep (.refl _) rfl rfl (.refl _) h.serving.pics, h.requests, h.keys, h.tick, h.console, h.handlers,
          rfl, h.program⟩
      exact hrest.execute statement

/-- The machine never gets stuck, and follows its agenda through any events. -/
theorem run (env : Compiled) (events : List Event) : ∃ s', s.run sym.toAddresses env events = some s' ∧
    Follows sym.toAddresses s' (a.run events) :=
  Run.run_simulates (Event.run sym.toAddresses env) (fun event _ _ h => h.step env event) events h

end Follows

end HavenOS
