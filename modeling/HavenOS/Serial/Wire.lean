/-
The serial port on a 16550 that sends its bytes whenever it likes: no byte of a logger finds it full, and
the wire carries the messages one after the other, with nothing between them.
-/
import HavenOS.Lib.Run
import HavenOS.Lib.Uart
import HavenOS.Serial.Log

namespace HavenOS

/-! ## The device -/

section
variable (com : UInt16)

/-- What the driver does, as the device at `com` sees it. -/
def SerialEvent.onUart : SerialEvent → Uart → Uart
  | .outb port data, u => u.write (port - com) data
  | .inb _ _, u | .load _, u => u

variable (u : Uart) (shifts : Nat → Nat)

/-- The device after a history, latest event first; `shifts n` bytes go out before event `n`. -/
def uartAfter : List SerialEvent → Uart
  | [] => u
  | e :: es => e.onUart com ((uartAfter es).shift (shifts es.length))

def uartDevice : Device := fun es port =>
  if port = serialLineStatusPort com then ((uartAfter com u shifts es).shift (shifts es.length)).lineStatus else 0

end

variable {com : UInt16} {u : Uart} {shifts : Nat → Nat}

theorem uartAfter_poll (s : Serial) : uartAfter com u shifts (poll (uartDevice com u shifts) com s).events =
    (uartAfter com u shifts s.events).shift (shifts s.events.length) := rfl

theorem uart_ready_iff (s : Serial) : (serialIsTransmitFifoEmpty (uartDevice com u shifts) com s).1 ≠ 0 ↔
    ((uartAfter com u shifts s.events).shift (shifts s.events.length)).waiting = [] := by
  rw [← Uart.lineStatus_empty]
  show (uartDevice com u shifts s.events (serialLineStatusPort com)) &&& 0x20 ≠ 0 ↔ _
  rw [uartDevice, if_pos rfl]

/-- After some readings more has gone out. -/
theorem uartAfter_polls (s : Serial) : ∀ k, ∃ n, uartAfter com u shifts
      ((poll (uartDevice com u shifts) com)^[k] s).events = (uartAfter com u shifts s.events).shift n ∧
    ((poll (uartDevice com u shifts) com)^[k] s).events.length = s.events.length + k
  | 0 => ⟨0, by simp [Uart.shift], rfl⟩
  | k + 1 => by
    obtain ⟨n, hshift, hlength⟩ := uartAfter_polls s k
    rw [Function.iterate_succ_apply', uartAfter_poll, hshift, Uart.shift_shift]
    refine ⟨_, rfl, ?_⟩
    show ((poll (uartDevice com u shifts) com)^[k] s).events.length + 1 = _
    rw [hlength, Nat.add_assoc]

/-- A device that goes on sending gets empty. -/
theorem uartDevice_ready (hfair : ∀ n, ∃ m ≥ n, 0 < shifts m) : EventuallyReady (uartDevice com u shifts) com := by
  intro s
  generalize hcount : (uartAfter com u shifts s.events).waiting.length = count
  induction count using Nat.strong_induction_on generalizing s with
  | _ count ih =>
    obtain ⟨m, hm, hpos⟩ := hfair s.events.length
    -- the next time that a byte goes out
    obtain ⟨n, hshift, hlength⟩ := uartAfter_polls s (m - s.events.length)
    generalize hpolled : (poll (uartDevice com u shifts) com)^[m - s.events.length] s = t at hshift hlength
    rw [Nat.add_sub_cancel' hm] at hlength
    by_cases hempty : ((uartAfter com u shifts t.events).shift (shifts t.events.length)).waiting = []
    · exact ⟨m - s.events.length, by rw [hpolled]; exact (uart_ready_iff t).2 hempty⟩
    · have hnext : uartAfter com u shifts (poll (uartDevice com u shifts) com t).events = _ := uartAfter_poll t
      rw [hlength, hshift, Uart.shift_shift] at hnext hempty
      have hsome : n + shifts m < count := by
        rw [← hcount]
        by_contra hge
        exact hempty (List.drop_eq_nil_of_le (Nat.not_lt.1 hge))
      have hfewer : (uartAfter com u shifts (poll (uartDevice com u shifts) com t).events).waiting.length =
          count - (n + shifts m) := by
        rw [hnext, ← hcount]
        exact List.length_drop
      obtain ⟨k, hk⟩ := ih (count - (n + shifts m)) (by omega) (poll (uartDevice com u shifts) com t) hfewer
      refine ⟨k + 1 + (m - s.events.length), ?_⟩
      rw [Function.iterate_add_apply, hpolled, Function.iterate_add_apply]
      exact hk

/-! ## The driver -/

/-- From `s` to `s'` the driver has sent just these bytes to the data port, and the device accepted them. -/
structure Carries (com : UInt16) (u : Uart) (shifts : Nat → Nat) (s s' : Serial) (bytes : List UInt8) : Prop where
  serialOpen : s'.serialOpen = s.serialOpen
  sent : s'.sent (serialDataPort com) = s.sent (serialDataPort com) ++ bytes
  accepts : (uartAfter com u shifts s.events).Accepts (uartAfter com u shifts s'.events) bytes

namespace Carries

variable {s s' s'' : Serial} {bytes bytes' : List UInt8}

theorem refl (s : Serial) : Carries com u shifts s s [] := ⟨rfl, (List.append_nil _).symm, .refl _⟩

theorem trans (h : Carries com u shifts s s' bytes) (h' : Carries com u shifts s' s'' bytes') :
    Carries com u shifts s s'' (bytes ++ bytes') :=
  ⟨h'.serialOpen.trans h.serialOpen, by rw [h'.sent, h.sent, List.append_assoc], h.accepts.trans h'.accepts⟩

/-- An event that sends nothing. -/
theorem log (s : Serial) {e : SerialEvent} (hsent : e.sentTo (serialDataPort com) = none)
    (he : ∀ u, e.onUart com u = u) : Carries com u shifts s (s.log e) [] where
  serialOpen := rfl
  sent := by
    have hdid := (Did.nil (s.log e)).cons.sent (serialDataPort com)
    rw [hdid, List.filterMap_cons_none hsent]
    rfl
  accepts := by
    show (uartAfter com u shifts s.events).Accepts (e.onUart com _) []
    rw [he]
    exact .shift _ _

end Carries

/-- A wait ends with nothing waiting at the device. -/
theorem waitLoop_carries : ∀ (fuel : Nat) (s s' : Serial), waitLoop (uartDevice com u shifts) com fuel s = some s' →
    Carries com u shifts s s' [] ∧ (uartAfter com u shifts s'.events).waiting = []
  | 0, _, _, h => by cases h
  | fuel + 1, s, s', h => by
    have hpoll : Carries com u shifts s (poll (uartDevice com u shifts) com s) [] := .log s rfl fun _ => rfl
    have hstep : waitLoop (uartDevice com u shifts) com (fuel + 1) s =
        if (serialIsTransmitFifoEmpty (uartDevice com u shifts) com s).1 ≠ 0 then
          some (poll (uartDevice com u shifts) com s)
        else waitLoop (uartDevice com u shifts) com fuel (poll (uartDevice com u shifts) com s) := rfl
    rw [hstep] at h
    by_cases hempty : (serialIsTransmitFifoEmpty (uartDevice com u shifts) com s).1 ≠ 0
    · rw [if_pos hempty] at h
      cases h
      exact ⟨hpoll, (uart_ready_iff s).1 hempty⟩
    · rw [if_neg hempty] at h
      obtain ⟨hrest, hnone⟩ := waitLoop_carries fuel _ s' h
      exact ⟨hpoll.trans hrest, hnone⟩

/-- Every byte finds nothing waiting. -/
theorem writeLoop_carries (c : List UInt8) (fuel : Nat) : ∀ (n i : Nat) (s s' : Serial),
    (uartAfter com u shifts s.events).settings.latched = false →
    writeLoop (uartDevice com u shifts) com c fuel n i s = some s' → ∃ bytes, Carries com u shifts s s' bytes
  | 0, _, s, s', _, h => by
    cases h
    exact ⟨[], .refl s⟩
  | n + 1, i, s, s', hlatched, h => by
    obtain ⟨s1, hwait, hrest⟩ := Option.bind_eq_some_iff.1 h
    obtain ⟨hcarries, hempty⟩ := waitLoop_carries fuel s s1 hwait
    have hload : Carries com u shifts s1 (s1.log (.load i)) [] := .log s1 rfl fun _ => rfl
    have hstill : (uartAfter com u shifts (s1.log (.load i)).events).waiting = [] := by
      show ((uartAfter com u shifts s1.events).shift _).waiting = []
      rw [Uart.shift_of_empty hempty, hempty]
    have hopen : (uartAfter com u shifts (s1.log (.load i)).events).settings.latched = false := by
      rw [hload.accepts.settings, hcarries.accepts.settings, hlatched]
    have hbyte : Carries com u shifts (s1.log (.load i))
        ((s1.log (.load i)).outb (serialDataPort com) (c.getD i 0)) [c.getD i 0] := by
      refine ⟨rfl, ?_, ?_⟩
      · have hdid :=
          (Did.nil ((s1.log (.load i)).outb (serialDataPort com) (c.getD i 0))).cons.sent (serialDataPort com)
        rw [hdid]
        exact congrArg (_ ++ ·) (List.filterMap_cons_some (if_pos rfl))
      · show Uart.Accepts _ (((uartAfter com u shifts (s1.log (.load i)).events).shift _).write (com - com) _) _
        rw [UInt16.sub_self, Uart.shift_of_empty hstill]
        exact .write hopen hstill _
    have hafter : (uartAfter com u shifts
        ((s1.log (.load i)).outb (serialDataPort com) (c.getD i 0)).events).settings.latched = false := by
      rw [hbyte.accepts.settings, hopen]
    obtain ⟨bytes, htail⟩ := writeLoop_carries c fuel n (i + 1) _ s' hafter hrest
    exact ⟨_, hcarries.trans (hload.trans (hbyte.trans htail))⟩

theorem serialWrite_carries (c : List UInt8) (length : UInt32) (fuel : Nat) {s s' : Serial}
    (hlatched : (uartAfter com u shifts s.events).settings.latched = false)
    (h : serialWrite (uartDevice com u shifts) com c length fuel s = some s') :
    ∃ bytes, Carries com u shifts s s' bytes := by
  unfold serialWrite at h
  split at h
  · exact writeLoop_carries c fuel _ 0 s s' hlatched h
  · cases h
    exact ⟨[], .refl s⟩

/-! ## The loggers -/

/-- A call of a logger; the length of `print_debug` is that of a part of what its pointer is at. -/
inductive LogCall where
  | debug (str : List UInt8) (length : UInt32) (fits : length.toNat ≤ str.length)
  | debugStr (str : CString) (beyond : List UInt8)
  | debugDec (i : Int32)

def LogCall.run (device : Device) (fuel : Nat) : LogCall → Serial → Option Serial
  | debug str length _ => printDebug device str length fuel
  | debugStr str beyond => printDebugStr device (str.bytes beyond) fuel
  | debugDec i => printDebugDec device i fuel

/-- What it puts between the tag and the newline. -/
def LogCall.text : LogCall → List UInt8
  | debug str length _ => str.take length.toNat
  | debugStr str _ => str.chars
  -- one character short
  | debugDec i => (decText i).dropLast

theorem LogCall.sends {device : Device} (hready : EventuallyReady device serialCom1Base) {s : Serial}
    (hopen : s.serialOpen ≠ 0) (call : LogCall) : Sends (call.run device) s (debugMessage call.text) := by
  cases call with
  | debug str length fits =>
    have hlen : (length + 1 - 1).toNat = length.toNat := by rw [UInt32.add_sub_cancel]
    have hsends := three_writes hready hopen str (length + 1) (by rw [hlen]; exact fits)
    rw [hlen] at hsends
    exact hsends
  | debugStr str beyond => exact printDebugStr_sends hready hopen str beyond
  | debugDec i => exact printDebugDec_sends hready hopen i

/-- A logger makes three writes. -/
theorem LogCall.run_eq (device : Device) (fuel : Nat) (call : LogCall) (s : Serial) :
    ∃ c length, call.run device fuel s =
    (serialWrite device serialCom1Base debugTag 9 fuel s).bind fun s =>
      (serialWrite device serialCom1Base c length fuel s).bind fun s =>
        serialWrite device serialCom1Base charNewLine (1 + 1) fuel s := by
  cases call with
  | debug | debugStr | debugDec => exact ⟨_, _, rfl⟩

theorem LogCall.carries {fuel : Nat} {s s' : Serial} (call : LogCall)
    (hlatched : (uartAfter serialCom1Base u shifts s.events).settings.latched = false)
    (h : call.run (uartDevice serialCom1Base u shifts) fuel s = some s') :
    ∃ bytes, Carries serialCom1Base u shifts s s' bytes := by
  obtain ⟨c, length, heq⟩ := call.run_eq (uartDevice serialCom1Base u shifts) fuel s
  obtain ⟨s1, hw1, hrest⟩ := Option.bind_eq_some_iff.1 (heq.symm.trans h)
  obtain ⟨s2, hw2, hw3⟩ := Option.bind_eq_some_iff.1 hrest
  obtain ⟨bytes1, h1⟩ := serialWrite_carries debugTag 9 fuel hlatched hw1
  have hlatched1 := (congrArg Uart.Settings.latched h1.accepts.settings).trans hlatched
  obtain ⟨bytes2, h2⟩ := serialWrite_carries c length fuel hlatched1 hw2
  have hlatched2 := (congrArg Uart.Settings.latched h2.accepts.settings).trans hlatched1
  obtain ⟨bytes3, h3⟩ := serialWrite_carries charNewLine (1 + 1) fuel hlatched2 hw3
  exact ⟨_, h1.trans (h2.trans h3)⟩

/-- Any calls one after the other. -/
theorem logCalls_carry (hfair : ∀ n, ∃ m ≥ n, 0 < shifts m) (calls : List LogCall) {s : Serial}
    (hopen : s.serialOpen ≠ 0) (hlatched : (uartAfter serialCom1Base u shifts s.events).settings.latched = false) :
    ∃ s', Settles (fun fuel => Run.run (LogCall.run (uartDevice serialCom1Base u shifts) fuel) calls s) s' ∧
      Carries serialCom1Base u shifts s s' (calls.flatMap fun call => debugMessage call.text) := by
  induction calls generalizing s with
  | nil => exact ⟨s, .const s, .refl s⟩
  | cons call calls ih =>
    obtain ⟨s1, hcall, hsent⟩ := call.sends (uartDevice_ready hfair) hopen
    have hcarries : Carries serialCom1Base u shifts s s1 (debugMessage call.text) := by
      obtain ⟨N, hN⟩ := hcall
      obtain ⟨bytes, hbytes⟩ := call.carries hlatched (hN N (Nat.le_refl N))
      rwa [List.append_cancel_left (hbytes.sent.symm.trans hsent)] at hbytes
    obtain ⟨s', hrest, hcarries'⟩ := ih (s := s1) (by rw [hcarries.serialOpen]; exact hopen)
      ((congrArg Uart.Settings.latched hcarries.accepts.settings).trans hlatched)
    exact ⟨s', hcall.bind hrest, hcarries.trans hcarries'⟩

/-! ## Opening the port -/

theorem outb_settings (s : Serial) (port : UInt16) (data : UInt8) :
    (uartAfter com u shifts (s.outb port data).events).settings =
      (uartAfter com u shifts s.events).settings.write (port - com) data := rfl

theorem outb_lost {s : Serial} {port : UInt16}
    (h : port - com ≠ 0 ∨ (uartAfter com u shifts s.events).settings.latched = true) (data : UInt8) :
    (uartAfter com u shifts (s.outb port data).events).lost = (uartAfter com u shifts s.events).lost := by
  have hshift : ((uartAfter com u shifts s.events).shift (shifts s.events.length)).settings.latched =
      (uartAfter com u shifts s.events).settings.latched := rfl
  exact Uart.write_lost (u := (uartAfter com u shifts s.events).shift (shifts s.events.length))
    (by rw [hshift]; exact h) data

/-- The settings of a device that is configured, with nothing lost so far. -/
structure Configured (u : Uart) (shifts : Nat → Nat) (s s' : Serial) (settings : Uart.Settings) : Prop where
  settings : (uartAfter serialCom1Base u shifts s'.events).settings = settings
  lost : (uartAfter serialCom1Base u shifts s'.events).lost = (uartAfter serialCom1Base u shifts s.events).lost

namespace Configured

variable {s s' : Serial} {st : Uart.Settings}

theorem outb (h : Configured u shifts s s' st) {port : UInt16} (hport : port - serialCom1Base ≠ 0 ∨ st.latched = true)
    (data : UInt8) : Configured u shifts s (s'.outb port data) (st.write (port - serialCom1Base) data) where
  settings := by rw [outb_settings, h.settings]
  lost := by rw [outb_lost (by rw [h.settings]; exact hport), h.lost]

theorem line (h : Configured u shifts s s' st) (data : UInt8) :
    Configured u shifts s (s'.outb (serialLineCommandPort serialCom1Base) data) { st with lineControl := data } :=
  h.outb (.inl (by decide)) data

theorem low (h : Configured u shifts s s' st) (hlatched : st.latched = true) (data : UInt8) :
    Configured u shifts s (s'.outb (serialDataPort serialCom1Base) data) { st with divisorLow := data } := by
  have hport : serialDataPort serialCom1Base - serialCom1Base = 0 := by decide
  have hlow := h.outb (.inr hlatched : serialDataPort serialCom1Base - serialCom1Base ≠ 0 ∨ _) data
  rwa [hport, Uart.Settings.write_latched hlatched] at hlow

/-- Both bytes of the divisor go to its low half. -/
theorem baudRate (h : Configured u shifts s s' st) (divisor : UInt16) :
    Configured u shifts s (serialConfigureBaudRate serialCom1Base divisor s')
      { st with lineControl := 0x80, divisorLow := (divisor &&& 0x00FF).toUInt8 } := by
  have hlatched : ∀ low, Uart.Settings.latched { st with lineControl := 0x80, divisorLow := low } = true := fun _ => by
    show (0x80 : UInt8).toNat.testBit 7 = true
    decide
  exact ((h.line serialLineEnableDlab).low (hlatched _) ((divisor >>> 8) &&& 0x00FF).toUInt8).low (hlatched _)
    (divisor &&& 0x00FF).toUInt8

end Configured

/-- The divisor is 4 only if its high half was 0 before. -/
theorem serialStart_configures (u : Uart) (shifts : Nat → Nat) (s : Serial) :
    Configured u shifts s (serialStart s)
      ⟨0x03, 4, (uartAfter serialCom1Base u shifts s.events).settings.divisorHigh, 0x03, true⟩ ∧
    (uartAfter serialCom1Base u shifts (serialStart s).events).waiting = [] := by
  have hbefore : Configured u shifts s s (uartAfter serialCom1Base u shifts s.events).settings := ⟨rfl, rfl⟩
  have hline := ((hbefore.baudRate 4).baudRate 4).line 0x03
  have hfifo := hline.outb (.inl (show serialFifoCommandPort serialCom1Base - serialCom1Base ≠ 0 by decide)) 0xC7
  have hmodem := hfifo.outb (.inl (show serialModemCommandPort serialCom1Base - serialCom1Base ≠ 0 by decide)) 0x03
  refine ⟨⟨hmodem.settings, hmodem.lost⟩, ?_⟩
  have hcleared : ∀ v : Uart, (v.write (serialFifoCommandPort serialCom1Base - serialCom1Base) 0xC7).waiting = [] :=
    Uart.clearFifo_waiting (by decide)
  show List.drop _ (Uart.write _ _ _).waiting = []
  rw [hcleared, List.drop_nil]

/-! ## The wire -/

/-- Whatever state the device is in and whenever it sends: the port is opened with 8 data bits, and the
messages of any calls are then on the wire, or will be, in their order; no byte is lost. -/
theorem wire_carries_logs (u : Uart) {shifts : Nat → Nat} (hfair : ∀ n, ∃ m ≥ n, 0 < shifts m) (s : Serial)
    (calls : List LogCall) : ∃ s',
      Settles (fun fuel => Run.run (LogCall.run (uartDevice serialCom1Base u shifts) fuel) calls (serialStart s)) s' ∧
      (uartAfter serialCom1Base u shifts s'.events).stream =
        (uartAfter serialCom1Base u shifts (serialStart s).events).wire ++
          calls.flatMap (fun call => debugMessage call.text) ∧
      (uartAfter serialCom1Base u shifts s'.events).lost = (uartAfter serialCom1Base u shifts s.events).lost ∧
      (uartAfter serialCom1Base u shifts s'.events).settings =
        ⟨0x03, 4, (uartAfter serialCom1Base u shifts s.events).settings.divisorHigh, 0x03, true⟩ := by
  obtain ⟨hconfigured, hempty⟩ := serialStart_configures u shifts s
  have hopen : (serialStart s).serialOpen ≠ 0 := by
    show (1 : UInt8) ≠ 0
    decide
  have hlatched : (uartAfter serialCom1Base u shifts (serialStart s).events).settings.latched = false := by
    rw [hconfigured.settings]
    show (0x03 : UInt8).toNat.testBit 7 = false
    decide
  obtain ⟨s', hrun, hcarries⟩ := logCalls_carry hfair calls hopen hlatched
  refine ⟨s', hrun, ?_, hcarries.accepts.lost.trans hconfigured.lost,
    hcarries.accepts.settings.trans hconfigured.settings⟩
  rw [hcarries.accepts.stream, Uart.stream, hempty, List.append_nil]

/-- One byte at every third event, from a device with a byte left in it. -/
theorem wire_carries_logs_two : ∃ s',
    Settles (fun fuel => Run.run (LogCall.run (uartDevice serialCom1Base
      ⟨⟨0, 0, 1, 0, false⟩, [0xFF], [], []⟩ fun n => if n % 3 = 0 then 1 else 0) fuel)
      [.debugStr ⟨ascii "up", by decide, by decide⟩ [], .debugDec 42] (serialStart .powerOn)) s' ∧
    (uartAfter serialCom1Base ⟨⟨0, 0, 1, 0, false⟩, [0xFF], [], []⟩ (fun n => if n % 3 = 0 then 1 else 0)
      s'.events).stream = [0xFF] ++ (ascii "[DEBUG] up
" ++ ascii "[DEBUG] 4
") ∧
    (uartAfter serialCom1Base ⟨⟨0, 0, 1, 0, false⟩, [0xFF], [], []⟩ (fun n => if n % 3 = 0 then 1 else 0)
      s'.events).lost = [] ∧
    (uartAfter serialCom1Base ⟨⟨0, 0, 1, 0, false⟩, [0xFF], [], []⟩ (fun n => if n % 3 = 0 then 1 else 0)
      s'.events).settings = ⟨0x03, 4, 1, 0x03, true⟩ :=
  wire_carries_logs ⟨⟨0, 0, 1, 0, false⟩, [0xFF], [], []⟩ (fun n => ⟨3 * n, by omega, by
    rw [Nat.mul_mod_right]
    decide⟩) .powerOn [.debugStr ⟨ascii "up", by decide, by decide⟩ [], .debugDec 42]

end HavenOS
