/-
serial.c: the driver of the serial ports, over the history of what it does. What `inb` gives is up
to the device, a function of that history and the port.
-/
import HavenOS.Cstring.Basic
import HavenOS.Lib.Fuel
import Mathlib.Algebra.Group.Nat.Defs
import Mathlib.Logic.Function.Iterate

namespace HavenOS

def serialCom1Base : UInt16 := 0x3F8
def serialLineEnableDlab : UInt8 := 0x80

def serialDataPort (base : UInt16) : UInt16 := base
def serialFifoCommandPort (base : UInt16) : UInt16 := base + 2
def serialLineCommandPort (base : UInt16) : UInt16 := base + 3
def serialModemCommandPort (base : UInt16) : UInt16 := base + 4
def serialLineStatusPort (base : UInt16) : UInt16 := base + 5

/-- `inb` with the byte it gave, `outb` with the byte it sent, and the read of `c[i]` in
`serial_write`. -/
inductive SerialEvent where
  | inb (port : UInt16) (data : UInt8)
  | outb (port : UInt16) (data : UInt8)
  | load (i : Nat)
deriving DecidableEq, Repr

/-- The byte a port gives after a history, latest event first. -/
abbrev Device := List SerialEvent → UInt16 → UInt8

/-- The flag `serial_open` and the history, latest event first. -/
structure Serial where
  serialOpen : UInt8
  events : List SerialEvent

namespace Serial

/-- Before anything is configured. -/
def powerOn : Serial := ⟨0, []⟩

def log (s : Serial) (e : SerialEvent) : Serial := { s with events := e :: s.events }

def outb (s : Serial) (port : UInt16) (data : UInt8) : Serial := s.log (.outb port data)

def inb (device : Device) (s : Serial) (port : UInt16) : UInt8 × Serial :=
  let data := device s.events port
  (data, s.log (.inb port data))

/-- The bytes sent to a port, the first one first. -/
def sent (s : Serial) (port : UInt16) : List UInt8 :=
  s.events.reverse.filterMap fun
    | .outb p data => if p = port then some data else none
    | _ => none

end Serial

/-! ## Configuring a port -/

def serialConfigureBaudRate (com divisor : UInt16) (s : Serial) : Serial :=
  let s := s.outb (serialLineCommandPort com) serialLineEnableDlab
  let s := s.outb (serialDataPort com) ((divisor >>> 8) &&& 0x00FF).toUInt8
  s.outb (serialDataPort com) (divisor &&& 0x00FF).toUInt8

def serialConfigureLine (com : UInt16) (s : Serial) : Serial := s.outb (serialLineCommandPort com) 0x03

def serialConfigureBuffers (com : UInt16) (s : Serial) : Serial := s.outb (serialFifoCommandPort com) 0xC7

def serialConfigureModem (com : UInt16) (s : Serial) : Serial :=
  { s.outb (serialModemCommandPort com) 0x03 with serialOpen := 1 }

/-- The calls of `kmain` that open COM1. -/
def serialStart (s : Serial) : Serial :=
  let s := serialConfigureBaudRate serialCom1Base 4 (serialConfigureBaudRate serialCom1Base 4 s)
  serialConfigureModem serialCom1Base (serialConfigureBuffers serialCom1Base (serialConfigureLine serialCom1Base s))

/-! ## Writing -/

section
variable (device : Device)

def serialIsTransmitFifoEmpty (com : UInt16) (s : Serial) : UInt8 × Serial :=
  let (status, s) := s.inb device (serialLineStatusPort com)
  (status &&& 0x20, s)

/-- `while(!serial_is_transmit_fifo_empty(com));` with at most `fuel` tests. -/
def waitLoop (com : UInt16) : Nat → Serial → Option Serial
  | 0, _ => none
  | fuel + 1, s =>
    let (empty, s) := serialIsTransmitFifoEmpty device com s
    if empty ≠ 0 then some s else waitLoop com fuel s

/-- The loop of `serial_write` with `n` rounds left; each wait has the whole fuel. -/
def writeLoop (com : UInt16) (c : List UInt8) (fuel : Nat) : Nat → Nat → Serial → Option Serial
  | 0, _, s => some s
  | n + 1, i, s => do
    let s ← waitLoop device com fuel s
    writeLoop com c fuel n (i + 1) ((s.log (.load i)).outb (serialDataPort com) (c.getD i 0))

/-- `length - 1` is an `unsigned int`, so a length of 0 asks for 4294967295 rounds. -/
def serialWrite (com : UInt16) (c : List UInt8) (length : UInt32) (fuel : Nat) (s : Serial) : Option Serial :=
  if s.serialOpen ≠ 0 then writeLoop device com c fuel (length - 1).toNat 0 s else some s

/-! ## A transmitter that gets ready -/

/-- Reading the line status once more. -/
def poll (com : UInt16) (s : Serial) : Serial := (serialIsTransmitFifoEmpty device com s).2

/-- Whatever has happened, reading the line status often enough gives one that reports an empty FIFO. -/
def EventuallyReady (com : UInt16) : Prop :=
  ∀ s : Serial, ∃ k, (serialIsTransmitFifoEmpty device com ((poll device com)^[k] s)).1 ≠ 0

variable {device} {com : UInt16}

/-- The byte an event sends to a port. -/
def SerialEvent.sentTo (port : UInt16) : SerialEvent → Option UInt8
  | .outb p data => if p = port then some data else none
  | _ => none

/-- From `s` to `s'` the driver does just this, the first event first. -/
structure Did (es : List SerialEvent) (s s' : Serial) : Prop where
  serialOpen : s'.serialOpen = s.serialOpen
  events : s'.events = es.reverse ++ s.events

namespace Did

variable {s s' s'' : Serial} {es es' : List SerialEvent}

theorem nil (s : Serial) : Did [] s s := ⟨rfl, rfl⟩

theorem cons {e : SerialEvent} (h : Did es (s.log e) s') : Did (e :: es) s s' :=
  ⟨h.serialOpen, by rw [h.events, List.reverse_cons, List.append_assoc]; rfl⟩

theorem append (h : Did es s s') (h' : Did es' s' s'') : Did (es ++ es') s s'' :=
  ⟨h'.serialOpen.trans h.serialOpen, by rw [h'.events, h.events, List.reverse_append, List.append_assoc]⟩

theorem unique (h : Did es s s') (h' : Did es' s s') : es = es' :=
  List.reverse_inj.1 (List.append_cancel_right (h.events.symm.trans h'.events))

theorem sent (h : Did es s s') (port : UInt16) :
    s'.sent port = s.sent port ++ es.filterMap (SerialEvent.sentTo port) := by
  have hsent : ∀ s : Serial, s.sent port = s.events.reverse.filterMap (SerialEvent.sentTo port) := fun _ => rfl
  rw [hsent, hsent, h.events, List.reverse_append, List.reverse_reverse, List.filterMap_append]

end Did

/-- Line statuses of a transmitter that is busy, and then one that reports an empty FIFO. -/
inductive Polls (com : UInt16) : List SerialEvent → Prop where
  | ready {data : UInt8} (hready : data &&& 0x20 ≠ 0) : Polls com [.inb (serialLineStatusPort com) data]
  | busy {data : UInt8} {es : List SerialEvent} (hbusy : data &&& 0x20 = 0) (rest : Polls com es) :
    Polls com (.inb (serialLineStatusPort com) data :: es)

/-- `n` elements of `c` from `c[i]` on, each of them sent after such a wait. -/
inductive Transmits (com : UInt16) (c : List UInt8) : Nat → Nat → List SerialEvent → Prop where
  | done (i : Nat) : Transmits com c i 0 []
  | byte {i n : Nat} {ps es : List SerialEvent} (polls : Polls com ps) (rest : Transmits com c (i + 1) n es) :
    Transmits com c i (n + 1) (ps ++ .load i :: .outb (serialDataPort com) (c.getD i 0) :: es)

theorem Polls.filterMap_sentTo {ps : List SerialEvent} (h : Polls com ps) (port : UInt16) :
    ps.filterMap (SerialEvent.sentTo port) = [] := by
  induction h with
  | ready => rfl
  | busy _ _ ih => exact ih

theorem Transmits.filterMap_sentTo {c : List UInt8} {i n : Nat} {es : List SerialEvent} (h : Transmits com c i n es) :
    es.filterMap (SerialEvent.sentTo (serialDataPort com)) = (List.range' i n).map (c.getD · 0) := by
  induction h with
  | done => rfl
  | @byte i n ps es polls _ ih =>
    have hsend : SerialEvent.sentTo (serialDataPort com) (.outb (serialDataPort com) (c.getD i 0)) =
        some (c.getD i 0) := if_pos rfl
    rw [List.filterMap_append, polls.filterMap_sentTo, List.nil_append, List.filterMap_cons_none rfl,
      List.filterMap_cons_some hsend, ih, List.range'_succ, List.map_cons]

theorem waitLoop_settles : ∀ (k : Nat) (s : Serial),
    (serialIsTransmitFifoEmpty device com ((poll device com)^[k] s)).1 ≠ 0 →
    ∃ s' ps, Settles (waitLoop device com · s) s' ∧ Did ps s s' ∧ Polls com ps := by
  have hnow : ∀ s : Serial, (serialIsTransmitFifoEmpty device com s).1 ≠ 0 →
      ∃ s' ps, Settles (waitLoop device com · s) s' ∧ Did ps s s' ∧ Polls com ps := fun s h =>
    ⟨_, _, Settles.succ (f := (waitLoop device com · s)) ⟨0, fun n _ => if_pos h⟩, (Did.nil _).cons, .ready h⟩
  intro k
  induction k with
  | zero => exact hnow
  | succ k ih =>
    intro s h
    by_cases hempty : (serialIsTransmitFifoEmpty device com s).1 ≠ 0
    · exact hnow s hempty
    · obtain ⟨s', ps, ⟨N, hN⟩, hdid, hpolls⟩ := ih (poll device com s) h
      refine ⟨s', _, Settles.succ (f := (waitLoop device com · s)) ⟨N, fun n hn => ?_⟩, hdid.cons,
        .busy (not_not.1 hempty) hpolls⟩
      exact (if_neg hempty).trans (hN n hn)

theorem writeLoop_settles (hready : EventuallyReady device com) (c : List UInt8) : ∀ (n i : Nat) (s : Serial),
    ∃ s' es, Settles (writeLoop device com c · n i s) s' ∧ Did es s s' ∧ Transmits com c i n es
  | 0, i, s => ⟨s, [], Settles.const s, .nil s, .done i⟩
  | n + 1, i, s => by
    obtain ⟨k, hk⟩ := hready s
    obtain ⟨s1, ps, hwait, hdid1, hpolls⟩ := waitLoop_settles k s hk
    obtain ⟨s2, es, hrest, hdid2, htransmits⟩ := writeLoop_settles hready c n (i + 1)
      ((s1.log (.load i)).outb (serialDataPort com) (c.getD i 0))
    exact ⟨s2, _, hwait.bind hrest, hdid1.append hdid2.cons.cons, .byte hpolls htransmits⟩

/-- With the port open, `serial_write` ends and transmits one byte less than its length. -/
theorem serialWrite_transmits (hready : EventuallyReady device com) (c : List UInt8) (length : UInt32) {s : Serial}
    (hopen : s.serialOpen ≠ 0) : ∃ s' es, Settles (serialWrite device com c length · s) s' ∧ Did es s s' ∧
      Transmits com c 0 (length - 1).toNat es := by
  obtain ⟨s', es, hwrite, hdid, htransmits⟩ := writeLoop_settles hready c (length - 1).toNat 0 s
  refine ⟨s', es, ?_, hdid, htransmits⟩
  unfold serialWrite
  simpa only [if_pos hopen] using hwrite

theorem serialWrite_settles (hready : EventuallyReady device com) (c : List UInt8) (length : UInt32) {s : Serial}
    (hopen : s.serialOpen ≠ 0) : ∃ s', Settles (serialWrite device com c length · s) s' ∧ s'.serialOpen ≠ 0 ∧
      s'.sent (serialDataPort com) =
        s.sent (serialDataPort com) ++ (List.range (length - 1).toNat).map (c.getD · 0) := by
  obtain ⟨s', es, hwrite, hdid, htransmits⟩ := serialWrite_transmits hready c length hopen
  refine ⟨s', hwrite, hdid.serialOpen ▸ hopen, ?_⟩
  rw [hdid.sent, htransmits.filterMap_sentTo, List.range_eq_range']

end

end HavenOS
