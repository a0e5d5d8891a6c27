/-
How long requests wait, over any run of the agenda: a key for no more than the keys before it and the
timer, everything for no longer than the devices keep on, and the ticks count the requests of the timer
that found none waiting.
-/
import HavenOS.System.Attention

namespace HavenOS

def Event.isTimer : Event → Bool
  | .timer => true
  | .key _ | .device _ _ | .fault _ _ _ | .interrupt | .proceed => false

def Event.isInterrupt : Event → Bool
  | .interrupt => true
  | .timer | .key _ | .device _ _ | .fault _ _ _ | .proceed => false

def Event.isFault : Event → Bool
  | .fault _ _ _ => true
  | .timer | .key _ | .device _ _ | .interrupt | .proceed => false

namespace Agenda

/-! ## How long a key waits -/

/-- 1 while the timer has a request. -/
def timerWaits (a : Agenda) : Nat := if timerLine ∈ a.requests then 1 else 0

theorem timerWaits_le (a : Agenda) : a.timerWaits ≤ 1 := by
  unfold timerWaits
  split <;> omega

theorem timerWaits_congr {a a' : Agenda} (h : timerLine ∈ a'.requests ↔ timerLine ∈ a.requests) :
    a'.timerWaits = a.timerWaits := by
  simp only [timerWaits, h]

/-- Only the timer comes before the keyboard. -/
theorem le_keyboardLine {line : Pic.Line} (h : line ≤ keyboardLine) : line = timerLine ∨ line = keyboardLine := by
  have hrank : line.rank ≤ 1 := h
  have hzero : timerLine.rank = 0 := rfl
  have hone : keyboardLine.rank = 1 := rfl
  rcases Nat.le_one_iff_eq_zero_or_eq_one.1 hrank with h0 | h1
  · exact .inl (Pic.Line.rank_injective (h0.trans hzero.symm))
  · exact .inr (Pic.Line.rank_injective (h1.trans hone.symm))

theorem takeKey_timerWaits (a : Agenda) : a.takeKey.timerWaits = a.timerWaits := by
  cases hqueue : a.queue with
  | nil => rw [a.takeKey_nil hqueue]; rfl
  | cons code queue =>
    rw [a.takeKey_cons hqueue]
    refine timerWaits_congr ?_
    show timerLine ∈ (if queue = [] then a.requests else insert keyboardLine a.requests) ↔ timerLine ∈ a.requests
    split
    · rfl
    · rw [Finset.mem_insert, or_iff_right keyboardLine_ne_timerLine.symm]

theorem timerWaits_erase {a : Agenda} (h : timerLine ∈ a.requests) :
    a.timerWaits = timerWaits { a with requests := a.requests.erase timerLine } + 1 := by
  have hgone : timerWaits { a with requests := a.requests.erase timerLine } = 0 := if_neg (Finset.notMem_erase _ _)
  rw [hgone, timerWaits, if_pos h]

theorem timerWaits_erase_ne {a : Agenda} {line : Pic.Line} (h : line ≠ timerLine) :
    timerWaits { a with requests := a.requests.erase line } = a.timerWaits :=
  timerWaits_congr (by rw [Finset.mem_erase, and_iff_right h.symm])

theorem key_timerWaits (a : Agenda) (code : UInt8) : (a.step (.key code)).timerWaits = a.timerWaits := by
  rw [step, press_eq]
  refine timerWaits_congr ?_
  show timerLine ∈ (if a.queue = [] then insert keyboardLine a.requests else a.requests) ↔ timerLine ∈ a.requests
  split
  · rw [Finset.mem_insert, or_iff_right keyboardLine_ne_timerLine.symm]
  · rfl

theorem device_timerWaits (a : Agenda) {line : Pic.Line} (other : line ≠ timerLine ∧ line ≠ keyboardLine) :
    (a.step (.device line other)).timerWaits = a.timerWaits := by
  refine timerWaits_congr ?_
  show timerLine ∈ insert line a.requests ↔ timerLine ∈ a.requests
  rw [Finset.mem_insert, or_iff_right other.1.symm]

/-- While a key waits an interrupt serves the timer or reads the key. -/
theorem interrupt_answers {a : Agenda} (h : a.Attentive) :
    (a.queue.length = 0 ∧ (a.step .interrupt).read.length = a.read.length) ∨
    (a.timerWaits = (a.step .interrupt).timerWaits + 1 ∧ (a.step .interrupt).queue.length = a.queue.length ∧
      (a.step .interrupt).read.length = a.read.length) ∨
    ((a.step .interrupt).timerWaits = a.timerWaits ∧ a.queue.length = (a.step .interrupt).queue.length + 1 ∧
      (a.step .interrupt).read.length = a.read.length + 1) := by
  have hempty : keyboardLine ∉ a.requests → a.queue.length = 0 := fun hnone => by
    rw [List.length_eq_zero_iff]
    by_contra hwaiting
    exact hnone (h.balanced.2 hwaiting)
  rcases a.interrupt_cases with ⟨hsame, hnone⟩ | ⟨line, hserve, hmem, hfirst⟩
  · rw [hsame]
    exact .inl ⟨hempty (hnone ▸ Finset.notMem_empty _), rfl⟩
  · rw [hserve]
    rcases a.serve_cases line with ⟨rfl, -, heq⟩ | ⟨rfl, -, heq⟩ | ⟨-, hdeaf, heq⟩
    · rw [heq]
      exact .inr (.inl ⟨timerWaits_erase hmem, rfl, rfl⟩)
    · obtain ⟨code, queue, hqueue⟩ := List.exists_cons_of_ne_nil (h.balanced.1 hmem)
      have htimer := takeKey_timerWaits { a with requests := a.requests.erase keyboardLine }
      rw [heq]
      refine .inr (.inr ⟨htimer.trans (timerWaits_erase_ne keyboardLine_ne_timerLine), ?_, ?_⟩)
      · rw [takeKey_cons { a with requests := a.requests.erase keyboardLine } hqueue, hqueue]
        rfl
      · rw [takeKey_cons { a with requests := a.requests.erase keyboardLine } hqueue]
        rfl
    · rw [heq]
      by_cases hline : line = timerLine
      · subst hline
        exact .inr (.inl ⟨timerWaits_erase hmem, rfl, rfl⟩)
      · refine .inl ⟨hempty fun hkey => ?_, rfl⟩
        rcases le_keyboardLine (hfirst keyboardLine hkey) with htimer | hkeyboard
        · exact hline htimer
        · exact hdeaf ⟨hkeyboard, h.keyboard⟩

/-- The next key is read after no more interrupts than the keys before it and the requests of the timer
need, whatever else happens. -/
theorem run_answers {a : Agenda} (h : a.Attentive) (events : List Event) :
    a.read.length + min a.queue.length
      (events.countP Event.isInterrupt - (events.countP Event.isTimer + a.timerWaits)) ≤
      (a.run events).read.length := by
  induction events generalizing a with
  | nil =>
    show a.read.length + min a.queue.length (0 - (0 + a.timerWaits)) ≤ a.read.length
    rw [Nat.zero_sub, Nat.min_zero, Nat.add_zero]
  | cons event events ih =>
    have hrest := ih (h.step event)
    rw [run_cons]
    generalize ((a.step event).run events).read.length = total at hrest ⊢
    have hle := a.timerWaits_le
    have hwaits := (a.step event).timerWaits_le
    cases event with
    | timer =>
      have hread : (a.step .timer).read = a.read := rfl
      have hqueue : (a.step .timer).queue = a.queue := rfl
      have htimers : (Event.timer :: events).countP Event.isTimer = events.countP Event.isTimer + 1 :=
        List.countP_cons_of_pos rfl
      rw [hread, hqueue] at hrest
      rw [show (Event.timer :: events).countP Event.isInterrupt = events.countP Event.isInterrupt from rfl, htimers]
      omega
    | key code =>
      have hread : (a.step (.key code)).read = a.read := by rw [step, press_eq]
      have hqueue : (a.step (.key code)).queue.length = a.queue.length + 1 := by
        rw [step, press_eq, List.length_append]
        rfl
      rw [hread, hqueue, key_timerWaits] at hrest
      rw [show (Event.key code :: events).countP Event.isInterrupt = events.countP Event.isInterrupt from rfl,
        show (Event.key code :: events).countP Event.isTimer = events.countP Event.isTimer from rfl]
      omega
    | device line other =>
      have hread : (a.step (.device line other)).read = a.read := rfl
      have hqueue : (a.step (.device line other)).queue = a.queue := rfl
      rw [hread, hqueue, device_timerWaits] at hrest
      exact hrest
    | fault => exact hrest
    | interrupt =>
      have hcount : (Event.interrupt :: events).countP Event.isInterrupt = events.countP Event.isInterrupt + 1 :=
        List.countP_cons_of_pos rfl
      rw [hcount, show (Event.interrupt :: events).countP Event.isTimer = events.countP Event.isTimer from rfl]
      rcases interrupt_answers h with ⟨hnone, hread⟩ | ⟨htimer, hqueue, hread⟩ | ⟨htimer, hqueue, hread⟩
      · rw [hnone, Nat.zero_min, Nat.add_zero]
        exact hread ▸ (Nat.le_add_right _ _).trans hrest
      · omega
      · omega
    | proceed =>
      have hsame : (a.step .proceed).read = a.read ∧ (a.step .proceed).queue = a.queue ∧
          (a.step .proceed).timerWaits = a.timerWaits := by
        rcases a.proceed_cases with ⟨hsame, -⟩ | ⟨statement, todo, -, heq⟩
        · rw [hsame]
          exact ⟨rfl, rfl, rfl⟩
        · obtain ⟨hrequests, hread, hqueue, -⟩ := execute_frame { a with todo := todo } statement
          rw [heq]
          exact ⟨hread, hqueue, timerWaits_congr (by rw [hrequests])⟩
      rw [hsame.1, hsame.2.1, hsame.2.2] at hrest
      exact hrest

/-- A timer that asks before every interrupt keeps all keys waiting. -/
theorem run_starves (n : Nat) (a : Agenda) : (a.run (List.replicate n [.timer, .interrupt]).flatten).read = a.read ∧
    (a.run (List.replicate n [.timer, .interrupt]).flatten).queue = a.queue := by
  induction n generalizing a with
  | zero => exact ⟨rfl, rfl⟩
  | succ n ih =>
    have hfirst : Pic.highest (insert timerLine a.requests) = some timerLine :=
      Pic.highest_eq_some_iff.2 ⟨Finset.mem_insert_self _ _, fun other _ => Nat.zero_le other.rank⟩
    have hserve : (a.step .timer).step .interrupt = (a.raise timerLine).serve timerLine :=
      (a.raise timerLine).interrupt_eq hfirst
    have hsame : ((a.raise timerLine).serve timerLine).read = a.read ∧
        ((a.raise timerLine).serve timerLine).queue = a.queue := by
      rcases (a.raise timerLine).serve_cases timerLine with ⟨-, -, heq⟩ | ⟨hline, -⟩ | ⟨-, -, heq⟩
      · rw [heq]
        exact ⟨rfl, rfl⟩
      · exact absurd hline keyboardLine_ne_timerLine.symm
      · rw [heq]
        exact ⟨rfl, rfl⟩
    obtain ⟨hread, hqueue⟩ := ih ((a.raise timerLine).serve timerLine)
    rw [List.replicate_succ, List.flatten_cons, List.cons_append, List.cons_append, List.nil_append, run_cons, run_cons,
      hserve, hread, hqueue]
    exact hsame

/-! ## Quiet devices -/

/-- The requests of other devices, and the keys. -/
def backlog (a : Agenda) : Nat := (a.requests.erase keyboardLine).card + a.queue.length

theorem backlog_eq_zero {a : Agenda} (h : a.Attentive) : a.backlog = 0 ↔ a.requests = ∅ ∧ a.queue = [] := by
  rw [backlog, Nat.add_eq_zero_iff, Finset.card_eq_zero, List.length_eq_zero_iff]
  constructor
  · rintro ⟨hothers, hqueue⟩
    have hkeyboard : keyboardLine ∉ a.requests := fun hmem => h.balanced.1 hmem hqueue
    rw [Finset.erase_eq_of_notMem hkeyboard] at hothers
    exact ⟨hothers, hqueue⟩
  · rintro ⟨hrequests, hqueue⟩
    rw [hrequests]
    exact ⟨rfl, hqueue⟩

/-- One of them is served by every interrupt. -/
theorem interrupt_backlog {a : Agenda} (h : a.Attentive) : (a.step .interrupt).backlog = a.backlog - 1 := by
  have hother : ∀ line ∈ a.requests, line ≠ keyboardLine →
      ((a.requests.erase line).erase keyboardLine).card + a.queue.length = a.backlog - 1 := fun line hmem hne => by
    have hrest : line ∈ a.requests.erase keyboardLine := Finset.mem_erase.2 ⟨hne, hmem⟩
    have hsome := Finset.card_pos.2 ⟨line, hrest⟩
    rw [Finset.erase_right_comm, Finset.card_erase_of_mem hrest, backlog]
    omega
  rcases a.interrupt_cases with ⟨hsame, hnone⟩ | ⟨line, hserve, hmem, -⟩
  · have hqueue : a.queue = [] := by
      by_contra hwaiting
      exact Finset.notMem_empty _ (hnone ▸ h.balanced.2 hwaiting)
    rw [hsame, (backlog_eq_zero h).2 ⟨hnone, hqueue⟩]
  · rw [hserve]
    rcases a.serve_cases line with ⟨rfl, -, heq⟩ | ⟨rfl, -, heq⟩ | ⟨-, hdeaf, heq⟩
    · rw [heq]
      exact hother timerLine hmem keyboardLine_ne_timerLine.symm
    · obtain ⟨code, queue, hqueue⟩ := List.exists_cons_of_ne_nil (h.balanced.1 hmem)
      have hsame : ∀ requests : Finset Pic.Line, (if queue = [] then requests.erase keyboardLine
          else insert keyboardLine (requests.erase keyboardLine)).erase keyboardLine = requests.erase keyboardLine :=
        fun requests => by
          split
          · exact Finset.erase_idem
          · exact Finset.erase_insert (Finset.notMem_erase _ _)
      rw [heq, takeKey_cons { a with requests := a.requests.erase keyboardLine } hqueue, backlog, backlog, hqueue,
        List.length_cons, Nat.add_sub_assoc (Nat.le_add_left 1 _), Nat.add_sub_cancel]
      exact congrArg (fun requests => requests.card + queue.length) (hsame a.requests)
    · have hne : line ≠ keyboardLine := fun hline => hdeaf ⟨hline, h.keyboard⟩
      rw [heq]
      exact hother line hmem hne

/-- With the devices quiet everything that waits is served, by one interrupt each. -/
theorem run_drains {a : Agenda} (h : a.Attentive) (n : Nat) :
    (a.run (List.replicate n .interrupt)).backlog = a.backlog - n := by
  induction n generalizing a with
  | zero => exact (Nat.sub_zero _).symm
  | succ n ih =>
    rw [List.replicate_succ, run_cons, ih (h.step .interrupt), interrupt_backlog h, Nat.sub_sub, Nat.add_comm]

/-! ## Ticks -/

/-- The requests of the timer that find none waiting. -/
def accepts (a : Agenda) : Event → Nat
  | .timer => if timerLine ∈ a.requests then 0 else 1
  | .key _ | .device _ _ | .fault _ _ _ | .interrupt | .proceed => 0

def accepted : List Event → Agenda → Nat
  | [], _ => 0
  | event :: events, a => a.accepts event + accepted events (a.step event)

theorem step_ticks {a : Agenda} (h : a.timer = true) (event : Event) :
    (a.step event).tick + UInt32.ofNat (a.step event).timerWaits =
      a.tick + UInt32.ofNat (a.timerWaits + a.accepts event) := by
  cases event with
  | timer =>
    refine congrArg (fun n => a.tick + UInt32.ofNat n) ?_
    have hwaits : (a.step .timer).timerWaits = 1 := if_pos (Finset.mem_insert_self _ _)
    rw [hwaits, accepts, timerWaits]
    split <;> rfl
  | key code =>
    rw [key_timerWaits, step, press_eq]
    rfl
  | device line other =>
    rw [device_timerWaits]
    rfl
  | fault => rfl
  | interrupt =>
    rcases a.interrupt_cases with ⟨hsame, -⟩ | ⟨line, hserve, hmem, -⟩
    · rw [hsame]
      rfl
    · rw [hserve]
      rcases a.serve_cases line with ⟨rfl, -, heq⟩ | ⟨rfl, -, heq⟩ | ⟨hother, -, heq⟩
      · rw [heq, timerWaits_erase hmem]
        show a.tick + 1 + UInt32.ofNat _ = a.tick + UInt32.ofNat (_ + 1)
        rw [UInt32.ofNat_add, UInt32.add_assoc, UInt32.add_comm 1]
        rfl
      · obtain ⟨-, -, htick, -⟩ := takeKey_frame { a with requests := a.requests.erase keyboardLine }
        rw [heq, takeKey_timerWaits, htick, timerWaits_erase_ne keyboardLine_ne_timerLine]
        rfl
      · have hne : line ≠ timerLine := fun hline => hother ⟨hline, h⟩
        rw [heq, timerWaits_erase_ne hne]
        rfl
  | proceed =>
    rcases a.proceed_cases with ⟨hsame, -⟩ | ⟨statement, todo, -, heq⟩
    · rw [hsame]
      rfl
    · obtain ⟨hrequests, -, -, htick⟩ := execute_frame { a with todo := todo } statement
      have hwaits : (execute statement { a with todo := todo }).timerWaits = a.timerWaits :=
        timerWaits_congr (by rw [hrequests])
      rw [heq, hwaits, htick]
      rfl

/-- From its registration on, the timer counts every request but those made while one waits. -/
theorem run_ticks {a : Agenda} (h : a.timer = true) (events : List Event) :
    (a.run events).tick + UInt32.ofNat (a.run events).timerWaits =
      a.tick + UInt32.ofNat (a.timerWaits + accepted events a) := by
  induction events generalizing a with
  | nil => rfl
  | cons event events ih =>
    have htimer : a.has .initTimer = true := h
    have hticks := step_ticks h event
    rw [run_cons, ih (step_has htimer event), UInt32.ofNat_add, ← UInt32.add_assoc, hticks, accepted, ← Nat.add_assoc,
      UInt32.ofNat_add (a.timerWaits + _), UInt32.add_assoc]

end Agenda

end HavenOS
