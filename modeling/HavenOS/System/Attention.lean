/-
What becomes of keys, over any run of the agenda: none is lost, read twice or out of order, the console
is the work of those read, and a keyboard whose request goes by before its handler is registered is
never heard again.
-/
import HavenOS.System.Agenda

namespace HavenOS

/-- The key that an event brings. -/
def Event.typed : Event → Option UInt8
  | .key code => some code
  | .timer | .device _ _ | .fault _ _ _ | .interrupt | .proceed => none

def Event.isProceed : Event → Bool
  | .proceed => true
  | .timer | .key _ | .device _ _ | .fault _ _ _ | .interrupt => false

namespace Agenda

/-! ## What an event does -/

section
variable (a : Agenda)

theorem press_eq (code : UInt8) : a.press code = { a with
    queue := a.queue ++ [code],
    requests := if a.queue = [] then insert keyboardLine a.requests else a.requests } := by
  unfold press
  split <;> rfl

theorem takeKey_nil (h : a.queue = []) :
    a.takeKey = type { a with read := a.read.headD 0 :: a.read, queue := [] } (a.read.headD 0) := by
  rw [takeKey, h]

theorem takeKey_cons {code : UInt8} {queue : List UInt8} (h : a.queue = code :: queue) : a.takeKey =
    type { a with
      read := code :: a.read, queue := queue,
      requests := if queue = [] then a.requests else insert keyboardLine a.requests } code := by
  rw [takeKey, h]
  simp only
  split
  · rfl
  · rfl

theorem takeKey_frame : a.takeKey.timer = a.timer ∧ a.takeKey.keyboard = a.keyboard ∧ a.takeKey.tick = a.tick ∧
    a.takeKey.todo = a.todo := by
  cases hqueue : a.queue with
  | nil => rw [a.takeKey_nil hqueue]; exact ⟨rfl, rfl, rfl, rfl⟩
  | cons code queue => rw [a.takeKey_cons hqueue]; exact ⟨rfl, rfl, rfl, rfl⟩

/-- A statement of `kmain` leaves the requests, the keys and the ticks alone. -/
theorem execute_frame (statement : Statement) : (a.execute statement).requests = a.requests ∧
    (a.execute statement).read = a.read ∧ (a.execute statement).queue = a.queue ∧
    (a.execute statement).tick = a.tick := by
  cases statement <;> exact ⟨rfl, rfl, rfl, rfl⟩

/-- The timer is counted, a key is taken, or the request goes by unheard. -/
theorem serve_cases (line : Pic.Line) :
    (line = timerLine ∧ a.timer = true ∧
      a.serve line = { a with requests := a.requests.erase line, tick := a.tick + 1 }) ∨
    (line = keyboardLine ∧ a.keyboard = true ∧
      a.serve line = takeKey { a with requests := a.requests.erase keyboardLine }) ∨
    (¬ (line = timerLine ∧ a.timer = true) ∧ ¬ (line = keyboardLine ∧ a.keyboard = true) ∧
      a.serve line = { a with requests := a.requests.erase line }) := by
  by_cases ht : line = timerLine ∧ a.timer
  · exact .inl ⟨ht.1, ht.2, if_pos ht⟩
  · by_cases hk : line = keyboardLine ∧ a.keyboard
    · refine .inr (.inl ⟨hk.1, hk.2, ?_⟩)
      rw [← hk.1]
      exact (if_neg ht).trans (if_pos hk)
    · exact .inr (.inr ⟨ht, hk, (if_neg ht).trans (if_neg hk)⟩)

theorem interrupt_eq {line : Pic.Line} (h : Pic.highest a.requests = some line) :
    a.step .interrupt = a.serve line := by
  rw [step, h]

/-- An interrupt serves the first of the requests, if there is one. -/
theorem interrupt_cases : a.step .interrupt = a ∧ a.requests = ∅ ∨
    ∃ line, a.step .interrupt = a.serve line ∧ line ∈ a.requests ∧ ∀ other ∈ a.requests, line ≤ other := by
  cases hfirst : Pic.highest a.requests with
  | none => exact .inl ⟨by rw [step, hfirst], Pic.highest_eq_none_iff.1 hfirst⟩
  | some line => exact .inr ⟨line, a.interrupt_eq hfirst, Pic.highest_eq_some_iff.1 hfirst⟩

theorem proceed_cases : a.step .proceed = a ∧ a.todo = [] ∨
    ∃ statement todo, a.todo = statement :: todo ∧ a.step .proceed = execute statement { a with todo := todo } := by
  cases htodo : a.todo with
  | nil => exact .inl ⟨by rw [step, htodo], rfl⟩
  | cons statement todo => exact .inr ⟨statement, todo, rfl, by rw [step, htodo]⟩

theorem run_cons (event : Event) (events : List Event) : a.run (event :: events) = (a.step event).run events := rfl

theorem takeKey_program : a.takeKey.program = a.program := by
  cases hqueue : a.queue with
  | nil => rw [a.takeKey_nil hqueue]; rfl
  | cons code queue => rw [a.takeKey_cons hqueue]; rfl

/-- The interrupted program stays the same one. -/
theorem step_program (event : Event) : (a.step event).program = a.program := by
  cases event with
  | timer | device | fault => rfl
  | key code => rw [step, press_eq]
  | interrupt =>
    rcases a.interrupt_cases with ⟨hsame, -⟩ | ⟨line, hserve, -⟩
    · rw [hsame]
    · rw [hserve]
      rcases a.serve_cases line with ⟨-, -, heq⟩ | ⟨-, -, heq⟩ | ⟨-, -, heq⟩
      · rw [heq]
      · rw [heq, takeKey_program]
      · rw [heq]
  | proceed =>
    rcases a.proceed_cases with ⟨hsame, -⟩ | ⟨statement, todo, -, heq⟩
    · rw [hsame]
    · rw [heq]
      cases statement <;> rfl

theorem run_program (events : List Event) : (a.run events).program = a.program := by
  induction events generalizing a with
  | nil => rfl
  | cons event events ih => rw [run_cons, ih, step_program]

end

/-! ## The request of the keyboard -/

/-- The keyboard has a request while a key waits, and then only. -/
def Balanced (a : Agenda) : Prop := keyboardLine ∈ a.requests ↔ a.queue ≠ []

theorem keyboardLine_ne_timerLine : keyboardLine ≠ timerLine := by decide

/-- The request of the keyboard is served before its handler is registered. -/
def Misses (a : Agenda) : Event → Prop
  | .interrupt => a.keyboard = false ∧ Pic.highest a.requests = some keyboardLine
  | .timer | .key _ | .device _ _ | .fault _ _ _ | .proceed => False

theorem Balanced.takeKey {a : Agenda} (hmem : a.queue ≠ []) :
    Balanced (Agenda.takeKey { a with requests := a.requests.erase keyboardLine }) := by
  obtain ⟨code, queue, hqueue⟩ := List.exists_cons_of_ne_nil hmem
  rw [takeKey_cons { a with requests := a.requests.erase keyboardLine } hqueue]
  show keyboardLine ∈ (if queue = [] then a.requests.erase keyboardLine
    else insert keyboardLine (a.requests.erase keyboardLine)) ↔ queue ≠ []
  split
  · rename_i hempty
    exact iff_of_false (Finset.notMem_erase _ _) (not_not_intro hempty)
  · rename_i hwaiting
    exact iff_of_true (Finset.mem_insert_self _ _) hwaiting

theorem Balanced.step {a : Agenda} (h : a.Balanced) {event : Event} (hheard : ¬ a.Misses event) :
    (a.step event).Balanced := by
  cases event with
  | timer =>
    show keyboardLine ∈ insert timerLine a.requests ↔ a.queue ≠ []
    rw [Finset.mem_insert, or_iff_right keyboardLine_ne_timerLine]
    exact h
  | device line other =>
    show keyboardLine ∈ insert line a.requests ↔ a.queue ≠ []
    rw [Finset.mem_insert, or_iff_right other.2.symm]
    exact h
  | fault => exact h
  | key code =>
    show (a.press code).Balanced
    rw [press_eq]
    refine iff_of_true ?_ (by simp)
    show keyboardLine ∈ if a.queue = [] then insert keyboardLine a.requests else a.requests
    split
    · exact Finset.mem_insert_self _ _
    · rename_i hwaiting
      exact h.2 hwaiting
  | interrupt =>
    rcases a.interrupt_cases with ⟨hsame, -⟩ | ⟨line, hserve, hmem, hfirst⟩
    · rwa [hsame]
    · rw [hserve]
      rcases a.serve_cases line with ⟨rfl, -, heq⟩ | ⟨rfl, -, heq⟩ | ⟨-, hdeaf, heq⟩
      · rw [heq]
        show keyboardLine ∈ a.requests.erase timerLine ↔ a.queue ≠ []
        rw [Finset.mem_erase, and_iff_right keyboardLine_ne_timerLine]
        exact h
      · rw [heq]
        exact Balanced.takeKey (h.1 hmem)
      · have hline : keyboardLine ≠ line := by
          rintro rfl
          refine hheard ⟨Bool.eq_false_iff.2 fun hkeyboard => hdeaf ⟨rfl, hkeyboard⟩, ?_⟩
          exact Pic.highest_eq_some_iff.2 ⟨hmem, hfirst⟩
        rw [heq]
        show keyboardLine ∈ a.requests.erase line ↔ a.queue ≠ []
        rw [Finset.mem_erase, and_iff_right hline]
        exact h
  | proceed =>
    rcases a.proceed_cases with ⟨hsame, -⟩ | ⟨statement, todo, -, heq⟩
    · rwa [hsame]
    · obtain ⟨hrequests, -, hqueue, -⟩ := execute_frame { a with todo := todo } statement
      rw [heq, Balanced, hrequests, hqueue]
      exact h

/-! ### A request that was missed -/

/-- A key waits without a request, so the controller puts no other key on its port. -/
def Deaf (a : Agenda) : Prop := keyboardLine ∉ a.requests ∧ a.queue ≠ []

theorem Misses.deaf {a : Agenda} (h : a.Balanced) {event : Event} (hmiss : a.Misses event) : (a.step event).Deaf := by
  cases event with
  | timer | key | device | fault | proceed => exact hmiss.elim
  | interrupt =>
    obtain ⟨hkeyboard, hfirst⟩ := hmiss
    have hunheard : a.serve keyboardLine = { a with requests := a.requests.erase keyboardLine } := by
      rcases a.serve_cases keyboardLine with ⟨hline, -⟩ | ⟨-, hregistered, -⟩ | ⟨-, -, heq⟩
      · exact absurd hline keyboardLine_ne_timerLine
      · exact Bool.noConfusion (hkeyboard.symm.trans hregistered)
      · exact heq
    rw [a.interrupt_eq hfirst, hunheard]
    exact ⟨Finset.notMem_erase _ _, h.1 (Pic.highest_eq_some_iff.1 hfirst).1⟩

theorem Deaf.step {a : Agenda} (h : a.Deaf) (event : Event) : (a.step event).Deaf ∧ (a.step event).read = a.read := by
  obtain ⟨hnone, hwaiting⟩ := h
  cases event with
  | timer =>
    refine ⟨⟨fun hmem => ?_, hwaiting⟩, rfl⟩
    exact (Finset.mem_insert.1 hmem).elim keyboardLine_ne_timerLine hnone
  | device line other =>
    refine ⟨⟨fun hmem => ?_, hwaiting⟩, rfl⟩
    exact (Finset.mem_insert.1 hmem).elim other.2.symm hnone
  | fault => exact ⟨⟨hnone, hwaiting⟩, rfl⟩
  | key code =>
    show (a.press code).Deaf ∧ (a.press code).read = a.read
    rw [press_eq, if_neg hwaiting]
    exact ⟨⟨hnone, by simp⟩, rfl⟩
  | interrupt =>
    rcases a.interrupt_cases with ⟨hsame, -⟩ | ⟨line, hserve, hmem, -⟩
    · rw [hsame]
      exact ⟨⟨hnone, hwaiting⟩, rfl⟩
    · have hfewer : keyboardLine ∉ a.requests.erase line := fun hkey => hnone (Finset.mem_of_mem_erase hkey)
      rw [hserve]
      rcases a.serve_cases line with ⟨-, -, heq⟩ | ⟨rfl, -, -⟩ | ⟨-, -, heq⟩
      · rw [heq]
        exact ⟨⟨hfewer, hwaiting⟩, rfl⟩
      · exact absurd hmem hnone
      · rw [heq]
        exact ⟨⟨hfewer, hwaiting⟩, rfl⟩
  | proceed =>
    rcases a.proceed_cases with ⟨hsame, -⟩ | ⟨statement, todo, -, heq⟩
    · rw [hsame]
      exact ⟨⟨hnone, hwaiting⟩, rfl⟩
    · obtain ⟨hrequests, hread, hqueue, -⟩ := execute_frame { a with todo := todo } statement
      rw [heq, Deaf, hrequests, hqueue]
      exact ⟨⟨hnone, hwaiting⟩, hread⟩

/-- No key is read any more. -/
theorem Deaf.run {a : Agenda} (h : a.Deaf) (events : List Event) :
    (a.run events).Deaf ∧ (a.run events).read = a.read := by
  induction events generalizing a with
  | nil => exact ⟨h, rfl⟩
  | cons event events ih =>
    obtain ⟨hdeaf, hread⟩ := h.step event
    obtain ⟨hdeaf', hread'⟩ := ih hdeaf
    exact ⟨hdeaf', hread'.trans hread⟩

theorem Balanced.not_deaf {a : Agenda} (h : a.Balanced) : ¬ a.Deaf := fun hdeaf => hdeaf.1 (h.2 hdeaf.2)

theorem run_append (a : Agenda) (events events' : List Event) :
    a.run (events ++ events') = (a.run events).run events' := List.foldl_append

/-- Between the two there is nothing. -/
theorem run_balanced_or_deaf {a : Agenda} (h : a.Balanced ∨ a.Deaf) (events : List Event) :
    (a.run events).Balanced ∨ (a.run events).Deaf := by
  induction events generalizing a with
  | nil => exact h
  | cons event events ih =>
    refine ih ?_
    rcases h with hbalanced | hdeaf
    · by_cases hmiss : a.Misses event
      · exact .inr (hmiss.deaf hbalanced)
      · exact .inl (hbalanced.step hmiss)
    · exact .inr (hdeaf.step event).1

theorem Misses.not_deaf {a : Agenda} {event : Event} (h : a.Misses event) : ¬ a.Deaf := by
  cases event with
  | timer | key | device | fault | proceed => exact h.elim
  | interrupt => exact fun hdeaf => hdeaf.1 (Pic.highest_eq_some_iff.1 h.2).1

/-- The keyboard turns deaf by a request that is missed, and not otherwise. -/
theorem run_deaf_iff {a : Agenda} (h : a.Balanced) (events : List Event) :
    (a.run events).Deaf ↔ ∃ pre event, pre ++ [event] <+: events ∧ (a.run pre).Misses event := by
  constructor
  · intro hdeaf
    induction events using List.reverseRecOn with
    | nil => exact absurd hdeaf h.not_deaf
    | append_singleton events event ih =>
      rw [run_append] at hdeaf
      rcases run_balanced_or_deaf (.inl h) events with hbalanced | hbefore
      · refine ⟨events, event, List.prefix_rfl, ?_⟩
        by_contra hheard
        exact (hbalanced.step hheard).not_deaf hdeaf
      · obtain ⟨pre, missed, hprefix, hmiss⟩ := ih hbefore
        exact ⟨pre, missed, hprefix.trans (List.prefix_append events [event]), hmiss⟩
  · rintro ⟨pre, event, ⟨rest, rfl⟩, hmiss⟩
    have hpre := (run_balanced_or_deaf (.inl h) pre).resolve_right hmiss.not_deaf
    rw [run_append, run_append]
    exact ((hmiss.deaf hpre).run rest).1

/-! ## Keys -/

/-- A request of the keyboard comes with a key. -/
theorem waiting_of_request {a : Agenda} (h : a.Balanced ∨ a.Deaf) (hmem : keyboardLine ∈ a.requests) : a.queue ≠ [] :=
  h.elim (fun hbalanced => hbalanced.1 hmem) fun hdeaf => absurd hmem hdeaf.1

/-- The keys in the order they came: what was read, and those that wait. -/
def keys (a : Agenda) : List UInt8 := a.read.reverse ++ a.queue

/-- With no key waiting the last one would be read twice. -/
theorem takeKey_keys {a : Agenda} (hwaiting : a.queue ≠ []) : a.takeKey.keys = a.keys := by
  obtain ⟨code, queue, hqueue⟩ := List.exists_cons_of_ne_nil hwaiting
  rw [a.takeKey_cons hqueue]
  show (code :: a.read).reverse ++ queue = a.read.reverse ++ a.queue
  rw [hqueue, List.reverse_cons, List.append_assoc]
  rfl

theorem step_keys {a : Agenda} (h : a.Balanced ∨ a.Deaf) (event : Event) :
    (a.step event).keys = a.keys ++ event.typed.toList := by
  cases event with
  | timer | device | fault => exact (List.append_nil _).symm
  | key code =>
    show (a.press code).keys = a.keys ++ [code]
    rw [press_eq, keys, keys, List.append_assoc]
  | interrupt =>
    refine Eq.trans ?_ (List.append_nil _).symm
    rcases a.interrupt_cases with ⟨hsame, -⟩ | ⟨line, hserve, hmem, -⟩
    · rw [hsame]
    · rw [hserve]
      rcases a.serve_cases line with ⟨-, -, heq⟩ | ⟨rfl, -, heq⟩ | ⟨-, -, heq⟩
      · rw [heq]; rfl
      · have hwaiting := waiting_of_request h hmem
        rw [heq, takeKey_keys (a := { a with requests := a.requests.erase keyboardLine }) hwaiting]
        rfl
      · rw [heq]; rfl
  | proceed =>
    refine Eq.trans ?_ (List.append_nil _).symm
    rcases a.proceed_cases with ⟨hsame, -⟩ | ⟨statement, todo, -, heq⟩
    · rw [hsame]
    · obtain ⟨-, hread, hqueue, -⟩ := execute_frame { a with todo := todo } statement
      rw [heq, keys, hread, hqueue]
      rfl

/-- No key is lost, and none is read twice or out of order. -/
theorem run_keys (events : List Event) {a : Agenda} (h : a.Balanced ∨ a.Deaf) :
    (a.run events).keys = a.keys ++ events.filterMap Event.typed := by
  induction events generalizing a with
  | nil => exact (List.append_nil _).symm
  | cons event events ih =>
    have hrest := ih (a := a.step event) (run_balanced_or_deaf h [event])
    rw [run_cons, hrest, step_keys h, List.append_assoc, List.filterMap_cons]
    cases event.typed <;> rfl

/-! ## A handler that is registered -/

/-- The handler that a statement registers, if any. -/
def has (a : Agenda) : Statement → Bool
  | .initTimer => a.timer
  | .initKeyboard => a.keyboard
  | .clear | .moveCursor | .printCell => true

theorem execute_has (a : Agenda) (statement : Statement) : (a.execute statement).has statement = true := by
  cases statement <;> rfl

theorem execute_keeps {a : Agenda} {other : Statement} (h : a.has other = true) (statement : Statement) :
    (a.execute statement).has other = true := by
  cases statement <;> cases other <;> first | rfl | exact h

theorem takeKey_has (a : Agenda) (statement : Statement) : a.takeKey.has statement = a.has statement := by
  obtain ⟨htimer, hkeyboard, -⟩ := a.takeKey_frame
  cases statement with
  | initTimer => exact htimer
  | initKeyboard => exact hkeyboard
  | clear | moveCursor | printCell => rfl

/-- A handler stays registered. -/
theorem step_has {a : Agenda} {statement : Statement} (h : a.has statement = true) (event : Event) :
    (a.step event).has statement = true := by
  cases event with
  | timer | device => cases statement <;> exact h
  | fault => exact h
  | key code =>
    rw [step, press_eq]
    cases statement <;> exact h
  | interrupt =>
    rcases a.interrupt_cases with ⟨hsame, -⟩ | ⟨line, hserve, -⟩
    · rwa [hsame]
    · rw [hserve]
      rcases a.serve_cases line with ⟨-, -, heq⟩ | ⟨-, -, heq⟩ | ⟨-, -, heq⟩
      · rw [heq]
        cases statement <;> exact h
      · rw [heq, takeKey_has]
        cases statement <;> exact h
      · rw [heq]
        cases statement <;> exact h
  | proceed =>
    rcases a.proceed_cases with ⟨hsame, -⟩ | ⟨next, todo, -, heq⟩
    · rwa [hsame]
    · rw [heq]
      refine execute_keeps ?_ next
      cases statement <;> exact h

theorem run_keeps {a : Agenda} {statement : Statement} (h : a.has statement = true) (events : List Event) :
    (a.run events).has statement = true := by
  induction events generalizing a with
  | nil => exact h
  | cons event events ih => exact ih (step_has h event)

/-- Only `kmain` goes on with `kmain`. -/
theorem step_todo (a : Agenda) (event : Event) :
    (a.step event).todo = if event.isProceed then a.todo.tail else a.todo := by
  cases event with
  | timer | device | fault => rfl
  | key code =>
    rw [step, press_eq]
    rfl
  | interrupt =>
    refine Eq.trans ?_ (if_neg Bool.false_ne_true).symm
    rcases a.interrupt_cases with ⟨hsame, -⟩ | ⟨line, hserve, -⟩
    · rw [hsame]
    · rw [hserve]
      rcases a.serve_cases line with ⟨-, -, heq⟩ | ⟨-, -, heq⟩ | ⟨-, -, heq⟩
      · rw [heq]
      · rw [heq, (takeKey_frame _).2.2.2]
      · rw [heq]
  | proceed =>
    rcases a.proceed_cases with ⟨hsame, hnone⟩ | ⟨statement, todo, hcons, heq⟩
    · rw [hsame, hnone]
      rfl
    · rw [heq, hcons]
      cases statement <;> rfl

theorem run_todo (events : List Event) (a : Agenda) :
    (a.run events).todo = a.todo.drop (events.countP Event.isProceed) := by
  induction events generalizing a with
  | nil => rfl
  | cons event events ih =>
    rw [run_cons, ih, step_todo, List.countP_cons]
    split
    · rw [← List.drop_one, List.drop_drop, Nat.add_comm]
    · rfl

/-- What `kmain` has got to is registered. -/
theorem run_has (events : List Event) (a : Agenda) {statement : Statement}
    (h : statement ∈ a.todo.take (events.countP Event.isProceed)) : (a.run events).has statement = true := by
  induction events generalizing a with
  | nil => exact absurd h List.not_mem_nil
  | cons event events ih =>
    rw [run_cons]
    rw [List.countP_cons] at h
    by_cases hproceed : event.isProceed
    · rw [if_pos hproceed] at h
      obtain rfl : event = .proceed := by
        cases event with
        | proceed => rfl
        | timer | key | device | fault | interrupt => exact absurd hproceed Bool.false_ne_true
      rcases a.proceed_cases with ⟨-, hnone⟩ | ⟨next, todo, htodo, heq⟩
      · rw [hnone, List.take_nil] at h
        exact absurd h List.not_mem_nil
      · rw [htodo, List.take_succ_cons, List.mem_cons] at h
        rw [heq]
        rcases h with rfl | hrest
        · exact run_keeps (execute_has _ _) events
        · refine ih _ ?_
          cases next <;> exact hrest
    · rw [if_neg hproceed] at h
      refine ih _ ?_
      rw [step_todo, if_neg hproceed]
      exact h

/-- The handler is registered, so no request is missed. -/
structure Attentive (a : Agenda) : Prop where
  keyboard : a.keyboard = true
  balanced : a.Balanced

theorem Attentive.step {a : Agenda} (h : a.Attentive) (event : Event) : (a.step event).Attentive := by
  have hkeyboard : a.has .initKeyboard = true := h.keyboard
  refine ⟨step_has hkeyboard event, h.balanced.step fun hmiss => ?_⟩
  cases event with
  | interrupt => exact Bool.noConfusion (h.keyboard.symm.trans hmiss.1)
  | timer | key | device | fault | proceed => exact hmiss

theorem Attentive.run {a : Agenda} (h : a.Attentive) (events : List Event) : (a.run events).Attentive := by
  induction events generalizing a with
  | nil => exact h
  | cons event events ih => exact ih (h.step event)

/-! ## The console -/

/-- From `a` to `a'` the keys `handled` were read, and the console has handled them in that order. -/
structure Handles (a a' : Agenda) (handled : List UInt8) : Prop where
  read : a'.read = handled.reverse ++ a.read
  console : keyboardRun handled a.console = some a'.console

theorem Handles.nil {a a' : Agenda} (hread : a'.read = a.read) (hconsole : a'.console = a.console) :
    a.Handles a' [] := ⟨hread, by rw [hconsole]; rfl⟩

theorem Handles.trans {a a' a'' : Agenda} {handled handled' : List UInt8} (h : a.Handles a' handled)
    (h' : a'.Handles a'' handled') : a.Handles a'' (handled ++ handled') where
  read := by rw [h'.read, h.read, List.reverse_append, List.append_assoc]
  console := by
    have hfirst : Run.run keyboardCallback handled a.console = some a'.console := h.console
    rw [keyboardRun, Run.run_append, hfirst]
    exact h'.console

/-- The key that has waited longest. -/
theorem Handles.takeKey (a : Agenda) {code : UInt8} {queue : List UInt8} (h : a.queue = code :: queue) :
    a.Handles a.takeKey [code] := by
  obtain ⟨k, hk, -⟩ := keyboardCallback_spec code a.console
  rw [a.takeKey_cons h]
  refine ⟨rfl, ?_⟩
  rw [keyboardRun, Run.run_cons, hk]
  show some k = some ((keyboardCallback code a.console).getD a.console)
  rw [hk]
  rfl

/-- Unless it is a statement of `kmain`, an event changes the console by the keys read, in their order, and
by nothing else. -/
theorem step_handles {a : Agenda} (h : a.Balanced ∨ a.Deaf) {event : Event} (hquiet : event.isProceed → a.todo = []) :
    ∃ handled, a.Handles (a.step event) handled := by
  cases event with
  | timer | device | fault => exact ⟨[], .nil rfl rfl⟩
  | key code =>
    show ∃ handled, a.Handles (a.press code) handled
    rw [press_eq]
    exact ⟨[], .nil rfl rfl⟩
  | interrupt =>
    rcases a.interrupt_cases with ⟨hsame, -⟩ | ⟨line, hserve, hmem, -⟩
    · rw [hsame]
      exact ⟨[], .nil rfl rfl⟩
    · rw [hserve]
      rcases a.serve_cases line with ⟨-, -, heq⟩ | ⟨rfl, -, heq⟩ | ⟨-, -, heq⟩
      · rw [heq]
        exact ⟨[], .nil rfl rfl⟩
      · obtain ⟨code, queue, hqueue⟩ := List.exists_cons_of_ne_nil (waiting_of_request h hmem)
        have htake := Handles.takeKey { a with requests := a.requests.erase keyboardLine } hqueue
        rw [heq]
        exact ⟨[code], htake.read, htake.console⟩
      · rw [heq]
        exact ⟨[], .nil rfl rfl⟩
  | proceed =>
    rcases a.proceed_cases with ⟨hsame, -⟩ | ⟨statement, todo, hcons, -⟩
    · rw [hsame]
      exact ⟨[], .nil rfl rfl⟩
    · exact absurd ((hquiet rfl).symm.trans hcons) (List.cons_ne_nil _ _).symm

theorem run_handles {a : Agenda} (h : a.Balanced ∨ a.Deaf) (htodo : a.todo = []) (events : List Event) :
    ∃ handled, a.Handles (a.run events) handled := by
  induction events generalizing a with
  | nil => exact ⟨[], .nil rfl rfl⟩
  | cons event events ih =>
    have htodo' : (a.step event).todo = [] := by rw [step_todo, htodo, List.tail_nil, ite_self]
    obtain ⟨handled, hstep⟩ := step_handles h fun _ : event.isProceed => htodo
    obtain ⟨handled', hrest⟩ := ih (run_balanced_or_deaf h [event]) htodo'
    exact ⟨_, hstep.trans hrest⟩

/-- The statements of `kmain` on the console. -/
def executed (statements : List Statement) (k : Kernel) : Kernel :=
  statements.foldl (fun k statement => k.onVga statement.onScreen) k

theorem execute_console (a : Agenda) (statement : Statement) :
    (a.execute statement).console = executed [statement] a.console := by
  cases statement <;> rfl

/-- Where no key is read the console is the work of `kmain`. -/
theorem step_unread {a : Agenda} (h : a.Balanced ∨ a.Deaf) (event : Event) : ∃ handled,
    (a.step event).read = handled.reverse ++ a.read ∧
    (handled = [] → (a.step event).console = executed (if event.isProceed then a.todo.take 1 else []) a.console) := by
  by_cases hproceed : event.isProceed
  · obtain rfl : event = .proceed := by
      cases event with
      | proceed => rfl
      | timer | key | device | fault | interrupt => exact absurd hproceed Bool.false_ne_true
    rw [if_pos hproceed]
    rcases a.proceed_cases with ⟨hsame, hnone⟩ | ⟨statement, todo, hcons, heq⟩
    · rw [hsame, hnone]
      exact ⟨[], rfl, fun _ => rfl⟩
    · rw [heq, hcons]
      exact ⟨[], (execute_frame _ statement).2.1, fun _ => execute_console _ statement⟩
  · obtain ⟨handled, hread, hconsole⟩ := step_handles h fun hproceed' => absurd hproceed' hproceed
    rw [if_neg hproceed]
    refine ⟨handled, hread, fun hnone => ?_⟩
    rw [hnone] at hconsole
    exact (Option.some.inj hconsole).symm

theorem run_unread {a : Agenda} (h : a.Balanced ∨ a.Deaf) (events : List Event) : ∃ handled,
    (a.run events).read = handled.reverse ++ a.read ∧
    (handled = [] →
      (a.run events).console = executed (a.todo.take (events.countP Event.isProceed)) a.console) := by
  induction events generalizing a with
  | nil => exact ⟨[], rfl, fun _ => rfl⟩
  | cons event events ih =>
    obtain ⟨handled, hread, hconsole⟩ := step_unread h event
    obtain ⟨handled', hread', hconsole'⟩ := ih (a := a.step event) (run_balanced_or_deaf h [event])
    refine ⟨handled ++ handled', ?_, fun hnone => ?_⟩
    · rw [run_cons, hread', hread, List.reverse_append, List.append_assoc]
    · obtain ⟨hfirst, hrest⟩ := List.append_eq_nil_iff.1 hnone
      rw [run_cons, hconsole' hrest, hconsole hfirst, step_todo, List.countP_cons, executed, executed, executed,
        ← List.foldl_append]
      by_cases hproceed : event.isProceed
      · rw [if_pos hproceed, if_pos hproceed, if_pos hproceed, Nat.add_comm, List.take_add, List.drop_one]
      · rw [if_neg hproceed, if_neg hproceed, if_neg hproceed]
        rfl

end Agenda

end HavenOS
