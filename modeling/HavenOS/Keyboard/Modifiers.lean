/-
The modifier flags against the keys that are held, over whole runs of scancode bytes. Two slips
part them: the releases of Ctrl and Alt are never recognised, and both shift keys share one flag.
-/
import HavenOS.Keyboard.Action

namespace HavenOS

/-! ## The keys -/

/-- The latest event of a key in the run, given by its press and its release code, is a press. -/
def held (press release : UInt8) (run : List UInt8) : Bool :=
  run.foldl (fun down data => if data = press then true else if data = release then false else down) false

theorem held_snoc (press release : UInt8) (run : List UInt8) (data : UInt8) : held press release (run ++ [data]) =
    if data = press then true else if data = release then false else held press release run := by
  rw [held, List.foldl_append]
  rfl

/-- The flags say which keys are held after a run. -/
structure Tracks (run : List UInt8) (s : Kernel) : Prop where
  shift : s.kbShift ≠ 0 ↔ held 0x2A 0xAA run ∨ held 0x36 0xB6 run
  ctrl : s.kbCtrl ≠ 0 ↔ held 0x1D 0x9D run
  alt : s.kbAlt ≠ 0 ↔ held 0x38 0xB8 run

/-- The bytes after which a flag and its keys differ: a release of Ctrl or of Alt while it is held,
and a release of one shift key while the other one is held. -/
def Sticks (run : List UInt8) (data : UInt8) : Prop :=
  (data = 0x9D ∧ held 0x1D 0x9D run) ∨ (data = 0xB8 ∧ held 0x38 0xB8 run) ∨
  (data = 0xAA ∧ held 0x36 0xB6 run) ∨ (data = 0xB6 ∧ held 0x2A 0xAA run)

theorem tracks_nil (m : Machine) : Tracks [] (.start m) :=
  ⟨by simp [Kernel.start, held], by simp [Kernel.start, held], by simp [Kernel.start, held]⟩

/-! ## One byte -/

/-- The flags after one byte. -/
theorem keyboardCallback_flags (data : UInt8) (s : Kernel) : ∃ s', keyboardCallback data s = some s' ∧
    s'.kbShift = (if data = 0x2A ∨ data = 0x36 then 1 else if data = 0xAA ∨ data = 0xB6 then 0 else s.kbShift) ∧
    s'.kbCtrl = (if data = 0x1D then 1 else s.kbCtrl) ∧ s'.kbAlt = (if data = 0x38 then 1 else s.kbAlt) := by
  obtain ⟨s', hs', -, -, hshift, hctrl, halt⟩ := keyboardCallback_spec data s
  refine ⟨s', hs', ?_⟩
  rw [hshift, hctrl, halt]
  rcases keyAction_cases data (s.kbShift ≠ 0) with ⟨hd, ha⟩ | ⟨hd, ha⟩ | ⟨rfl, ha⟩ | ⟨rfl, ha⟩ | ⟨⟨h1, h2, h3, h4⟩, ha⟩
  · rw [ha]
    rcases hd with rfl | rfl <;> exact ⟨rfl, rfl, rfl⟩
  · rw [ha]
    rcases hd with rfl | rfl <;> exact ⟨rfl, rfl, rfl⟩
  · rw [ha]; exact ⟨rfl, rfl, rfl⟩
  · rw [ha]; exact ⟨rfl, rfl, rfl⟩
  · rw [if_neg h1, if_neg h2, if_neg h3, if_neg h4]
    generalize keyAction data (s.kbShift ≠ 0) = a at ha
    cases a with
    | shift | ctrl | alt => cases ha
    | _ => exact ⟨rfl, rfl, rfl⟩

/-- A flag set by the press of its one key and never cleared. -/
theorem flag_step {press release : UInt8} (hne : release ≠ press) {run : List UInt8} {flag : UInt8}
    (h : flag ≠ 0 ↔ held press release run) (data : UInt8) :
    ((if data = press then 1 else flag) ≠ 0 ↔ held press release (run ++ [data])) ↔
      ¬ (data = release ∧ held press release run) := by
  rw [held_snoc]
  by_cases hp : data = press
  · rw [if_pos hp, if_pos hp]
    exact iff_of_true (by simp) fun hr => hne (hr.1.symm.trans hp)
  rw [if_neg hp, if_neg hp, h]
  by_cases hr : data = release
  · simp [hr]
  · simp [hr]

/-- The one flag of the two shift keys. -/
theorem shift_step {run : List UInt8} {flag : UInt8}
    (h : flag ≠ 0 ↔ held 0x2A 0xAA run ∨ held 0x36 0xB6 run) (data : UInt8) :
    ((if data = 0x2A ∨ data = 0x36 then 1 else if data = 0xAA ∨ data = 0xB6 then 0 else flag) ≠ 0 ↔
      held 0x2A 0xAA (run ++ [data]) ∨ held 0x36 0xB6 (run ++ [data])) ↔
      ¬ (data = 0xAA ∧ held 0x36 0xB6 run) ∧ ¬ (data = 0xB6 ∧ held 0x2A 0xAA run) := by
  rw [held_snoc, held_snoc]
  -- a press sets the flag and a key; a release clears the flag and the one key
  rcases eq_or_ne data 0x2A with rfl | hl
  · simp
  rcases eq_or_ne data 0x36 with rfl | hr
  · simp
  rcases eq_or_ne data 0xAA with rfl | hlu
  · simp
  rcases eq_or_ne data 0xB6 with rfl | hru
  · simp
  · simp only [hl, hr, hlu, hru, or_self, if_false, false_and, not_false_eq_true, and_self, iff_true]
    exact h

/-- The flags go on saying which keys are held exactly when the byte is none of those that stick. -/
theorem tracks_step {run : List UInt8} {s : Kernel} (h : Tracks run s) (data : UInt8) :
    ∃ s', keyboardCallback data s = some s' ∧ (Tracks (run ++ [data]) s' ↔ ¬ Sticks run data) := by
  obtain ⟨s', hs', hshift, hctrl, halt⟩ := keyboardCallback_flags data s
  have hc := flag_step (by decide) h.ctrl data
  have ha := flag_step (by decide) h.alt data
  have hs := shift_step h.shift data
  rw [← hctrl] at hc
  rw [← halt] at ha
  rw [← hshift] at hs
  refine ⟨s', hs', ?_⟩
  unfold Sticks
  rw [not_or, not_or, not_or, ← hc, ← ha, ← hs]
  constructor
  · rintro ⟨h1, h2, h3⟩; exact ⟨h2, h3, h1⟩
  · rintro ⟨h2, h3, h1⟩; exact ⟨h1, h2, h3⟩

/-! ## Runs -/

/-- From all keys up, the flags say after every byte which keys are held exactly when no byte of
the run sticks. -/
theorem modifiers_track_iff (m : Machine) (run : List UInt8) :
    (∀ pre, pre <+: run → ∃ s, keyboardRun pre (.start m) = some s ∧ Tracks pre s) ↔
    ∀ pre data, pre ++ [data] <+: run → ¬ Sticks pre data := by
  refine (Run.run_prefixes_iff keyboardCallback (P := Tracks) (tracks_nil m)
    (fun pre s data h => tracks_step h data) run).trans ?_
  refine forall₃_congr fun pre data _ => ⟨fun hgood => ?_, fun hgood _ _ => hgood⟩
  obtain ⟨s, hs⟩ := keyboardRun_total pre (.start m)
  exact hgood s hs

/-- Ctrl pressed and released: `KB_CTRL` stays set. -/
theorem ctrl_sticks : ¬ ∀ pre, pre <+: [0x1D, 0x9D] →
    ∃ s, keyboardRun pre (.start .powerOn) = some s ∧ Tracks pre s := by
  intro h
  obtain ⟨s, hs, ht⟩ := h _ (List.prefix_refl _)
  obtain ⟨s1, h1, -, hc1, -⟩ := keyboardCallback_flags 0x1D (.start .powerOn)
  obtain ⟨s2, h2, -, hc2, -⟩ := keyboardCallback_flags 0x9D s1
  have hrun : keyboardRun [0x1D, 0x9D] (.start .powerOn) = some s2 := by
    rw [keyboardRun, Run.run_cons, h1, Option.bind_some, Run.run_cons, h2]; rfl
  rw [hrun] at hs
  cases hs
  have hctrl := ht.ctrl
  rw [hc2, hc1] at hctrl
  exact absurd (hctrl.1 (by simp)) (by decide)

end HavenOS
