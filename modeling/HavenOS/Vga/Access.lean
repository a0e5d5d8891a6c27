/-
What `fb_fprint_str` reads of its format string and writes to its local arrays, with the memory that
follows the string: the scanner once more, leaving a trace of its accesses.
-/
import HavenOS.Vga.Format
import HavenOS.Cstring.Number

namespace HavenOS

/-- `str[i]` is read, or index `i` of a local array of `size` elements written. -/
inductive Access where
  | str (i : Nat)
  | array (size i : Nat)
deriving DecidableEq, Repr

/-- Inside the array, or the string of `length` characters with its NUL. -/
def Access.Inside (length : Nat) : Access → Prop
  | .str i => i ≤ length
  | .array size i => i < size

/-! ## The traced scanner -/

/-- The writes to an array of `size` elements, in order. -/
def writes (size : Nat) (array : Store Nat UInt8) : List Access := array.log.reverse.map (.array size)

/-- The reads of `strslice` with at most `n` rounds before `i > to`. -/
def sliceReads (str : List UInt8) : Nat → Nat → List Access
  | 0, _ => []
  | n + 1, i => .str i :: if str.getD i 0 = 0 then [] else sliceReads str n (i + 1)

/-- A directive from `str[opener]` to `str[cursor]`, with the search for its end. -/
def directiveAccesses (str : List UInt8) (args : List Int32) (opener cursor hintIndex : Nat) : Option (List Access) :=
  let size := cursor - opener + 1
  let typeHint := (strslice str opener cursor (.fresh fun _ => 0)).set (cursor - opener + 1) 0
  let search := (List.range' opener size).map .str
  let hint := search ++ sliceReads str (cursor + 1 - opener) opener ++ writes size typeHint
  let typeHint := typeHint.read (cursor - opener + 2)
  if strcmp typeHint (ascii "\x7b%d\x7d") = 0 then do
    let arg ← args[hintIndex]?
    some (hint ++ writes 32 (intToStr arg (.fresh fun _ => 0)))
  else if strcmp typeHint (ascii "\x7b%\n\x7d") = 0 then some hint
  else if strcmp typeHint (ascii "\x7b%h\x7d") = 0 then do
    let arg ← args[hintIndex]?
    some (hint ++ writes 9 (intToHex arg (.fresh fun _ => 0)))
  else some hint

/-- The main loop; `none` when it does not end within `rounds` rounds or the memory of `str`. -/
def fprintAccesses (str : List UInt8) (args : List Int32) : Nat → Nat → Nat → Option (List Access)
  | 0, _, _ => none
  | rounds + 1, cursor, hintIndex =>
    let c := str.getD cursor 0
    if c = 0 then some [.str cursor]
    else if c = 123 ∧ str.getD (cursor + 1) 0 = 37 then do
      let opener := cursor
      let cursor ← findClose str (str.length - cursor) cursor
      let directive ← directiveAccesses str args opener cursor hintIndex
      let rest ← fprintAccesses str args rounds (cursor + 1) (hintIndex + 1)
      some (.str opener :: .str (opener + 1) :: directive ++ rest)
    else do
      let rest ← fprintAccesses str args rounds (cursor + 1) hintIndex
      -- the character after a brace is read as well
      some (.str cursor :: (if c = 123 then [.str (cursor + 1)] else []) ++ rest)

theorem directiveAccesses_isSome (str : List UInt8) (args : List Int32) (opener cursor hintIndex : Nat) (fg bg : UInt8)
    (v : Vga) : (directiveAccesses str args opener cursor hintIndex).isSome =
      (printDirective str args opener cursor hintIndex fg bg v).isSome := by
  unfold directiveAccesses printDirective
  cases args[hintIndex]? <;> simp only <;> split <;> try rfl
  all_goals split <;> try rfl
  all_goals split <;> rfl

/-- The trace ends exactly when the scanner does. -/
theorem fprintAccesses_isSome (str : List UInt8) (args : List Int32) (fg bg : UInt8) :
    ∀ (rounds cursor hintIndex : Nat) (v : Vga), (fprintAccesses str args rounds cursor hintIndex).isSome =
      (fprintLoop str args fg bg rounds cursor hintIndex v).isSome
  | 0, _, _, _ => rfl
  | rounds + 1, cursor, hintIndex, v => by
    rw [fprintAccesses, fprintLoop]
    by_cases hend : str.getD cursor 0 = 0
    · simp only [if_pos hend]
      rfl
    · by_cases hopen : str.getD cursor 0 = 123 ∧ str.getD (cursor + 1) 0 = 37
      · simp only [if_neg hend, if_pos hopen]
        cases hclose : findClose str (str.length - cursor) cursor with
        | none => rfl
        | some close =>
          have hdirective := directiveAccesses_isSome str args cursor close hintIndex fg bg v
          simp only [Option.bind_eq_bind, Option.bind_some]
          cases hv : printDirective str args cursor close hintIndex fg bg v with
          | none =>
            rw [hv, Option.isSome_none, Option.isSome_eq_false_iff, Option.isNone_iff_eq_none] at hdirective
            rw [hdirective]
            rfl
          | some v' =>
            rw [hv, Option.isSome_some, Option.isSome_iff_exists] at hdirective
            obtain ⟨directive, hdirective⟩ := hdirective
            have hrest := fprintAccesses_isSome str args fg bg rounds (close + 1) (hintIndex + 1) v'
            rw [hdirective, Option.bind_some, Option.bind_some, ← hrest]
            cases fprintAccesses str args rounds (close + 1) (hintIndex + 1) <;> rfl
      · have hrest := fprintAccesses_isSome str args fg bg rounds (cursor + 1) hintIndex
          (fbPrintCell (str.getD cursor 0) fg bg v)
        simp only [if_neg hend, if_neg hopen]
        rw [← hrest]
        cases fprintAccesses str args rounds (cursor + 1) hintIndex <;> rfl

/-- A character outside directives is read, perhaps with the one after it. -/
theorem mem_literal {c : UInt8} {cursor : Nat} {rest : List Access} {a : Access}
    (h : a ∈ .str cursor :: (if c = 123 then [.str (cursor + 1)] else []) ++ rest) :
    (∃ i ≤ cursor + 1, a = .str i) ∨ a ∈ rest := by
  rcases List.mem_append.1 h with hfirst | hrest
  · refine .inl ?_
    rcases List.mem_cons.1 hfirst with rfl | hnext
    · exact ⟨cursor, Nat.le_succ _, rfl⟩
    · split at hnext
      · exact ⟨cursor + 1, le_rfl, List.mem_singleton.1 hnext⟩
      · exact absurd hnext List.not_mem_nil
  · exact .inr hrest

/-! ## Reading the string and what follows it -/

theorem getD_str (pre rest beyond : List UInt8) :
    (pre ++ rest ++ 0 :: beyond).getD pre.length 0 = rest.headD 0 := by
  have h := getD_append_length pre (rest ++ 0 :: beyond) 0
  rw [Nat.add_zero] at h
  rw [List.append_assoc, h]
  cases rest <;> rfl

theorem getD_str_next (pre : List UInt8) (c : UInt8) (rest beyond : List UInt8) :
    (pre ++ c :: rest ++ 0 :: beyond).getD (pre.length + 1) 0 = rest.headD 0 := by
  have h := getD_str (pre ++ [c]) rest beyond
  simpa using h

/-! ## One directive -/

theorem mem_writes {size : Nat} {array : Store Nat UInt8} {a : Access} :
    a ∈ writes size array ↔ ∃ i ∈ array.log, a = .array size i := by
  simp [writes, eq_comm]

/-- The search, the slice and the terminator first, then perhaps a conversion. -/
theorem directiveAccesses_eq {str : List UInt8} {args : List Int32} {opener cursor hintIndex : Nat}
    {accesses : List Access}
    (h : directiveAccesses str args opener cursor hintIndex = some accesses) :
    ∃ converted, accesses = (List.range' opener (cursor - opener + 1)).map .str ++
        sliceReads str (cursor + 1 - opener) opener ++ writes (cursor - opener + 1)
          ((strslice str opener cursor (.fresh fun _ => 0)).set (cursor - opener + 1) 0) ++ converted ∧
      (converted = [] ∨ (∃ arg, converted = writes 32 (intToStr arg (.fresh fun _ => 0))) ∨
        ∃ arg, converted = writes 9 (intToHex arg (.fresh fun _ => 0))) := by
  unfold directiveAccesses at h
  simp only at h
  split at h
  · obtain ⟨arg, -, h⟩ := Option.bind_eq_some_iff.1 h
    cases h
    exact ⟨_, rfl, .inr (.inl ⟨arg, rfl⟩)⟩
  · split at h
    · cases h
      exact ⟨[], (List.append_nil _).symm, .inl rfl⟩
    · split at h
      · obtain ⟨arg, -, h⟩ := Option.bind_eq_some_iff.1 h
        cases h
        exact ⟨_, rfl, .inr (.inr ⟨arg, rfl⟩)⟩
      · cases h
        exact ⟨[], (List.append_nil _).symm, .inl rfl⟩

/-- Every directive writes its terminator one element after the end of `typeHint`. -/
theorem terminator_mem {str : List UInt8} {args : List Int32} {opener cursor hintIndex : Nat} {accesses : List Access}
    (h : directiveAccesses str args opener cursor hintIndex = some accesses) :
    .array (cursor - opener + 1) (cursor - opener + 1) ∈ accesses := by
  obtain ⟨converted, rfl, -⟩ := directiveAccesses_eq h
  refine List.mem_append_left _ (List.mem_append_right _ (mem_writes.2 ⟨cursor - opener + 1, ?_, rfl⟩))
  exact List.mem_cons_self

/-! ## Strings with a directive, and without -/

/-- A `{` followed by `%`. -/
def HasDirective (str : List UInt8) : Prop := ∃ i, str.getD i 0 = 123 ∧ str.getD (i + 1) 0 = 37

theorem HasDirective.tail {c : UInt8} {rest : List UInt8} (h : HasDirective (c :: rest))
    (hopen : ¬ (c = 123 ∧ rest.headD 0 = 37)) : HasDirective rest := by
  obtain ⟨i, hbrace, hpercent⟩ := h
  cases i with
  | zero => exact absurd ⟨hbrace, getD_cons_one c rest ▸ hpercent⟩ hopen
  | succ i => exact ⟨i, hbrace, hpercent⟩

theorem HasDirective.cons {c : UInt8} {rest : List UInt8} (h : HasDirective rest) : HasDirective (c :: rest) := by
  obtain ⟨i, hbrace, hpercent⟩ := h
  exact ⟨i + 1, hbrace, hpercent⟩

theorem hasDirective_of_head {rest : List UInt8} (h : rest.headD 0 = 37) : HasDirective (123 :: rest) :=
  ⟨0, rfl, (getD_cons_one 123 rest).trans h⟩

/-- If the scanner ends at all, it has written outside `typeHint` at the first directive. -/
theorem outside_of_directive (args : List Int32) (beyond : List UInt8) (length : Nat) : ∀ (rest pre : List UInt8)
    (rounds hintIndex : Nat) (trace : List Access), 0 ∉ rest → HasDirective rest →
    fprintAccesses (pre ++ rest ++ 0 :: beyond) args rounds pre.length hintIndex = some trace →
    ∃ a ∈ trace, ¬ a.Inside length
  | [], _, _, _, _, _, ⟨i, hbrace, _⟩, _ => absurd hbrace (by simp)
  | c :: rest, pre, 0, _, _, _, _, h => absurd h (by simp [fprintAccesses])
  | c :: rest, pre, rounds + 1, hintIndex, trace, h0, hdirective, h => by
    have hc : c ≠ 0 := fun e => h0 (e ▸ List.mem_cons_self)
    have hread : (pre ++ c :: rest ++ 0 :: beyond).getD pre.length 0 = c := getD_str pre (c :: rest) beyond
    rw [fprintAccesses] at h
    simp only [hread, getD_str_next, if_neg hc] at h
    by_cases hopen : c = 123 ∧ rest.headD 0 = 37
    · rw [if_pos hopen] at h
      obtain ⟨close, -, h⟩ := Option.bind_eq_some_iff.1 h
      obtain ⟨directive, hd, h⟩ := Option.bind_eq_some_iff.1 h
      obtain ⟨after, -, h⟩ := Option.bind_eq_some_iff.1 h
      cases h
      refine ⟨.array (close - pre.length + 1) (close - pre.length + 1), ?_, Nat.lt_irrefl _⟩
      exact List.mem_append_left _ (List.mem_cons_of_mem _ (List.mem_cons_of_mem _ (terminator_mem hd)))
    · rw [if_neg hopen] at h
      obtain ⟨after, hafter, h⟩ := Option.bind_eq_some_iff.1 h
      cases h
      have hlen : pre.length + 1 = (pre ++ [c]).length := by simp
      have hstr : pre ++ c :: rest = pre ++ [c] ++ rest := by simp
      rw [hlen, hstr] at hafter
      obtain ⟨a, ha, hout⟩ := outside_of_directive args beyond length rest _ rounds hintIndex after
        (fun h => h0 (List.mem_cons_of_mem _ h)) (hdirective.tail hopen) hafter
      exact ⟨a, List.mem_append_right _ ha, hout⟩

theorem inside_of_literals (args : List Int32) (beyond : List UInt8) :
    ∀ (rest pre : List UInt8) (rounds hintIndex : Nat),
    0 ∉ rest → ¬ HasDirective rest → rest.length < rounds →
    ∃ trace, fprintAccesses (pre ++ rest ++ 0 :: beyond) args rounds pre.length hintIndex = some trace ∧
      ∀ a ∈ trace, a.Inside (pre.length + rest.length)
  | _, _, 0, _, _, _, h => absurd h (Nat.not_lt_zero _)
  | [], pre, rounds + 1, hintIndex, _, _, _ => by
    have hnul : (pre ++ [] ++ 0 :: beyond).getD pre.length 0 = 0 := getD_str pre [] beyond
    refine ⟨[.str pre.length], by rw [fprintAccesses, if_pos hnul], fun a ha => ?_⟩
    obtain rfl := List.mem_singleton.1 ha
    exact Nat.le_add_right _ _
  | c :: rest, pre, rounds + 1, hintIndex, h0, hnone, hrounds => by
    have hc : c ≠ 0 := fun e => h0 (e ▸ List.mem_cons_self)
    have hread : (pre ++ c :: rest ++ 0 :: beyond).getD pre.length 0 = c := getD_str pre (c :: rest) beyond
    have hopen : ¬ (c = 123 ∧ rest.headD 0 = 37) := by
      rintro ⟨rfl, hpercent⟩
      exact hnone (hasDirective_of_head hpercent)
    obtain ⟨trace, htrace, hinside⟩ := inside_of_literals args beyond rest (pre ++ [c]) rounds hintIndex
      (fun h => h0 (List.mem_cons_of_mem _ h)) (fun h => hnone h.cons) (Nat.lt_of_succ_lt_succ hrounds)
    have hlen : (pre ++ [c]).length = pre.length + 1 := by simp
    have hstr : pre ++ [c] ++ rest = pre ++ c :: rest := by simp
    rw [hlen, hstr] at htrace
    rw [hlen] at hinside
    rw [fprintAccesses]
    simp only [hread, getD_str_next, if_neg hc, if_neg hopen, htrace]
    refine ⟨_, rfl, fun a ha => ?_⟩
    rw [List.length_cons]
    rcases mem_literal ha with ⟨i, hi, rfl⟩ | hafter
    · exact hi.trans (Nat.add_le_add_left (Nat.succ_le_succ (Nat.zero_le _)) _)
    · have := hinside a hafter
      rwa [Nat.add_assoc, Nat.add_comm 1] at this

/-- `fb_fprint_str` ends, reads nothing after the NUL of its format string, and writes inside its
local arrays; `beyond` is the memory after the string. -/
def FormatSafe (str beyond : List UInt8) (args : List Int32) : Prop :=
  ∃ rounds trace, fprintAccesses (str ++ 0 :: beyond) args rounds 0 0 = some trace ∧ ∀ a ∈ trace, a.Inside str.length

/-- Any directive is one too many, whatever it says and whatever follows the string. -/
theorem formatSafe_iff (str beyond : List UInt8) (args : List Int32) (h0 : 0 ∉ str) :
    FormatSafe str beyond args ↔ ¬ HasDirective str := by
  constructor
  · rintro ⟨rounds, trace, htrace, hinside⟩ hdirective
    obtain ⟨a, ha, hout⟩ := outside_of_directive args beyond str.length str [] rounds 0 trace h0 hdirective htrace
    exact hout (hinside a ha)
  · intro hnone
    obtain ⟨trace, htrace, hinside⟩ :=
      inside_of_literals args beyond str [] (str.length + 1) 0 h0 hnone (Nat.lt_succ_self _)
    refine ⟨str.length + 1, trace, htrace, ?_⟩
    rwa [List.length_nil, Nat.zero_add] at hinside

theorem formatSafe_iff_plain : FormatSafe (ascii "HavenOS") [] [] ↔ ¬ HasDirective (ascii "HavenOS") :=
  formatSafe_iff (ascii "HavenOS") [] [] (by decide)

/-- Printing a number writes a NUL to `typeHint[4]`, of four elements. -/
theorem format_overruns : ¬ FormatSafe (ascii "\x7b%d\x7d") [] [5] := by
  rintro ⟨rounds, trace, htrace, hinside⟩
  obtain ⟨a, ha, hout⟩ := outside_of_directive [5] [] 4 (ascii "\x7b%d\x7d") [] rounds 0 trace (by decide)
    ⟨0, by decide, by decide⟩ htrace
  exact hout (hinside a ha)

/-! ## Closed strings -/

theorem findClose_of_close {str : List UInt8} {j : Nat} (hclose : str.getD j 0 = 125) : ∀ (n cursor : Nat),
    cursor ≤ j → j < cursor + n → ∃ k, findClose str n cursor = some k ∧ cursor ≤ k ∧ k ≤ j
  | 0, cursor, h1, h2 => absurd h2 (by omega)
  | n + 1, cursor, h1, h2 => by
    rw [findClose]
    by_cases hfound : str.getD cursor 0 = 125
    · exact ⟨cursor, if_pos hfound, le_rfl, h1⟩
    · have hlt : cursor < j := Nat.lt_of_le_of_ne h1 (fun e => hfound (e ▸ hclose))
      obtain ⟨k, hk, hle, hkj⟩ := findClose_of_close hclose n (cursor + 1) hlt (by omega)
      exact ⟨k, by rw [if_neg hfound, hk], by omega, hkj⟩

/-- A character other than NUL is read inside the string. -/
theorem getD_inside {str beyond : List UInt8} {i : Nat} {c : UInt8} (hc : c ≠ 0) (hi : i ≤ str.length)
    (h : (str ++ 0 :: beyond).getD i 0 = c) : i < str.length ∧ str.getD i 0 = c := by
  rcases Nat.lt_or_eq_of_le hi with hlt | rfl
  · rw [List.getD_append _ _ _ _ hlt] at h
    exact ⟨hlt, h⟩
  · exact absurd (h.symm.trans (getD_append_length str (0 :: beyond) 0)) hc

/-- In a closed string the search for the end of a directive does not leave it. -/
theorem Closed.findClose {str : List UInt8} (hclosed : Closed str) (beyond : List UInt8) {opener : Nat}
    (hopener : opener ≤ str.length) (hbrace : (str ++ 0 :: beyond).getD opener 0 = 123)
    (hpercent : (str ++ 0 :: beyond).getD (opener + 1) 0 = 37) :
    ∃ close, findClose (str ++ 0 :: beyond) ((str ++ 0 :: beyond).length - opener) opener = some close ∧
      opener ≤ close ∧ close < str.length := by
  obtain ⟨hlt, hbrace⟩ := getD_inside (by decide) hopener hbrace
  obtain ⟨-, hpercent⟩ := getD_inside (by decide) hlt hpercent
  obtain ⟨j, hj, hclose⟩ := hclosed opener hbrace hpercent
  have hjlen : j < str.length := by
    by_contra hout
    rw [List.getD_eq_default _ _ (by omega)] at hclose
    exact absurd hclose (by decide)
  have hclose' : (str ++ 0 :: beyond).getD j 0 = 125 := by rw [List.getD_append _ _ _ _ hjlen, hclose]
  obtain ⟨close, hfind, hle, hcj⟩ := findClose_of_close hclose' ((str ++ 0 :: beyond).length - opener) opener
    (by omega) (by rw [List.length_append]; omega)
  exact ⟨close, hfind, hle, by omega⟩

theorem inside_strsliceLoop (P : Nat → Prop) (str : List UInt8) : ∀ (n i j : Nat) (out : Store Nat UInt8),
    (∀ k ≤ n, P (j + k)) → out.Inside P → (strsliceLoop str n i j out).Inside P
  | 0, _, j, out, hP, hout => by
    rw [strsliceLoop, Store.inside_set]
    exact ⟨hP 0 le_rfl, hout⟩
  | n + 1, i, j, out, hP, hout => by
    rw [strsliceLoop]
    split
    · rw [Store.inside_set]
      exact ⟨hP 0 (Nat.zero_le _), hout⟩
    · refine inside_strsliceLoop P str n (i + 1) (j + 1) _ (fun k hk => ?_) ?_
      · rw [Nat.add_assoc, Nat.add_comm 1]
        exact hP (k + 1) (by omega)
      · rw [Store.inside_set]
        exact ⟨hP 0 (Nat.zero_le _), hout⟩

theorem mem_sliceReads {str : List UInt8} {a : Access} : ∀ {n i : Nat}, a ∈ sliceReads str n i →
    ∃ k < n, a = .str (i + k)
  | 0, _, h => absurd h List.not_mem_nil
  | n + 1, i, h => by
    rw [sliceReads, List.mem_cons] at h
    rcases h with rfl | h
    · exact ⟨0, Nat.succ_pos n, rfl⟩
    · split at h
      · exact absurd h List.not_mem_nil
      · obtain ⟨k, hk, rfl⟩ := mem_sliceReads h
        exact ⟨k + 1, by omega, by rw [Nat.add_right_comm, Nat.add_assoc]⟩

/-- An access inside its object, or of the one element after an array. -/
def Access.AlmostInside (length : Nat) (a : Access) : Prop := a.Inside length ∨ ∃ size, a = .array size size

/-- A directive inside the string reads inside the string; its conversions stay in their arrays. -/
theorem directive_almostInside {str : List UInt8} {args : List Int32} {opener cursor hintIndex length : Nat}
    {accesses : List Access} (h : directiveAccesses str args opener cursor hintIndex = some accesses)
    (hopen : opener ≤ cursor) (hclose : cursor ≤ length) : ∀ a ∈ accesses, a.AlmostInside length := by
  obtain ⟨converted, rfl, hconverted⟩ := directiveAccesses_eq h
  intro a ha
  rcases List.mem_append.1 ha with ha | ha
  · rcases List.mem_append.1 ha with ha | ha
    · rcases List.mem_append.1 ha with ha | ha
      · obtain ⟨i, hi, rfl⟩ := List.mem_map.1 ha
        have := List.mem_range'_1.1 hi
        exact .inl (show i ≤ length by omega)
      · obtain ⟨k, hk, rfl⟩ := mem_sliceReads ha
        exact .inl (show opener + k ≤ length by omega)
    · obtain ⟨i, hi, rfl⟩ := mem_writes.1 ha
      have hhint : ((strslice str opener cursor (.fresh fun _ => 0)).set (cursor - opener + 1) 0).Inside
          (· ≤ cursor - opener + 1) := by
        rw [Store.inside_set]
        exact ⟨le_rfl, inside_strsliceLoop _ str _ _ _ _ (fun k hk => by omega) (Store.inside_fresh _ _)⟩
      rcases Nat.lt_or_eq_of_le (hhint i hi) with hlt | rfl
      · exact .inl hlt
      · exact .inr ⟨_, rfl⟩
  · rcases hconverted with rfl | ⟨arg, rfl⟩ | ⟨arg, rfl⟩
    · exact absurd ha List.not_mem_nil
    · obtain ⟨i, hi, rfl⟩ := mem_writes.1 ha
      exact .inl (inside_intToStr (P := (· < 32)) (fun k hk => by omega) arg (Store.inside_fresh _ _) i hi)
    · obtain ⟨i, hi, rfl⟩ := mem_writes.1 ha
      exact .inl (inside_intToHex (P := (· < 9)) (fun k hk => hk) arg (Store.inside_fresh _ _) i hi)

theorem directiveAccesses_total (str : List UInt8) {args : List Int32} (opener cursor : Nat) {hintIndex : Nat}
    (h : hintIndex < args.length) : ∃ accesses, directiveAccesses str args opener cursor hintIndex = some accesses := by
  unfold directiveAccesses
  simp only [List.getElem?_eq_getElem h, Option.bind_eq_bind, Option.bind_some]
  split
  · exact ⟨_, rfl⟩
  · split
    · exact ⟨_, rfl⟩
    · split <;> exact ⟨_, rfl⟩

/-- From any place of a closed string on, the scanner ends, and but for the terminators every access is
inside. Each round moves on and uses at most one argument. -/
theorem closed_almostInside {str : List UInt8} (beyond : List UInt8) {args : List Int32} (hclosed : Closed str)
    (hargs : str.length ≤ args.length) : ∀ (rounds cursor hintIndex : Nat), cursor ≤ str.length →
    str.length < cursor + rounds → hintIndex ≤ cursor →
    ∃ trace, fprintAccesses (str ++ 0 :: beyond) args rounds cursor hintIndex = some trace ∧
      ∀ a ∈ trace, a.AlmostInside str.length
  | 0, cursor, _, h1, h2, _ => absurd h2 (by omega)
  | rounds + 1, cursor, hintIndex, h1, h2, h3 => by
    rw [fprintAccesses]
    by_cases hend : (str ++ 0 :: beyond).getD cursor 0 = 0
    · simp only [if_pos hend]
      refine ⟨_, rfl, fun a ha => ?_⟩
      obtain rfl := List.mem_singleton.1 ha
      exact .inl h1
    · obtain ⟨hcursor, -⟩ := getD_inside hend h1 rfl
      by_cases hopen : (str ++ 0 :: beyond).getD cursor 0 = 123 ∧ (str ++ 0 :: beyond).getD (cursor + 1) 0 = 37
      · obtain ⟨hbrace, hpercent⟩ := hopen
        obtain ⟨close, hfind, hle, hlt⟩ := hclosed.findClose beyond h1 hbrace hpercent
        obtain ⟨directive, hd⟩ :=
          directiveAccesses_total (str ++ 0 :: beyond) cursor close (show hintIndex < args.length by omega)
        obtain ⟨after, hafter, hinside⟩ := closed_almostInside beyond hclosed hargs rounds (close + 1) (hintIndex + 1)
          (by omega) (by omega) (by omega)
        simp only [if_neg hend, if_pos (And.intro hbrace hpercent), hfind, hd, hafter,
          Option.bind_eq_bind, Option.bind_some]
        refine ⟨_, rfl, fun a ha => ?_⟩
        rcases List.mem_append.1 ha with ha | ha
        · rcases List.mem_cons.1 ha with rfl | ha
          · exact .inl h1
          · rcases List.mem_cons.1 ha with rfl | ha
            · exact .inl hcursor
            · exact directive_almostInside hd hle (by omega) a ha
        · exact hinside a ha
      · obtain ⟨after, hafter, hinside⟩ := closed_almostInside beyond hclosed hargs rounds (cursor + 1) hintIndex
          (by omega) (by omega) (by omega)
        simp only [if_neg hend, if_neg hopen, hafter, Option.bind_eq_bind, Option.bind_some]
        refine ⟨_, rfl, fun a ha => ?_⟩
        rcases mem_literal ha with ⟨i, hi, rfl⟩ | hrest
        · exact .inl (hi.trans hcursor)
        · exact hinside a hrest

/-- With an argument for each character at hand, a closed string is read inside, the conversions stay in
their arrays, and every write outside is to the element after `typeHint`. -/
theorem closed_accesses {str : List UInt8} (beyond : List UInt8) {args : List Int32} (hclosed : Closed str)
    (hargs : str.length ≤ args.length) : ∃ trace,
    fprintAccesses (str ++ 0 :: beyond) args (str.length + 1) 0 0 = some trace ∧
      ∀ a ∈ trace, a.AlmostInside str.length :=
  closed_almostInside beyond hclosed hargs (str.length + 1) 0 0 (Nat.zero_le _) (by omega) le_rfl

end HavenOS
