/-
`fb_fprint_str`: the scanner as the code runs it, over indices into the format string, and what
it means: the string split into literals and directives, executed one after the other.
-/
import HavenOS.Vga.Bulk
import HavenOS.Cstring.Text
import Mathlib.Data.List.GetD

namespace HavenOS

/-! ## The scanner -/

/-- `while (str[cursor] != '}') cursor++` with `n` characters left before the NUL; `none` when the
loop reads past it. -/
def findClose (str : List UInt8) : Nat → Nat → Option Nat
  | 0, _ => none
  | n + 1, cursor => if str.getD cursor 0 = 125 then some cursor else findClose str n (cursor + 1)

/-- A directive from `str[opener]` to `str[cursor]`; `none` when it reads past the end of `args`.
Every buffer is filled before it is read, so what is on the stack before does not show. -/
def printDirective (str : List UInt8) (args : List Int32) (opener cursor hintIndex : Nat) (fg bg : UInt8)
    (v : Vga) : Option Vga :=
  let typeHint := (strslice str opener cursor (.fresh fun _ => 0)).set (cursor - opener + 1) 0
  let typeHint := typeHint.read (cursor - opener + 2)
  if strcmp typeHint (ascii "\x7b%d\x7d") = 0 then do
    let arg ← args[hintIndex]?
    let intAsString := (intToStr arg (.fresh fun _ => 0)).read 32
    some (fbPrintLstr intAsString (strlen intAsString) fg bg v)
  else if strcmp typeHint (ascii "\x7b%\n\x7d") = 0 then
    some (fbMoveCursorToStartOfRow (fbOffsetCursor fbNumColumns v))
  else if strcmp typeHint (ascii "\x7b%h\x7d") = 0 then do
    let arg ← args[hintIndex]?
    let intAsString := (intToHex arg (.fresh fun _ => 0)).read 9
    some (fbPrintLstr intAsString (strlen intAsString) fg bg v)
  else
    some (fbPrintLstr typeHint (strlen typeHint) fg bg (fbPrintCell 63 fg bg v))

/-- The main loop with at most `rounds` rounds; `none` when it reads outside `str` or `args`. -/
def fprintLoop (str : List UInt8) (args : List Int32) (fg bg : UInt8) : Nat → Nat → Nat → Vga → Option Vga
  | 0, _, _, _ => none
  | rounds + 1, cursor, hintIndex, v =>
    let c := str.getD cursor 0
    if c = 0 then some v
    else if c = 123 ∧ str.getD (cursor + 1) 0 = 37 then do
      let opener := cursor
      let cursor ← findClose str (str.length - cursor) cursor
      let v ← printDirective str args opener cursor hintIndex fg bg v
      fprintLoop str args fg bg rounds (cursor + 1) (hintIndex + 1) v
    else fprintLoop str args fg bg rounds (cursor + 1) hintIndex (fbPrintCell c fg bg v)

/-- `str` holds the characters before the NUL; every round moves on, so one round for each
character and one for the NUL are enough. -/
def fbFprintStr (str : List UInt8) (args : List Int32) (fg bg : UInt8) (v : Vga) : Option Vga :=
  fprintLoop str args fg bg (str.length + 1) 0 0 v

/-! ## The meaning of a format string -/

/-- A piece of a format string: a character, or the text of a directive with its braces. -/
inductive Piece where
  | literal (c : UInt8)
  | directive (text : List UInt8)
deriving DecidableEq, Repr

/-- A directive runs from `{` followed by `%` to the first `}`. -/
def splitFormat : List UInt8 → List Piece
  | [] => []
  | c :: str =>
    if c = 123 ∧ str.headD 0 = 37 then
      .directive (c :: str.takeWhile (· ≠ 125) ++ [125]) :: splitFormat (str.dropWhile (· ≠ 125)).tail
    else .literal c :: splitFormat str
termination_by str => str.length
decreasing_by
  all_goals
    have := (List.dropWhile_suffix (l := str) (· ≠ 125)).length_le
    simp only [List.length_tail, List.length_cons]
    omega

def Piece.isDirective : Piece → Bool
  | .literal _ => false
  | .directive _ => true

/-- What a directive does with its argument. -/
def runDirective (text : List UInt8) (arg : Int32) (fg bg : UInt8) (v : Vga) : Vga :=
  if text = ascii "\x7b%d\x7d" then fbPrintStr (decText arg) fg bg v
  else if text = ascii "\x7b%h\x7d" then fbPrintStr (hexText arg) fg bg v
  else if text = ascii "\x7b%\n\x7d" then fbMoveCursorToStartOfRow (fbOffsetCursor 80 v)
  else fbPrintStr text fg bg (fbPrintCell 63 fg bg v)

/-- The pieces in order; `j` directives come before them. -/
def runPieces (args : List Int32) (fg bg : UInt8) : Nat → List Piece → Vga → Vga
  | _, [], v => v
  | j, .literal c :: pieces, v => runPieces args fg bg j pieces (fbPrintCell c fg bg v)
  | j, .directive text :: pieces, v =>
    runPieces args fg bg (j + 1) pieces (runDirective text (args.getD j 0) fg bg v)

/-- The directives that print an argument; the others leave theirs alone. -/
def ReadsArgument (text : List UInt8) : Prop := text = ascii "\x7b%d\x7d" ∨ text = ascii "\x7b%h\x7d"

/-- There is an argument for every directive that prints one; `j` directives come before the pieces. -/
def Enough (args : List Int32) : Nat → List Piece → Prop
  | _, [] => True
  | j, .literal _ :: pieces => Enough args j pieces
  | j, .directive text :: pieces => (ReadsArgument text → j < args.length) ∧ Enough args (j + 1) pieces

/-- Every directive that starts is closed later on. -/
def Closed (str : List UInt8) : Prop :=
  ∀ i, str.getD i 0 = 123 → str.getD (i + 1) 0 = 37 → ∃ j, i < j ∧ str.getD j 0 = 125

instance (str : List UInt8) : Decidable (Closed str) :=
  decidable_of_iff (∀ i < str.length, str.getD i 0 = 123 → str.getD (i + 1) 0 = 37 →
    ∃ j < str.length, i < j ∧ str.getD j 0 = 125) <| by
  have hin : ∀ {i : Nat} {c : UInt8}, c ≠ 0 → str.getD i 0 = c → i < str.length := by
    intro i c hc h
    by_contra hout
    rw [List.getD_eq_default _ _ (by omega)] at h
    exact hc h.symm
  constructor
  · intro h i hopen hpercent
    obtain ⟨j, -, hj⟩ := h i (hin (by decide) hopen) hopen hpercent
    exact ⟨j, hj⟩
  · intro h i _ hopen hpercent
    obtain ⟨j, hj, hclose⟩ := h i hopen hpercent
    exact ⟨j, hin (by decide) hclose, hj, hclose⟩

/-! ## Printing a buffer -/

theorem writeLstrLoop_append (fg bg : UInt8) (rest : List UInt8) : ∀ (str : List UInt8) (i : Nat) (fb : FrameBuffer),
    writeLstrLoop fg bg str.length i (str ++ rest) fb = writeLstrLoop fg bg str.length i str fb
  | [], _, _ => rfl
  | c :: str, i, fb => writeLstrLoop_append fg bg rest str (i + 1) (fbWriteCell i c fg bg fb)

/-- Printing a buffer up to its NUL prints the C string it holds. -/
theorem fbPrintLstr_cstr (buffer : List UInt8) (fg bg : UInt8) (v : Vga) :
    fbPrintLstr buffer (strlen buffer) fg bg v = fbPrintStr (cstr buffer) fg bg v := by
  have hsplit : cstr buffer ++ buffer.dropWhile (· ≠ 0) = buffer := List.takeWhile_append_dropWhile
  have hwrite := writeLstrLoop_append fg bg (buffer.dropWhile (· ≠ 0)) (cstr buffer) (toUnsigned v.cursorPos.toInt) v.fb
  rw [hsplit] at hwrite
  rw [fbPrintStr_eq _ (notMem_cstr buffer), strlen_eq_length]
  unfold fbPrintLstr fbWriteLstr
  rw [Int.toNat_natCast, hwrite]

/-! ## One directive -/

theorem findClose_append (body post : List UInt8) (hbody : 125 ∉ body) :
    ∀ (pre : List UInt8) (n : Nat), body.length < n →
    findClose (pre ++ body ++ 125 :: post) n pre.length = some (pre.length + body.length) := by
  induction body with
  | nil =>
    intro pre n hn
    obtain ⟨n, rfl⟩ : ∃ m, n = m + 1 := ⟨n - 1, by simp at hn; omega⟩
    rw [findClose, if_pos (by simp)]
    rfl
  | cons c body ih =>
    intro pre n hn
    simp only [List.length_cons] at hn
    obtain ⟨n, rfl⟩ : ∃ m, n = m + 1 := ⟨n - 1, by omega⟩
    have hc : c ≠ 125 := fun e => hbody (e ▸ List.mem_cons_self)
    have h := ih (fun h => hbody (List.mem_cons_of_mem _ h)) (pre ++ [c]) n (by omega)
    rw [findClose, if_neg (by simpa using hc)]
    simp only [List.append_assoc, List.cons_append, List.nil_append, List.length_append, List.length_cons,
      List.length_nil, Nat.zero_add] at h ⊢
    rw [h]
    congr 1; omega

/-- The buffer holds the text of the directive: the last store puts the NUL where `strslice` has put
it already. -/
theorem typeHint_read (pre text post : List UInt8) (h0 : 0 ∉ text) (hne : text ≠ []) :
    ((strslice (pre ++ text ++ post) pre.length (pre.length + text.length - 1) (.fresh fun _ => 0)).set
      (pre.length + text.length - 1 - pre.length + 1) 0).read (pre.length + text.length - 1 - pre.length + 2) =
        text ++ [0] := by
  have hpos := List.length_pos_iff.2 hne
  have hlen : pre.length + text.length - 1 - pre.length = text.length - 1 := by omega
  have hslice := strslice_read pre text post h0 hne (.fresh fun _ => 0)
  rw [hlen, Nat.sub_add_cancel hpos, show text.length - 1 + 2 = text.length + 1 by omega, ← hslice]
  apply List.ext_getElem?
  intro i
  rw [Store.getElem?_read, Store.getElem?_read, Store.set_val]
  by_cases hi : i = text.length
  · have hnul := congrArg (·[text.length]?) hslice
    simp only [Store.getElem?_read, List.getElem?_append_right (Nat.le_refl _), Nat.sub_self] at hnul
    rw [if_pos (by omega)] at hnul
    rw [hi, if_pos rfl, if_pos (by omega), if_pos (by omega), hnul]
    rfl
  · rw [if_neg hi]

/-- A directive of the format string does what its text means, with the argument it reads. -/
theorem printDirective_spec (pre text post : List UInt8) (h0 : 0 ∉ text) (hne : text ≠ []) (args : List Int32) (j : Nat)
    (hj : ReadsArgument text → j < args.length) (fg bg : UInt8) (v : Vga) :
    printDirective (pre ++ text ++ post) args pre.length (pre.length + text.length - 1) j fg bg v =
      some (runDirective text (args.getD j 0) fg bg v) := by
  have harg : ReadsArgument text → args[j]? = some (args.getD j 0) := fun hreads => by
    rw [List.getD_eq_getElem?_getD, List.getElem?_eq_getElem (hj hreads)]; rfl
  have hbuffer := typeHint_read pre text post h0 hne
  have hcmp : ∀ name : List UInt8, 0 ∉ name → (strcmp (text ++ [0]) name = 0 ↔ text = name) := by
    intro name hname
    rw [strcmp_eq_zero_iff, cstr_append_nul h0, cstr_of_notMem hname]
  unfold printDirective runDirective
  simp only [hbuffer, hcmp _ (show 0 ∉ ascii "\x7b%d\x7d" by decide), hcmp _ (show 0 ∉ ascii "\x7b%\n\x7d" by decide),
    hcmp _ (show 0 ∉ ascii "\x7b%h\x7d" by decide), fbPrintLstr_cstr, cstr_append_nul h0]
  by_cases hd : text = ascii "\x7b%d\x7d"
  · simp only [if_pos hd, harg (.inl hd)]; rfl
  · by_cases hh : text = ascii "\x7b%h\x7d"
    · have hn : ¬ text = ascii "\x7b%\n\x7d" := by rw [hh]; decide
      simp only [if_neg hd, if_pos hh, if_neg hn, harg (.inr hh)]; rfl
    · simp only [if_neg hd, if_neg hh]
      split <;> rfl

/-! ## The whole string -/

theorem getD_append_length (pre rest : List UInt8) (i : Nat) :
    (pre ++ rest).getD (pre.length + i) 0 = rest.getD i 0 := by
  rw [List.getD_append_right _ _ _ _ (Nat.le_add_right _ _), Nat.add_sub_cancel_left]

theorem Closed.of_append {pre rest : List UInt8} (h : Closed (pre ++ rest)) : Closed rest := by
  intro i hopen hpercent
  obtain ⟨j, hj, hclose⟩ := h (pre.length + i) (by rw [getD_append_length, hopen])
    (by rw [Nat.add_assoc, getD_append_length, hpercent])
  refine ⟨j - pre.length, by omega, ?_⟩
  rw [← getD_append_length pre rest, Nat.add_sub_cancel' (by omega), hclose]

/-- A directive that starts a closed string ends at the first `}`. -/
theorem Closed.split_directive {str : List UInt8} (h : Closed (123 :: str)) (hpercent : str.headD 0 = 37) :
    ∃ rest, str = str.takeWhile (· ≠ 125) ++ 125 :: rest ∧ (str.dropWhile (· ≠ 125)).tail = rest := by
  obtain ⟨j, hj, hclose⟩ := h 0 rfl (by cases str <;> exact hpercent)
  have hmem : 125 ∈ str := by
    obtain ⟨j, rfl⟩ : ∃ i, j = i + 1 := ⟨j - 1, by omega⟩
    rw [List.getD_cons_succ, List.getD_eq_getElem?_getD] at hclose
    cases hget : str[j]? with
    | none => rw [hget] at hclose; exact absurd hclose (by decide)
    | some c => rw [hget] at hclose; exact hclose ▸ List.mem_of_getElem? hget
  cases hdrop : str.dropWhile (· ≠ 125) with
  | nil =>
    have hall := List.dropWhile_eq_nil_iff.1 hdrop 125 hmem
    exact absurd hall (by decide)
  | cons c rest =>
    have hc : c = 125 := by
      have := List.head?_dropWhile_not (· ≠ 125) str
      rw [hdrop] at this
      simpa using this
    have hsplit := List.takeWhile_append_dropWhile (p := (· ≠ 125)) (l := str)
    rw [hdrop, hc] at hsplit
    exact ⟨rest, hsplit.symm, rfl⟩

theorem getD_cons_one (c : UInt8) (rest : List UInt8) : (c :: rest).getD 1 0 = rest.headD 0 := by
  cases rest <;> rfl

/-- A round on a character that is printed. -/
theorem fprintLoop_literal (args : List Int32) (fg bg : UInt8) {c : UInt8} {str : List UInt8} (hc : c ≠ 0)
    (hopen : ¬ (c = 123 ∧ str.headD 0 = 37)) (pre : List UInt8) (rounds j : Nat) (v : Vga) :
    fprintLoop (pre ++ c :: str) args fg bg (rounds + 1) pre.length j v =
      fprintLoop (pre ++ [c] ++ str) args fg bg rounds (pre ++ [c]).length j (fbPrintCell c fg bg v) := by
  have hread : (pre ++ c :: str).getD pre.length 0 = c := getD_append_length pre _ 0
  have hnext : (pre ++ c :: str).getD (pre.length + 1) 0 = str.headD 0 := by
    rw [getD_append_length, getD_cons_one]
  rw [fprintLoop]
  simp only [hread, hnext, if_neg hc, if_neg hopen, List.append_assoc, List.cons_append,
    List.nil_append, List.length_append,
    List.length_cons, List.length_nil, Nat.zero_add]

/-- A round on a directive: its closing brace is found, and its argument is printed. -/
theorem fprintLoop_directive (args : List Int32) (fg bg : UInt8) {body rest : List UInt8}
    (hpercent : (body ++ 125 :: rest).headD 0 = 37)
    (hbody : 125 ∉ 123 :: body) (h0 : 0 ∉ 123 :: body ++ [125]) (pre : List UInt8) (rounds : Nat) {j : Nat}
    (hj : ReadsArgument (123 :: body ++ [125]) → j < args.length) (v : Vga) :
    fprintLoop (pre ++ 123 :: (body ++ 125 :: rest)) args fg bg (rounds + 1) pre.length j v =
      fprintLoop (pre ++ (123 :: body ++ [125]) ++ rest) args fg bg rounds
        (pre ++ (123 :: body ++ [125])).length (j + 1)
        (runDirective (123 :: body ++ [125]) (args.getD j 0) fg bg v) := by
  have hopener : (pre ++ 123 :: (body ++ 125 :: rest)).getD pre.length 0 = 123 := getD_append_length pre _ 0
  have hnext : (pre ++ 123 :: (body ++ 125 :: rest)).getD (pre.length + 1) 0 = 37 := by
    rw [getD_append_length, getD_cons_one, hpercent]
  have hclose := findClose_append (123 :: body) rest hbody pre
    ((pre ++ 123 :: (body ++ 125 :: rest)).length - pre.length) (by simp)
  have hrun := printDirective_spec pre (123 :: body ++ [125]) rest h0 (by simp) args j hj fg bg v
  have hlen : pre.length + (123 :: body ++ [125]).length - 1 = pre.length + (123 :: body).length := by simp
  have hlen' : (pre ++ (123 :: body ++ [125])).length = pre.length + (123 :: body).length + 1 := by simp; omega
  rw [hlen] at hrun
  rw [hlen']
  simp only [List.append_assoc, List.cons_append, List.nil_append] at hclose hrun ⊢
  rw [fprintLoop]
  simp only [hopener, hnext, hclose, hrun, Option.bind_eq_bind, Option.bind_some]
  rfl

/-- From any piece of the string on, the scanner runs the pieces that are left. The induction is
on the split, one piece a round. -/
theorem fprintLoop_spec (args : List Int32) (fg bg : UInt8) (rest : List UInt8) : 0 ∉ rest → Closed rest →
    ∀ (pre : List UInt8) (rounds j : Nat) (v : Vga), rest.length < rounds →
      Enough args j (splitFormat rest) →
      fprintLoop (pre ++ rest) args fg bg rounds pre.length j v =
        some (runPieces args fg bg j (splitFormat rest) v) := by
  induction rest using splitFormat.induct with
  | case1 =>
    intro _ _ pre rounds j v hrounds _
    obtain ⟨rounds, rfl⟩ : ∃ n, rounds = n + 1 := ⟨rounds - 1, by simp at hrounds; omega⟩
    have hnul : (pre ++ []).getD pre.length 0 = 0 := getD_append_length pre [] 0
    rw [fprintLoop, if_pos hnul, splitFormat, runPieces]
  | case2 c str hopen ih =>
    intro h0 hclosed pre rounds j v hrounds hargs
    obtain ⟨rfl, hpercent⟩ := hopen
    obtain ⟨rest, hstr, htail⟩ := hclosed.split_directive hpercent
    obtain ⟨rounds, rfl⟩ : ∃ n, rounds = n + 1 := ⟨rounds - 1, by simp at hrounds; omega⟩
    have hbody : 125 ∉ 123 :: str.takeWhile (· ≠ 125) := by
      intro h
      rcases List.mem_cons.1 h with h | h
      · exact absurd h (by decide)
      · exact absurd (List.mem_takeWhile_imp h) (by decide)
    rw [splitFormat, if_pos ⟨rfl, hpercent⟩, htail] at hargs ⊢
    rw [htail] at ih
    generalize str.takeWhile (· ≠ 125) = body at hstr hbody hargs ⊢
    subst hstr
    have htext : 0 ∉ 123 :: body ++ [125] := fun h => h0 (by
      simp only [List.cons_append, List.mem_cons, List.mem_append, List.not_mem_nil, or_false] at h ⊢
      tauto)
    have hrest : Closed rest := by
      have hsplit : 123 :: (body ++ 125 :: rest) = (123 :: body ++ [125]) ++ rest := by simp
      rw [hsplit] at hclosed
      exact hclosed.of_append
    rw [fprintLoop_directive args fg bg hpercent hbody htext pre rounds hargs.1 v,
      ih (fun h => h0 (by simp [h])) hrest _ rounds (j + 1) _ (by simp at hrounds; omega) hargs.2]
    rfl
  | case3 c str hopen ih =>
    intro h0 hclosed pre rounds j v hrounds hargs
    obtain ⟨rounds, rfl⟩ : ∃ n, rounds = n + 1 := ⟨rounds - 1, by simp at hrounds; omega⟩
    have hc : c ≠ 0 := fun e => h0 (e ▸ List.mem_cons_self)
    have hrest : Closed ([c] ++ str) := hclosed
    rw [splitFormat, if_neg hopen] at hargs ⊢
    rw [fprintLoop_literal args fg bg hc hopen pre rounds j v,
      ih (fun h => h0 (List.mem_cons_of_mem _ h)) hrest.of_append _ rounds j _ (by simp at hrounds; omega) hargs]
    rfl

/-- An argument for every directive is enough. -/
theorem enough_of_countP {args : List Int32} : ∀ (pieces : List Piece) (j : Nat),
    j + pieces.countP Piece.isDirective ≤ args.length → Enough args j pieces
  | [], _, _ => trivial
  | .literal _ :: pieces, j, h => enough_of_countP pieces j (by simpa [Piece.isDirective] using h)
  | .directive _ :: pieces, j, h => by
    simp only [List.countP_cons, Piece.isDirective, if_true] at h
    exact ⟨fun _ => by omega, enough_of_countP pieces (j + 1) (by omega)⟩

theorem enough_literals {args : List Int32} {j : Nat} {pieces : List Piece} : ∀ text : List UInt8,
    Enough args j (text.map .literal ++ pieces) ↔ Enough args j pieces
  | [] => Iff.rfl
  | _ :: text => enough_literals text

theorem fbFprintStr_enough {str : List UInt8} {args : List Int32} (fg bg : UInt8) (v : Vga)
    (h0 : 0 ∉ str) (hclosed : Closed str) (hargs : Enough args 0 (splitFormat str)) :
    fbFprintStr str args fg bg v = some (runPieces args fg bg 0 (splitFormat str) v) :=
  fprintLoop_spec args fg bg str h0 hclosed [] (str.length + 1) 0 v (Nat.lt_succ_self _) hargs

theorem splitFormat_literals {text : List UInt8} (h : 123 ∉ text) (rest : List UInt8) :
    splitFormat (text ++ rest) = text.map .literal ++ splitFormat rest := by
  induction text with
  | nil => rfl
  | cons c text ih =>
    have hc : c ≠ 123 := fun e => h (e ▸ List.mem_cons_self)
    rw [List.cons_append, splitFormat, if_neg (fun hopen => hc hopen.1), ih (fun hm => h (List.mem_cons_of_mem _ hm))]
    rfl

theorem splitFormat_directive {body : List UInt8} (hbody : 125 ∉ body)
    (hpercent : body.headD 0 = 37) (rest : List UInt8) :
    splitFormat (123 :: (body ++ 125 :: rest)) = .directive (123 :: body ++ [125]) :: splitFormat rest := by
  have hkeep : ∀ c ∈ body, decide (c ≠ 125) = true := fun c hc => decide_eq_true fun e => hbody (e ▸ hc)
  have hhead : (body ++ 125 :: rest).headD 0 = 37 := by
    cases body with
    | nil => exact absurd hpercent (by decide)
    | cons c body => exact hpercent
  rw [splitFormat, if_pos ⟨rfl, hhead⟩, List.takeWhile_append_of_pos hkeep, List.dropWhile_append_of_pos hkeep]
  simp

theorem runPieces_literals (args : List Int32) (fg bg : UInt8) (j : Nat) (pieces : List Piece) :
    ∀ (text : List UInt8) (v : Vga),
      runPieces args fg bg j (text.map .literal ++ pieces) v = runPieces args fg bg j pieces (printCells text fg bg v)
  | [], _ => rfl
  | c :: text, v => runPieces_literals args fg bg j pieces text (fbPrintCell c fg bg v)

/-- `fb_fprint_str` on a closed format string, with an argument for each directive, does what its
pieces say, in order. -/
theorem fbFprintStr_runs_pieces (str : List UInt8) (args : List Int32) (fg bg : UInt8) (v : Vga) (h0 : 0 ∉ str)
    (hclosed : Closed str) (hargs : (splitFormat str).countP Piece.isDirective ≤ args.length) :
    fbFprintStr str args fg bg v = some (runPieces args fg bg 0 (splitFormat str) v) :=
  fbFprintStr_enough fg bg v h0 hclosed (enough_of_countP _ 0 (by omega))

/-- A literal, an unknown directive and a number: `a`, then `?` and the text of the directive, then
the eight digits of the second argument. -/
theorem fbFprintStr_second_argument : fbFprintStr (ascii "a\x7b%\x7d\x7b%h\x7d") [1, 2] 0 15 Vga.powerOn =
    some (fbPrintStr (hexText 2) 0 15
      (fbPrintStr (ascii "\x7b%\x7d") 0 15 (fbPrintCell 63 0 15 (fbPrintCell 97 0 15 Vga.powerOn)))) := by
  have hsplit : splitFormat (ascii "a\x7b%\x7d\x7b%h\x7d") =
      [.literal 97, .directive (ascii "\x7b%\x7d"), .directive (ascii "\x7b%h\x7d")] := by
    have htext : ascii "a\x7b%\x7d\x7b%h\x7d" = [97] ++ 123 :: ([37] ++ 125 :: (123 :: ([37, 104] ++ 125 :: []))) := rfl
    rw [htext, splitFormat_literals (by decide), splitFormat_directive (by decide) rfl,
      splitFormat_directive (by decide) rfl,
      splitFormat]
    rfl
  have hruns := fbFprintStr_runs_pieces (ascii "a\x7b%\x7d\x7b%h\x7d") [1, 2] 0 15 Vga.powerOn (by decide) (by decide)
    (by rw [hsplit]; decide)
  have hunknown : ∀ v, runDirective (ascii "\x7b%\x7d") 1 0 15 v =
      fbPrintStr (ascii "\x7b%\x7d") 0 15 (fbPrintCell 63 0 15 v) := fun v => rfl
  have hnumber : ∀ v, runDirective (ascii "\x7b%h\x7d") 2 0 15 v = fbPrintStr (hexText 2) 0 15 v := fun v => rfl
  rw [hruns, hsplit, ← hunknown, ← hnumber]
  rfl

end HavenOS
