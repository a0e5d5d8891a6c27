/-
strcmp on pointers: it ends, reads neither string beyond its NUL and tells equal strings from
different ones, but it has no result for the first string coming before the second.
-/
import HavenOS.Cstring.Pointers
import HavenOS.Lib.Compare

namespace HavenOS

open Ram

/-- `P(*p) && Q(*q)`. -/
def bothAt (p : Ptr) (P : UInt8 → Bool) (q : Ptr) (Q : UInt8 → Bool) (m : Ram) : Bool × Ram :=
  let (a, m) := m.load p
  if P a then
    let (b, m) := m.load q
    (Q b, m)
  else (false, m)

/-- A round of the loop; the variables are `i` and `failed`. -/
def strcmpRound (str1 str2 : Ptr) : Int32 × Int32 × Ram → Bool × Int32 × Int32 × Ram
  | (i, failed, m) =>
    let (more, m) := bothAt (str1.add i.toInt) (· ≠ 0) (str2.add i.toInt) (· ≠ 0) m
    if more then
      let (a, m) := m.load (str1.add i.toInt)
      let (b, m) := m.load (str2.add i.toInt)
      if a ≠ b then (false, i, 1, m) else (true, i + 1, failed, m)
    else (false, i, failed, m)

/-- Why did the loop exit? -/
def strcmpEnd (str1 str2 : Ptr) : Int32 × Int32 × Ram → Int32 × Ram
  | (i, failed, m) =>
    let (shorter, m) := bothAt (str1.add i.toInt) (· = 0) (str2.add i.toInt) (· ≠ 0) m
    if shorter then (1, m)
    else
      let (longer, m) := bothAt (str1.add i.toInt) (· ≠ 0) (str2.add i.toInt) (· = 0) m
      if longer then (1, m) else (failed, m)

def strcmpAt (str1 str2 : Ptr) (fuel : Nat) (m : Ram) : Option (Int32 × Ram) :=
  (Loop.rounds (strcmpRound str1 str2) fuel (0, 0, m)).bind fun s => some (strcmpEnd str1 str2 s)

/-! ## One round -/

theorem bothAt_spec (p : Ptr) (P : UInt8 → Bool) (q : Ptr) (Q : UInt8 → Bool) (m : Ram) :
    ∃ m', bothAt p P q Q m = (P (m.val p.addr) && Q (m.val q.addr), m') ∧ m'.val = m.val ∧
      Within (fun r => r = p ∨ r = q) (fun _ => False) m m' := by
  have hfirst : Within (fun r => r = p ∨ r = q) (fun _ => False) m (m.load p).2 := (Within.refl _ _ m).load (.inl rfl)
  unfold bothAt
  cases hP : P (m.val p.addr) with
  | false => exact ⟨(m.load p).2, by simp [load, hP], rfl, hfirst⟩
  | true => exact ⟨((m.load p).2.load q).2, by simp [load, hP], rfl, hfirst.load (.inr rfl)⟩

section
variable {str1 str2 : Ptr} {i : Int32} {m : Ram} {a b : UInt8} (ha : m.val (str1.add i.toInt).addr = a)
  (hb : m.val (str2.add i.toInt).addr = b)
include ha hb

/-- Equal characters: the loop goes on. -/
theorem strcmpRound_more (hne : a ≠ 0) (heq : a = b) (failed : Int32) : ∃ m',
    strcmpRound str1 str2 (i, failed, m) = (true, i + 1, failed, m') ∧ m'.val = m.val ∧
      Within (fun p => p = str1.add i.toInt ∨ p = str2.add i.toInt) (fun _ => False) m m' := by
  obtain ⟨m1, hboth, hval, hwithin⟩ := bothAt_spec (str1.add i.toInt) (· ≠ 0) (str2.add i.toInt) (· ≠ 0) m
  subst heq
  refine ⟨((m1.load (str1.add i.toInt)).2.load (str2.add i.toInt)).2, ?_, hval,
    (hwithin.load (.inl rfl)).load (.inr rfl)⟩
  rw [strcmpRound, hboth]
  simp [load, hval, ha, hb, hne]

/-- The last round: an end, or characters that differ. -/
theorem strcmpRound_last (hlast : a = 0 ∨ a ≠ b) : ∃ m',
    strcmpRound str1 str2 (i, 0, m) = (false, i, if a ≠ 0 ∧ b ≠ 0 then 1 else 0, m') ∧ m'.val = m.val ∧
      Within (fun p => p = str1.add i.toInt ∨ p = str2.add i.toInt) (fun _ => False) m m' := by
  obtain ⟨m1, hboth, hval, hwithin⟩ := bothAt_spec (str1.add i.toInt) (· ≠ 0) (str2.add i.toInt) (· ≠ 0) m
  rw [strcmpRound, hboth, ha, hb]
  by_cases hchars : a ≠ 0 ∧ b ≠ 0
  · refine ⟨((m1.load (str1.add i.toInt)).2.load (str2.add i.toInt)).2, ?_, hval,
      (hwithin.load (.inl rfl)).load (.inr rfl)⟩
    simp [load, hval, ha, hb, hchars, hlast.resolve_left hchars.1]
  · refine ⟨m1, ?_, hval, hwithin⟩
    rw [if_neg hchars]
    simp [hchars]

/-- What comes after the loop: `failed` when just one string has ended. -/
theorem strcmpEnd_spec (failed : Int32) : ∃ m',
    strcmpEnd str1 str2 (i, failed, m) =
      (if (a = 0 ∧ b ≠ 0) ∨ (a ≠ 0 ∧ b = 0) then 1 else failed, m') ∧ m'.val = m.val ∧
      Within (fun p => p = str1.add i.toInt ∨ p = str2.add i.toInt) (fun _ => False) m m' := by
  obtain ⟨m1, hshorter, hval1, hwithin1⟩ := bothAt_spec (str1.add i.toInt) (· = 0) (str2.add i.toInt) (· ≠ 0) m
  obtain ⟨m2, hlonger, hval2, hwithin2⟩ := bothAt_spec (str1.add i.toInt) (· ≠ 0) (str2.add i.toInt) (· = 0) m1
  rw [hval1] at hlonger
  rw [strcmpEnd, hshorter]
  simp only [hlonger, ha, hb, Bool.and_eq_true, decide_eq_true_eq]
  by_cases h1 : a = 0 ∧ b ≠ 0
  · exact ⟨m1, by rw [if_pos h1, if_pos (.inl h1)], hval1, hwithin1⟩
  · refine ⟨m2, ?_, hval2.trans hval1, hwithin1.trans hwithin2⟩
    rw [if_neg h1]
    by_cases h2 : a ≠ 0 ∧ b = 0
    · rw [if_pos h2, if_pos (.inr h2)]
    · rw [if_neg h2, if_neg fun h => h.elim h1 h2]

end

/-! ## Runs of strcmp -/

/-- What is loaded of two strings of these lengths, from index `i` on. -/
def StrcmpReads (str1 str2 : Ptr) (i n k : Nat) (p : Ptr) : Prop :=
  (∃ j ≤ n, p = str1.add (Int32.ofNat (i + j)).toInt) ∨ ∃ j ≤ k, p = str2.add (Int32.ofNat (i + j)).toInt

theorem StrcmpReads.first {str1 str2 : Ptr} {i n k : Nat} {p : Ptr}
    (h : p = str1.add (Int32.ofNat i).toInt ∨ p = str2.add (Int32.ofNat i).toInt) : StrcmpReads str1 str2 i n k p :=
  h.imp (fun h => ⟨0, Nat.zero_le n, h⟩) fun h => ⟨0, Nat.zero_le k, h⟩

theorem StrcmpReads.next {str1 str2 : Ptr} {i n k : Nat} {p : Ptr} (h : StrcmpReads str1 str2 (i + 1) n k p) :
    StrcmpReads str1 str2 i (n + 1) (k + 1) p := by
  rcases h with ⟨j, hj, rfl⟩ | ⟨j, hj, rfl⟩
  · exact .inl ⟨j + 1, by omega, by rw [Nat.add_right_comm, Nat.add_assoc]⟩
  · exact .inr ⟨j + 1, by omega, by rw [Nat.add_right_comm, Nat.add_assoc]⟩

theorem strcmp_zero_or_one : ∀ str1 str2 : List UInt8, strcmp str1 str2 = 0 ∨ strcmp str1 str2 = 1
  | [], str2 => by
    rw [strcmp, strcmpExit]
    split
    · exact .inr rfl
    · exact .inl rfl
  | c1 :: str1, str2 => by
    rw [strcmp]
    split
    · split
      · exact .inr rfl
      · exact strcmp_zero_or_one str1 str2.tail
    · rw [strcmpExit]
      split
      · exact .inr rfl
      · exact .inl rfl

/-- There is no third result. -/
theorem strcmp_eq (str1 str2 : List UInt8) : strcmp str1 str2 = if cstr str1 = cstr str2 then 0 else 1 := by
  by_cases hsame : cstr str1 = cstr str2
  · rw [if_pos hsame, (strcmp_eq_zero_iff str1 str2).2 hsame]
  · rw [if_neg hsame]
    exact (strcmp_zero_or_one str1 str2).resolve_left fun h => hsame ((strcmp_eq_zero_iff str1 str2).1 h)

/-- Where the list version ends. -/
theorem strcmp_last {s t : List UInt8} (hlast : s.headD 0 = 0 ∨ s.headD 0 ≠ t.headD 0) :
    strcmp s t = if s.headD 0 = t.headD 0 then 0 else 1 := by
  generalize hb : t.headD 0 = b at hlast
  cases s with
  | nil =>
    rw [strcmp, hb]
    by_cases hzero : b = 0
    · simp [strcmpExit, hzero]
    · simp [strcmpExit, hzero, Ne.symm hzero]
  | cons a s =>
    have hlast : a = 0 ∨ a ≠ b := hlast
    rw [strcmp, hb, List.headD_cons]
    by_cases hchars : a ≠ 0 ∧ b ≠ 0
    · have hne := hlast.resolve_left hchars.1
      simp [hchars, hne]
    · simp only [if_neg hchars, strcmpExit]
      grind

/-- The flag after the last round and the test that follows. -/
theorem failed_last {a b : UInt8} (hlast : a = 0 ∨ a ≠ b) :
    (if (a = 0 ∧ b ≠ 0) ∨ (a ≠ 0 ∧ b = 0) then 1 else if a ≠ 0 ∧ b ≠ 0 then 1 else 0) =
      if a = b then (0 : Int32) else 1 := by
  by_cases hsame : a = b
  · obtain rfl : a = 0 := hlast.resolve_right (not_not_intro hsame)
    subst hsame
    rfl
  · rw [if_neg hsame]
    by_cases hone : (a = 0 ∧ b ≠ 0) ∨ (a ≠ 0 ∧ b = 0)
    · rw [if_pos hone]
    · rw [if_neg hone, if_pos]
      exact ⟨fun ha => hone (.inl ⟨ha, fun hb => hsame (ha.trans hb.symm)⟩),
        fun hb => hone (.inr ⟨fun ha => hsame (ha.trans hb.symm), hb⟩)⟩

section
variable (str1 str2 : Ptr)

/-- The rest of a run from index `i` on, where the strings `s` and `t` are left. -/
def StrcmpRest (s t : List UInt8) (i : Nat) (m : Ram) : Prop := ∃ c m',
  Settles (fun fuel => (Loop.rounds (strcmpRound str1 str2) fuel (Int32.ofNat i, 0, m)).bind
    fun s => some (strcmpEnd str1 str2 s))
    (c, m') ∧ c.toInt = strcmp s t ∧ m'.val = m.val ∧
  Within (StrcmpReads str1 str2 i s.length t.length) (fun _ => False) m m'

variable {str1 str2}

theorem strcmpRest_last {s t : List UInt8} {i : Nat} {m : Ram} (hs : HasText m.val (cell str1.addr i) s)
    (ht : HasText m.val (cell str2.addr i) t) (hlast : s.headD 0 = 0 ∨ s.headD 0 ≠ t.headD 0) :
    StrcmpRest str1 str2 s t i m := by
  have ha : m.val (str1.add (Int32.ofNat i).toInt).addr = s.headD 0 := by rw [addr_add_int, hs.head]
  have hb : m.val (str2.add (Int32.ofNat i).toInt).addr = t.headD 0 := by rw [addr_add_int, ht.head]
  obtain ⟨m1, hround, hval1, hwithin1⟩ := strcmpRound_last ha hb hlast
  obtain ⟨m2, hend, hval2, hwithin2⟩ := strcmpEnd_spec (hval1 ▸ ha) (hval1 ▸ hb)
    (if s.headD 0 ≠ 0 ∧ t.headD 0 ≠ 0 then 1 else 0)
  rw [failed_last hlast] at hend
  have hsettles := Loop.rounds_settles (strcmpRound str1 str2) (k := 0) (s := (Int32.ofNat i, 0, m))
    (fun _ h => absurd h (Nat.not_lt_zero _)) (by rw [Loop.after, hround])
  rw [Loop.after, Loop.after, hround] at hsettles
  have hrun := hsettles.bind (g := fun s _ => some (strcmpEnd str1 str2 s)) (.const _)
  rw [hend] at hrun
  refine ⟨_, m2, hrun, ?_, hval2.trans hval1,
    (hwithin1.trans hwithin2).mono (fun p hp => StrcmpReads.first hp) fun _ hp => hp⟩
  rw [strcmp_last hlast]
  split <;> rfl

/-- `strcmp` from index `i` on ends as the comparison of the strings that are left. -/
theorem strcmp_rest : ∀ (s t : List UInt8) (i : Nat) (m : Ram), HasText m.val (cell str1.addr i) s →
    HasText m.val (cell str2.addr i) t → StrcmpRest str1 str2 s t i m
  | [], t, i, m, hs, ht => strcmpRest_last hs ht (.inl rfl)
  | a :: s, [], i, m, hs, ht => strcmpRest_last hs ht (.inr (hs.head_ne))
  | a :: s, b :: t, i, m, hs, ht => by
    by_cases hsame : a = b
    · subst hsame
      have ha : m.val (str1.add (Int32.ofNat i).toInt).addr = a := by rw [addr_add_int, hs.head]; rfl
      have hb : m.val (str2.add (Int32.ofNat i).toInt).addr = a := by rw [addr_add_int, ht.head]; rfl
      obtain ⟨m1, hround, hval1, hwithin1⟩ := strcmpRound_more ha hb hs.head_ne rfl 0
      have hs' := hs.tail
      have ht' := ht.tail
      rw [cell_cell, ← hval1] at hs' ht'
      obtain ⟨c, m2, hrest, hc, hval2, hwithin2⟩ := strcmp_rest s t (i + 1) m1 hs' ht'
      refine ⟨c, m2, .succ ?_, ?_, hval2.trans hval1, ?_⟩
      · simp only [Loop.rounds, hround, if_true]
        rw [Int32.ofNat_add] at hrest
        exact hrest
      · rw [hc, strcmp, List.headD_cons, if_pos ⟨hs.head_ne, hs.head_ne⟩, if_neg (not_not_intro rfl), List.tail_cons]
      · exact (hwithin1.mono (fun p hp => StrcmpReads.first hp) fun _ hp => hp).trans
          (hwithin2.mono (fun p hp => hp.next) fun _ hp => hp)
    · exact strcmpRest_last hs ht (.inr hsame)

end

/-! ## The order of strings -/

/-- The order of `unsigned char`, or of the signed `char` of the compiler. -/
def charLt (signed : Bool) (a b : UInt8) : Prop := if signed then a.toInt8 < b.toInt8 else a < b

instance (signed : Bool) : Std.Asymm (charLt signed) where
  asymm a b h := by
    cases signed with
    | false => exact UInt8.lt_asymm h
    | true => exact Int8.lt_asymm h

instance (signed : Bool) : Std.Trichotomous (charLt signed) where
  trichotomous a b hlt hgt := by
    cases signed with
    | false => exact UInt8.le_antisymm (UInt8.not_lt.1 hgt) (UInt8.not_lt.1 hlt)
    | true =>
      have heq : a.toInt8 = b.toInt8 := Int8.le_antisymm (Int8.not_lt.1 hgt) (Int8.not_lt.1 hlt)
      rw [← UInt8.toUInt8_toInt8 a, heq, UInt8.toUInt8_toInt8]

/-- The first string comes before the second. -/
def StringLt (signed : Bool) : List UInt8 → List UInt8 → Prop := List.Lex (charLt signed)

instance (signed : Bool) : Std.Asymm (StringLt signed) := inferInstanceAs (Std.Asymm (List.Lex (charLt signed)))

instance (signed : Bool) : Std.Trichotomous (StringLt signed) :=
  inferInstanceAs (Std.Trichotomous (List.Lex (charLt signed)))

/-- `strcmp` on the strings at `a` and `b` ends with `c`, and has loaded no byte beyond their NULs. -/
def StrcmpGives (val : UInt32 → UInt8) (a b : UInt32) (s t : List UInt8) (c : Int32) : Prop := ∃ m',
  Settles (fun fuel => strcmpAt (.start a) (.start b) fuel (.fresh val)) (c, m') ∧ m'.val = val ∧
  ∀ p ∈ m'.loads, (p.base = a ∧ ∃ i ≤ s.length, p.addr = cell a i) ∨ (p.base = b ∧ ∃ i ≤ t.length, p.addr = cell b i)

section
variable {val : UInt32 → UInt8} {a b : UInt32} {s t : List UInt8} (hs : HasText val a s) (ht : HasText val b t)
include hs ht

/-- The one result: whether the strings differ. -/
theorem strcmpGives_iff (c : Int32) : StrcmpGives val a b s t c ↔ c = if s = t then 0 else 1 := by
  have hrest : StrcmpRest (.start a) (.start b) s t 0 (.fresh val) := strcmp_rest s t 0 (.fresh val)
    (by rwa [Ptr.start_addr, cell_zero]) (by rwa [Ptr.start_addr, cell_zero])
  obtain ⟨c', m', hsettles, hc', hval, hwithin⟩ := hrest
  have hresult : c' = if s = t then 0 else 1 := by
    rw [strcmp_eq, cstr_of_notMem hs.noNul, cstr_of_notMem ht.noNul] at hc'
    apply Int32.toInt_inj.1
    rw [hc']
    split <;> rfl
  constructor
  · rintro ⟨m'', hsettles', -, -⟩
    cases hsettles.unique hsettles'
    exact hresult
  · rintro rfl
    refine ⟨m', hresult ▸ hsettles, hval, fun p hp => ?_⟩
    rcases hwithin.loads p hp with hbefore | ⟨j, hj, rfl⟩ | ⟨j, hj, rfl⟩
    · exact absurd hbefore List.not_mem_nil
    · exact .inl ⟨rfl, j, hj, by rw [addr_add_int, Ptr.start_addr, Nat.zero_add]⟩
    · exact .inr ⟨rfl, j, hj, by rw [addr_add_int, Ptr.start_addr, Nat.zero_add]⟩

/-- The result is the sign of the comparison exactly unless the first string comes before the second. -/
theorem strcmpGives_threeWay_iff (signed : Bool) :
    (∃ c, StrcmpGives val a b s t c ∧ ThreeWay (StringLt signed) s t c.toInt) ↔ ¬ StringLt signed s t := by
  constructor
  · rintro ⟨c, hgives, hthree⟩ hlt
    rw [strcmpGives_iff hs ht] at hgives
    have hneg := hthree.neg_iff.2 hlt
    rw [hgives] at hneg
    split at hneg <;> exact absurd hneg (by decide)
  · intro hlt
    refine ⟨_, (strcmpGives_iff hs ht _).2 rfl, ?_⟩
    by_cases hsame : s = t
    · subst hsame
      rw [if_pos rfl]
      exact .equal s
    · rw [if_neg hsame]
      exact .behind (((ThreeWay.lt_or_eq_or_gt _ s t).resolve_left hlt).resolve_left hsame)

end

/-- `strcmp` always ends in bounds; what it returns is -1, 0 or 1 as the order of the strings wants
it exactly unless the first string comes before the second, and it is the opposite of the result the
other way round, and `<= 0` one way or the other, exactly for equal strings. -/
theorem strcmp_three_way_iff (signed : Bool) {val : UInt32 → UInt8} {a b : UInt32} {s t : List UInt8}
    (hs : HasText val a s) (ht : HasText val b t) :
    (∃ c, StrcmpGives val a b s t c) ∧
    ((∃ c, StrcmpGives val a b s t c ∧ ThreeWay (StringLt signed) s t c.toInt) ↔ ¬ StringLt signed s t) ∧
    ((∃ c c', StrcmpGives val a b s t c ∧ StrcmpGives val b a t s c' ∧ c.toInt = -c'.toInt) ↔ s = t) ∧
    ((∃ c c', StrcmpGives val a b s t c ∧ StrcmpGives val b a t s c' ∧ (c ≤ 0 ∨ c' ≤ 0)) ↔ s = t) := by
  have hforth := strcmpGives_iff hs ht
  have hback := strcmpGives_iff ht hs
  refine ⟨⟨_, (hforth _).2 rfl⟩, strcmpGives_threeWay_iff hs ht signed, ?_, ?_⟩
  · constructor
    · rintro ⟨c, c', hc, hc', hneg⟩
      rw [hforth] at hc
      rw [hback] at hc'
      by_contra hne
      rw [hc, hc', if_neg hne, if_neg (Ne.symm hne)] at hneg
      exact absurd hneg (by decide)
    · rintro rfl
      exact ⟨0, 0, (hforth 0).2 (if_pos rfl).symm, (hback 0).2 (if_pos rfl).symm, by decide⟩
  · constructor
    · rintro ⟨c, c', hc, hc', hle⟩
      rw [hforth] at hc
      rw [hback] at hc'
      by_contra hne
      rw [hc, hc', if_neg hne, if_neg (Ne.symm hne)] at hle
      exact absurd hle (by decide)
    · rintro rfl
      exact ⟨0, 0, (hforth 0).2 (if_pos rfl).symm, (hback 0).2 (if_pos rfl).symm, .inl (by decide)⟩

/-- `b` after `a` is right. -/
theorem strcmp_three_way_iff_after :
    ∃ c, StrcmpGives (fun x => [98, 0, 97].getD (x - 4096).toNat 0) 4096 4098 [98] [97] c ∧
    ThreeWay (StringLt true) [98] [97] c.toInt :=
  (strcmp_three_way_iff true ⟨by decide, by decide, by decide⟩ ⟨by decide, by decide, by decide⟩).2.1.2
    (Std.Asymm.asymm _ _ (.rel (by unfold charLt; decide)))

/-- `a` comes before `b`, but the result is 1. -/
theorem strcmp_misses_before : ¬ ∃ c, StrcmpGives (fun x => [97, 0, 98].getD (x - 4096).toNat 0) 4096 4098 [97] [98] c ∧
    ThreeWay (StringLt true) [97] [98] c.toInt := by
  have hs : HasText (fun x => [97, 0, 98].getD (x - 4096).toNat 0) 4096 [97] := ⟨by decide, by decide, by decide⟩
  have ht : HasText (fun x => [97, 0, 98].getD (x - 4096).toNat 0) 4098 [98] := ⟨by decide, by decide, by decide⟩
  rw [strcmpGives_threeWay_iff hs ht]
  exact not_not_intro (.rel (by unfold charLt; decide))

end HavenOS
