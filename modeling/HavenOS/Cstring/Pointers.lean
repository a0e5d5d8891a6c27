/-
string.c on pointers: `strlen`, `strw_flo`, `strcat` and `strcpy`, whose loops test bytes beyond the
strings they are given. Every loop runs on fuel.
-/
import HavenOS.Cstring.Text
import HavenOS.Lib.Fuel
import HavenOS.Lib.Ram
import Mathlib.Data.Nat.Find

namespace HavenOS

open Ram

/-! ## strlen -/

/-- `while (str[length] != 0) length++`. -/
def strlenRound (str : Ptr) : Int32 × Ram → Bool × Int32 × Ram
  | (length, m) =>
    let (c, m) := m.load (str.add length.toInt)
    if c ≠ 0 then (true, length + 1, m) else (false, length, m)

def strlenAt (str : Ptr) (fuel : Nat) (m : Ram) : Option (Int32 × Ram) := Loop.rounds (strlenRound str) fuel (0, m)

/-! ## strw_flo -/

/-- `while (offset) { dest++; offset--; }`. -/
def skipRound : Ptr × Int32 → Bool × Ptr × Int32
  | (dest, offset) => if offset ≠ 0 then (true, dest.add 1, offset - 1) else (false, dest, offset)

/-- `while (from);`, a loop without a body. -/
def spinRound («from» : Int32) : Bool × Int32 := («from» ≠ 0, «from»)

/-- The variables of the copy loop. -/
structure Flo where
  dest : Ptr
  src : Ptr
  length : Int32
  ram : Ram

/-- `*dest++ = *src++; length--;`. -/
def floBody (s : Flo) : Flo :=
  let (c, m) := s.ram.load s.src
  ⟨s.dest.add 1, s.src.add 1, s.length - 1, m.store s.dest c⟩

/-- `length && (*src != 0 || *dest != 0)`. -/
def floTest (s : Flo) : Bool × Flo :=
  if s.length ≠ 0 then
    let (a, m) := s.ram.load s.src
    if a ≠ 0 then (true, { s with ram := m })
    else
      let (b, m) := m.load s.dest
      (b ≠ 0, { s with ram := m })
  else (false, s)

def floRound (s : Flo) : Bool × Flo := floTest (floBody s)

/-- The values of `*src--`, `*dest++` and `*src++` outside the copy loop are not used, so these move the
pointers and load nothing. -/
def strwFlo (dest src : Ptr) («from» length offset : Int32) (fuel : Nat) (m : Ram) : Option Ram :=
  let src := src.add (-1)
  (Loop.rounds skipRound fuel (dest, offset)).bind fun (dest, _) =>
  (Loop.rounds spinRound fuel «from»).bind fun _ =>
  let src := src.add 1
  (Loop.rounds floRound fuel ⟨dest, src, length, m⟩).bind fun s =>
  some (s.ram.store s.dest 0)

/-! ## strcat -/

/-- `strw_flo(buffer, dest, 0, strlen(dest), 0);`. -/
def strcatDest (dest buffer : Ptr) (fuel : Nat) (m : Ram) : Option Ram :=
  (strlenAt dest fuel m).bind fun (destLength, m) => strwFlo buffer dest 0 destLength 0 fuel m

/-- `strw_flo(buffer, append, 0, strlen(append), strlen(dest));`. -/
def strcatAppend (dest append buffer : Ptr) (fuel : Nat) (m : Ram) : Option Ram :=
  (strlenAt append fuel m).bind fun (appendLength, m) =>
  (strlenAt dest fuel m).bind fun (destLength, m) => strwFlo buffer append 0 appendLength destLength fuel m

/-- `buffer[strlen(dest) + strlen(append) + 1] = 0;`. -/
def strcatClose (dest append buffer : Ptr) (fuel : Nat) (m : Ram) : Option Ram :=
  (strlenAt dest fuel m).bind fun (destLength, m) =>
  (strlenAt append fuel m).bind fun (appendLength, m) =>
  some (m.store (buffer.add (destLength + appendLength + 1).toInt) 0)

def strcat (dest append buffer : Ptr) (fuel : Nat) (m : Ram) : Option Ram :=
  (strcatDest dest buffer fuel m).bind fun m =>
  (strcatAppend dest append buffer fuel m).bind fun m => strcatClose dest append buffer fuel m

/-! ## strcpy -/

/-- `*dest++ = *src++`, and whether `*src != 0`. -/
def strcpyRound : Ptr × Ptr × Ram → Bool × Ptr × Ptr × Ram
  | (dest, src, m) =>
    let (c, m) := m.load src
    let m := m.store dest c
    let dest := dest.add 1
    let src := src.add 1
    let (a, m) := m.load src
    (a ≠ 0, dest, src, m)

/-- What is returned is the character `*dest`, made a pointer. -/
def strcpy (dest src : Ptr) (fuel : Nat) (m : Ram) : Option (UInt32 × Ram) :=
  (Loop.rounds strcpyRound fuel (dest, src, m)).bind fun (dest, _, m) =>
  let (c, m) := m.load dest
  some (c.toInt8.toInt32.toUInt32, m)

/-! ## Ints as counts -/

theorem ofInt_toInt (x : Int32) : UInt32.ofInt x.toInt = x.toUInt32 := by
  have hx := toNat_toUInt32 x
  apply UInt32.toNat_inj.1
  rw [UInt32.ofInt, UInt32.toNat_ofNat', ← hx, Int.toNat_natCast]
  exact Nat.mod_eq_of_lt x.toUInt32.toNat_lt

/-- Every `int` counts something, whatever its sign. -/
theorem exists_ofNat (x : Int32) : ∃ k < 2 ^ 32, Int32.ofNat k = x := by
  refine ⟨x.toUInt32.toNat, x.toUInt32.toNat_lt, ?_⟩
  rw [← UInt32.toInt32_ofNat', UInt32.ofNat_toNat, Int32.toInt32_toUInt32]

theorem ofNat_inj {i j : Nat} (hi : i < 2 ^ 32) (hj : j < 2 ^ 32) : Int32.ofNat i = Int32.ofNat j ↔ i = j := by
  refine ⟨fun h => ?_, fun h => by rw [h]⟩
  have h := congrArg (fun x => x.toUInt32.toNat) h
  simp only [Int32.toUInt32_ofNat', UInt32.toNat_ofNat'] at h
  omega

theorem sub_ofNat_succ (x : Int32) (i : Nat) : x - Int32.ofNat i - 1 = x - Int32.ofNat (i + 1) := by
  rw [Int32.ofNat_add, Int32.sub_sub]
  rfl

theorem sub_ofNat_eq_zero (x : Int32) (i : Nat) : x - Int32.ofNat i = 0 ↔ x = Int32.ofNat i := by
  generalize Int32.ofNat i = y
  grind

theorem addr_add_int (p : Ptr) (k : Nat) : (p.add (Int32.ofNat k).toInt).addr = cell p.addr k := by
  rw [Ptr.addr, Ptr.add, UInt32.ofInt_add, ofInt_toInt, ← UInt32.add_assoc]
  rfl

/-! ## Runs of strlen -/

theorem after_strlen (str : Ptr) (m : Ram) {s : List UInt8} (hs : HasText m.val str.addr s) (hlen : s.length < 2 ^ 31) :
    ∀ i ≤ s.length, ∃ m', Loop.after (strlenRound str) i (0, m) = (Int32.ofNat i, m') ∧ m'.val = m.val ∧
      Within (fun p => ∃ j ≤ s.length, p = str.add j) (fun _ => False) m m'
  | 0, _ => ⟨m, rfl, rfl, .refl _ _ m⟩
  | i + 1, hi => by
    obtain ⟨m', hafter, hval, hwithin⟩ := after_strlen str m hs hlen i (by omega)
    have hint : (Int32.ofNat i).toInt = i := Int32.toInt_ofNat_of_lt (by omega)
    have hmore : m'.val (str.add i).addr ≠ 0 := by
      rw [hval, addr_add]
      exact hs.byte_ne hi
    refine ⟨(m'.load (str.add i)).2, ?_, hval, hwithin.load ⟨i, by omega, rfl⟩⟩
    rw [Loop.after, hafter, strlenRound, hint]
    simp only [load, ne_eq, hmore, not_false_eq_true, if_true, Int32.ofNat_add]
    rfl

/-- `strlen` counts the characters and loads no further than the NUL. -/
theorem strlenAt_settles (str : Ptr) (m : Ram) {s : List UInt8} (hs : HasText m.val str.addr s)
    (hlen : s.length < 2 ^ 31) :
    ∃ m', Settles (fun fuel => strlenAt str fuel m) (Int32.ofNat s.length, m') ∧ m'.val = m.val ∧
      Within (fun p => ∃ j ≤ s.length, p = str.add j) (fun _ => False) m m' := by
  have hround : ∀ i ≤ s.length, (strlenRound str (Loop.after (strlenRound str) i (0, m))).1 =
      decide (m.val (cell str.addr i) ≠ 0) := by
    intro i hi
    obtain ⟨m', hafter, hval, -⟩ := after_strlen str m hs hlen i hi
    have hint : (Int32.ofNat i).toInt = i := Int32.toInt_ofNat_of_lt (by omega)
    rw [hafter, strlenRound, hint, ← addr_add, ← hval]
    by_cases hc : m'.val (str.add i).addr = 0 <;> simp [load, hc]
  have hsettles := Loop.rounds_settles (strlenRound str) (k := s.length) (s := (0, m))
    (fun i hi => by rw [hround i (by omega)]; simpa using hs.byte_ne hi)
    (by rw [hround _ (Nat.le_refl _), hs.nul]; rfl)
  obtain ⟨m', hafter, hval, hwithin⟩ := after_strlen str m hs hlen _ (Nat.le_refl _)
  have hint : (Int32.ofNat s.length).toInt = s.length := Int32.toInt_ofNat_of_lt hlen
  have hnul : m'.val (str.add s.length).addr = 0 := by rw [hval, addr_add, hs.nul]
  refine ⟨(m'.load (str.add s.length)).2, ?_, hval, hwithin.load ⟨_, Nat.le_refl _, rfl⟩⟩
  rw [Loop.after, hafter, strlenRound, hint] at hsettles
  simpa only [strlenAt, load, hnul, ne_eq, not_true_eq_false, if_false] using hsettles

/-! ## Runs of strw_flo -/

theorem after_skip (dest : Ptr) (offset : Int32) : ∀ i : Nat, (∀ j < i, offset ≠ Int32.ofNat j) →
    Loop.after skipRound i (dest, offset) = (dest.add i, offset - Int32.ofNat i)
  | 0, _ => by rw [Loop.after]; exact Prod.ext (Ptr.add_zero dest).symm (Int32.sub_zero offset).symm
  | i + 1, h => by
    have hmore : offset - Int32.ofNat i ≠ 0 := fun e => h i (Nat.lt_succ_self i) ((sub_ofNat_eq_zero offset i).1 e)
    rw [Loop.after, after_skip dest offset i fun j hj => h j (Nat.lt_succ_of_lt hj), skipRound,
      if_pos hmore, Ptr.add_add,
      sub_ofNat_succ]
    rfl

/-- The offset is counted down to 0. -/
theorem skip_settles (dest : Ptr) {k : Nat} (hk : k < 2 ^ 32) :
    Settles (fun fuel => Loop.rounds skipRound fuel (dest, Int32.ofNat k)) (dest.add k, 0) := by
  have hne : ∀ j < k, Int32.ofNat k ≠ Int32.ofNat j := fun j hj e => by
    have := (ofNat_inj hk (by omega)).1 e
    omega
  have hafter : ∀ i ≤ k, Loop.after skipRound i (dest, Int32.ofNat k) = (dest.add i, Int32.ofNat k - Int32.ofNat i) :=
    fun i hi => after_skip dest _ i fun j hj => hne j (by omega)
  have hzero : Int32.ofNat k - Int32.ofNat k = 0 := (sub_ofNat_eq_zero _ k).2 rfl
  have hsettles := Loop.rounds_settles skipRound (k := k) (s := (dest, Int32.ofNat k))
    (fun i hi => by
      rw [hafter i (by omega), skipRound, if_pos fun e => hne i hi ((sub_ofNat_eq_zero _ i).1 e)])
    (by rw [hafter k (Nat.le_refl k), hzero]; rfl)
  rwa [Loop.after, hafter k (Nat.le_refl k), hzero] at hsettles

/-- A start that is not 0 is waited for for ever. -/
theorem spin_never {x : Int32} (hx : x ≠ 0) (fuel : Nat) : Loop.rounds spinRound fuel x = none := by
  have hafter : ∀ i, Loop.after spinRound i x = x := by
    intro i
    induction i with
    | zero => rfl
    | succ i ih => rw [Loop.after, ih]; rfl
  refine Loop.rounds_never spinRound fuel fun i => ?_
  rw [hafter i]
  exact decide_eq_true hx

theorem spin_settles : Settles (fun fuel => Loop.rounds spinRound fuel 0) 0 :=
  Loop.rounds_settles spinRound (k := 0) (fun _ h => absurd h (Nat.not_lt_zero _)) rfl

/-- After `r` rounds the copy loop stops: the length is used up, or both pointers are at a NUL. -/
def FloEnds (d s : UInt32) (length : Int32) (val : UInt32 → UInt8) (r : Nat) : Prop :=
  length = Int32.ofNat r ∨ copied d s r val (cell s r) = 0 ∧ copied d s r val (cell d r) = 0

instance (d s : UInt32) (length : Int32) (val : UInt32 → UInt8) (r : Nat) : Decidable (FloEnds d s length val r) :=
  inferInstanceAs (Decidable (_ ∨ _))

/-- The copy loop after `i` rounds. -/
structure FloAfter (s : Flo) (i : Nat) (s' : Flo) : Prop where
  dest : s'.dest = s.dest.add i
  src : s'.src = s.src.add i
  length : s'.length = s.length - Int32.ofNat i
  val : s'.ram.val = copied s.dest.addr s.src.addr i s.ram.val
  within : Within (fun p => ∃ j ≤ i, p = s.src.add j ∨ p = s.dest.add j)
    (fun p => ∃ j < i, p = s.dest.add j) s.ram s'.ram

theorem FloAfter.refl (s : Flo) : FloAfter s 0 s where
  dest := (Ptr.add_zero s.dest).symm
  src := (Ptr.add_zero s.src).symm
  length := (Int32.sub_zero s.length).symm
  val := rfl
  within := .refl _ _ _

/-- The test only loads. -/
theorem floTest_eq (s : Flo) : ∃ m, (floTest s).2 = { s with ram := m } ∧ m.val = s.ram.val ∧ Extends s.ram m ∧
    Within (fun p => p = s.src ∨ p = s.dest) (fun _ => False) s.ram m := by
  have hrefl := Within.refl (fun p => p = s.src ∨ p = s.dest) (fun _ => False) s.ram
  have hsrc := hrefl.load (p := s.src) (.inl rfl)
  have hextends := extends_load s.src s.ram
  by_cases hlength : s.length = 0
  · exact ⟨s.ram, by rw [floTest, if_neg (not_not_intro hlength)], rfl, .refl _, hrefl⟩
  · -- the second pointer is looked at only where the first is at a NUL
    by_cases hc : s.ram.val s.src.addr = 0
    · exact ⟨((s.ram.load s.src).2.load s.dest).2, by simp [floTest, hlength, load, hc], rfl,
        hextends.trans (extends_load _ _), hsrc.load (.inr rfl)⟩
    · exact ⟨(s.ram.load s.src).2, by simp [floTest, hlength, load, hc], rfl, hextends, hsrc⟩

theorem floTest_loads {s : Flo} (hlength : s.length ≠ 0) : s.src ∈ (floTest s).2.ram.loads := by
  by_cases hc : s.ram.val s.src.addr = 0 <;> simp [floTest, hlength, load, hc]

theorem floTest_more (s : Flo) : (floTest s).1 = true ↔
    s.length ≠ 0 ∧ ¬ (s.ram.val s.src.addr = 0 ∧ s.ram.val s.dest.addr = 0) := by
  unfold floTest
  by_cases hlength : s.length = 0
  · simp [hlength]
  · by_cases hsrc : s.ram.val s.src.addr = 0 <;> simp [hlength, hsrc, load]

theorem FloAfter.body {s s' : Flo} {i : Nat} (h : FloAfter s i s') : FloAfter s (i + 1) (floBody s') where
  dest := by rw [floBody, h.dest, Ptr.add_add]; rfl
  src := by rw [floBody, h.src, Ptr.add_add]; rfl
  length := by rw [floBody, h.length]; exact sub_ofNat_succ _ i
  val := by
    have hval : (floBody s').ram.val = Function.update s'.ram.val s'.dest.addr (s'.ram.val s'.src.addr) := rfl
    rw [hval, h.val, h.dest, h.src, addr_add, addr_add, copied]
  within := by
    have hbefore : Within (fun p => ∃ j ≤ i + 1, p = s.src.add j ∨ p = s.dest.add j)
        (fun p => ∃ j < i + 1, p = s.dest.add j) s.ram s'.ram :=
      h.within.mono (fun _ hp => hp.imp fun _ h => ⟨Nat.le_succ_of_le h.1, h.2⟩)
        fun _ hp => hp.imp fun _ h => ⟨Nat.lt_succ_of_lt h.1, h.2⟩
    exact (hbefore.load ⟨i, by omega, .inl h.src⟩).store ⟨i, by omega, h.dest⟩ _

theorem FloAfter.test {s s' : Flo} {i : Nat} (h : FloAfter s i s') : FloAfter s i (floTest s').2 := by
  obtain ⟨m, heq, hval, -, hwithin⟩ := floTest_eq s'
  rw [heq]
  refine ⟨h.dest, h.src, h.length, hval.trans h.val, h.within.trans (hwithin.mono ?_ fun _ => False.elim)⟩
  rintro p (rfl | rfl)
  · exact ⟨i, Nat.le_refl i, .inl h.src⟩
  · exact ⟨i, Nat.le_refl i, .inr h.dest⟩

theorem floAfter (s : Flo) : ∀ i : Nat, FloAfter s i (Loop.after floRound i s)
  | 0 => .refl s
  | i + 1 => (floAfter s i).body.test

/-- The loop goes on after a round as long as it has not come to its end. -/
theorem floRound_more (s : Flo) (i : Nat) : (floRound (Loop.after floRound i s)).1 = true ↔
    ¬ FloEnds s.dest.addr s.src.addr s.length s.ram.val (i + 1) := by
  obtain ⟨hdest, hsrc, hlength, hval, -⟩ := (floAfter s i).body
  rw [floRound, floTest_more, hdest, hsrc, hlength, hval, addr_add, addr_add, FloEnds, not_or, ne_eq, sub_ofNat_eq_zero]

/-- The two steps of `src` cancel out. -/
theorem strwFlo_eq (dest src : Ptr) («from» length offset : Int32) (fuel : Nat) (m : Ram) :
    strwFlo dest src «from» length offset fuel m = (Loop.rounds skipRound fuel (dest, offset)).bind fun skipped =>
      (Loop.rounds spinRound fuel «from»).bind fun _ =>
      (Loop.rounds floRound fuel ⟨skipped.1, src, length, m⟩).bind fun s => some (s.ram.store s.dest 0) := by
  simp [strwFlo]

/-- The memory after `strw_flo`, its pointers as they are at the copy loop, if that loop makes `r`
rounds. -/
structure FloDone (dest src : Ptr) (r : Nat) (m m' : Ram) : Prop where
  val : m'.val = Function.update (copied dest.addr src.addr r m.val) (cell dest.addr r) 0
  within : Within (fun p => ∃ j ≤ r, p = src.add j ∨ p = dest.add j) (fun p => ∃ j ≤ r, p = dest.add j) m m'

/-- `strw_flo` from the start of its source, if its copy loop ends after `r` rounds and no sooner. -/
theorem strwFlo_settles (dest src : Ptr) (length : Int32) {offset : Nat} (hoffset : offset < 2 ^ 32) (m : Ram) {r : Nat}
    (hpos : 0 < r) (hends : FloEnds (cell dest.addr offset) src.addr length m.val r)
    (hmore : ∀ i, 0 < i → i < r → ¬ FloEnds (cell dest.addr offset) src.addr length m.val i) :
    ∃ m', Settles (fun fuel => strwFlo dest src 0 length (Int32.ofNat offset) fuel m) m' ∧
      FloDone (dest.add offset) src r m m' := by
  obtain ⟨k, rfl⟩ := Nat.exists_eq_add_of_lt hpos
  rw [Nat.zero_add] at *
  have hmore' := floRound_more ⟨dest.add offset, src, length, m⟩
  have hdone := floAfter ⟨dest.add offset, src, length, m⟩ (k + 1)
  simp only [addr_add] at hmore'
  have hloop := Loop.rounds_settles floRound (k := k) (s := ⟨dest.add offset, src, length, m⟩)
    (fun i hi => (hmore' i).2 (hmore (i + 1) (Nat.succ_pos i) (Nat.succ_lt_succ hi)))
    (Bool.eq_false_iff.2 fun h => (hmore' k).1 h hends)
  have hrun : Settles (fun fuel => strwFlo dest src 0 length (Int32.ofNat offset) fuel m)
      ((Loop.after floRound (k + 1) ⟨dest.add offset, src, length, m⟩).ram.store
        (Loop.after floRound (k + 1) ⟨dest.add offset, src, length, m⟩).dest 0) := by
    simp only [strwFlo_eq]
    exact (skip_settles dest hoffset).bind (spin_settles.bind (hloop.bind (.const _)))
  refine ⟨_, hrun, ?_, ?_⟩
  · rw [← addr_add, ← hdone.val, ← hdone.dest]
    rfl
  · have hloop : Within (fun p => ∃ j ≤ k + 1, p = src.add j ∨ p = (dest.add offset).add j)
        (fun p => ∃ j ≤ k + 1, p = (dest.add offset).add j) m _ :=
      hdone.within.mono (fun _ hp => hp) fun _ hp => hp.imp fun _ h => ⟨Nat.le_of_lt h.1, h.2⟩
    exact hloop.store ⟨k + 1, Nat.le_refl _, hdone.dest⟩ 0

/-- The copy loop ends: at the latest when it has counted once around. -/
theorem exists_end (d s : UInt32) (length : Int32) (val : UInt32 → UInt8) : ∃ r, 0 < r ∧ r ≤ 2 ^ 32 ∧
    FloEnds d s length val r ∧ ∀ i, 0 < i → i < r → ¬ FloEnds d s length val i := by
  obtain ⟨k, hk, rfl⟩ := exists_ofNat length
  have hsome : ∃ r, 0 < r ∧ r ≤ 2 ^ 32 ∧ FloEnds d s (Int32.ofNat k) val r := by
    rcases Nat.eq_zero_or_pos k with rfl | hpos
    · exact ⟨2 ^ 32, by decide, Nat.le_refl _, .inl rfl⟩
    · exact ⟨k, hpos, by omega, .inl rfl⟩
  obtain ⟨hpos, hle, hends⟩ := Nat.find_spec hsome
  exact ⟨Nat.find hsome, hpos, hle, hends, fun i hi hlt hend => Nat.find_min hsome hlt ⟨hi, by omega, hend⟩⟩

/-- The good case: the length is used up before the source ends. -/
theorem strwFlo_full (dest src : Ptr) {k offset : Nat} (hpos : 0 < k) (hk : k < 2 ^ 32)
    (hoffset : offset < 2 ^ 32) (m : Ram)
    (hsrc : ∀ i < k, copied (cell dest.addr offset) src.addr i m.val (cell src.addr i) ≠ 0) :
    ∃ m', Settles (fun fuel => strwFlo dest src 0 (Int32.ofNat k) (Int32.ofNat offset) fuel m) m' ∧
      FloDone (dest.add offset) src k m m' := by
  refine strwFlo_settles dest src (Int32.ofNat k) hoffset m hpos (.inl rfl) fun i _ hi hend => ?_
  rcases hend with hlength | ⟨hnul, -⟩
  · exact absurd ((ofNat_inj hk (by omega)).1 hlength) (by omega)
  · exact hsrc i hi hnul

/-- A start other than the first character: the loop before the copy never ends. -/
theorem strwFlo_never (dest src : Ptr) {x : Int32} (hx : x ≠ 0) (length offset : Int32) (fuel : Nat) (m : Ram) :
    strwFlo dest src x length offset fuel m = none := by
  rw [strwFlo_eq]
  cases Loop.rounds skipRound fuel (dest, offset) with
  | none => rfl
  | some skipped => rw [Option.bind_some, spin_never hx]; rfl

/-! ## Histories -/

theorem extends_strlenRound (str : Ptr) (s : Int32 × Ram) : Extends s.2 (strlenRound str s).2.2 := by
  unfold strlenRound
  by_cases hc : s.2.val (str.add s.1.toInt).addr = 0
  · simp only [load, hc, ne_eq, not_true_eq_false, if_false]
    exact extends_load _ s.2
  · simp only [load, hc, ne_eq, not_false_eq_true, if_true]
    exact extends_load _ s.2

theorem extends_floRound (s : Flo) : Extends s.ram (floRound s).2.ram := by
  have hbody : Extends s.ram (floBody s).ram := (extends_load s.src s.ram).trans (extends_store _ _ _)
  obtain ⟨m, heq, -, hextends, -⟩ := floTest_eq (floBody s)
  rw [floRound, heq]
  exact hbody.trans hextends

theorem extends_strlenAt {str : Ptr} {fuel : Nat} {m m' : Ram} {length : Int32}
    (h : strlenAt str fuel m = some (length, m')) :
    Extends m m' :=
  Loop.rounds_induct (strlenRound str) (P := fun s => Extends m s.2)
    (fun s hs => hs.trans (extends_strlenRound str s)) h
    (extends_strlenRound str (0, m))

/-- What the first round of the copy loop loads and stores is in the history. -/
theorem extends_strwFlo {dest src : Ptr} {length offset : Int32} {fuel : Nat} {m m' : Ram}
    (h : strwFlo dest src 0 length offset fuel m = some m') :
    ∃ dest', Extends (floRound ⟨dest', src, length, m⟩).2.ram m' := by
  rw [strwFlo_eq, Option.bind_eq_some_iff] at h
  obtain ⟨⟨dest', offset'⟩, -, h⟩ := h
  rw [Option.bind_eq_some_iff] at h
  obtain ⟨from', -, h⟩ := h
  rw [Option.bind_eq_some_iff] at h
  obtain ⟨s, hloop, hm⟩ := h
  cases hm
  have hrounds := Loop.rounds_induct floRound (P := fun s => Extends (floRound ⟨dest', src, length, m⟩).2.ram s.ram)
    (fun s hs => hs.trans (extends_floRound s)) hloop (.refl _)
  exact ⟨dest', hrounds.trans (extends_store _ _ _)⟩

/-- Where the length is not 1, the byte after the first is looked at. -/
theorem strwFlo_reads_on {dest src : Ptr} {length offset : Int32} (hlength : length - 1 ≠ 0) {fuel : Nat} {m m' : Ram}
    (h : strwFlo dest src 0 length offset fuel m = some m') : src.add 1 ∈ m'.loads := by
  obtain ⟨dest', hextends⟩ := extends_strwFlo h
  exact hextends.loads (floTest_loads (s := floBody ⟨dest', src, length, m⟩) hlength)

/-- Of an empty string `strlen` gives 0. -/
theorem strlenAt_nil {str : Ptr} {fuel : Nat} {m m' : Ram} {length : Int32} (hs : HasText m.val str.addr [])
    (h : strlenAt str fuel m = some (length, m')) : length = 0 := by
  obtain ⟨m'', hsettles, -⟩ := strlenAt_settles str m hs (by decide)
  cases (Loop.settles_of_rounds (strlenRound str) h).unique hsettles
  rfl

theorem extends_strcatDest {dest buffer : Ptr} {fuel : Nat} {m m' : Ram} (h : strcatDest dest buffer fuel m = some m') :
    Extends m m' := by
  rw [strcatDest, Option.bind_eq_some_iff] at h
  obtain ⟨⟨n, m1⟩, hlen, h⟩ := h
  obtain ⟨dest', hflo⟩ := extends_strwFlo h
  exact (extends_strlenAt hlen).trans ((extends_floRound ⟨dest', dest, n, m1⟩).trans hflo)

theorem extends_strcatAppend {dest append buffer : Ptr} {fuel : Nat} {m m' : Ram}
    (h : strcatAppend dest append buffer fuel m = some m') : Extends m m' := by
  rw [strcatAppend, Option.bind_eq_some_iff] at h
  obtain ⟨⟨k, m1⟩, hlen, h⟩ := h
  rw [Option.bind_eq_some_iff] at h
  obtain ⟨⟨n, m2⟩, hlen', h⟩ := h
  obtain ⟨dest', hflo⟩ := extends_strwFlo h
  exact (extends_strlenAt hlen).trans
    ((extends_strlenAt hlen').trans ((extends_floRound ⟨dest', append, k, m2⟩).trans hflo))

theorem extends_strcatClose {dest append buffer : Ptr} {fuel : Nat} {m m' : Ram}
    (h : strcatClose dest append buffer fuel m = some m') : Extends m m' := by
  rw [strcatClose, Option.bind_eq_some_iff] at h
  obtain ⟨⟨n, m1⟩, hlen, h⟩ := h
  rw [Option.bind_eq_some_iff] at h
  obtain ⟨⟨k, m2⟩, hlen', h⟩ := h
  cases h
  exact (extends_strlenAt hlen).trans ((extends_strlenAt hlen').trans (extends_store _ _ m2))

theorem extends_strcat {dest append buffer : Ptr} {fuel : Nat} {m m' : Ram}
    (h : strcat dest append buffer fuel m = some m') :
    Extends m m' := by
  rw [strcat, Option.bind_eq_some_iff] at h
  obtain ⟨m1, hdest, h⟩ := h
  rw [Option.bind_eq_some_iff] at h
  obtain ⟨m2, happend, hclose⟩ := h
  exact (extends_strcatDest hdest).trans ((extends_strcatAppend happend).trans (extends_strcatClose hclose))

end HavenOS
