/-
The contract of strw_flo, and exactly when it is met: from the start of the source only, for a length
the source has, or at a NUL in the destination that stops the copy in time.
-/
import HavenOS.Cstring.Pointers

namespace HavenOS

open Ram

/-- How many characters there are to copy. -/
def floCount (length rest : Nat) : Nat := if length ≤ rest then length else rest

/-- `length` characters of `s` from `from` on, as far as it has them, and a NUL are at
`dest[offset]`, and no other byte changed. -/
structure FloContract (dest : UInt32) (s : List UInt8) («from» length offset : Nat)
    (val val' : UInt32 → UInt8) : Prop where
  copied : ∀ i < floCount length (s.length - «from»), val' (cell dest (offset + i)) = s.getD («from» + i) 0
  closed : val' (cell dest (offset + floCount length (s.length - «from»))) = 0
  others : ∀ a, (∀ i ≤ floCount length (s.length - «from»), a ≠ cell dest (offset + i)) → val' a = val a

/-- The memory with the first `k` characters of `s` and a NUL at `d`. -/
def floTarget (d : UInt32) (s : List UInt8) (k : Nat) (val : UInt32 → UInt8) (a : UInt32) : UInt8 :=
  if (a - d).toNat < k then s.getD (a - d).toNat 0 else if (a - d).toNat = k then 0 else val a

/-- A copy that goes on beyond the `n` characters of the source changes nothing: up to cell `r`,
where it ends at a NUL, it finds in the destination what it copies. -/
structure FloRunaway (d src : UInt32) (n length : Nat) (val : UInt32 → UInt8) (r : Nat) : Prop where
  later : n < r
  bound : r < 2 ^ 32
  closed : val (cell d r) = 0
  ends : r = length ∨ val (cell src r) = 0
  same : ∀ i, n < i → i < r → i ≠ length ∧ val (cell d i) = val (cell src i) ∧ val (cell d i) ≠ 0

/-- When `strw_flo` keeps its contract, `d` being the first cell written. -/
def FloMeets (d src : UInt32) (s : List UInt8) («from» length : Nat) (val : UInt32 → UInt8) : Prop :=
  «from» = 0 ∧ (0 < length ∧ length ≤ s.length ∨ s ≠ [] ∧ s.length < length ∧ val (cell d s.length) = 0 ∨
    (s = [] ∨ s.length < length) ∧ ∃ r, FloRunaway d src s.length length (floTarget d s s.length val) r)

/-! ## The target -/

section
variable {d : UInt32} {s : List UInt8} {k : Nat} {val val' : UInt32 → UInt8}

theorem floTarget_char (hk : k < 2 ^ 32) {i : Nat} (hi : i < k) : floTarget d s k val (cell d i) = s.getD i 0 := by
  rw [floTarget, index_cell d (by omega), if_pos hi]

theorem floTarget_nul (hk : k < 2 ^ 32) : floTarget d s k val (cell d k) = 0 := by
  rw [floTarget, index_cell d hk, if_neg (Nat.lt_irrefl k), if_pos rfl]

theorem floTarget_other {a : UInt32} (h : ∀ i ≤ k, a ≠ cell d i) : floTarget d s k val a = val a := by
  have hindex := cell_index d a
  rw [floTarget, if_neg fun hlt => h _ (by omega) hindex.symm, if_neg fun heq => h _ (by omega) hindex.symm]

theorem floTarget_later {i : Nat} (hk : k < i) (hi : i < 2 ^ 32) : floTarget d s k val (cell d i) = val (cell d i) :=
  floTarget_other fun _ hj => (cell_ne d (Nat.lt_of_le_of_lt hj hk) hi).symm

/-- A memory is the target if it has the characters, the NUL, and the rest as it was. -/
theorem eq_floTarget (hchars : ∀ i < k, val' (cell d i) = s.getD i 0) (hnul : val' (cell d k) = 0)
    (hothers : ∀ a, (∀ i ≤ k, a ≠ cell d i) → val' a = val a) : val' = floTarget d s k val := by
  funext a
  have hlt := (a - d).toNat_lt
  have hindex := cell_index d a
  unfold floTarget
  generalize (a - d).toNat = i at hlt hindex
  subst hindex
  split
  · rename_i hi
    exact hchars i hi
  · split
    · rename_i hi
      rw [hi, hnul]
    · exact hothers _ fun j hj => (cell_ne d (by omega) hlt).symm

/-- A text elsewhere stays. -/
theorem hasText_elsewhere {a : UInt32} {t : List UInt8} (ht : HasText val a t)
    (hapart : Apart d (k + 1) a (t.length + 1)) :
    HasText (floTarget d s k val) a t :=
  ht.congr fun i hi => floTarget_other fun j hj => (hapart j (by omega) i (by omega)).symm

theorem floContract_iff {dest : UInt32} {length offset : Nat} (hk : floCount length s.length < 2 ^ 32) :
    FloContract dest s 0 length offset val val' ↔
      val' = floTarget (cell dest offset) s (floCount length s.length) val := by
  constructor
  · rintro ⟨hcopied, hclosed, hothers⟩
    simp only [Nat.sub_zero, Nat.zero_add, ← cell_cell] at hcopied hclosed hothers
    exact eq_floTarget hcopied hclosed hothers
  · rintro rfl
    refine ⟨?_, ?_, ?_⟩ <;> simp only [Nat.sub_zero, Nat.zero_add, ← cell_cell]
    · exact fun i hi => floTarget_char hk hi
    · exact floTarget_nul hk
    · exact fun a ha => floTarget_other ha

end

/-! ## The copy loop -/

section
variable {d src : UInt32} {s : List UInt8} {val : UInt32 → UInt8} (hs : HasText val src s)
include hs

/-- So many characters and the NUL after them. -/
theorem copied_eq_target {k : Nat} (hk : k ≤ s.length) (hapart : Apart d (k + 1) src (s.length + 1)) :
    Function.update (copied d src k val) (cell d k) 0 = floTarget d s k val := by
  have hfits := hs.fits
  refine eq_floTarget (fun i hi => ?_) (Function.update_self ..) fun a ha => ?_
  · rw [Function.update_of_ne (cell_ne d hi (by omega)),
      copied_apart val (hapart.mono (by omega) (by omega)) hi (by omega), hs.byte i (by omega)]
  · rw [Function.update_of_ne (ha k (Nat.le_refl k)), copied_other val fun i hi => ha i (by omega)]

/-- The copied NUL closes the text as well. -/
theorem copied_nul (hapart : Apart d (s.length + 1) src (s.length + 1)) :
    copied d src (s.length + 1) val = floTarget d s s.length val := by
  have hnul : copied d src s.length val (cell src s.length) = 0 := by
    rw [copied_other val fun i hi => (hapart i (by omega) s.length (Nat.lt_succ_self _)).symm, hs.nul]
  rw [copied, hnul, copied_eq_target hs (Nat.le_refl _) hapart]

/-- The loop does not end inside the source, nor at its NUL where the destination has none. -/
theorem not_ends_inside {length k i : Nat} (hlength : length < 2 ^ 32)
    (hapart : Apart d k src (s.length + 1)) (hk : i ≤ k)
    (hi : i ≤ s.length) (hne : i ≠ length) (hlast : i = s.length → val (cell d i) ≠ 0) :
    ¬ FloEnds d src (Int32.ofNat length) val i := by
  have hfits := hs.fits
  rintro (heq | ⟨hsrc, hdest⟩)
  · exact hne ((ofNat_inj hlength (by omega)).1 heq).symm
  · rw [copied_source val hapart hk (by omega)] at hsrc
    rw [copied_later val (Nat.le_refl i) (by omega)] at hdest
    by_cases hin : i < s.length
    · exact hs.byte_ne hin hsrc
    · exact hlast (by omega) hdest

/-- A NUL in the destination where the source ends stops the copy. -/
theorem ends_at_nul (hapart : Apart d (s.length + 1) src (s.length + 1))
    (hnul : val (cell d s.length) = 0) (length : Int32) :
    FloEnds d src length val s.length := by
  refine .inr ⟨?_, ?_⟩
  · rw [copied_source val hapart (Nat.le_succ _) (Nat.lt_succ_self _), hs.nul]
  · rw [copied_later val (Nat.le_refl _) hs.fits, hnul]

/-- With length 0 the count goes below 0, and the character that should not have been copied stays. -/
theorem zero_length_fails (hapart : Apart d 1 src (s.length + 1)) (hne : s ≠ []) {r : Nat}
    (hpos : 0 < r) (hle : r ≤ 2 ^ 32)
    (hmore : ∀ i, 0 < i → i < r → ¬ FloEnds d src 0 val i) :
    Function.update (copied d src r val) (cell d r) 0 ≠ floTarget d s 0 val := by
  intro h
  have hlen := List.length_pos_iff.2 hne
  rcases Nat.lt_or_eq_of_le hle with hlt | rfl
  · have hfirst := congrFun h (cell d 0)
    rw [Function.update_of_ne (cell_ne d hpos hlt), copied_at val hpos hle, floTarget_nul (by decide)] at hfirst
    exact hs.byte_ne hlen hfirst
  · -- the loop would have ended where the destination is the NUL of the source
    obtain ⟨j, hj, hcell⟩ := exists_cell d (cell src s.length)
    have hnul : val (cell d j) = 0 := by rw [hcell, hs.nul]
    have hjpos : 0 < j := Nat.pos_of_ne_zero fun e => hapart 0 (by decide) s.length (Nat.lt_succ_self _) (e ▸ hcell)
    have hlast := congrFun h (cell d j)
    rw [Function.update_of_ne (cell_ne_around d hjpos hj (Nat.le_refl _)), copied_at val hj (Nat.le_refl _),
      floTarget_later hjpos hj, hnul] at hlast
    refine hmore j hjpos hj (.inr ⟨hlast, ?_⟩)
    rw [copied_later val (Nat.le_refl j) hj, hnul]

/-- Beyond the source the copy leaves the memory as it is while it finds what it copies. -/
theorem copied_stable (hapart : Apart d (s.length + 1) src (s.length + 1)) {r : Nat}
    (hsame : ∀ i, s.length < i → i < r → copied d src i val = floTarget d s s.length val →
      copied d src i val (cell src i) = floTarget d s s.length val (cell d i)) :
    ∀ j, s.length < j → j ≤ r → copied d src j val = floTarget d s s.length val
  | 0, hj, _ => absurd hj (Nat.not_lt_zero _)
  | j + 1, hj, hle => by
    rcases Nat.lt_or_eq_of_le (Nat.le_of_lt_succ hj) with hlt | rfl
    · have hbefore := copied_stable hapart hsame j hlt (by omega)
      rw [copied, hsame j hlt (by omega) hbefore, hbefore, Function.update_eq_self]
    · exact copied_nul hs hapart

/-- A copy that ends in the right memory has found beyond the source what it copied. -/
theorem runaway_of_target {length : Nat} (hlength : length < 2 ^ 32)
    (hapart : Apart d (s.length + 1) src (s.length + 1)) {r : Nat}
    (hle : r ≤ 2 ^ 32) (hends : FloEnds d src (Int32.ofNat length) val r)
    (hmore : ∀ i, 0 < i → i < r → ¬ FloEnds d src (Int32.ofNat length) val i) (hlate : s.length < r)
    (h : Function.update (copied d src r val) (cell d r) 0 = floTarget d s s.length val) :
    FloRunaway d src s.length length (floTarget d s s.length val) r := by
  have hgiven : ∀ i, s.length < i → i < r → copied d src i val (cell src i) = floTarget d s s.length val (cell d i) :=
    fun i hlow hi => by
      rw [← h, Function.update_of_ne (cell_ne_around d (by omega) hi hle), copied_at val hi hle]
  have hstable := copied_stable hs hapart fun i hlow hi _ => hgiven i hlow hi
  have hsame : ∀ i, s.length < i → i < r → i ≠ length ∧
      floTarget d s s.length val (cell d i) = floTarget d s s.length val (cell src i) ∧
      floTarget d s s.length val (cell d i) ≠ 0 := by
    intro i hlow hi
    have hcopied := hstable i hlow (by omega)
    have heq := hgiven i hlow hi
    have hend := hmore i (by omega) hi
    rw [FloEnds, not_or, hcopied] at hend
    rw [hcopied] at heq
    exact ⟨fun e => hend.1 (e ▸ rfl), heq.symm, fun e => hend.2 ⟨heq.trans e, e⟩⟩
  -- once around the memory, it would have passed the NUL of the source
  have hbound : r < 2 ^ 32 := by
    refine Nat.lt_of_le_of_ne hle fun hround => ?_
    obtain ⟨j, hj, hcell⟩ := exists_cell d (cell src s.length)
    have hjlate : s.length < j := by
      by_contra hin
      exact hapart j (by omega) s.length (Nat.lt_succ_self _) hcell
    refine (hsame j hjlate (by omega)).2.2 ?_
    rw [floTarget_later hjlate hj, hcell, hs.nul]
  refine ⟨hlate, hbound, ?_, ?_, hsame⟩
  · rw [← h, Function.update_self]
  · rw [FloEnds, hstable r hlate (Nat.le_refl r)] at hends
    exact hends.imp (fun e => ((ofNat_inj hlength hbound).1 e).symm) And.left

/-- A harmless copy ends where it should, in the right memory. -/
theorem target_of_runaway {length : Nat} (hlength : length < 2 ^ 32)
    (hapart : Apart d (s.length + 1) src (s.length + 1)) {r r' : Nat}
    (hends : FloEnds d src (Int32.ofNat length) val r)
    (hmore : ∀ i, 0 < i → i < r → ¬ FloEnds d src (Int32.ofNat length) val i) (hlate : s.length < r)
    (h : FloRunaway d src s.length length (floTarget d s s.length val) r') :
    Function.update (copied d src r val) (cell d r) 0 = floTarget d s s.length val := by
  obtain ⟨hlate', hbound', hclosed, hends', hsame⟩ := h
  have hstable := copied_stable hs hapart fun i hlow hi heq => by rw [heq]; exact (hsame i hlow hi).2.1.symm
  have hend : FloEnds d src (Int32.ofNat length) val r' := by
    rw [FloEnds, hstable r' hlate' (Nat.le_refl _)]
    exact hends'.imp (fun e => by rw [e]) fun e => ⟨e, hclosed⟩
  obtain rfl : r = r' := by
    rcases Nat.lt_trichotomy r r' with hlt | heq | hgt
    · have hnot := hsame r hlate hlt
      rw [FloEnds, hstable r hlate (by omega)] at hends
      rcases hends with e | ⟨-, e⟩
      · exact absurd ((ofNat_inj hlength (by omega)).1 e).symm hnot.1
      · exact absurd e hnot.2.2
    · exact heq
    · exact absurd hend (hmore r' (by omega) hgt)
  rw [hstable r hlate (Nat.le_refl r), ← hclosed, Function.update_eq_self]

/-- A copy beyond the source ends in the right memory exactly when it is harmless. -/
theorem runaway_iff {length : Nat} (hlength : length < 2 ^ 32)
    (hapart : Apart d (s.length + 1) src (s.length + 1)) {r : Nat}
    (hle : r ≤ 2 ^ 32) (hends : FloEnds d src (Int32.ofNat length) val r)
    (hmore : ∀ i, 0 < i → i < r → ¬ FloEnds d src (Int32.ofNat length) val i) (hlate : s.length < r) :
    Function.update (copied d src r val) (cell d r) 0 = floTarget d s s.length val ↔
      ∃ r, FloRunaway d src s.length length (floTarget d s s.length val) r := by
  constructor
  · exact fun h => ⟨r, runaway_of_target hs hlength hapart hle hends hmore hlate h⟩
  · rintro ⟨r', h⟩
    exact target_of_runaway hs hlength hapart hends hmore hlate h

/-- What the copy loop leaves, at the first round it can end after, is the target exactly when the
contract can be kept. -/
theorem copied_target_iff {length : Nat} (hlength : length < 2 ^ 32)
    (hapart : Apart d (length + 1) src (s.length + 1)) {r : Nat}
    (hpos : 0 < r) (hle : r ≤ 2 ^ 32) (hends : FloEnds d src (Int32.ofNat length) val r)
    (hmore : ∀ i, 0 < i → i < r → ¬ FloEnds d src (Int32.ofNat length) val i) :
    Function.update (copied d src r val) (cell d r) 0 = floTarget d s (floCount length s.length) val ↔
      FloMeets d src s 0 length val := by
  have hfits := hs.fits
  have hfirst : ∀ k, 0 < k → FloEnds d src (Int32.ofNat length) val k →
      (∀ i < k, ¬ FloEnds d src (Int32.ofNat length) val i) → r = k := by
    intro k hk hend hno
    rcases Nat.lt_trichotomy r k with hlt | heq | hgt
    · exact absurd hends (hno r hlt)
    · exact heq
    · exact absurd hend (hmore k hk hgt)
  by_cases hempty : s = []
  · -- one NUL is copied, and the copy runs on
    have hcount : floCount length s.length = s.length := by rw [hempty, floCount]; split <;> simp_all
    rw [hcount, runaway_iff hs hlength
      (hapart.mono (by simp [hempty]) (Nat.le_refl _)) hle hends hmore (by simpa [hempty] using hpos)]
    simp only [FloMeets, hempty, List.length_nil, true_and, true_or, ne_eq, not_true_eq_false, false_and, false_or]
    exact (or_iff_right (by omega)).symm
  · have hlen := List.length_pos_iff.2 hempty
    by_cases hlate : s.length < length
    · have hcount : floCount length s.length = s.length := if_neg (by omega)
      have hapart : Apart d (s.length + 1) src (s.length + 1) := hapart.mono (by omega) (Nat.le_refl _)
      rw [hcount]
      by_cases hnul : val (cell d s.length) = 0
      · obtain rfl := hfirst s.length hlen (ends_at_nul hs hapart hnul _) fun i hi =>
          not_ends_inside hs hlength hapart (by omega) (by omega) (by omega) (by omega)
        exact iff_of_true (copied_eq_target hs (Nat.le_refl _) hapart) ⟨rfl, .inr (.inl ⟨hempty, hlate, hnul⟩)⟩
      · have hbeyond : s.length < r := by
          by_contra hin
          exact not_ends_inside hs hlength hapart (by omega) (by omega) (by omega) (fun e => e ▸ hnul) hends
        rw [runaway_iff hs hlength hapart hle hends hmore hbeyond]
        simp [FloMeets, hempty, hlate, hnul, Nat.not_le.2 hlate]
    · have hcount : floCount length s.length = length := if_pos (by omega)
      rw [hcount]
      rcases Nat.eq_zero_or_pos length with rfl | hone
      · refine iff_of_false (zero_length_fails hs hapart hempty hpos hle hmore) ?_
        simp [FloMeets, hempty]
      · obtain rfl := hfirst length hone (.inl rfl) fun i hi =>
          not_ends_inside hs hlength hapart (by omega) (by omega) (by omega) (by omega)
        exact iff_of_true (copied_eq_target hs (by omega) hapart) ⟨rfl, .inl ⟨hone, by omega⟩⟩

end

/-! ## The contract -/

theorem ofNat_toInt {x : Int32} (hx : 0 ≤ x) : Int32.ofNat x.toInt.toNat = x := Int32.ofNat_toNatClampNeg x hx

theorem toInt_toNat_lt (x : Int32) : x.toInt.toNat < 2 ^ 31 := by
  have := x.toInt_lt
  omega

/-- From the start of the source. -/
theorem strwFlo_start_iff {dest src : UInt32} {s : List UInt8} {m : Ram} {l o : Nat}
    (hs : HasText m.val src s) (hl : l < 2 ^ 31)
    (ho : o < 2 ^ 31) (hapart : Apart dest (o + l + 1) src (s.length + 1)) :
    (∃ m', Settles (fun fuel => strwFlo (.start dest) (.start src) 0 (Int32.ofNat l) (Int32.ofNat o) fuel m) m' ∧
      FloContract dest s 0 l o m.val m'.val) ↔ FloMeets (cell dest o) src s 0 l m.val := by
  have hfits := hs.fits
  have hcell : ((Ptr.start dest).add o).addr = cell dest o := by rw [addr_add, Ptr.start_addr]
  have hapart' : Apart (cell dest o) (l + 1) src (s.length + 1) := hapart.drop (by omega)
  have hcount : floCount l s.length < 2 ^ 32 := by
    unfold floCount
    split <;> omega
  obtain ⟨r, hpos, hle, hends, hmore⟩ :=
    exists_end (cell (Ptr.start dest).addr o) (Ptr.start src).addr (Int32.ofNat l) m.val
  obtain ⟨m', hsettles, hval, -⟩ :=
    strwFlo_settles (.start dest) (.start src) _ (show o < 2 ^ 32 by omega) m hpos hends hmore
  simp only [hcell, Ptr.start_addr] at hval hends hmore
  have htarget := copied_target_iff hs (by omega) hapart' hpos hle hends hmore
  rw [← hval] at htarget
  refine Iff.trans ?_ htarget
  constructor
  · rintro ⟨m'', hsettles', hcontract⟩
    rw [hsettles.unique hsettles']
    exact (floContract_iff hcount).1 hcontract
  · exact fun h => ⟨m', hsettles, (floContract_iff hcount).2 h⟩

/-- `strw_flo` keeps its contract exactly from the start of the source and, where the source is
shorter than the length or empty, if a NUL in the destination ends the copy or the copy is harmless. -/
theorem strwFlo_contract_iff {dest src : UInt32} {s : List UInt8} {m : Ram} {«from» length offset : Int32}
    (hs : HasText m.val src s) (hfrom : 0 ≤ «from») (hlength : 0 ≤ length)
    (hoffset : 0 ≤ offset) (hapart : Apart dest (offset.toInt.toNat + length.toInt.toNat + 1) src (s.length + 1)) :
    (∃ m', Settles (fun fuel => strwFlo (.start dest) (.start src) «from» length offset fuel m) m' ∧
      FloContract dest s «from».toInt.toNat length.toInt.toNat offset.toInt.toNat m.val m'.val) ↔
    FloMeets (cell dest offset.toInt.toNat) src s «from».toInt.toNat length.toInt.toNat m.val := by
  by_cases hzero : «from» = 0
  · have hstart := strwFlo_start_iff hs (toInt_toNat_lt length) (toInt_toNat_lt offset) hapart
    rw [ofNat_toInt hlength, ofNat_toInt hoffset] at hstart
    subst hzero
    exact hstart
  · constructor
    · rintro ⟨m', ⟨N, hN⟩, -⟩
      have hnone : strwFlo (.start dest) (.start src) «from» length offset N m = some m' := hN N (Nat.le_refl N)
      rw [strwFlo_never _ _ hzero] at hnone
      cases hnone
    · rintro ⟨hfirst, -⟩
      exact absurd (by rw [← ofNat_toInt hfrom, hfirst]; rfl) hzero

/-- The letters `AB` at 4096, the first of them copied behind two bytes at 8192. -/
theorem strwFlo_contract_iff_letter : ∃ m', Settles
    (fun fuel => strwFlo (.start 8192) (.start 4096) 0 1 2 fuel (.fresh fun b => [65, 66].getD (b - 4096).toNat 0)) m' ∧
    FloContract 8192 [65, 66] 0 1 2 (fun b => [65, 66].getD (b - 4096).toNat 0) m'.val :=
  (@strwFlo_contract_iff 8192 4096 [65, 66] (.fresh fun b => [65, 66].getD (b - 4096).toNat 0) 0 1 2
    (.of_getD 4096 (by decide) (by decide)) (by decide) (by decide) (by decide) (by unfold Apart; decide)).2
    ⟨rfl, .inl ⟨by decide, by decide⟩⟩

/-- The second of the letters `AB` is never copied. -/
theorem strwFlo_spins : ¬ ∃ m', Settles
    (fun fuel => strwFlo (.start 8192) (.start 4096) 1 1 0 fuel (.fresh fun b => [65, 66].getD (b - 4096).toNat 0)) m' ∧
    FloContract 8192 [65, 66] 1 1 0 (fun b => [65, 66].getD (b - 4096).toNat 0) m'.val := by
  rintro ⟨m', ⟨N, hN⟩, -⟩
  have hnone := hN N (Nat.le_refl N)
  simp only [strwFlo_never _ _ (show (1 : Int32) ≠ 0 by decide)] at hnone
  cases hnone

end HavenOS
