/-
strcat, statement by statement: exactly when it concatenates. An empty string is read beyond its
end, and the last statement stores a NUL one byte after the one that closes the text.
-/
import HavenOS.Cstring.Flo

namespace HavenOS

open Ram

/-- Pointers into the first `n + 1` bytes at `dest`, the first `k + 1` at `append` and the buffer. -/
def CatReads (dest append buffer : Ptr) (n k : Nat) (p : Ptr) : Prop :=
  (∃ j ≤ n, p = dest.add j) ∨ (∃ j ≤ k, p = append.add j) ∨ p.base = buffer.base

/-! ## The three statements -/

section
variable (dest append buffer : Ptr) {s t : List UInt8} {m : Ram} (hs : HasText m.val dest.addr s)
  (hslen : s.length < 2 ^ 31)
include hs hslen

theorem strcatDest_settles (hne : s ≠ [])
    (hcopy : ∀ i < s.length, copied buffer.addr dest.addr i m.val (cell dest.addr i) ≠ 0) (k : Nat) :
    ∃ m', Settles (fun fuel => strcatDest dest buffer fuel m) m' ∧
      m'.val = Function.update (copied buffer.addr dest.addr s.length m.val) (cell buffer.addr s.length) 0 ∧
      Within (CatReads dest append buffer s.length k) (fun p => ∃ j ≤ s.length, p = buffer.add j) m m' := by
  obtain ⟨m1, hlength, hval1, hwithin1⟩ := strlenAt_settles dest m hs hslen
  obtain ⟨m2, hflo, hval2, hwithin2⟩ :=
    strwFlo_full buffer dest (List.length_pos_iff.2 hne) (by omega) (show 0 < 2 ^ 32 by decide)
    m1 (fun i hi => by rw [hval1, cell_zero]; exact hcopy i hi)
  have hstart : buffer.add (0 : Nat) = buffer := Ptr.add_zero buffer
  rw [hstart] at hval2 hwithin2
  rw [hval1] at hval2
  refine ⟨m2, hlength.bind hflo, hval2,
    (hwithin1.mono (fun p hp => .inl hp) fun _ => False.elim).trans (hwithin2.mono ?_ ?_)⟩
  · rintro p ⟨j, hj, rfl | rfl⟩
    · exact .inl ⟨j, hj, rfl⟩
    · exact .inr (.inr rfl)
  · exact fun p hp => hp

variable (ht : HasText m.val append.addr t) (htlen : t.length < 2 ^ 31)
include ht htlen

theorem strcatAppend_settles (hne : t ≠ [])
    (hapart : Apart (cell buffer.addr s.length) (t.length + 1) append.addr (t.length + 1)) :
    ∃ m', Settles (fun fuel => strcatAppend dest append buffer fuel m) m' ∧
      m'.val = floTarget (cell buffer.addr s.length) t t.length m.val ∧
      Within (CatReads dest append buffer s.length t.length)
        (fun p => ∃ j ≤ s.length + t.length, p = buffer.add j) m m' := by
  obtain ⟨m1, hlength, hval1, hwithin1⟩ := strlenAt_settles append m ht htlen
  obtain ⟨m2, hlength', hval2, hwithin2⟩ := strlenAt_settles dest m1 (hval1 ▸ hs) hslen
  have hvalue : m2.val = m.val := hval2.trans hval1
  obtain ⟨m3, hflo, hval3, hwithin3⟩ := strwFlo_full buffer append (List.length_pos_iff.2 hne) (by omega)
    (show s.length < 2 ^ 32 by omega) m2 (fun i hi => by
      rw [hvalue, copied_source m.val hapart (by omega) (by omega)]
      exact ht.byte_ne hi)
  rw [hvalue, addr_add, copied_eq_target ht (Nat.le_refl _) hapart] at hval3
  have hreads : Within (CatReads dest append buffer s.length t.length) (fun _ => False) m m2 :=
    (hwithin1.mono (fun _ hp => .inr (.inl hp)) fun _ hp => hp).trans
      (hwithin2.mono (fun _ hp => .inl hp) fun _ hp => hp)
  refine ⟨m3, hlength.bind (hlength'.bind hflo), hval3,
    (hreads.mono (fun _ hp => hp) fun _ => False.elim).trans (hwithin3.mono ?_ ?_)⟩
  · rintro p ⟨j, hj, rfl | rfl⟩
    · exact .inr (.inl ⟨j, hj, rfl⟩)
    · exact .inr (.inr rfl)
  · rintro p ⟨j, hj, rfl⟩
    exact ⟨s.length + j, by omega, by rw [Ptr.add_add]; rfl⟩

theorem strcatClose_settles : ∃ m', Settles (fun fuel => strcatClose dest append buffer fuel m) m' ∧
    m'.val = Function.update m.val (cell buffer.addr (s.length + t.length + 1)) 0 ∧
    buffer.add (Int32.ofNat (s.length + t.length + 1)).toInt ∈ m'.stores ∧
    Within (CatReads dest append buffer s.length t.length)
      (fun p => p = buffer.add (Int32.ofNat (s.length + t.length + 1)).toInt) m m' := by
  obtain ⟨m1, hlength, hval1, hwithin1⟩ := strlenAt_settles dest m hs hslen
  obtain ⟨m2, hlength', hval2, hwithin2⟩ := strlenAt_settles append m1 (hval1 ▸ ht) htlen
  have hindex : Int32.ofNat s.length + Int32.ofNat t.length + 1 = Int32.ofNat (s.length + t.length + 1) := by
    rw [Int32.ofNat_add, Int32.ofNat_add]
    rfl
  refine ⟨m2.store (buffer.add (Int32.ofNat (s.length + t.length + 1)).toInt) 0, ?_, ?_, List.mem_cons_self, ?_⟩
  · rw [← hindex]
    exact hlength.bind (hlength'.bind (.const _))
  · rw [← addr_add_int, ← hval1, ← hval2]
    rfl
  · have hreads : Within (CatReads dest append buffer s.length t.length) (fun _ => False) m m2 :=
      (hwithin1.mono (fun _ hp => .inl hp) fun _ hp => hp).trans
        (hwithin2.mono (fun _ hp => .inr (.inl hp)) fun _ hp => hp)
    have hloads : Within (CatReads dest append buffer s.length t.length)
        (fun p => p = buffer.add (Int32.ofNat (s.length + t.length + 1)).toInt) m m2 :=
      hreads.mono (fun _ hp => hp) fun _ => False.elim
    exact hloads.store rfl 0

end

/-! ## Concatenation -/

/-- The strings are read no further than their NULs and kept, the buffer holds the one after the
other, and nothing else changed. -/
structure Concatenates (dest append buffer : UInt32) (s t : List UInt8) (val : UInt32 → UInt8) (m' : Ram) : Prop where
  readsDest : ∀ p ∈ m'.loads, p.base = dest → p.off ≤ s.length
  readsAppend : ∀ p ∈ m'.loads, p.base = append → p.off ≤ t.length
  text : HasText m'.val buffer (s ++ t)
  others : ∀ a, (∀ i ≤ s.length + t.length, a ≠ cell buffer i) → m'.val a = val a
  kept : HasText m'.val dest s ∧ HasText m'.val append t

/-- A text behind another in front of its NUL. -/
theorem floTarget_append {d : UInt32} {s t : List UInt8} (val : UInt32 → UInt8) (hfits : s.length + t.length < 2 ^ 32) :
    floTarget (cell d s.length) t t.length (floTarget d s s.length val) =
      floTarget d (s ++ t) (s.length + t.length) val := by
  refine eq_floTarget (fun i hi => ?_) ?_ fun a ha => ?_
  · by_cases hlow : i < s.length
    · rw [floTarget_other fun j hj => ?_, floTarget_char (by omega) hlow, List.getD_append _ _ _ _ hlow]
      rw [cell_cell]
      exact cell_ne d (by omega) (by omega)
    · have hcell : cell d i = cell (cell d s.length) (i - s.length) := by rw [cell_cell, Nat.add_sub_cancel' (by omega)]
      rw [hcell, floTarget_char (by omega) (by omega), List.getD_append_right _ _ _ _ (by omega)]
  · rw [← cell_cell, floTarget_nul (by omega)]
  · rw [floTarget_other fun j hj => ?_, floTarget_other fun j hj => ha j (by omega)]
    rw [cell_cell]
    exact ha _ (by omega)

theorem hasText_floTarget {d : UInt32} {s : List UInt8} (val : UInt32 → UInt8) (hnul : 0 ∉ s)
    (hfits : s.length < 2 ^ 32) :
    HasText (floTarget d s s.length val) d s := by
  refine ⟨hnul, fun i hi => ?_, hfits⟩
  rcases Nat.lt_or_eq_of_le hi with hlt | rfl
  · exact floTarget_char hfits hlt
  · rw [floTarget_nul hfits, List.getD_eq_default _ _ (Nat.le_refl _)]

section
variable {dest append : UInt32} (buffer : UInt32) {s t : List UInt8} {val : UInt32 → UInt8}
  (hs : HasText val dest s) (ht : HasText val append t)
  (hdest : Apart buffer (s.length + t.length + 1) dest (s.length + 1))
  (happend : Apart buffer (s.length + t.length + 1) append (t.length + 1))
include hs ht hdest happend

/-- The first statement leaves `dest` in the buffer. -/
theorem strcatDest_copies (hne : s ≠ []) :
    ∃ m', Settles (fun fuel => strcatDest (.start dest) (.start buffer) fuel (.fresh val)) m' ∧
    m'.val = floTarget buffer s s.length val ∧ HasText m'.val dest s ∧ HasText m'.val append t ∧
    Within (CatReads (.start dest) (.start append) (.start buffer) s.length t.length)
      (fun _ => True) (.fresh val) m' := by
  have hroom := hdest.le_size (Nat.succ_pos _) (Nat.succ_pos _)
  have hown := hdest.mono (show s.length + 1 ≤ s.length + t.length + 1 by omega) (Nat.le_refl _)
  obtain ⟨m', hsettles, hval, hwithin⟩ :=
    strcatDest_settles (.start dest) (.start append) (.start buffer) (m := .fresh val)
    (by rwa [Ptr.start_addr]) (by omega) hne
    (fun i hi => by
      rw [Ptr.start_addr, Ptr.start_addr, copied_source _ hown (by omega) (by omega)]
      exact hs.byte_ne hi) t.length
  rw [Ptr.start_addr, Ptr.start_addr, fresh_val, copied_eq_target hs (Nat.le_refl _) hown] at hval
  refine ⟨m', hsettles, hval, ?_, ?_, hwithin.mono (fun _ hp => hp) fun _ _ => trivial⟩
  · rw [hval]
    exact hasText_elsewhere hs hown
  · rw [hval]
    exact hasText_elsewhere ht (happend.mono (by omega) (Nat.le_refl _))

/-- Two strings that are not empty are concatenated, and there is a NUL one byte after the one that
closes them. -/
theorem strcat_settles (hne : s ≠ []) (hne' : t ≠ []) :
    ∃ m', Settles (fun fuel => strcat (.start dest) (.start append) (.start buffer) fuel (.fresh val)) m' ∧
      m'.val = Function.update (floTarget buffer (s ++ t) (s.length + t.length) val)
        (cell buffer (s.length + t.length + 1)) 0 ∧
      Within (CatReads (.start dest) (.start append) (.start buffer) s.length t.length)
        (fun _ => True) (.fresh val) m' := by
  have hroom := hdest.le_size (Nat.succ_pos _) (Nat.succ_pos _)
  have hroom' := happend.le_size (Nat.succ_pos _) (Nat.succ_pos _)
  obtain ⟨m1, hsettles1, hval1, hs1, ht1, hwithin1⟩ := strcatDest_copies buffer hs ht hdest happend hne
  have htail : Apart (cell buffer s.length) (t.length + 1) append (t.length + 1) := happend.drop (by omega)
  obtain ⟨m2, hsettles2, hval2, hwithin2⟩ := strcatAppend_settles (.start dest) (.start append) (.start buffer)
    (by rwa [Ptr.start_addr]) (by omega) (by rwa [Ptr.start_addr]) (by omega) hne'
    (by rwa [Ptr.start_addr, Ptr.start_addr])
  rw [Ptr.start_addr, hval1, floTarget_append val (by omega)] at hval2
  have hs2 : HasText m2.val dest s := hval2 ▸ hasText_elsewhere hs hdest
  have ht2 : HasText m2.val append t := hval2 ▸ hasText_elsewhere ht happend
  obtain ⟨m3, hsettles3, hval3, -, hwithin3⟩ := strcatClose_settles (.start dest) (.start append) (.start buffer)
    (by rwa [Ptr.start_addr]) (by omega) (by rwa [Ptr.start_addr]) (by omega)
  rw [Ptr.start_addr, hval2] at hval3
  refine ⟨m3, hsettles1.bind (hsettles2.bind hsettles3), hval3,
    (hwithin1.trans (hwithin2.mono ?_ ?_)).trans (hwithin3.mono ?_ ?_)⟩
  · exact fun _ hp => hp
  · exact fun _ _ => trivial
  · exact fun _ hp => hp
  · exact fun _ _ => trivial

end

/-! ## In place -/

/-- A text is there already. -/
theorem floTarget_self {d : UInt32} {s : List UInt8} {val : UInt32 → UInt8} (hs : HasText val d s) :
    floTarget d s s.length val = val :=
  (eq_floTarget (fun i hi => hs.byte i (Nat.le_of_lt hi)) hs.nul fun _ _ => rfl).symm

/-- With the first string as the buffer the text is appended, but the last statement takes the
length of what is there by then, so that its NUL is as many bytes further on as were appended. -/
theorem strcat_inPlace {dest append : UInt32} {s t : List UInt8} {m : Ram} (hs : HasText m.val dest s) (hne : s ≠ [])
    (ht : HasText m.val append t) (hne' : t ≠ []) (hapart : Apart dest (s.length + t.length + 1) append (t.length + 1))
    (hfits : s.length + 2 * t.length + 1 < 2 ^ 31) :
    ∃ m', Settles (fun fuel => strcat (.start dest) (.start append) (.start dest) fuel m) m' ∧
      m'.val = Function.update (floTarget dest (s ++ t) (s.length + t.length) m.val)
        (cell dest (s.length + 2 * t.length + 1)) 0 ∧
      (Ptr.start dest).add (s.length + 2 * t.length + 1 : Nat) ∈ m'.stores ∧
      Within (fun _ => True)
        (fun p => ∃ j : Nat, (j ≤ s.length + t.length ∨ j = s.length + 2 * t.length + 1) ∧
          p = (Ptr.start dest).add j) m m' := by
  obtain ⟨m1, hsettles1, hval1, hwithin1⟩ := strcatDest_settles (.start dest) (.start append) (.start dest) (m := m)
    (by rwa [Ptr.start_addr]) (by omega) hne
    (fun i hi => by rw [copied_self, Ptr.start_addr]; exact hs.byte_ne hi) t.length
  rw [copied_self, Ptr.start_addr, Function.update_eq_self_iff.2 hs.nul.symm] at hval1
  have htail : Apart (cell dest s.length) (t.length + 1) append (t.length + 1) := hapart.drop (by omega)
  obtain ⟨m2, hsettles2, hval2, hwithin2⟩ := strcatAppend_settles (.start dest) (.start append) (.start dest)
    (by rwa [Ptr.start_addr, hval1]) (by omega) (by rwa [Ptr.start_addr, hval1]) (by omega) hne'
    (by rwa [Ptr.start_addr, Ptr.start_addr])
  have htarget : floTarget (cell dest s.length) t t.length m.val =
      floTarget dest (s ++ t) (s.length + t.length) m.val := by
    rw [← floTarget_append m.val (by omega), floTarget_self hs]
  rw [Ptr.start_addr, hval1, htarget] at hval2
  have hnul : 0 ∉ s ++ t := List.not_mem_append hs.noNul ht.noNul
  have hs2 : HasText m2.val dest (s ++ t) := by
    rw [hval2, ← List.length_append]
    exact hasText_floTarget m.val hnul (by rw [List.length_append]; omega)
  have ht2 : HasText m2.val append t := hval2 ▸ hasText_elsewhere ht hapart
  obtain ⟨m3, hsettles3, hval3, hstray, hwithin3⟩ := strcatClose_settles (.start dest) (.start append) (.start dest)
    (by rwa [Ptr.start_addr]) (by rw [List.length_append]; omega) (by rwa [Ptr.start_addr]) (by omega)
  have hindex : (s ++ t).length + t.length + 1 = s.length + 2 * t.length + 1 := by
    rw [List.length_append]
    omega
  rw [hindex, Int32.toInt_ofNat_of_lt hfits] at hstray hwithin3
  rw [hindex, Ptr.start_addr, hval2] at hval3
  refine ⟨m3, hsettles1.bind (hsettles2.bind hsettles3), hval3, hstray,
    ((hwithin1.mono ?_ ?_).trans (hwithin2.mono ?_ ?_)).trans (hwithin3.mono ?_ ?_)⟩
  · exact fun _ _ => trivial
  · rintro p ⟨j, hj, rfl⟩
    exact ⟨j, .inl (by omega), rfl⟩
  · exact fun _ _ => trivial
  · rintro p ⟨j, hj, rfl⟩
    exact ⟨j, .inl hj, rfl⟩
  · exact fun _ _ => trivial
  · exact fun p hp => ⟨_, .inr rfl, hp⟩

/-! ## Empty strings -/

theorem strcatDest_reads_on {dest buffer : Ptr} {fuel : Nat} {m m' : Ram} (hs : HasText m.val dest.addr [])
    (h : strcatDest dest buffer fuel m = some m') : dest.add 1 ∈ m'.loads := by
  rw [strcatDest, Option.bind_eq_some_iff] at h
  obtain ⟨⟨n, m1⟩, hlength, h⟩ := h
  have hzero := strlenAt_nil hs hlength
  subst hzero
  exact strwFlo_reads_on (by decide) h

theorem strcatAppend_reads_on {dest append buffer : Ptr} {fuel : Nat} {m m' : Ram} (ht : HasText m.val append.addr [])
    (h : strcatAppend dest append buffer fuel m = some m') : append.add 1 ∈ m'.loads := by
  rw [strcatAppend, Option.bind_eq_some_iff] at h
  obtain ⟨⟨k, m1⟩, hlength, h⟩ := h
  have hzero := strlenAt_nil ht hlength
  subst hzero
  rw [Option.bind_eq_some_iff] at h
  obtain ⟨⟨n, m2⟩, -, h⟩ := h
  exact strwFlo_reads_on (show (0 : Int32) - 1 ≠ 0 by decide) h

/-! ## When it concatenates -/

theorem CatReads.swap {dest append buffer : Ptr} {n k : Nat} {p : Ptr} (h : CatReads dest append buffer n k p) :
    CatReads append dest buffer k n p := by
  rcases h with h | h | h
  · exact .inr (.inl h)
  · exact .inl h
  · exact .inr (.inr h)

/-- What is read through `dest` is a byte of its string, also where both strings are one. -/
theorem CatReads.off_le {dest append buffer : UInt32} {n k : Nat} {p : Ptr}
    (h : CatReads (.start dest) (.start append) (.start buffer) n k p) (hbase : p.base = dest) (hbuffer : buffer ≠ dest)
    (hone : append = dest → k = n) : p.off ≤ n := by
  rcases h with ⟨j, hj, rfl⟩ | ⟨j, hj, rfl⟩ | hown
  · simpa using hj
  · have hk := hone hbase
    simpa [hk] using hj
  · exact absurd (hown.symm.trans hbase) hbuffer

/-- The byte after the closing NUL is none of the buffer's text. -/
theorem stray_ne {dest buffer : UInt32} {n k : Nat} (hdest : Apart buffer (n + k + 1) dest (n + 1))
    (hn : 0 < n) {i : Nat}
    (hi : i ≤ n + k) : cell buffer (n + k + 1) ≠ cell buffer i := by
  have hroom := hdest.le_size (Nat.succ_pos _) (Nat.succ_pos _)
  exact (cell_ne buffer (by omega) (by omega)).symm

section
variable {dest append buffer : UInt32} {s t : List UInt8} {val : UInt32 → UInt8}
  (hs : HasText val dest s) (ht : HasText val append t)
  (hdest : Apart buffer (s.length + t.length + 1) dest (s.length + 1))
  (happend : Apart buffer (s.length + t.length + 1) append (t.length + 1))
include hs ht hdest happend

/-- An empty string is read beyond its NUL. -/
theorem Concatenates.ne_nil {m' : Ram}
    (hsettles : Settles (fun fuel => strcat (.start dest) (.start append) (.start buffer) fuel (.fresh val)) m')
    (h : Concatenates dest append buffer s t val m') : s ≠ [] ∧ t ≠ [] := by
  have hne : s ≠ [] := by
    rintro rfl
    obtain ⟨N, hN⟩ := hsettles
    obtain ⟨m1, hcopy, hrest⟩ := Option.bind_eq_some_iff.1 (hN N (Nat.le_refl N))
    obtain ⟨m2, hcat, hclose⟩ := Option.bind_eq_some_iff.1 hrest
    have hread := strcatDest_reads_on (m := .fresh val) (by rwa [Ptr.start_addr]) hcopy
    have hoff := h.readsDest _ ((extends_strcatClose hclose).loads ((extends_strcatAppend hcat).loads hread)) rfl
    simp at hoff
  refine ⟨hne, ?_⟩
  rintro rfl
  obtain ⟨m1, hcopy, -, -, ht1, -⟩ := strcatDest_copies buffer hs ht hdest happend hne
  obtain ⟨N, hN⟩ := hcopy.of_bind hsettles
  obtain ⟨m2, hcat, hclose⟩ := Option.bind_eq_some_iff.1 (hN N (Nat.le_refl N))
  have hread := strcatAppend_reads_on (by rwa [Ptr.start_addr]) hcat
  have hoff := h.readsAppend _ ((extends_strcatClose hclose).loads hread) rfl
  simp at hoff

/-- Where the byte after the closing NUL is a NUL, the last statement does no harm. -/
theorem strcat_concatenates (hne : s ≠ []) (hne' : t ≠ []) (hnul : val (cell buffer (s.length + t.length + 1)) = 0) :
    ∃ m', Settles (fun fuel => strcat (.start dest) (.start append) (.start buffer) fuel (.fresh val)) m' ∧
      Concatenates dest append buffer s t val m' := by
  have hroom := hdest.le_size (Nat.succ_pos _) (Nat.succ_pos _)
  obtain ⟨m', hsettles, hval, hwithin⟩ := strcat_settles buffer hs ht hdest happend hne hne'
  have htarget : m'.val = floTarget buffer (s ++ t) (s.length + t.length) val := by
    rw [hval, Function.update_eq_self_iff,
      floTarget_other fun i hi => stray_ne hdest (List.length_pos_iff.2 hne) hi, hnul]
  have hdistinct : buffer ≠ dest := fun e => hdest 0 (Nat.succ_pos _) 0 (Nat.succ_pos _) (by rw [e])
  have hdistinct' : buffer ≠ append := fun e => happend 0 (Nat.succ_pos _) 0 (Nat.succ_pos _) (by rw [e])
  refine ⟨m', hsettles, ?_, ?_, ?_, ?_, ?_, ?_⟩
  · intro p hp hbase
    have hread := (hwithin.loads p hp).resolve_left List.not_mem_nil
    exact hread.off_le hbase hdistinct fun e => (e ▸ ht).length_unique hs
  · intro p hp hbase
    have hread := (hwithin.loads p hp).resolve_left List.not_mem_nil
    exact hread.swap.off_le hbase hdistinct' fun e => (e ▸ hs).length_unique ht
  · rw [htarget, ← List.length_append]
    exact hasText_floTarget val (List.not_mem_append hs.noNul ht.noNul) (by rw [List.length_append]; omega)
  · intro a ha
    rw [htarget, floTarget_other ha]
  · exact htarget ▸ hasText_elsewhere hs hdest
  · exact htarget ▸ hasText_elsewhere ht happend

end

/-- `strcat` concatenates exactly when neither string is empty and the byte after the closing NUL is
a NUL already. -/
theorem strcat_concatenates_iff {dest append buffer : UInt32} {s t : List UInt8} {val : UInt32 → UInt8}
    (hs : HasText val dest s) (ht : HasText val append t)
    (hdest : Apart buffer (s.length + t.length + 1) dest (s.length + 1))
    (happend : Apart buffer (s.length + t.length + 1) append (t.length + 1)) :
    (∃ m', Settles (fun fuel => strcat (.start dest) (.start append) (.start buffer) fuel (.fresh val)) m' ∧
      Concatenates dest append buffer s t val m') ↔
    s ≠ [] ∧ t ≠ [] ∧ val (cell buffer (s.length + t.length + 1)) = 0 := by
  constructor
  · rintro ⟨m', hsettles, hconcat⟩
    obtain ⟨hne, hne'⟩ := hconcat.ne_nil hs ht hdest happend hsettles
    obtain ⟨m'', hsettles', hval, -⟩ := strcat_settles buffer hs ht hdest happend hne hne'
    cases hsettles.unique hsettles'
    have hbyte := hconcat.others (cell buffer (s.length + t.length + 1)) fun i hi =>
      stray_ne hdest (List.length_pos_iff.2 hne) hi
    rw [hval, Function.update_self] at hbyte
    exact ⟨hne, hne', hbyte.symm⟩
  · rintro ⟨hne, hne', hnul⟩
    exact strcat_concatenates hs ht hdest happend hne hne' hnul

/-- `A` and `B` in an empty memory. -/
theorem strcat_concatenates_iff_letters : ∃ m', Settles
    (fun fuel => strcat (.start 4096) (.start 4098) (.start 8192) fuel
      (.fresh fun b => [65, 0, 66].getD (b - 4096).toNat 0)) m' ∧
    Concatenates 4096 4098 8192 [65] [66] (fun b => [65, 0, 66].getD (b - 4096).toNat 0) m' :=
  (strcat_concatenates_iff ⟨by decide, by decide, by decide⟩ ⟨by decide, by decide, by decide⟩ (by unfold Apart; decide)
    (by unfold Apart; decide)).2 ⟨by decide, by decide, by decide⟩

/-- `A` and `B` where there is a `C` behind the buffer's three bytes: it is cleared. -/
theorem strcat_clears_letter : ¬ ∃ m', Settles
    (fun fuel => strcat (.start 4096) (.start 4098) (.start 8192) fuel
      (.fresh fun b => [65, 0, 66, 0].getD (b - 4096).toNat 67)) m' ∧
    Concatenates 4096 4098 8192 [65] [66] (fun b => [65, 0, 66, 0].getD (b - 4096).toNat 67) m' := by
  rintro ⟨m', hsettles, hcat⟩
  have hs : HasText (fun b => [65, 0, 66, 0].getD (b - 4096).toNat 67) 4096 [65] := ⟨by decide, by decide, by decide⟩
  have ht : HasText (fun b => [65, 0, 66, 0].getD (b - 4096).toNat 67) 4098 [66] := ⟨by decide, by decide, by decide⟩
  obtain ⟨m'', hsettles', hval, -⟩ := strcat_settles 8192 hs ht (by unfold Apart; decide) (by unfold Apart; decide)
    (by decide) (by decide)
  cases hsettles.unique hsettles'
  have hbyte := hcat.others (cell 8192 3) (by decide)
  rw [hval] at hbyte
  exact absurd hbyte (by decide)

end HavenOS
