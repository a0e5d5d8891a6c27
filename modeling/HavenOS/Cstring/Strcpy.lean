/-
strcpy: the NUL is not copied, an empty source is read beyond its end, and what is returned is a
character. So the copy is right exactly when the destination has a NUL in the right place already.
-/
import HavenOS.Common.Bytes
import HavenOS.Cstring.Pointers

namespace HavenOS

open Ram

/-! ## Runs of strcpy -/

theorem after_strcpy (dest src : Ptr) (m : Ram) : ∀ i : Nat, ∃ m', Loop.after strcpyRound i (dest, src, m) =
    (dest.add i, src.add i, m') ∧ m'.val = copied dest.addr src.addr i m.val ∧
    Within (fun p => ∃ j ≤ i, p = src.add j) (fun p => ∃ j < i, p = dest.add j) m m'
  | 0 => ⟨m, by rw [Loop.after]; simp, rfl, .refl _ _ m⟩
  | i + 1 => by
    obtain ⟨m', hafter, hval, hwithin⟩ := after_strcpy dest src m i
    have hbefore : Within (fun p => ∃ j ≤ i + 1, p = src.add j) (fun p => ∃ j < i + 1, p = dest.add j) m m' :=
      hwithin.mono (fun _ hp => hp.imp fun _ h => ⟨Nat.le_succ_of_le h.1, h.2⟩)
        fun _ hp => hp.imp fun _ h => ⟨Nat.lt_succ_of_lt h.1, h.2⟩
    have hround := ((hbefore.load ⟨i, by omega, rfl⟩).store ⟨i, by omega, rfl⟩ (m'.val (src.add i).addr)).load
      (p := src.add (i + 1)) ⟨i + 1, Nat.le_refl _, rfl⟩
    refine ⟨_, ?_, ?_, hround⟩
    · rw [Loop.after, hafter, strcpyRound]
      simp [load]
    · simp only [load, store, hval, addr_add]
      rfl

theorem strcpyRound_more (dest src : Ptr) (m : Ram) (i : Nat) :
    (strcpyRound (Loop.after strcpyRound i (dest, src, m))).1 = true ↔
    copied dest.addr src.addr (i + 1) m.val (cell src.addr (i + 1)) ≠ 0 := by
  obtain ⟨m', hafter, hval, -⟩ := after_strcpy dest src m i
  have hnext : (src.add i).add 1 = src.add (i + 1 : Nat) := by rw [Ptr.add_add]; rfl
  rw [hafter, strcpyRound]
  simp only [load, store, hval, addr_add, hnext, copied, decide_eq_true_eq]

/-- A source that is not empty is copied without its NUL. -/
theorem strcpy_settles {dest src : UInt32} {s : List UInt8} {m : Ram} (hs : HasText m.val src s) (hne : s ≠ [])
    (hapart : Apart dest (s.length + 1) src (s.length + 1)) :
    ∃ m', Settles (fun fuel => strcpy (.start dest) (.start src) fuel m)
      ((m'.val (cell dest s.length)).toInt8.toInt32.toUInt32, m') ∧
      m'.val = copied dest src s.length m.val ∧
      Within (fun p => (∃ j ≤ s.length, p = (Ptr.start src).add j) ∨ p.base = dest) (fun _ => True) m m' := by
  obtain ⟨k, hk⟩ := Nat.exists_eq_add_of_lt (List.length_pos_iff.2 hne)
  rw [Nat.zero_add] at hk
  have hsource : ∀ i ≤ s.length, copied dest src i m.val (cell src i) = m.val (cell src i) := fun i hi =>
    copied_source m.val hapart (by omega) (by omega)
  have hloop := Loop.rounds_settles strcpyRound (k := k) (s := (.start dest, .start src, m))
    (fun i hi => by
      rw [strcpyRound_more, Ptr.start_addr, Ptr.start_addr, hsource _ (by omega)]
      exact hs.byte_ne (by omega))
    (Bool.eq_false_iff.2 fun h => by
      rw [strcpyRound_more, Ptr.start_addr, Ptr.start_addr, ← hk, hsource _ (Nat.le_refl _)] at h
      exact h hs.nul)
  obtain ⟨m', hafter, hval, hwithin⟩ := after_strcpy (.start dest) (.start src) m s.length
  rw [← hk, hafter] at hloop
  have hreturn : (((Ptr.start dest).add s.length).addr) = cell dest s.length := by rw [addr_add, Ptr.start_addr]
  refine ⟨(m'.load ((Ptr.start dest).add s.length)).2, ?_, by simpa using hval, ?_⟩
  · have hrun := hloop.bind
        (g := fun s _ => some ((s.2.2.val s.1.addr).toInt8.toInt32.toUInt32, (s.2.2.load s.1).2)) (.const _)
    rw [hreturn] at hrun
    exact hrun
  · exact (hwithin.mono (fun p hp => .inl hp) fun _ _ => trivial).load (.inr rfl)

/-- An empty source: the byte after its NUL is loaded. -/
theorem strcpy_reads_on {dest src : Ptr} {fuel : Nat} {m : Ram} {ret : UInt32} {m' : Ram}
    (h : strcpy dest src fuel m = some (ret, m')) : src.add 1 ∈ m'.loads := by
  rw [strcpy, Option.bind_eq_some_iff] at h
  obtain ⟨⟨dest', src', m''⟩, hloop, hm⟩ := h
  have hloaded : src.add 1 ∈ m''.loads := Loop.rounds_induct strcpyRound (P := fun s => src.add 1 ∈ s.2.2.loads)
    (fun _ hp => List.mem_cons_of_mem _ (List.mem_cons_of_mem _ hp)) hloop List.mem_cons_self
  cases hm
  exact List.mem_cons_of_mem _ hloaded

/-! ## What a copy should be -/

/-- The source is read no further than its NUL, the destination holds its text and nothing else
changed. -/
structure StrcpyCopies (dest src : UInt32) (s : List UInt8) (val : UInt32 → UInt8) (m' : Ram) : Prop where
  reads : ∀ p ∈ m'.loads, p.base = src → p.off ≤ s.length
  text : HasText m'.val dest s
  others : ∀ a, (∀ i ≤ s.length, a ≠ cell dest i) → m'.val a = val a
  compares : strcmp (bytes m'.val dest (s.length + 1)) (bytes m'.val src (s.length + 1)) = 0

theorem bytes_of_text {val : UInt32 → UInt8} {a : UInt32} {s : List UInt8} (hs : HasText val a s) :
    bytes val a (s.length + 1) = s ++ [0] := by
  apply List.ext_getElem (by simp [bytes])
  intro i hi _
  have hi : i ≤ s.length := Nat.le_of_lt_succ (by simpa [bytes] using hi)
  simp only [bytes, List.getElem_map, List.getElem_range]
  rw [hs.byte i hi]
  rcases Nat.lt_or_eq_of_le hi with hlt | rfl
  · rw [List.getD_eq_getElem _ _ hlt, List.getElem_append_left]
  · rw [List.getD_eq_default _ _ (Nat.le_refl _)]
    simp

section
variable {dest src : UInt32} {s : List UInt8} {val : UInt32 → UInt8} (hs : HasText val src s)
include hs

/-- Characters that are copied in front of a NUL are a text. -/
theorem copied_text (hapart : Apart dest (s.length + 1) src (s.length + 1)) (hnul : val (cell dest s.length) = 0) :
    HasText (copied dest src s.length val) dest s := by
  have hfits := hs.fits
  refine ⟨hs.noNul, fun i hi => ?_, hfits⟩
  rcases Nat.lt_or_eq_of_le hi with hlt | rfl
  · rw [copied_apart val (hapart.mono (by omega) (by omega)) hlt (by omega), hs.byte i hi]
  · rw [copied_later val (Nat.le_refl _) hfits, hnul, List.getD_eq_default _ _ (Nat.le_refl _)]

/-- The copy is right exactly when there is something to copy and a NUL where it ends. -/
theorem copies_iff (hapart : Apart dest (s.length + 1) src (s.length + 1)) :
    (∃ ret m', Settles (fun fuel => strcpy (.start dest) (.start src) fuel (.fresh val)) (ret, m') ∧
      StrcpyCopies dest src s val m') ↔
      s ≠ [] ∧ val (cell dest s.length) = 0 := by
  constructor
  · rintro ⟨ret, m', hsettles, hcopies⟩
    have hne : s ≠ [] := by
      rintro rfl
      obtain ⟨N, hN⟩ := hsettles
      have hoff := hcopies.reads _ (strcpy_reads_on (hN N (Nat.le_refl N))) rfl
      simp at hoff
    refine ⟨hne, ?_⟩
    obtain ⟨m'', hsettles', hval, -⟩ := strcpy_settles (m := .fresh val) hs hne hapart
    cases hsettles.unique hsettles'
    have hnul := hcopies.text.nul
    rwa [hval, copied_later _ (Nat.le_refl _) hs.fits] at hnul
  · rintro ⟨hne, hnul⟩
    obtain ⟨m', hsettles, hval, hwithin⟩ := strcpy_settles (m := .fresh val) hs hne hapart
    have htext := copied_text hs hapart hnul
    refine ⟨_, m', hsettles, ?_, ?_, ?_, ?_⟩
    · intro p hp hbase
      rcases hwithin.loads p hp with hbefore | ⟨j, hj, rfl⟩ | hdest
      · exact absurd hbefore List.not_mem_nil
      · simpa using hj
      · refine absurd (hdest.symm.trans hbase) fun e => hapart 0 (Nat.succ_pos _) 0 (Nat.succ_pos _) ?_
        rw [e]
    · rw [hval]
      exact htext
    · intro a ha
      rw [hval, copied_other _ fun i hi => ha i (by omega)]
      rfl
    · have hsource : HasText (copied dest src s.length val) src s :=
        hs.congr fun i hi => copied_source val hapart (by omega) (by omega)
      rw [hval, fresh_val, bytes_of_text htext, bytes_of_text hsource]
      exact (strcmp_eq_zero_iff _ _).2 rfl

end

/-- `strcpy` keeps its word exactly for a source that is not empty and a destination that has the
NUL already and is at address 0, which its NUL makes the returned pointer; the copy alone is right
at every address. -/
theorem strcpy_copies_iff {dest src : UInt32} {s : List UInt8} {val : UInt32 → UInt8} (hs : HasText val src s)
    (hapart : Apart dest (s.length + 1) src (s.length + 1)) :
    ((∃ ret m', Settles (fun fuel => strcpy (.start dest) (.start src) fuel (.fresh val)) (ret, m') ∧
        StrcpyCopies dest src s val m' ∧ ret = dest) ↔
      s ≠ [] ∧ val (cell dest s.length) = 0 ∧ dest = 0) ∧
    ((∃ ret m', Settles (fun fuel => strcpy (.start dest) (.start src) fuel (.fresh val)) (ret, m') ∧
        StrcpyCopies dest src s val m') ↔
      s ≠ [] ∧ val (cell dest s.length) = 0) := by
  have hcopies := copies_iff hs hapart
  have hreturn : s ≠ [] → val (cell dest s.length) = 0 → ∀ ret m',
      Settles (fun fuel => strcpy (.start dest) (.start src) fuel (.fresh val)) (ret, m') → ret = 0 := by
    intro hne hnul ret m' hsettles
    obtain ⟨m'', hsettles', hval, -⟩ := strcpy_settles (m := .fresh val) hs hne hapart
    cases hsettles.unique hsettles'
    have hzero : m'.val (cell dest s.length) = 0 := by
      rw [hval, copied_later _ (Nat.le_refl _) hs.fits]
      exact hnul
    rw [hzero]
    rfl
  refine ⟨⟨?_, ?_⟩, hcopies⟩
  · rintro ⟨ret, m', hsettles, hcopy, rfl⟩
    obtain ⟨hne, hnul⟩ := hcopies.1 ⟨ret, m', hsettles, hcopy⟩
    exact ⟨hne, hnul, hreturn hne hnul ret m' hsettles⟩
  · rintro ⟨hne, hnul, hdest⟩
    obtain ⟨ret, m', hsettles, hcopy⟩ := hcopies.2 ⟨hne, hnul⟩
    exact ⟨ret, m', hsettles, hcopy, (hreturn hne hnul ret m' hsettles).trans hdest.symm⟩

/-- The letter `A` at 4096, copied to address 0 of an empty memory. -/
theorem strcpy_copies_iff_null : ∃ ret m', Settles
    (fun fuel => strcpy (.start 0) (.start 4096) fuel (.fresh fun b => [65].getD (b - 4096).toNat 0)) (ret, m') ∧
    StrcpyCopies 0 4096 [65] (fun b => [65].getD (b - 4096).toNat 0) m' ∧ ret = 0 :=
  (strcpy_copies_iff (.of_getD 4096 (by decide) (by decide)) (by unfold Apart; decide)).1.2 ⟨by decide, by decide, rfl⟩

/-- The letter `A` copied to where there was `BB`: the destination holds `AB`. -/
theorem strcpy_leaves_letter : ¬ ∃ ret m', Settles
    (fun fuel => strcpy (.start 8192) (.start 4096) fuel
      (.fresh fun b => if b = 4097 then 0 else if b = 4096 then 65 else 66))
      (ret, m') ∧
    StrcpyCopies 8192 4096 [65] (fun b => if b = 4097 then 0 else if b = 4096 then 65 else 66) m' ∧ ret = 8192 := by
  rintro ⟨ret, m', hsettles, hcopies, -⟩
  have htext : HasText (fun b => if b = 4097 then 0 else if b = 4096 then 65 else 66) 4096 [65] :=
    ⟨by decide, by decide, by decide⟩
  have hnul := ((copies_iff htext (by unfold Apart; decide)).1 ⟨ret, m', hsettles, hcopies⟩).2
  exact absurd hnul (by decide)

end HavenOS
