/-
page_fault of paging.c: the message is built by appending in place, and every append stores a NUL
beyond the text. Exactly when all of these stay inside the message, which then reads as it should.
-/
import HavenOS.Cstring.Concat
import HavenOS.Cstring.Hex

namespace HavenOS

open Ram

/-! ## The handler -/

/-- A literal that overlaps neither array. -/
def Clear (message hex literal : UInt32) (text : List UInt8) : Prop :=
  Apart message 64 literal (text.length + 1) ∧ Apart hex 9 literal (text.length + 1)

/-- Where the arrays and the literals of `page_fault` are. -/
structure PageFaultLayout where
  message : UInt32
  hex : UInt32
  present : UInt32
  readOnly : UInt32
  userMode : UInt32
  reserved : UInt32
  at0x : UInt32
  arrays : Apart message 64 hex 9
  presentClear : Clear message hex present (ascii "present ")
  readOnlyClear : Clear message hex readOnly (ascii "read-only ")
  userModeClear : Clear message hex userMode (ascii "user-mode ")
  reservedClear : Clear message hex reserved (ascii "reserved ")
  at0xClear : Clear message hex at0x (ascii ") at 0x")

/-- `char message[64] = "Page Fault ( ";`. -/
def pageFaultStart : List UInt8 := ascii "Page Fault ( "

/-- `if (…) { strcat(message, part, message); }`. -/
def strcatIf (condition : Bool) (message part : UInt32) (fuel : Nat) (m : Ram) : Option Ram :=
  if condition then strcat (.start message) (.start part) (.start message) fuel m else some m

/-- The message up to the last part whose condition holds. -/
def pageFaultParts (a : PageFaultLayout) (errCode : UInt32) (fuel : Nat) (m : Ram) : Option Ram :=
  let present : Bool := errCode &&& 0x1 = 0
  let rw : Bool := errCode &&& 0x2 ≠ 0
  let us : Bool := errCode &&& 0x4 ≠ 0
  let reserved : Bool := errCode &&& 0x8 ≠ 0
  let m := m.onArray a.message (·.blit (pageFaultStart ++ List.replicate (64 - pageFaultStart.length) 0) 0)
  (strcatIf present a.message a.present fuel m).bind fun m =>
  (strcatIf rw a.message a.readOnly fuel m).bind fun m =>
  (strcatIf us a.message a.userMode fuel m).bind fun m =>
  strcatIf reserved a.message a.reserved fuel m

/-- Up to the call of PANIC. The address is what CR2 holds. -/
def pageFault (a : PageFaultLayout) (errCode faultingAddress : UInt32) (fuel : Nat) (m : Ram) : Option Ram :=
  (pageFaultParts a errCode fuel m).bind fun m =>
  (strcat (.start a.message) (.start a.at0x) (.start a.message) fuel m).bind fun m =>
  let m := m.onArray a.hex (intToHex faultingAddress.toInt32)
  strcat (.start a.message) (.start a.hex) (.start a.message) fuel m

/-! ## What the message should be -/

/-- Pointers into the two arrays. -/
def PageFaultLayout.InArrays (a : PageFaultLayout) (p : Ptr) : Prop :=
  (∃ i : Nat, i < 64 ∧ p = (Ptr.start a.message).add i) ∨ ∃ i : Nat, i < 9 ∧ p = (Ptr.start a.hex).add i

/-- The literals of `page_fault` in memory. -/
structure PageFaultLayout.Loaded (a : PageFaultLayout) (val : UInt32 → UInt8) : Prop where
  present : HasText val a.present (ascii "present ")
  readOnly : HasText val a.readOnly (ascii "read-only ")
  userMode : HasText val a.userMode (ascii "user-mode ")
  reserved : HasText val a.reserved (ascii "reserved ")
  at0x : HasText val a.at0x (ascii ") at 0x")

/-- The parts whose conditions hold. -/
def faultParts (errCode : UInt32) : List UInt8 :=
  (if errCode &&& 0x1 = 0 then ascii "present " else []) ++ (if errCode &&& 0x2 ≠ 0 then ascii "read-only " else []) ++
  (if errCode &&& 0x4 ≠ 0 then ascii "user-mode " else []) ++ (if errCode &&& 0x8 ≠ 0 then ascii "reserved " else [])

/-- Nothing is stored outside the two arrays, and the message has its parts in order. -/
structure PageFaultExact (a : PageFaultLayout) (errCode faultingAddress : UInt32) (m' : Ram) : Prop where
  inside : ∀ p ∈ m'.stores, a.InArrays p
  message : HasText m'.val a.message
    (pageFaultStart ++ faultParts errCode ++ ascii ") at 0x" ++ hexText faultingAddress.toInt32)

/-! ## Appending -/

/-- The message while it is built. -/
structure Building (a : PageFaultLayout) (val : UInt32 → UInt8) (text : List UInt8) (m : Ram) : Prop where
  holds : HasText m.val a.message text
  ne_nil : text ≠ []
  others : ∀ b, (∀ i < 64, b ≠ cell a.message i) → (∀ i < 9, b ≠ cell a.hex i) → m.val b = val b
  inside : ∀ p ∈ m.stores, a.InArrays p

section
variable {a : PageFaultLayout} {val : UInt32 → UInt8} {text t : List UInt8} {m : Ram} {part : UInt32}

/-- Text in cells that belong to no array stays. -/
theorem Building.hasText (h : Building a val text m) (ht : HasText val part t)
    (hclear : Clear a.message a.hex part t) : HasText m.val part t :=
  ht.congr fun i hi => h.others _ (fun j hj => (hclear.1 j hj i (by omega)).symm)
    fun j hj => (hclear.2 j hj i (by omega)).symm

/-- An append whose last NUL is inside the message. -/
theorem Building.append (h : Building a val text m) (ht : HasText m.val part t) (hne' : t ≠ [])
    (hapart : Apart a.message 64 part (t.length + 1)) (hroom : text.length + 2 * t.length + 1 < 64) :
    ∃ m', Settles (fun fuel => strcat (.start a.message) (.start part) (.start a.message) fuel m) m' ∧
      Building a val (text ++ t) m' := by
  have hlen := List.length_pos_iff.2 hne'
  obtain ⟨m', hsettles, hval, -, hwithin⟩ :=
    strcat_inPlace h.holds h.ne_nil ht hne' (hapart.mono (by omega) (Nat.le_refl _)) (by omega)
  refine ⟨m', hsettles, ?_, List.append_ne_nil_of_left_ne_nil h.ne_nil t, ?_, ?_⟩
  · have hnul : 0 ∉ text ++ t := List.not_mem_append h.holds.noNul ht.noNul
    have hfits : (text ++ t).length < 2 ^ 32 := by
      rw [List.length_append]
      omega
    rw [hval, ← List.length_append]
    refine (hasText_floTarget m.val hnul hfits).congr fun i hi => Function.update_of_ne ?_ _ _
    rw [List.length_append] at hi
    exact cell_ne a.message (by omega) (by omega)
  · intro b hmessage hhex
    rw [hval, Function.update_of_ne (hmessage _ hroom), floTarget_other fun i hi => hmessage i (by omega)]
    exact h.others b hmessage hhex
  · intro p hp
    rcases hwithin.stores p hp with hbefore | ⟨j, hj, rfl⟩
    · exact h.inside p hbefore
    · exact .inl ⟨j, by omega, rfl⟩

/-- An append whose last NUL is not. -/
theorem Building.overrun (h : Building a val text m) (ht : HasText m.val part t) (hne' : t ≠ [])
    (hapart : Apart a.message 64 part (t.length + 1)) (hroom : text.length + t.length < 64)
    (hover : 64 ≤ text.length + 2 * t.length + 1) :
    ∃ m', Settles (fun fuel => strcat (.start a.message) (.start part) (.start a.message) fuel m) m' ∧
      ∃ p ∈ m'.stores, ¬ a.InArrays p := by
  obtain ⟨m', hsettles, -, hstray, -⟩ :=
    strcat_inPlace h.holds h.ne_nil ht hne' (hapart.mono (by omega) (Nat.le_refl _)) (by omega)
  refine ⟨m', hsettles, _, hstray, ?_⟩
  rintro (⟨i, hi, heq⟩ | ⟨i, hi, heq⟩)
  · have hoff := congrArg Ptr.off heq
    simp only [Ptr.add_off, Ptr.start_off] at hoff
    omega
  · have hbase : a.message = a.hex := congrArg Ptr.base heq
    exact a.arrays 0 (by decide) 0 (by decide) (by rw [hbase])

theorem Building.appendIf (h : Building a val text m) (ht : HasText val part t) (hne' : t ≠ [])
    (hclear : Clear a.message a.hex part t) (hroom : text.length + 2 * t.length + 1 < 64)
    (condition : Prop) [Decidable condition] :
    ∃ m', Settles (fun fuel => strcatIf (decide condition) a.message part fuel m) m' ∧
      Building a val (text ++ if condition then t else []) m' := by
  by_cases hc : condition
  · simp only [strcatIf, hc, decide_true, if_true]
    exact h.append (h.hasText ht hclear) hne' hclear.1 hroom
  · simp only [strcatIf, hc, decide_false, if_false, List.append_nil, Bool.false_eq_true]
    exact ⟨m, .const m, h⟩

end

/-! ## The arrays -/

theorem pageFaultStart_length : pageFaultStart.length = 13 := by decide

/-- The message starts as the literal, filled up with NULs. -/
theorem building_start (a : PageFaultLayout) (val : UInt32 → UInt8) :
    Building a val pageFaultStart ((fresh val).onArray a.message
    (·.blit (pageFaultStart ++ List.replicate (64 - pageFaultStart.length) 0) 0)) := by
  have hlength := pageFaultStart_length
  have hlog : ∀ k, k ∈ (Store.blit (pageFaultStart ++ List.replicate (64 - pageFaultStart.length) 0) 0
      (.fresh fun k => (fresh val).val (cell a.message k))).log ↔ k < 64 := by
    intro k
    rw [Store.blit_log, List.length_append, List.length_replicate, hlength]
    simp [Store.fresh]
  refine ⟨⟨by decide, fun i hi => ?_, by decide⟩, by decide, fun b hmessage _ => ?_, fun p hp => ?_⟩
  · rw [onArray_val_cell hlog (by decide) (by omega), Store.blit_val, if_neg (Nat.not_lt_zero i), Nat.sub_zero]
    rcases Nat.lt_or_eq_of_le hi with hlt | rfl
    · rw [List.getElem?_append_left hlt, List.getD_eq_getElem?_getD, List.getElem?_eq_getElem hlt]
      rfl
    · rw [List.getElem?_append_right (Nat.le_refl _), Nat.sub_self, hlength, List.getD_eq_default _ _ (by omega)]
      rfl
  · rw [onArray_val_eq hlog hmessage, fresh_val]
  · exact ((mem_onArray_stores hlog).1 hp).elim .inl fun h => absurd h List.not_mem_nil

/-- `int_to_hex` leaves its text in `hex` and the message alone. -/
theorem Building.hex {a : PageFaultLayout} {val : UInt32 → UInt8} {text : List UInt8} {m : Ram}
    (h : Building a val text m)
    (hfits : text.length < 64) (value : Int32) :
    Building a val text (m.onArray a.hex (intToHex value)) ∧
      HasText (m.onArray a.hex (intToHex value)).val a.hex (hexText value) := by
  have hlog := mem_intToHex_log value fun k => m.val (cell a.hex k)
  refine ⟨⟨h.holds.congr fun i hi => ?_, h.ne_nil, fun b hmessage hhex => ?_, fun p hp => ?_⟩,
    notMem_cstr _, fun i hi => ?_, ?_⟩
  · exact onArray_val_eq hlog fun k hk => a.arrays i (by omega) k hk
  · rw [onArray_val_eq hlog hhex, h.others b hmessage hhex]
  · rcases (mem_onArray_stores hlog).1 hp with hown | hbefore
    · exact .inr hown
    · exact h.inside p hbefore
  · rw [hexText_length] at hi
    rw [onArray_val_cell hlog (by decide) (by omega), intToHex_val _ _ (by omega)]
  · rw [hexText_length]
    decide

/-! ## When the message is right -/

/-- The conditions of the four optional parts. -/
def faultConditions (errCode : UInt32) : List Bool :=
  [errCode &&& 0x1 = 0, errCode &&& 0x2 ≠ 0, errCode &&& 0x4 ≠ 0, errCode &&& 0x8 ≠ 0]

/-- The lengths of the literals. -/
theorem literal_lengths : (ascii "present ").length = 8 ∧ (ascii "read-only ").length = 10 ∧
    (ascii "user-mode ").length = 10 ∧
    (ascii "reserved ").length = 9 ∧ (ascii ") at 0x").length = 7 := by decide

/-- Two parts make at most 20 characters, three at least 27. -/
theorem faultParts_length_iff (errCode : UInt32) :
    (faultParts errCode).length ≤ 26 ↔ (faultConditions errCode).count true ≤ 2 := by
  obtain ⟨hpresent, hreadOnly, huserMode, hreserved, -⟩ := literal_lengths
  unfold faultParts faultConditions
  by_cases h1 : errCode &&& 0x1 = 0 <;> by_cases h2 : errCode &&& 0x2 = 0 <;> by_cases h4 : errCode &&& 0x4 = 0 <;>
    by_cases h8 : errCode &&& 0x8 = 0 <;> simp [h1, h2, h4, h8, hpresent, hreadOnly, huserMode, hreserved]

theorem length_ite_le (condition : Prop) [Decidable condition] (t : List UInt8) :
    (if condition then t else []).length ≤ t.length := by
  split
  · exact Nat.le_refl _
  · exact Nat.zero_le _

section
variable {a : PageFaultLayout} {val : UInt32 → UInt8} (hval : a.Loaded val) (errCode faultingAddress : UInt32)
include hval

/-- The four optional appends stay inside the message, whichever are made. -/
theorem pageFaultParts_settles : ∃ m', Settles (fun fuel => pageFaultParts a errCode fuel (fresh val)) m' ∧
    Building a val (pageFaultStart ++ faultParts errCode) m' := by
  have hstart := pageFaultStart_length
  obtain ⟨hpresent, hreadOnly, huserMode, hreserved, -⟩ := literal_lengths
  have hlen1 := length_ite_le (errCode &&& 0x1 = 0) (ascii "present ")
  have hlen2 := length_ite_le (errCode &&& 0x2 ≠ 0) (ascii "read-only ")
  have hlen3 := length_ite_le (errCode &&& 0x4 ≠ 0) (ascii "user-mode ")
  obtain ⟨m1, hrun1, hbuilt1⟩ := (building_start a val).appendIf hval.present (by decide) a.presentClear
    (by omega) (errCode &&& 0x1 = 0)
  obtain ⟨m2, hrun2, hbuilt2⟩ := hbuilt1.appendIf hval.readOnly (by decide) a.readOnlyClear
    (by simp only [List.length_append]; omega) (errCode &&& 0x2 ≠ 0)
  obtain ⟨m3, hrun3, hbuilt3⟩ := hbuilt2.appendIf hval.userMode (by decide) a.userModeClear
    (by simp only [List.length_append]; omega) (errCode &&& 0x4 ≠ 0)
  obtain ⟨m4, hrun4, hbuilt4⟩ := hbuilt3.appendIf hval.reserved (by decide) a.reservedClear
    (by simp only [List.length_append]; omega) (errCode &&& 0x8 ≠ 0)
  refine ⟨m4, hrun1.bind (hrun2.bind (hrun3.bind hrun4)), ?_⟩
  simpa only [faultParts, List.append_assoc] using hbuilt4

/-- The whole message, where the last append ends inside it. -/
theorem pageFault_settles (hshort : (faultParts errCode).length ≤ 26) :
    ∃ m', Settles (fun fuel => pageFault a errCode faultingAddress fuel (fresh val)) m' ∧
      PageFaultExact a errCode faultingAddress m' := by
  have hstart := pageFaultStart_length
  obtain ⟨-, -, -, -, hat0x⟩ := literal_lengths
  have hhex := hexText_length faultingAddress.toInt32
  obtain ⟨m1, hrun1, hbuilt1⟩ := pageFaultParts_settles hval errCode
  obtain ⟨m2, hrun2, hbuilt2⟩ := hbuilt1.append (hbuilt1.hasText hval.at0x a.at0xClear) (by decide)
    a.at0xClear.1 (by simp only [List.length_append]; omega)
  obtain ⟨hbuilt3, htext⟩ := hbuilt2.hex (by simp only [List.length_append]; omega) faultingAddress.toInt32
  obtain ⟨m4, hrun4, hbuilt4⟩ := hbuilt3.append htext
    (List.ne_nil_of_length_pos (by omega)) (a.arrays.mono (Nat.le_refl _) (by omega))
      (by simp only [List.length_append]; omega)
  exact ⟨m4, hrun1.bind (hrun2.bind hrun4), hbuilt4.inside, hbuilt4.holds⟩

/-- Otherwise an append ends beyond it. -/
theorem pageFault_overruns (hlong : 26 < (faultParts errCode).length) {m' : Ram}
    (hrun : Settles (fun fuel => pageFault a errCode faultingAddress fuel (fresh val)) m') :
    ∃ p ∈ m'.stores, ¬ a.InArrays p := by
  have hstart := pageFaultStart_length
  obtain ⟨hpresent, hreadOnly, huserMode, hreserved, hat0x⟩ := literal_lengths
  have hhex := hexText_length faultingAddress.toInt32
  have hmost : (faultParts errCode).length ≤ 37 := by
    have hlen1 := length_ite_le (errCode &&& 0x1 = 0) (ascii "present ")
    have hlen2 := length_ite_le (errCode &&& 0x2 ≠ 0) (ascii "read-only ")
    have hlen3 := length_ite_le (errCode &&& 0x4 ≠ 0) (ascii "user-mode ")
    have hlen4 := length_ite_le (errCode &&& 0x8 ≠ 0) (ascii "reserved ")
    simp only [faultParts, List.length_append]
    omega
  obtain ⟨m1, hrun1, hbuilt1⟩ := pageFaultParts_settles hval errCode
  have hloaded := hbuilt1.hasText hval.at0x a.at0xClear
  have hrest := hrun1.of_bind hrun
  by_cases hfour : 35 < (faultParts errCode).length
  · -- all four parts: the append of ") at 0x"
    obtain ⟨m2, hrun2, p, hp, hout⟩ := hbuilt1.overrun hloaded (by decide) a.at0xClear.1
      (by simp only [List.length_append]; omega) (by simp only [List.length_append]; omega)
    obtain ⟨N, hN⟩ := hrun2.of_bind hrest
    exact ⟨p, (extends_strcat (hN N (Nat.le_refl N))).stores
      ((mem_onArray_stores (mem_intToHex_log _ _)).2 (.inr hp)), hout⟩
  · -- three parts: the append of the digits
    obtain ⟨m2, hrun2, hbuilt2⟩ := hbuilt1.append hloaded (by decide)
      a.at0xClear.1 (by simp only [List.length_append]; omega)
    obtain ⟨hbuilt3, htext⟩ := hbuilt2.hex (by simp only [List.length_append]; omega) faultingAddress.toInt32
    obtain ⟨m4, hrun4, p, hp, hout⟩ := hbuilt3.overrun htext
      (List.ne_nil_of_length_pos (by omega)) (a.arrays.mono (Nat.le_refl _) (by omega))
      (by simp only [List.length_append]; omega) (by simp only [List.length_append]; omega)
    cases (hrun2.of_bind hrest).unique hrun4
    exact ⟨p, hp, hout⟩

end

/-- The message of a page fault is built inside its array, and reads as it should, exactly when at
most two of the four conditions hold. -/
theorem pageFault_exact_iff (a : PageFaultLayout) {val : UInt32 → UInt8} (hval : a.Loaded val)
    (errCode faultingAddress : UInt32) :
    (∃ m', Settles (fun fuel => pageFault a errCode faultingAddress fuel (fresh val)) m' ∧
      PageFaultExact a errCode faultingAddress m') ↔ (faultConditions errCode).count true ≤ 2 := by
  rw [← faultParts_length_iff]
  constructor
  · rintro ⟨m', hrun, hexact⟩
    by_contra hlong
    obtain ⟨p, hp, hout⟩ := pageFault_overruns hval errCode faultingAddress (Nat.lt_of_not_le hlong) hrun
    exact hout (hexact.inside p hp)
  · exact pageFault_settles hval errCode faultingAddress

/-- The arrays at 4096 and 8192, the literals one after the other from 12288 on. -/
def literalsInRow : PageFaultLayout where
  message := 4096
  hex := 8192
  present := 12288
  readOnly := 12297
  userMode := 12308
  reserved := 12319
  at0x := 12329
  arrays := .of_le (by decide) (by decide)
  presentClear := ⟨.of_le (by decide) (by decide), .of_le (by decide) (by decide)⟩
  readOnlyClear := ⟨.of_le (by decide) (by decide), .of_le (by decide) (by decide)⟩
  userModeClear := ⟨.of_le (by decide) (by decide), .of_le (by decide) (by decide)⟩
  reservedClear := ⟨.of_le (by decide) (by decide), .of_le (by decide) (by decide)⟩
  at0xClear := ⟨.of_le (by decide) (by decide), .of_le (by decide) (by decide)⟩

def literalsBytes (b : UInt32) : UInt8 :=
  (ascii "present " ++ 0 :: ascii "read-only " ++ 0 :: ascii "user-mode " ++
    0 :: ascii "reserved " ++ 0 :: ascii ") at 0x").getD
    (b - 12288).toNat 0

theorem literalsInRow_loaded : literalsInRow.Loaded literalsBytes where
  present := ⟨by decide, by decide, by decide⟩
  readOnly := ⟨by decide, by decide, by decide⟩
  userMode := ⟨by decide, by decide, by decide⟩
  reserved := ⟨by decide, by decide, by decide⟩
  at0x := ⟨by decide, by decide, by decide⟩

/-- The kernel writes to a page that is not present. -/
theorem pageFault_exact_iff_write :
    ∃ m', Settles (fun fuel => pageFault literalsInRow 2 0xDEADBEEF fuel (fresh literalsBytes)) m' ∧
    PageFaultExact literalsInRow 2 0xDEADBEEF m' :=
  (pageFault_exact_iff literalsInRow literalsInRow_loaded 2 0xDEADBEEF).2 (by decide)

/-- A program writes to a page that is not present: three parts. -/
theorem pageFault_overruns_user :
    ¬ ∃ m', Settles (fun fuel => pageFault literalsInRow 6 0xDEADBEEF fuel (fresh literalsBytes)) m' ∧
    PageFaultExact literalsInRow 6 0xDEADBEEF m' := by
  rintro ⟨m', hrun, hexact⟩
  obtain ⟨p, hp, hout⟩ := pageFault_overruns literalsInRow_loaded 6 0xDEADBEEF (by decide) hrun
  exact hout (hexact.inside p hp)

end HavenOS
