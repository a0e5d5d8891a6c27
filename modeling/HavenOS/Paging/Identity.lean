/-
Both page directories map the first 4 MiB onto themselves and nothing else, whichever of them is
loaded: what `initialise_paging` leaves in the tables, and that no later switch touches it.
-/
import HavenOS.Paging.Basic

namespace HavenOS

/-- `cr3` maps the first 4 MiB onto themselves, writable for the supervisor, and nothing else. -/
def IdentityMapped (memory : Nat → UInt32) (cr3 : UInt32) : Prop := ∀ v : UInt32,
  X86.walk memory cr3 v = if v < 0x400000 then some ⟨v.toNat, true, false⟩ else none

/-- The directory `pd` has the table `pt` for the first 4 MiB and nothing else. -/
structure Maps (memory : Nat → UInt32) (pd pt : UInt32) : Prop where
  first : memory pd.toNat = pt ||| 3
  rest : ∀ i, 0 < i → i < 1024 → memory (pd.toNat + 4 * i) = 2
  table : ∀ j < 1024, memory (pt.toNat + 4 * j) = (j.toUInt32 * 0x1000) ||| 3

theorem toNat_page {j : Nat} (hj : j < 1024) : (j.toUInt32 * 0x1000).toNat = 4096 * j := by
  have h : j.toUInt32.toNat = j := by rw [UInt32.toNat_ofNat']; omega
  rw [UInt32.toNat_mul, h, show (0x1000 : UInt32).toNat = 4096 by rfl]
  omega

/-- The hardware walk through such a directory. -/
theorem Maps.identityMapped {memory : Nat → UInt32} {pd pt : UInt32} (h : Maps memory pd pt) (hd : X86.PageAligned pd)
    (ht : X86.PageAligned pt) : IdentityMapped memory pd := by
  intro v
  have hv := v.toNat_lt
  have hlt : v < 0x400000 ↔ v.toNat < 0x400000 := UInt32.lt_iff_toNat_lt
  by_cases hlow : v.toNat < 0x400000
  · have hpde : memory (X86.frame pd + 4 * (v.toNat / 2 ^ 22)) = pt ||| 3 := by
      rw [X86.frame_aligned hd, show v.toNat / 2 ^ 22 = 0 by omega]
      exact h.first
    have hj : v.toNat / 2 ^ 12 % 1024 < 1024 := by omega
    have hpage : X86.PageAligned ((v.toNat / 2 ^ 12 % 1024).toUInt32 * 0x1000) := by
      unfold X86.PageAligned
      rw [toNat_page hj]; omega
    rw [if_pos (hlt.2 hlow), X86.walk_mapped ht hpage (by decide) hpde (h.table _ hj) (by decide), toNat_page hj,
      show 4096 * (v.toNat / 2 ^ 12 % 1024) + v.toNat % 4096 = v.toNat by omega]
    rfl
  · rw [if_neg (fun hc => hlow (hlt.1 hc))]
    apply X86.walk_absent
    rw [X86.frame_aligned hd, h.rest _ (by omega) (by omega)]
    decide

/-! ## Filling the tables -/

/-- Two arrays of one page each do not overlap. -/
def Apart (a b : UInt32) : Prop := ∀ i < 1024, ∀ j < 1024, a.toNat + 4 * i ≠ b.toNat + 4 * j

theorem apart_of_aligned {a b : UInt32} (ha : X86.PageAligned a) (hb : X86.PageAligned b)
    (hne : a ≠ b) : Apart a b := by
  intro i hi j hj heq
  unfold X86.PageAligned at ha hb
  exact hne (UInt32.toNat_inj.1 (by omega))

theorem Apart.symm {a b : UInt32} (h : Apart a b) : Apart b a := fun i hi j hj heq => h j hj i hi heq.symm

/-- `n` rounds of the loop fill the first `n` entries of both arrays and nothing else. -/
theorem fillBoth_rounds {kernel other : UInt32} (hapart : Apart kernel other) (entry : Nat → UInt32)
    (memory : Store Nat UInt32) : ∀ n ≤ 1024, ∃ filled : Store Nat UInt32,
      (List.range n).foldl (fun memory i =>
        (memory.set (kernel.toNat + 4 * i) (entry i)).set (other.toNat + 4 * i) (entry i)) memory = filled ∧
      (∀ i < n, filled.val (kernel.toNat + 4 * i) = entry i ∧ filled.val (other.toNat + 4 * i) = entry i) ∧
      ∀ a, (∀ i < n, a ≠ kernel.toNat + 4 * i ∧ a ≠ other.toNat + 4 * i) → filled.val a = memory.val a
  | 0, _ => ⟨memory, rfl, fun i hi => absurd hi (Nat.not_lt_zero i), fun _ _ => rfl⟩
  | n + 1, hn => by
    obtain ⟨filled, heq, hin, hout⟩ := fillBoth_rounds hapart entry memory n (by omega)
    rw [List.range_succ, List.foldl_append, heq]
    refine ⟨_, rfl, fun i hi => ?_, fun a ha => ?_⟩
    · have hko := hapart i (by omega) n (by omega)
      have hok := hapart n (by omega) i (by omega)
      simp only [List.foldl_cons, List.foldl_nil, Store.set_val]
      by_cases hlast : i = n
      · subst hlast
        rw [if_neg hko, if_pos rfl, if_pos rfl]
        exact ⟨rfl, rfl⟩
      · rw [if_neg hko, if_neg (by omega), if_neg (by omega), if_neg (fun e => hok e.symm)]
        exact hin i (by omega)
    · obtain ⟨h1, h2⟩ := ha n (by omega)
      simp only [List.foldl_cons, List.foldl_nil, Store.set_val]
      rw [if_neg h2, if_neg h1]
      exact hout a fun i hi => ha i (by omega)

section
variable {kernel other : UInt32} (hapart : Apart kernel other) (entry : Nat → UInt32) (memory : Store Nat UInt32)
include hapart

theorem fillBoth_val {i : Nat} (hi : i < 1024) :
    (fillBoth kernel other entry memory).val (kernel.toNat + 4 * i) = entry i ∧
    (fillBoth kernel other entry memory).val (other.toNat + 4 * i) = entry i := by
  obtain ⟨filled, heq, hin, -⟩ := fillBoth_rounds hapart entry memory 1024 (Nat.le_refl _)
  rw [fillBoth, heq]
  exact hin i hi

/-- Arrays apart from both are left alone. -/
theorem fillBoth_apart {a : UInt32} (hk : Apart a kernel) (ho : Apart a other) {i : Nat} (hi : i < 1024) :
    (fillBoth kernel other entry memory).val (a.toNat + 4 * i) = memory.val (a.toNat + 4 * i) := by
  obtain ⟨filled, heq, -, hout⟩ := fillBoth_rounds hapart entry memory 1024 (Nat.le_refl _)
  rw [fillBoth, heq]
  exact hout _ fun j hj => ⟨hk i hi j hj, ho i hi j hj⟩

end

/-- What `initialise_paging` leaves in the four arrays. -/
structure TablesReady (layout : Layout) (m : Machine) : Prop where
  kernel : m.directories 0 = layout.kernelPageDirectory
  other : m.directories 1 = layout.otherPageDirectory
  kernelMaps : Maps m.memory.val layout.kernelPageDirectory layout.kernelPageTable
  otherMaps : Maps m.memory.val layout.otherPageDirectory layout.otherPageTable

theorem TablesReady.congr {layout : Layout} {m m' : Machine} (h : TablesReady layout m) (hm : m'.memory = m.memory)
    (hd : m'.directories = m.directories) : TablesReady layout m' := by
  obtain ⟨hkernel, hother, hkernelMaps, hotherMaps⟩ := h
  refine ⟨?_, ?_, ?_, ?_⟩
  · rw [hd, hkernel]
  · rw [hd, hother]
  · rw [hm]; exact hkernelMaps
  · rw [hm]; exact hotherMaps

theorem fillTables_directories (layout : Layout) (m : Machine) : (fillTables layout m).directories =
    Function.update (Function.update m.directories 0 layout.kernelPageDirectory) 1 layout.otherPageDirectory := by
  simp only [fillTables, Machine.printLine_directories]

theorem fillTables_memory (layout : Layout) (m : Machine) : (fillTables layout m).memory =
    ((fillBoth layout.kernelPageTable layout.otherPageTable (fun j => (j.toUInt32 * 0x1000) ||| 3)
      (fillBoth layout.kernelPageDirectory layout.otherPageDirectory (fun _ => 2) m.memory)).set
        layout.kernelPageDirectory.toNat (layout.kernelPageTable ||| 3)).set
          layout.otherPageDirectory.toNat (layout.otherPageTable ||| 3) := by
  simp only [fillTables, Machine.printLine_memory]

/-- The first entry over filled arrays, whatever the first entry of the other directory is. -/
theorem Maps.of_filled {filled memory : Nat → UInt32} {pd pt opd : UInt32} (hdirectories : Apart pd opd)
    (hown : Apart pd pt) (hcross : Apart opd pt) (hempty : ∀ i < 1024, filled (pd.toNat + 4 * i) = 2)
    (htable : ∀ j < 1024, filled (pt.toNat + 4 * j) = (j.toUInt32 * 0x1000) ||| 3)
    (hfirst : memory pd.toNat = pt ||| 3)
    (hrest : ∀ a, a ≠ pd.toNat → a ≠ opd.toNat → memory a = filled a) : Maps memory pd pt where
  first := hfirst
  rest i hpos hi := by
    have hother := hdirectories i hi 0 (by decide)
    rw [hrest _ (by omega) hother, hempty i hi]
  table j hj := by
    have hpd := (hown 0 (by decide) j hj).symm
    have hopd := (hcross 0 (by decide) j hj).symm
    rw [hrest _ hpd hopd, htable j hj]

theorem fillTables_ready (layout : Layout) (m : Machine) : TablesReady layout (fillTables layout m) := by
  obtain ⟨kpd, kpt, opd, opt, aligned, distinct⟩ := layout
  simp only [List.mem_cons, List.not_mem_nil, or_false, forall_eq_or_imp, forall_eq] at aligned
  simp only [List.nodup_cons, List.mem_cons, List.not_mem_nil, or_false, not_or, List.nodup_nil, not_false_eq_true,
    and_true] at distinct
  obtain ⟨akpd, akpt, aopd, aopt⟩ := aligned
  obtain ⟨⟨h1, h2, h3⟩, ⟨h4, h5⟩, h6⟩ := distinct
  -- each loop fills two of the four arrays and leaves the other two alone
  have directories := apart_of_aligned akpd aopd h2
  have tables := apart_of_aligned akpt aopt h5
  have hkk := apart_of_aligned akpd akpt h1
  have hko := apart_of_aligned akpd aopt h3
  have hok := (apart_of_aligned akpt aopd h4).symm
  have hoo := apart_of_aligned aopd aopt h6
  have hne : kpd.toNat ≠ opd.toNat := directories 0 (by decide) 0 (by decide)
  obtain ⟨filled, hfilled⟩ : ∃ filled, fillBoth kpt opt (fun j => (j.toUInt32 * 0x1000) ||| 3)
    (fillBoth kpd opd (fun _ => 2) m.memory) = filled := ⟨_, rfl⟩
  have hempty : ∀ i < 1024, filled.val (kpd.toNat + 4 * i) = 2 ∧ filled.val (opd.toNat + 4 * i) = 2 := by
    intro i hi
    rw [← hfilled, fillBoth_apart tables _ _ hkk hko hi, fillBoth_apart tables _ _ hok hoo hi]
    exact fillBoth_val directories _ _ hi
  have htable : ∀ j < 1024, filled.val (kpt.toNat + 4 * j) = (j.toUInt32 * 0x1000) ||| 3 ∧
      filled.val (opt.toNat + 4 * j) = (j.toUInt32 * 0x1000) ||| 3 := by
    intro j hj
    rw [← hfilled]
    exact fillBoth_val tables _ _ hj
  have hmemory := fillTables_memory ⟨kpd, kpt, opd, opt, aligned, distinct⟩ m
  simp only [hfilled] at hmemory
  refine ⟨?_, ?_, .of_filled directories hkk hok (fun i hi => (hempty i hi).1) (fun j hj => (htable j hj).1) ?_ ?_,
    .of_filled directories.symm hoo hko (fun i hi => (hempty i hi).2) (fun j hj => (htable j hj).2) ?_ ?_⟩
  · simp [fillTables_directories]
  · simp [fillTables_directories]
  · rw [hmemory, Store.set_val, if_neg hne, Store.set_val, if_pos rfl]
  · intro a hk ho
    rw [hmemory, Store.set_val, if_neg ho, Store.set_val, if_neg hk]
  · rw [hmemory, Store.set_val, if_pos rfl]
  · intro a ho hk
    rw [hmemory, Store.set_val, if_neg ho, Store.set_val, if_neg hk]

theorem TablesReady.identityMapped {layout : Layout} {m : Machine} (h : TablesReady layout m) :
    IdentityMapped m.memory.val (m.directories 0) ∧ IdentityMapped m.memory.val (m.directories 1) := by
  obtain ⟨kpd, kpt, opd, opt, aligned, distinct⟩ := layout
  rw [h.kernel, h.other]
  exact ⟨h.kernelMaps.identityMapped (aligned _ (by simp)) (aligned _ (by simp)),
    h.otherMaps.identityMapped (aligned _ (by simp)) (aligned _ (by simp))⟩

/-! ## Switching -/

/-- The message of a switch: its text and the eight digits of the address. -/
theorem loading_message (value : Int32) (v : Vga) :
    fbFprintStr (ascii "Loading Page Directory \x7b%h\x7d") [value] 0 15 v =
      some (fbPrintStr (hexText value) 0 15 (printCells (ascii "Loading Page Directory ") 0 15 v)) := by
  have htext : ascii "Loading Page Directory \x7b%h\x7d" = ascii "Loading Page Directory " ++
      123 :: ([37, 104] ++ 125 :: []) := by
    decide
  have hsplit : splitFormat (ascii "Loading Page Directory \x7b%h\x7d") =
      (ascii "Loading Page Directory ").map .literal ++ [.directive (ascii "\x7b%h\x7d")] := by
    rw [htext, splitFormat_literals (by decide), splitFormat_directive (by decide) (by decide), splitFormat]
    rfl
  have hargs : Enough [value] 0 (splitFormat (ascii "Loading Page Directory \x7b%h\x7d")) := by
    rw [hsplit, enough_literals]
    exact ⟨fun _ => Nat.zero_lt_one, trivial⟩
  have hruns := fbFprintStr_enough 0 15 v (by decide) (by decide) hargs
  have hdirective : ∀ w, runDirective (ascii "\x7b%h\x7d") value 0 15 w =
      fbPrintStr (hexText value) 0 15 w := fun _ => rfl
  rw [hsplit, runPieces_literals] at hruns
  rw [← hdirective]
  exact hruns

/-- The console after the message of a switch to the directory at `pd`. -/
def switchConsole (pd : UInt32) (v : Vga) : Vga :=
  fbMoveCursorToStartOfRow (fbOffsetCursor (fbNumColumns - 1)
    (fbPrintStr (hexText pd.toInt32) 0 15 (printCells (ascii "Loading Page Directory ") 0 15 v)))

/-- A switch prints its message and loads CR3; the tables stay as they are. -/
theorem switchPageDirectory_eq (pd : UInt32) (m : Machine) :
    switchPageDirectory pd m = some { m with vga := switchConsole pd m.vga, cr3 := pd } := by
  unfold switchPageDirectory
  rw [loading_message]
  rfl

theorem switchPageDirectoryI_ready {layout : Layout} {m : Machine} (h : TablesReady layout m) (i : UInt32) :
    ∃ m', switchPageDirectoryI i m = some m' ∧ TablesReady layout m' ∧ m'.directories = m.directories ∧
      m'.cr3 = m.directories i.toNat :=
  ⟨_, switchPageDirectory_eq _ m, h.congr rfl rfl, rfl, rfl⟩

/-- After any switches CR3 is the directory of the last one. -/
theorem switchAll_ready {layout : Layout} : ∀ (is : List UInt32) (m : Machine) (i0 : UInt32), TablesReady layout m →
    m.cr3 = m.directories i0.toNat → ∃ m', switchAll is m = some m' ∧ TablesReady layout m' ∧
      m'.cr3 = m'.directories (is.getLastD i0).toNat
  | [], m, i0, h, h3 => ⟨m, rfl, h, h3⟩
  | i :: is, m, i0, h, _ => by
    obtain ⟨m1, hswitch, h1, hd, h3⟩ := switchPageDirectoryI_ready h i
    obtain ⟨m2, hrun, h2, hlast⟩ := switchAll_ready is m1 i h1 (by rw [h3, hd])
    refine ⟨m2, ?_, h2, ?_⟩
    · rw [switchAll, Run.run_cons, hswitch]; exact hrun
    · rw [hlast, List.getLastD_cons]

/-- After `initialise_paging` and any switches between the two directories, CR3 is the directory
of the last switch, and it and both directories map the first 4 MiB onto themselves and nothing
else. -/
theorem paging_identity (layout : Layout) (m : Machine) (is : List UInt32) (his : ∀ i ∈ is, i = 0 ∨ i = 1) :
    ∃ m', (initialisePaging layout m).bind (switchAll is) = some m' ∧
      m'.cr3 = m'.directories (is.getLastD 0).toNat ∧ IdentityMapped m'.memory.val m'.cr3 ∧
      ∀ i < 2, IdentityMapped m'.memory.val (m'.directories i) := by
  obtain ⟨m1, hswitch, h1, hd, h3⟩ := switchPageDirectoryI_ready (fillTables_ready layout m) 0
  obtain ⟨m2, hrun, h2, hlast⟩ := switchAll_ready is
    ((enablePaging (m1.printLine "Enabling Paging Mode..." (fbNumColumns - 1))).printLine
      "Done?..." (fbNumColumns - 1)) 0
    (h1.congr (by simp) (by simp)) (by simp [h3, hd])
  have hboth := h2.identityMapped
  refine ⟨m2, ?_, hlast, ?_, ?_⟩
  · rw [initialisePaging, hswitch]; exact hrun
  · have hi : is.getLastD 0 = 0 ∨ is.getLastD 0 = 1 := by
      cases hg : is.getLast? with
      | none => exact .inl (by simp [List.getLastD_eq_getLast?, hg])
      | some i =>
        rw [List.getLastD_eq_getLast?, hg]
        exact his i (List.mem_of_getLast? hg)
    rw [hlast]
    rcases hi with hi | hi
    · rw [hi]; exact hboth.1
    · rw [hi]; exact hboth.2
  · intro i hi
    interval_cases i
    · exact hboth.1
    · exact hboth.2

/-- Four pages above the kernel. -/
def pagesAboveKernel : Layout := ⟨0x105000, 0x106000, 0x107000, 0x108000, by simp [X86.PageAligned], by decide⟩

/-- Escape, then back. -/
theorem paging_identity_there_and_back :
    ∃ m', (initialisePaging pagesAboveKernel .powerOn).bind (switchAll [1, 0]) = some m' ∧
      m'.cr3 = m'.directories (([1, 0] : List UInt32).getLastD 0).toNat ∧ IdentityMapped m'.memory.val m'.cr3 ∧
      ∀ i < 2, IdentityMapped m'.memory.val (m'.directories i) :=
  paging_identity pagesAboveKernel .powerOn [1, 0] (by simp)

end HavenOS
