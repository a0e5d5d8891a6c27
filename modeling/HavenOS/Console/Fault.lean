/-
page_fault to its end: the message it builds in memory, and the screen that PANIC leaves it on.
-/
import HavenOS.Console.Panic
import HavenOS.Keyboard.Page
import HavenOS.Paging.PageFault

namespace HavenOS

open Ram

/-! ## The whole handler -/

/-- `page_fault` up to the endless loop of PANIC, which gets the 64 bytes of the message's array. Where no NUL
is among them PANIC would read on behind the array, and this does not. -/
def pageFaultPanics (a : PageFaultLayout) (errCode faultingAddress : UInt32) (fuel : Nat) (m : Ram) (v : Vga) :
    Option (Ram × Vga) :=
  (pageFault a errCode faultingAddress fuel m).map fun m =>
    (m, panic ((List.range 64).map fun i => m.val (cell a.message i)) v)

/-- The text of the message. -/
def faultMessage (errCode faultingAddress : UInt32) : List UInt8 :=
  pageFaultStart ++ faultParts errCode ++ ascii ") at 0x" ++ hexText faultingAddress.toInt32

/-- The message is by itself on the screen, in the middle of row 12, and every store was to the arrays or to the
screen. -/
structure FaultShown (a : PageFaultLayout) (errCode faultingAddress : UInt32) (v : Vga) (m' : Ram) (v' : Vga) :
    Prop where
  inside : ∀ p ∈ m'.stores, a.InArrays p
  page : Shows v' (Page.print (faultMessage errCode faultingAddress)
    ⟨centredCell (faultMessage errCode faultingAddress).length, fun _ => 32⟩)
  screen : v.fb.OnScreen → v'.fb.OnScreen

/-! ## The array -/

/-- An array that holds a text and its NUL, read as a string. -/
theorem cstr_array {val : UInt32 → UInt8} {p : UInt32} {text : List UInt8} (h : HasText val p text) {n : Nat}
    (hn : text.length < n) : cstr ((List.range n).map fun i => val (cell p i)) = text := by
  have hlen : ((List.range n).map fun i => val (cell p i)).length = n := by
    rw [List.length_map, List.length_range]
  have hinside : text.length < ((List.range n).map fun i => val (cell p i)).length := by rw [hlen]; exact hn
  have htext : ((List.range n).map fun i => val (cell p i)).take text.length = text := by
    refine List.ext_getElem ?_ fun i hi hi' => ?_
    · rw [List.length_take, hlen, Nat.min_eq_left (Nat.le_of_lt hn)]
    · rw [List.getElem_take, List.getElem_map, List.getElem_range, h.byte i (Nat.le_of_lt hi'),
        List.getD_eq_getElem _ _ hi']
  have hnul : ((List.range n).map fun i => val (cell p i))[text.length] = 0 := by
    rw [List.getElem_map, List.getElem_range, h.byte _ (Nat.le_refl _), List.getD_eq_default _ _ (Nat.le_refl _)]
  have hkeep : ∀ c ∈ text, decide (c ≠ 0) = true := fun c hc => decide_eq_true fun e => h.noNul (e ▸ hc)
  rw [← List.take_append_drop text.length ((List.range n).map fun i => val (cell p i)), htext,
    List.drop_eq_getElem_cons hinside, hnul, cstr, List.takeWhile_append_of_pos hkeep]
  exact List.append_nil text

/-! ## The screen -/

section
variable {str : List UInt8} (h : strlen str ≤ 80) (v : Vga)
include h

theorem panicMoved_shows : Shows (panicMoved str v) ⟨centredCell (strlen str), fun _ => 32⟩ := by
  refine ⟨(start_iff (by omega) v).2 h, ?_, fun c hc => ?_⟩
  · show centredCell (strlen str) ≤ 2000
    unfold centredCell
    omega
  · rw [panicMoved_fb]
    exact chr_fbClear _ 4 4 c hc

theorem panic_shows : Shows (panic str v) (Page.print (cstr str) ⟨centredCell (strlen str), fun _ => 32⟩) := by
  have hmessage : panic str v = fbPrintStr (cstr str) 4 0 (panicMoved str v) :=
    fbPrintLstr_cstr str 4 0 (panicMoved str v)
  rw [hmessage]
  rw [strlen_eq_length] at h
  exact (panicMoved_shows (by rw [strlen_eq_length]; exact h) v).printStr (cstr str) (notMem_cstr str) (by omega) 4 0

theorem panic_onScreen (hv : v.fb.OnScreen) : (panic str v).fb.OnScreen := by
  have hmessage : panic str v = fbPrintStr (cstr str) 4 0 (panicMoved str v) :=
    fbPrintLstr_cstr str 4 0 (panicMoved str v)
  have hcursor := (start_iff (by omega) v).2 h
  have hcell : centredCell (strlen str) ≤ 1000 := by
    unfold centredCell
    omega
  rw [hmessage]
  rw [strlen_eq_length] at h hcursor hcell
  refine (onScreen_printStr (by omega) hcursor _ (notMem_cstr str) (by omega) 4 0).2 ⟨.inr (by omega), ?_⟩
  rw [panicMoved_fb, onScreen_fbClear, onScreen_fbClear]
  exact hv

end

/-! ## The message on the screen -/

/-- What a page fault puts on the screen, and where it stores, is as it should be exactly when at most two of
the four conditions hold. -/
theorem pageFault_panics_iff (a : PageFaultLayout) {val : UInt32 → UInt8} (hval : a.Loaded val)
    (errCode faultingAddress : UInt32) (v : Vga) :
    (∃ m' v', Settles (fun fuel => pageFaultPanics a errCode faultingAddress fuel (fresh val) v) (m', v') ∧
      FaultShown a errCode faultingAddress v m' v') ↔ (faultConditions errCode).count true ≤ 2 := by
  rw [← faultParts_length_iff]
  constructor
  · rintro ⟨m', v', ⟨N, hN⟩, hshown⟩
    by_contra hlong
    have hrun : Settles (fun fuel => pageFault a errCode faultingAddress fuel (fresh val)) m' := by
      refine ⟨N, fun fuel hfuel => ?_⟩
      obtain ⟨m, hm, heq⟩ := Option.map_eq_some_iff.1 (hN fuel hfuel)
      cases heq
      exact hm
    obtain ⟨p, hp, hout⟩ := pageFault_overruns hval errCode faultingAddress (Nat.lt_of_not_le hlong) hrun
    exact hout (hshown.inside p hp)
  · intro hshort
    obtain ⟨m', ⟨N, hN⟩, hinside, htext⟩ := pageFault_settles hval errCode faultingAddress hshort
    have hstart := pageFaultStart_length
    obtain ⟨-, -, -, -, hat0x⟩ := literal_lengths
    have hhex := hexText_length faultingAddress.toInt32
    have hlength : (faultMessage errCode faultingAddress).length < 64 := by
      simp only [faultMessage, List.length_append]
      omega
    have hread := cstr_array (show HasText _ _ (faultMessage errCode faultingAddress) from htext) hlength
    have hstrlen := congrArg List.length hread
    rw [← strlen_eq_length] at hstrlen
    have hpage := panic_shows (by rw [hstrlen]; omega) v
    rw [hread, hstrlen] at hpage
    refine ⟨m', _, ⟨N, fun fuel hfuel => ?_⟩, hinside, hpage, panic_onScreen (by rw [hstrlen]; omega) v⟩
    exact Option.map_eq_some_iff.2 ⟨m', hN fuel hfuel, rfl⟩

/-- The kernel writes to a page that is not present. -/
theorem pageFault_panics_iff_write : ∃ m' v',
    Settles (fun fuel => pageFaultPanics literalsInRow 2 0xDEADBEEF fuel (fresh literalsBytes) .powerOn) (m', v') ∧
    FaultShown literalsInRow 2 0xDEADBEEF .powerOn m' v' :=
  (pageFault_panics_iff literalsInRow literalsInRow_loaded 2 0xDEADBEEF .powerOn).2 (by decide)

end HavenOS
