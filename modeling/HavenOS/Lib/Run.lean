/-
Runs of a system that takes one input after another: a state that may get stuck, the state after
a list of inputs, and what holds after every prefix of a run.
-/
import Mathlib.Data.List.Induction

namespace Run

variable {ι σ : Type} (step : ι → σ → Option σ)

/-- The state after every input in turn; `none` once a step gets stuck. -/
def run : List ι → σ → Option σ
  | [], s => some s
  | i :: is, s => (step i s).bind (run is)

@[simp] theorem run_nil (s : σ) : run step [] s = some s := rfl

theorem run_cons (i : ι) (is : List ι) (s : σ) : run step (i :: is) s = (step i s).bind (run step is) := rfl

theorem run_append : ∀ (is js : List ι) (s : σ), run step (is ++ js) s = (run step is s).bind (run step js)
  | [], _, _ => rfl
  | i :: is, js, s => by
    rw [List.cons_append, run_cons, run_cons, Option.bind_assoc]
    congr 1
    funext s'
    exact run_append is js s'

theorem run_snoc (is : List ι) (i : ι) (s : σ) : run step (is ++ [i]) s = (run step is s).bind (step i) := by
  rw [run_append]
  congr 1
  funext s'
  rw [run_cons]
  cases step i s' <;> rfl

/-- A step that always succeeds keeps every run going. -/
theorem run_total (h : ∀ i s, ∃ s', step i s = some s') (is : List ι) (s : σ) : ∃ s', run step is s = some s' := by
  induction is generalizing s with
  | nil => exact ⟨s, rfl⟩
  | cons i is ih =>
    obtain ⟨s1, h1⟩ := h i s
    obtain ⟨s2, h2⟩ := ih s1
    exact ⟨s2, by rw [run_cons, h1]; exact h2⟩

/-- A system whose steps on good inputs follow those of another one, which never gets stuck, follows its
runs on good inputs. -/
theorem run_simulates_of {τ : Type} {next : ι → τ → τ} {R : σ → τ → Prop} {Good : ι → Prop}
    (h : ∀ i s t, Good i → R s t → ∃ s', step i s = some s' ∧ R s' (next i t)) (is : List ι)
    (hgood : ∀ i ∈ is, Good i) {s : σ} {t : τ} (hst : R s t) :
    ∃ s', run step is s = some s' ∧ R s' (is.foldl (fun t i => next i t) t) := by
  induction is generalizing s t with
  | nil => exact ⟨s, rfl, hst⟩
  | cons i is ih =>
    obtain ⟨hfirst, hrest⟩ := List.forall_mem_cons.1 hgood
    obtain ⟨s1, h1, hst1⟩ := h i s t hfirst hst
    obtain ⟨s2, h2, hst2⟩ := ih hrest hst1
    exact ⟨s2, by rw [run_cons, h1]; exact h2, hst2⟩

/-- A system whose steps all follow those of another one follows its runs. -/
theorem run_simulates {τ : Type} {next : ι → τ → τ} {R : σ → τ → Prop}
    (h : ∀ i s t, R s t → ∃ s', step i s = some s' ∧ R s' (next i t)) (is : List ι) {s : σ} {t : τ} (hst : R s t) :
    ∃ s', run step is s = some s' ∧ R s' (is.foldl (fun t i => next i t) t) :=
  run_simulates_of step (fun i s t _ => h i s t) is (fun _ _ => trivial) hst

/-- What holds of every input of a run, given those before it, holds of the first one and of the
rest. -/
theorem forall_prefix_cons {P : List ι → ι → Prop} (i : ι) (is : List ι) :
    (∀ pre j, pre ++ [j] <+: i :: is → P pre j) ↔ P [] i ∧ ∀ pre j, pre ++ [j] <+: is → P (i :: pre) j := by
  constructor
  · intro h
    refine ⟨h [] i (by simp), fun pre j hpre => h (i :: pre) j ?_⟩
    rw [List.cons_append, List.cons_prefix_cons]
    exact ⟨rfl, hpre⟩
  · rintro ⟨hfirst, hrest⟩ pre j hpre
    cases pre with
    | nil =>
      rw [List.nil_append, List.cons_prefix_cons] at hpre
      exact hpre.1 ▸ hfirst
    | cons a pre =>
      rw [List.cons_append, List.cons_prefix_cons] at hpre
      obtain ⟨rfl, hpre⟩ := hpre
      exact hrest pre j hpre

/-- A property that the next input keeps exactly when it is good holds after every prefix of a run
exactly when every input of the run is good where it comes. -/
theorem prefixes_iff {P : List ι → Prop} {Good : List ι → ι → Prop} (hnil : P [])
    (hstep : ∀ pre i, P pre → (P (pre ++ [i]) ↔ Good pre i)) (is : List ι) :
    (∀ pre, pre <+: is → P pre) ↔ ∀ pre i, pre ++ [i] <+: is → Good pre i := by
  constructor
  · intro h pre i hpre
    exact (hstep pre i (h pre ((List.prefix_append pre [i]).trans hpre))).1 (h _ hpre)
  · intro h pre
    induction pre using List.reverseRecOn with
    | nil => exact fun _ => hnil
    | append_singleton pre i ih =>
      intro hpre
      exact (hstep pre i (ih ((List.prefix_append pre [i]).trans hpre))).2 (h pre i hpre)

/-- The same for the state a run reaches, when every step succeeds. -/
theorem run_prefixes_iff {P : List ι → σ → Prop} {Good : List ι → σ → ι → Prop} {s0 : σ} (hnil : P [] s0)
    (hstep : ∀ pre s i, P pre s → ∃ s', step i s = some s' ∧ (P (pre ++ [i]) s' ↔ Good pre s i)) (is : List ι) :
    (∀ pre, pre <+: is → ∃ s, run step pre s0 = some s ∧ P pre s) ↔
    ∀ pre i, pre ++ [i] <+: is → ∀ s, run step pre s0 = some s → Good pre s i := by
  refine prefixes_iff ⟨s0, rfl, hnil⟩ (fun pre i => ?_) is
  rintro ⟨s, hrun, hP⟩
  obtain ⟨s', hs', hiff⟩ := hstep pre s i hP
  have hrun' : run step (pre ++ [i]) s0 = some s' := by rw [run_snoc, hrun]; exact hs'
  constructor
  · rintro ⟨t', ht', hP'⟩ t ht
    cases hrun.symm.trans ht
    cases hrun'.symm.trans ht'
    exact hiff.1 hP'
  · intro hgood
    exact ⟨s', hrun', hiff.2 (hgood s hrun)⟩

end Run
