import Mathlib.Data.List.Infix

/-!
# Deterministic machines and their runs

A machine is a step function `step : σ → ε → σ`; a run feeds it a list of
events. This module has the rules that turn facts about one step into facts
about runs:

* `throughout_of_step`: an invariant that every admissible step keeps holds in
  every state of an admissible run.
* `throughout_iff_stepsOk`: when a step keeps the invariant exactly when it is
  admissible, the two sides are equivalent.
* `exists_first_failure`: a run that is not admissible has a first bad step.
* `simulation`, `simulation_map`: a relation kept by matching steps relates the
  ends of two runs.
* `finishes_within`: a run whose steps have less and less to do comes to its end.
* `Reaches`: reachability, as a preorder on states.
-/

namespace Machine

variable {σ τ ε : Type}

/-- The state after the events, from `s`. -/
def run (step : σ → ε → σ) (s : σ) (es : List ε) : σ := es.foldl step s

@[simp] theorem run_nil (step : σ → ε → σ) (s : σ) : run step s [] = s := rfl

@[simp] theorem run_cons (step : σ → ε → σ) (s : σ) (e : ε) (es : List ε) :
    run step s (e :: es) = run step (step s e) es := rfl

theorem run_append (step : σ → ε → σ) (s : σ) (xs ys : List ε) :
    run step s (xs ++ ys) = run step (run step s xs) ys :=
  List.foldl_append

theorem run_concat (step : σ → ε → σ) (s : σ) (es : List ε) (e : ε) :
    run step s (es ++ [e]) = step (run step s es) e := by
  rw [run_append, run_cons, run_nil]

/-- `I` holds in every state of the run, the first and the last included. -/
def Throughout (step : σ → ε → σ) (I : σ → Prop) (s : σ) (es : List ε) : Prop :=
  ∀ pre, pre <+: es → I (run step s pre)

/-- Every step of the run is admissible in the state it is taken from. -/
def StepsOk (step : σ → ε → σ) (ok : σ → ε → Prop) (s : σ) : List ε → Prop
  | [] => True
  | e :: es => ok s e ∧ StepsOk step ok (step s e) es

theorem throughout_nil {step : σ → ε → σ} {I : σ → Prop} {s : σ} :
    Throughout step I s [] ↔ I s := by
  simp [Throughout]

theorem throughout_cons {step : σ → ε → σ} {I : σ → Prop} {s : σ} {e : ε} {es : List ε} :
    Throughout step I s (e :: es) ↔ I s ∧ Throughout step I (step s e) es := by
  constructor
  · intro h
    exact ⟨h [] List.nil_prefix, fun pre hpre => h (e :: pre) (List.cons_prefix_cons.mpr ⟨rfl, hpre⟩)⟩
  · rintro ⟨h0, h⟩ pre hpre
    cases pre with
    | nil => exact h0
    | cons a pre =>
      obtain ⟨rfl, htail⟩ := List.cons_prefix_cons.mp hpre
      exact h pre htail

theorem stepsOk_iff_forall {step : σ → ε → σ} {ok : σ → ε → Prop} {s : σ} {es : List ε} :
    StepsOk step ok s es ↔ ∀ pre e post, es = pre ++ e :: post → ok (run step s pre) e := by
  induction es generalizing s with
  | nil => simp [StepsOk]
  | cons e es ih =>
    unfold StepsOk
    rw [ih]
    constructor
    · rintro ⟨hhead, htail⟩ pre a post heq
      cases pre with
      | nil =>
        obtain ⟨rfl, -⟩ := List.cons.inj heq
        exact hhead
      | cons b pre =>
        obtain ⟨rfl, htl⟩ := List.cons.inj heq
        exact htail pre a post htl
    · intro h
      exact ⟨h [] e es rfl, fun pre a post heq => h (e :: pre) a post (congrArg (e :: ·) heq)⟩

/-- A run with an inadmissible step has a first one. -/
theorem exists_first_failure {step : σ → ε → σ} {ok : σ → ε → Prop} {s : σ} {es : List ε}
    (h : ¬ StepsOk step ok s es) :
    ∃ pre e post, es = pre ++ e :: post ∧ StepsOk step ok s pre ∧ ¬ ok (run step s pre) e := by
  induction es generalizing s with
  | nil => exact absurd trivial h
  | cons e es ih =>
    by_cases he : ok s e
    · obtain ⟨pre, a, post, rfl, hpre, ha⟩ := ih fun hes => h ⟨he, hes⟩
      exact ⟨e :: pre, a, post, rfl, ⟨he, hpre⟩, ha⟩
    · exact ⟨[], e, es, rfl, trivial, he⟩

/-- Two machines fed the same events. -/
theorem run_prod (step : σ → ε → σ) (step' : τ → ε → τ) (s : σ) (t : τ) (es : List ε) :
    run (fun x e => (step x.1 e, step' x.2 e)) (s, t) es = (run step s es, run step' t es) := by
  induction es generalizing s t with
  | nil => rfl
  | cons e es ih => exact ih (step s e) (step' t e)

/-- A map that commutes with the steps commutes with the runs. -/
theorem run_hom {step : σ → ε → σ} {step' : τ → ε → τ} {f : σ → τ}
    (h : ∀ s e, f (step s e) = step' (f s) e) (s : σ) (es : List ε) :
    f (run step s es) = run step' (f s) es := by
  induction es generalizing s with
  | nil => rfl
  | cons e es ih =>
    rw [run_cons, run_cons, ih, h]

/-- An invariant kept by every admissible step holds throughout an admissible run. -/
theorem throughout_of_step {step : σ → ε → σ} {I : σ → Prop} {ok : σ → ε → Prop}
    (hstep : ∀ s e, I s → ok s e → I (step s e)) {s : σ} (h0 : I s) {es : List ε}
    (hok : StepsOk step ok s es) : Throughout step I s es := by
  induction es generalizing s with
  | nil => exact throughout_nil.mpr h0
  | cons e es ih => exact throughout_cons.mpr ⟨h0, ih (hstep s e h0 hok.1) hok.2⟩

/-- Where a step keeps the invariant exactly when it is admissible, a run keeps
it throughout exactly when all its steps are admissible. What else holds as long
as the invariant does may be used in the step. -/
theorem throughout_iff_stepsOk_of_invariant {step : σ → ε → σ} {I J : σ → Prop} {ok : σ → ε → Prop}
    (hJ : ∀ s e, J s → I s → I (step s e) → J (step s e))
    (hstep : ∀ s e, J s → I s → (I (step s e) ↔ ok s e)) {s : σ} (hJ0 : J s) (h0 : I s)
    (es : List ε) : Throughout step I s es ↔ StepsOk step ok s es := by
  induction es generalizing s with
  | nil => exact ⟨fun _ => trivial, fun _ => throughout_nil.mpr h0⟩
  | cons e es ih =>
    rw [throughout_cons]
    unfold StepsOk
    rw [← hstep s e hJ0 h0]
    constructor
    · rintro ⟨-, hrest⟩
      have hI : I (step s e) := hrest [] List.nil_prefix
      exact ⟨hI, (ih (hJ s e hJ0 h0 hI) hI).mp hrest⟩
    · rintro ⟨hI, hrest⟩
      exact ⟨h0, (ih (hJ s e hJ0 h0 hI) hI).mpr hrest⟩

theorem throughout_iff_stepsOk {step : σ → ε → σ} {I : σ → Prop} {ok : σ → ε → Prop}
    (hstep : ∀ s e, I s → (I (step s e) ↔ ok s e)) {s : σ} (h0 : I s) (es : List ε) :
    Throughout step I s es ↔ StepsOk step ok s es :=
  throughout_iff_stepsOk_of_invariant (J := fun _ => True) (fun _ _ _ _ _ => trivial)
    (fun s e _ => hstep s e) trivial
    h0 es

/-- The invariant rule for steps that need no condition. -/
theorem invariant_run {step : σ → ε → σ} {I : σ → Prop} (hstep : ∀ s e, I s → I (step s e))
    {s : σ} (h0 : I s) (es : List ε) : I (run step s es) := by
  induction es generalizing s with
  | nil => exact h0
  | cons e es ih => exact ih (hstep s e h0)

/-- Forward simulation: a relation kept by matching admissible steps of two
machines is kept by their runs on the same events. -/
theorem simulation {step : σ → ε → σ} {step' : τ → ε → τ} {R : σ → τ → Prop}
    {ok : σ → ε → Prop} (hstep : ∀ s t e, R s t → ok s e → R (step s e) (step' t e))
    {s : σ} {t : τ} (h0 : R s t) {es : List ε} (hok : StepsOk step ok s es) :
    R (run step s es) (run step' t es) := by
  induction es generalizing s t with
  | nil => exact h0
  | cons e es ih => exact ih (hstep s t e h0 hok.1) hok.2

/-- The same rule for steps that need no condition, where the second machine is
fed the images of the events. -/
theorem simulation_map {ε' : Type} {step : σ → ε → σ} {step' : τ → ε' → τ} {R : σ → τ → Prop}
    {f : ε → ε'} (hstep : ∀ s t e, R s t → R (step s e) (step' t (f e))) {s : σ} {t : τ}
    (h0 : R s t) (es : List ε) : R (run step s es) (run step' t (es.map f)) := by
  induction es generalizing s t with
  | nil => exact h0
  | cons e es ih => exact ih (hstep s t e h0)

/-- A run whose steps have less and less to do comes to its end. -/
theorem finishes_within {step : σ → ε → σ} {I Done : σ → Prop} {ok : ε → Prop} {work : σ → Nat}
    (hstep : ∀ s e, I s → ok e → Done (step s e) ∨ (I (step s e) ∧ work (step s e) < work s))
    (hzero : ∀ s, I s → work s = 0 → Done s) {s : σ} (h0 : I s) {es : List ε} (hok : ∀ e ∈ es, ok e)
    (hwork : work s ≤ es.length) : ∃ n, Done (run step s (es.take n)) := by
  induction es generalizing s with
  | nil => exact ⟨0, hzero s h0 (Nat.le_zero.mp hwork)⟩
  | cons e es ih =>
    obtain ⟨he, hes⟩ := List.forall_mem_cons.mp hok
    rcases hstep s e h0 he with hdone | ⟨hI, hless⟩
    · exact ⟨1, hdone⟩
    · obtain ⟨n, hn⟩ := ih hI hes (Nat.le_of_lt_succ (Nat.lt_of_lt_of_le hless hwork))
      exact ⟨n + 1, hn⟩

/-- Some run leads from `s` to `t`. -/
def Reaches (step : σ → ε → σ) (s t : σ) : Prop := ∃ es, run step s es = t

theorem Reaches.refl (step : σ → ε → σ) (s : σ) : Reaches step s s := ⟨[], rfl⟩

theorem Reaches.step {step : σ → ε → σ} {s t : σ} (h : Reaches step s t) (e : ε) :
    Reaches step s (step t e) := by
  obtain ⟨es, rfl⟩ := h
  exact ⟨es ++ [e], run_concat step s es e⟩

theorem Reaches.trans {step : σ → ε → σ} {s t u : σ} (h : Reaches step s t) (h' : Reaches step t u) :
    Reaches step s u := by
  obtain ⟨es, rfl⟩ := h
  obtain ⟨fs, rfl⟩ := h'
  exact ⟨es ++ fs, run_append step s es fs⟩

theorem Reaches.invariant {step : σ → ε → σ} {I : σ → Prop} (hstep : ∀ s e, I s → I (step s e))
    {s t : σ} (h : Reaches step s t) (h0 : I s) : I t := by
  obtain ⟨es, rfl⟩ := h
  exact invariant_run hstep h0 es

end Machine
