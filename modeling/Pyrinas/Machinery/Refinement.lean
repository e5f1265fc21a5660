import Pyrinas.Machinery.Run

/-!
# Machinery/Refinement — one step as several steps of another machine

    s ──e₁──▸ s₁ ──e₂──▸ s₂ ── ⋯
    │R        │R         │R              steps s e₁ = [i₁, i₂, …]
    t ──steps s e₁──▸ t₁ ──steps s₁ e₂──▸ t₂ ── ⋯

A step of the fine machine does any number of steps of the coarse one, none included, and which
ones depends on where it is taken.  A schedule of the fine machine is then a schedule of the coarse
one, its `trace`; two schedules with one trace end in the same place of the coarse machine, however
the steps are cut.
-/

namespace Machinery

variable {σ ε τ ι : Type*}

section Trace

variable (step : σ → ε → σ) (steps : σ → ε → List ι)

/-- The schedule of the coarse machine that a schedule of the fine one performs. -/
def trace : σ → List ε → List ι
  | _, [] => []
  | s, e :: es => steps s e ++ trace (step s e) es

@[simp] theorem trace_nil (s : σ) : trace step steps s [] = [] := rfl

@[simp] theorem trace_cons (s : σ) (e : ε) (es : List ε) :
    trace step steps s (e :: es) = steps s e ++ trace step steps (step s e) es := rfl

theorem map_trace {κ : Type*} (f : ι → κ) (s : σ) (es : List ε) :
    (trace step steps s es).map f = trace step (fun s e => (steps s e).map f) s es := by
  induction es generalizing s with
  | nil => rfl
  | cons e es ih => simp only [trace_cons, List.map_append, ih]

end Trace

section Refinement

variable {step : σ → ε → σ} {steps : σ → ε → List ι} {step' : τ → ι → τ} {R : σ → τ → Prop}

/-- **Refinement over a schedule**: what relates the two machines after every step relates them at
the end. -/
theorem refines_run (hstep : ∀ s t e, R s t → R (step s e) (run step' t (steps s e))) {s : σ}
    {t : τ} (h : R s t) (es : List ε) :
    R (run step s es) (run step' t (trace step steps s es)) := by
  induction es generalizing s t with
  | nil => exact h
  | cons e es ih =>
    rw [run_cons, trace_cons, run_append]
    exact ih (hstep s t e h)

/-- What every step takes from a store, over a schedule: nothing is lost, and nothing overtakes. -/
theorem trace_append_store {I : σ → Prop} (hI : ∀ s e, I s → I (step s e)) {store : σ → List ι}
    {added : ε → List ι}
    (hstep : ∀ s e, I s → steps s e ++ store (step s e) = store s ++ added e) {s : σ} (h : I s)
    (es : List ε) :
    trace step steps s es ++ store (run step s es) = store s ++ es.flatMap added := by
  induction es generalizing s with
  | nil => simp
  | cons e es ih =>
    rw [trace_cons, run_cons, List.append_assoc, ih (hI s e h), ← List.append_assoc, hstep s e h,
      List.flatMap_cons, List.append_assoc]

/-- A property of every event is a property of what the coarse machine is made to do. -/
theorem forall_mem_trace {p : ι → Prop} {s : σ} {es : List ε}
    (h : Meets step (fun s e => ∀ i ∈ steps s e, p i) s es) :
    ∀ i ∈ trace step steps s es, p i := by
  induction es generalizing s with
  | nil => simp
  | cons e es ih =>
    obtain ⟨he, hes⟩ := meets_cons.mp h
    intro i hi
    rcases List.mem_append.mp hi with hi | hi
    · exact he i hi
    · exact ih hes i hi

end Refinement

end Machinery
