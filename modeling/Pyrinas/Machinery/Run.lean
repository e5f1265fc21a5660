import Mathlib.Data.List.Infix

/-!
# Machinery/Run — running a state machine over a schedule of events

    s ──e₁──▸ s₁ ──e₂──▸ s₂ ── ⋯        step : σ → ε → σ,  one event after another

`step` is total: an event that cannot happen in a state leaves it where it is, so every list of
events is a schedule and nothing is assumed about the order.  Three readings of a schedule:

* `Always P` — `P` holds at the start and at every state reached;
* `Meets ok` — every event is taken in a state where `ok` allows it;
* `Robust ok P` — wherever the schedule is cut and continued within `ok`, `P` always holds.

`always_iff_meets` and `robust_iff_meets` turn an inductive invariant and one lemma about a step
that `ok` forbids into an exact condition for `P` along the whole schedule.
-/

namespace Machinery

variable {σ ε : Type*}

/-! ## Runs -/

/-- The state a schedule leads to. -/
def run (step : σ → ε → σ) (s : σ) (es : List ε) : σ := es.foldl step s

section Run

variable (step : σ → ε → σ)

@[simp] theorem run_nil (s : σ) : run step s [] = s := rfl

@[simp] theorem run_cons (s : σ) (e : ε) (es : List ε) :
    run step s (e :: es) = run step (step s e) es := rfl

@[simp] theorem run_append (s : σ) (es fs : List ε) :
    run step s (es ++ fs) = run step (run step s es) fs := List.foldl_append

variable {step}

/-- **Collecting**: a machine that adds each of its next `n` events to what it has collected has
collected all of them at the end. -/
theorem run_collect {f : List ε → σ} {n : ℕ}
    (h : ∀ got e, got.length < n → step (f got) e = f (got ++ [e])) (got es : List ε)
    (hn : got.length + es.length ≤ n) : run step (f got) es = f (got ++ es) := by
  induction es generalizing got with
  | nil => rw [run_nil, List.append_nil]
  | cons e es ih =>
    rw [List.length_cons] at hn
    rw [run_cons, h got e (by omega), ih (got ++ [e]) (by rw [List.length_append]; simp; omega),
      List.append_assoc, List.singleton_append]

end Run

/-! ## Properties along a schedule -/

/-- `P` holds at the start and after every event. -/
def Always (step : σ → ε → σ) (P : σ → Prop) (s : σ) (es : List ε) : Prop :=
  ∀ qs, qs <+: es → P (run step s qs)

/-- Every event is taken in a state where `ok` allows it. -/
def Meets (step : σ → ε → σ) (ok : σ → ε → Prop) (s : σ) (es : List ε) : Prop :=
  ∀ qs e, qs ++ [e] <+: es → ok (run step s qs) e

/-- `P` holds along the schedule and along everything it can turn into: cut it anywhere and go on
with events `ok` allows.  A schedule may end before a harm done in it shows, or hide it by a
coincidence; no coincidence survives every continuation. -/
def Robust (step : σ → ε → σ) (ok : σ → ε → Prop) (P : σ → Prop) (s : σ) (es : List ε) : Prop :=
  ∀ qs, qs <+: es → ∀ rs, Meets step ok (run step s qs) rs → Always step P s (qs ++ rs)

section Along

variable {step : σ → ε → σ} {ok : σ → ε → Prop} {P I : σ → Prop}

theorem Always.head {s : σ} {es : List ε} (h : Always step P s es) : P s :=
  h [] List.nil_prefix

theorem Always.last {s : σ} {es : List ε} (h : Always step P s es) : P (run step s es) :=
  h es List.prefix_rfl

@[simp] theorem always_nil {s : σ} : Always step P s [] ↔ P s :=
  ⟨Always.head, fun h qs hqs => by rwa [List.prefix_nil.mp hqs]⟩

@[simp] theorem always_cons {s : σ} {e : ε} {es : List ε} :
    Always step P s (e :: es) ↔ P s ∧ Always step P (step s e) es := by
  refine ⟨fun h => ⟨h.head, fun qs hqs => h (e :: qs) (List.cons_prefix_cons.mpr ⟨rfl, hqs⟩)⟩,
    fun h qs hqs => ?_⟩
  rcases List.prefix_cons_iff.mp hqs with rfl | ⟨ts, rfl, hts⟩
  · exact h.1
  · exact h.2 ts hts

@[simp] theorem meets_nil {s : σ} : Meets step ok s [] := fun qs e h =>
  absurd (List.prefix_nil.mp h) (by simp)

@[simp] theorem meets_cons {s : σ} {e : ε} {es : List ε} :
    Meets step ok s (e :: es) ↔ ok s e ∧ Meets step ok (step s e) es := by
  refine ⟨fun h => ⟨h [] e (by simp), fun qs f hqs => h (e :: qs) f ?_⟩, fun h qs f hqs => ?_⟩
  · exact List.cons_prefix_cons.mpr ⟨rfl, hqs⟩
  · cases qs with
    | nil =>
      obtain ⟨rfl, -⟩ := List.cons_prefix_cons.mp hqs
      exact h.1
    | cons q qs =>
      obtain ⟨rfl, htl⟩ := List.cons_prefix_cons.mp hqs
      exact h.2 qs f htl

theorem always_append {s : σ} {es fs : List ε} :
    Always step P s (es ++ fs) ↔ Always step P s es ∧ Always step P (run step s es) fs := by
  induction es generalizing s with
  | nil => exact ⟨fun h => ⟨always_nil.mpr h.head, h⟩, And.right⟩
  | cons e es ih => simp only [List.cons_append, always_cons, ih, run_cons, and_assoc]

theorem meets_append {s : σ} {es fs : List ε} :
    Meets step ok s (es ++ fs) ↔ Meets step ok s es ∧ Meets step ok (run step s es) fs := by
  induction es generalizing s with
  | nil => simp
  | cons e es ih => simp only [List.cons_append, meets_cons, ih, run_cons, and_assoc]

theorem meets_of_forall_mem {p : ε → Prop} {s : σ} {es : List ε} (h : ∀ e ∈ es, p e) :
    Meets step (fun _ e => p e) s es := fun _ e hqs =>
  h e (hqs.subset (List.mem_append_right _ List.mem_cons_self))

theorem Meets.of_prefix {s : σ} {qs es : List ε} (h : Meets step ok s es) (hqs : qs <+: es) :
    Meets step ok s qs := fun ts e hts => h ts e (hts.trans hqs)

/-- What is robust holds along the schedule itself. -/
theorem Robust.always {s : σ} {es : List ε} (h : Robust step ok P s es) : Always step P s es := by
  have hall := h es List.prefix_rfl [] meets_nil
  rwa [List.append_nil] at hall

theorem Robust.of_prefix {s : σ} {qs es : List ε} (h : Robust step ok P s es) (hqs : qs <+: es) :
    Robust step ok P s qs := fun ts hts => h ts (hts.trans hqs)

/-! ## Invariants -/

/-- **Induction over a schedule**: what every allowed step preserves holds at the end. -/
theorem invariant_run (hstep : ∀ s e, I s → ok s e → I (step s e)) {s : σ} {es : List ε}
    (hs : I s) (h : Meets step ok s es) : I (run step s es) := by
  induction es generalizing s with
  | nil => exact hs
  | cons e es ih =>
    obtain ⟨he, hes⟩ := meets_cons.mp h
    exact ih (hstep s e hs he) hes

/-- …and so does everything it implies, at every state on the way. -/
theorem always_of_meets (hstep : ∀ s e, I s → ok s e → I (step s e)) (hP : ∀ s, I s → P s)
    {s : σ} {es : List ε} (hs : I s) (h : Meets step ok s es) : Always step P s es :=
  fun _ hqs => hP _ (invariant_run hstep hs (h.of_prefix hqs))

/-- An invariant of every step holds along every schedule. -/
theorem invariant_run_all (hstep : ∀ s e, I s → I (step s e)) {s : σ} (hs : I s) (es : List ε) :
    I (run step s es) :=
  have hall : Meets step (fun _ _ => True) s es := fun _ _ _ => trivial
  invariant_run (fun s e h _ => hstep s e h) hs hall

/-- **A latch**: what an event sets, and no event clears, holds at the end iff it held at the start
or was set on the way. -/
theorem latch_run {Q : σ → ε → Prop} (hstep : ∀ s e, P (step s e) ↔ P s ∨ Q s e) (s : σ)
    (es : List ε) :
    P (run step s es) ↔ P s ∨ ∃ qs e rs, es = qs ++ e :: rs ∧ Q (run step s qs) e := by
  induction es generalizing s with
  | nil => simp
  | cons e es ih =>
    rw [run_cons, ih, hstep, or_assoc]
    refine or_congr_right ⟨?_, ?_⟩
    · rintro (hq | ⟨qs, f, rs, rfl, hq⟩)
      · exact ⟨[], e, es, rfl, hq⟩
      · exact ⟨e :: qs, f, rs, rfl, hq⟩
    · rintro ⟨_ | ⟨q, qs⟩, f, rs, heq, hq⟩
      · obtain ⟨rfl, rfl⟩ := List.cons.inj heq
        exact .inl hq
      · obtain ⟨rfl, rfl⟩ := List.cons.inj heq
        exact .inr ⟨qs, f, rs, rfl, hq⟩

/-- **Progress**: a schedule that has in it, in their order, the events a state waits for leads to
where nothing is waited for; what comes between them lets it wait on. -/
theorem progress_run {W : List ε → σ → Prop} (hstay : ∀ ks s e, W ks s → W ks (step s e))
    (hgo : ∀ k ks s, W (k :: ks) s → W ks (step s k)) {ks es : List ε} (h : ks.Sublist es) {s : σ}
    (hs : W ks s) : W [] (run step s es) := by
  induction h generalizing s with
  | slnil => exact hs
  | cons e _ ih => exact ih (hstay _ _ e hs)
  | cons_cons k _ ih => exact ih (hgo k _ s hs)

/-- **Two machines side by side**: what every pair of events preserves between them holds at the
end. -/
theorem simulation_run {τ ι κ : Type*} {step' : τ → ι → τ} {R : σ → τ → Prop} {f : κ → ε}
    {g : κ → ι} (hstep : ∀ s t k, R s t → R (step s (f k)) (step' t (g k))) {s : σ} {t : τ}
    (h : R s t) (ks : List κ) : R (run step s (ks.map f)) (run step' t (ks.map g)) := by
  induction ks generalizing s t with
  | nil => exact h
  | cons k ks ih => exact ih (hstep s t k h)

/-- **The exact condition, when a forbidden step shows at once**: `P` holds along the schedule iff
every event is allowed. -/
theorem always_iff_meets (hstep : ∀ s e, I s → ok s e → I (step s e)) (hP : ∀ s, I s → P s)
    (hbad : ∀ s e, I s → ¬ ok s e → ¬ P (step s e)) {s : σ} (hs : I s) (es : List ε) :
    Always step P s es ↔ Meets step ok s es := by
  refine ⟨fun h => ?_, always_of_meets hstep hP hs⟩
  induction es generalizing s with
  | nil => exact meets_nil
  | cons e es ih =>
    obtain ⟨-, hes⟩ := always_cons.mp h
    have he : ok s e := by
      by_contra hne
      exact hbad s e hs hne hes.head
    exact meets_cons.mpr ⟨he, ih (hstep s e hs he) hes⟩

/-- **The exact condition, when a forbidden step may show later**: if every forbidden step can be
continued by allowed ones into a violation, `P` is robust along the schedule iff every event is
allowed. -/
theorem robust_iff_meets (hstep : ∀ s e, I s → ok s e → I (step s e)) (hP : ∀ s, I s → P s)
    (hbad : ∀ s e, I s → ¬ ok s e →
      ∃ rs, Meets step ok (step s e) rs ∧ ¬ Always step P (step s e) rs)
    {s : σ} (hs : I s) (es : List ε) : Robust step ok P s es ↔ Meets step ok s es := by
  constructor
  · induction es using List.reverseRecOn with
    | nil => exact fun _ => meets_nil
    | append_singleton es e ih =>
      intro h
      have hes : Meets step ok s es := ih (h.of_prefix (List.prefix_append es [e]))
      refine meets_append.mpr ⟨hes, meets_cons.mpr ⟨?_, meets_nil⟩⟩
      by_contra hne
      obtain ⟨rs, hrs, hviol⟩ := hbad _ e (invariant_run hstep hs hes) hne
      have hall := h (es ++ [e]) List.prefix_rfl rs (by simpa using hrs)
      exact hviol (by simpa using (always_append.mp hall).2)
  · exact fun h qs hqs rs hrs => always_of_meets hstep hP hs
      (meets_append.mpr ⟨h.of_prefix hqs, hrs⟩)

end Along

end Machinery
