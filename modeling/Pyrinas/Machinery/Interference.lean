import Mathlib.Logic.Relation

/-!
# Machinery/Interference — programs whose calls the world gets in between

A program makes a call, waits for the answer, and goes on with it.  Before every call the state may
move on by itself, as far as a **rely** relation lets it; the call then **acts** on the state.

    s ──rely──▸ s' ──acts i o──▸ s'' ──▸ the program after the answer o

`wp` is the weakest precondition of a program in such a world.  It is stable while the program waits
and holds of what is left after each call, so it is an invariant of the interleaved execution:
nothing has to be said about where in the program the execution stands.
-/

namespace Machinery

/-- A program: it returns, or it makes a call and goes on with the answer. -/
inductive Prog (ι ο : Type*) (α : Type*)
  | ret (a : α)
  | call (i : ι) (k : ο → Prog ι ο α)

namespace Prog

variable {ι ο α β σ : Type*}

/-- One program after another. -/
def bind : Prog ι ο α → (α → Prog ι ο β) → Prog ι ο β
  | .ret a, f => f a
  | .call i k, f => .call i fun o => (k o).bind f

instance : Monad (Prog ι ο) where
  pure := .ret
  bind := Prog.bind

@[simp] theorem ret_bind (a : α) (f : α → Prog ι ο β) : (ret a).bind f = f a := rfl

/-- The program run with nothing in between. -/
def exec (act : ι → σ → ο × σ) : Prog ι ο α → σ → α × σ
  | .ret a, s => (a, s)
  | .call i k, s => (k (act i s).1).exec act (act i s).2

/-! ## Weakest preconditions -/

/-- From `s` the program returns in a state where `Q` holds, whatever gets in between and whatever
is answered. -/
def wp (rely : ι → σ → σ → Prop) (acts : ι → σ → ο → σ → Prop) :
    Prog ι ο α → (α → σ → Prop) → σ → Prop
  | .ret a, Q, s => Q a s
  | .call i k, Q, s => ∀ s', Relation.ReflTransGen (rely i) s s' →
      ∀ o s'', acts i s' o s'' → (k o).wp rely acts Q s''

section Rules

variable {rely : ι → σ → σ → Prop} {acts : ι → σ → ο → σ → Prop} {Q : α → σ → Prop} {s s' : σ}
  {i : ι} {k : ο → Prog ι ο α}

theorem wp_bind {p : Prog ι ο β} {f : β → Prog ι ο α} :
    (p.bind f).wp rely acts Q s ↔ p.wp rely acts (fun b => (f b).wp rely acts Q) s := by
  induction p generalizing s with
  | ret b => exact Iff.rfl
  | call i k ih => simp only [bind, wp, ih]

/-- What holds of every outcome holds after every program. -/
theorem wp_of_forall (h : ∀ a s, Q a s) (p : Prog ι ο α) (s : σ) : p.wp rely acts Q s := by
  induction p generalizing s with
  | ret a => exact h a s
  | call i k ih => exact fun _ _ o s'' _ => ih o s''

/-- **A call, with an assertion that holds while the program waits.** -/
theorem wp_call {A : σ → Prop} (hrely : ∀ s s', A s → rely i s s' → A s')
    (hacts : ∀ s o s', A s → acts i s o s' → (k o).wp rely acts Q s') (h : A s) :
    (call i k).wp rely acts Q s := by
  intro s' hs
  have hA : A s' := by
    induction hs with
    | refl => exact h
    | tail _ hr ih => exact hrely _ _ ih hr
  exact fun o s'' ha => hacts s' o s'' hA ha

/-- A waiting program stays safe… -/
theorem wp_of_rely (h : (call i k).wp rely acts Q s) (hr : rely i s s') :
    (call i k).wp rely acts Q s' :=
  fun t ht => h t (.head hr ht)

/-- …and so does what is left of it after the call. -/
theorem wp_of_acts (h : (call i k).wp rely acts Q s) {o : ο} (ha : acts i s o s') :
    (k o).wp rely acts Q s' :=
  h s .refl o s' ha

end Rules

end Prog

end Machinery
