import Mathlib.Data.List.Basic

/-!
# Machinery/Outstanding — requests that wait for their answers

    pass p ──▸ waits ──answer──▸ done        log: every request, and what waited when it was passed

A request that is refused does not wait.  Whether a request may be passed depends on the ones that
wait, so of a row of requests each one has to be judged behind those before it.
-/

namespace Machinery

/-- The requests that wait, and every request so far with those that waited when it was passed. -/
structure Outstanding (π : Type*) where
  waiting : List π
  log : List (π × List π)

namespace Outstanding

variable {π : Type*}

/-- A request is passed, and accepted or refused. -/
def pass (x : Outstanding π) (request : π × Bool) : Outstanding π where
  waiting := if request.2 then x.waiting ++ [request.1] else x.waiting
  log := x.log ++ [(request.1, x.waiting)]

/-- A row of requests. -/
def passAll (x : Outstanding π) (row : List (π × Bool)) : Outstanding π := row.foldl pass x

/-- Requests are answered. -/
def answer (x : Outstanding π) (answered : π → Bool) : Outstanding π :=
  { x with waiting := x.waiting.filter fun p => !answered p }

/-- Each request of a row may be passed behind those before it. -/
def RowOk (Ok : List π → π → Prop) : List π → List (π × Bool) → Prop
  | _, [] => True
  | waiting, (p, accepted) :: row =>
    Ok waiting p ∧ RowOk Ok (if accepted then waiting ++ [p] else waiting) row

/-- Every request might be passed when it was. -/
def AllOk (Ok : List π → π → Prop) (x : Outstanding π) : Prop := ∀ q ∈ x.log, Ok q.2 q.1

variable {Ok : List π → π → Prop} {x : Outstanding π}

/-- **A row is judged request by request.** -/
theorem allOk_passAll_iff {row : List (π × Bool)} :
    AllOk Ok (x.passAll row) ↔ AllOk Ok x ∧ RowOk Ok x.waiting row := by
  induction row generalizing x with
  | nil => simp [passAll, RowOk]
  | cons request row ih =>
    have hpass : AllOk Ok (x.pass request) ↔ AllOk Ok x ∧ Ok x.waiting request.1 := by
      simp [AllOk, pass, or_imp, forall_and]
    exact ih.trans ((and_congr_left' hpass).trans and_assoc)

/-- What waits afterwards has waited, or was accepted. -/
theorem mem_waiting_passAll {row : List (π × Bool)} {p : π} :
    p ∈ (x.passAll row).waiting ↔ p ∈ x.waiting ∨ (p, true) ∈ row := by
  induction row generalizing x with
  | nil => simp [passAll]
  | cons request row ih =>
    obtain ⟨q, accepted⟩ := request
    have hpass : p ∈ (x.pass (q, accepted)).waiting ↔
        p ∈ x.waiting ∨ (p = q ∧ accepted = true) := by
      cases accepted <;> simp [pass]
    rw [List.mem_cons, Prod.mk.injEq, ← or_assoc, eq_comm (a := true), ← hpass]
    exact ih

@[simp] theorem mem_waiting_answer {answered : π → Bool} {p : π} :
    p ∈ (x.answer answered).waiting ↔ p ∈ x.waiting ∧ answered p = false := by
  simp [answer]

@[simp] theorem answer_none : x.answer (fun _ => false) = x := by simp [answer]

theorem passAll_append (row row' : List (π × Bool)) :
    x.passAll (row ++ row') = (x.passAll row).passAll row' := List.foldl_append

/-- Answers do not judge anything. -/
@[simp] theorem allOk_answer {answered : π → Bool} :
    AllOk Ok (x.answer answered) ↔ AllOk Ok x := Iff.rfl

end Outstanding

end Machinery
