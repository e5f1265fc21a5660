import Mathlib.Data.List.Forall2
import Mathlib.Data.Option.Basic

/-!
# Machinery/Slots — a table of slots

    [some a, none, some b, none]      putFirst c   ──▸  [some a, some c, some b, none]
                                      clearFirst p ──▸  the first value with p leaves its slot
-/

namespace Machinery

variable {α β : Type*}

/-- Put a value into the first empty slot, if there is one. -/
def putFirst (a : α) : List (Option α) → Option (List (Option α))
  | [] => none
  | none :: l => some (some a :: l)
  | some b :: l => (putFirst a l).map (some b :: ·)

/-- Empty the first slot with a value that `p` holds of, if there is one. -/
def clearFirst (p : α → Bool) : List (Option α) → Option (List (Option α))
  | [] => none
  | none :: l => (clearFirst p l).map (none :: ·)
  | some a :: l => if p a then some (none :: l) else (clearFirst p l).map (some a :: ·)

/-- There is room exactly when a slot is empty. -/
theorem isSome_putFirst {a : α} {l : List (Option α)} : (putFirst a l).isSome ↔ none ∈ l := by
  induction l with
  | nil => simp [putFirst]
  | cons o l ih => cases o <;> simp [putFirst, ih]

/-- Nothing is cleared exactly when `p` holds of no value. -/
theorem clearFirst_eq_none_iff {p : α → Bool} {l : List (Option α)} :
    clearFirst p l = none ↔ ∀ a, some a ∈ l → p a = false := by
  induction l with
  | nil => simp [clearFirst]
  | cons o l ih =>
    cases o with
    | none => simp [clearFirst, ih]
    | some b => by_cases hb : p b <;> simp [clearFirst, hb, ih]

theorem rel_map {γ δ : Type*} {R : α → β → Prop} {T : γ → δ → Prop} {f : α → γ} {g : β → δ}
    {o : Option α} {o' : Option β} (h : Option.Rel R o o') (hfg : ∀ a b, R a b → T (f a) (g b)) :
    Option.Rel T (o.map f) (o'.map g) := by
  cases h with
  | none => exact .none
  | some hab => exact .some (hfg _ _ hab)

/-- **Tables that correspond slot by slot still do after a put**, and one has room if the other
has. -/
theorem putFirst_rel {R : α → β → Prop} {a : α} {b : β} (hab : R a b) {l : List (Option α)}
    {m : List (Option β)} (h : List.Forall₂ (Option.Rel R) l m) :
    Option.Rel (List.Forall₂ (Option.Rel R)) (putFirst a l) (putFirst b m) := by
  induction h with
  | nil => exact .none
  | @cons o o' l m ho h ih =>
    cases ho with
    | none => exact .some (.cons (.some hab) h)
    | some hcd => exact rel_map ih fun _ _ hlm => .cons (.some hcd) hlm

/-- Corresponding tables have values in the same slots. -/
theorem Forall₂.exists_of_mem_left {R : α → β → Prop} {l : List (Option α)} {m : List (Option β)}
    (h : List.Forall₂ (Option.Rel R) l m) {a : α} (ha : some a ∈ l) :
    ∃ b, some b ∈ m ∧ R a b := by
  induction h with
  | nil => simp at ha
  | cons ho h ih =>
    rcases List.mem_cons.mp ha with rfl | ha
    · cases ho with
      | some hab => exact ⟨_, List.mem_cons_self, hab⟩
    · obtain ⟨b, hb, hab⟩ := ih ha
      exact ⟨b, List.mem_cons_of_mem _ hb, hab⟩

end Machinery
