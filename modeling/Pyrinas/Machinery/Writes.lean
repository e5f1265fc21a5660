import Mathlib.Data.List.Nodup
import Mathlib.Tactic.Common

/-!
# Machinery/Writes — a row of writes, each to a place of its own

A write puts a value into one place of a state and leaves the other places alone; it may also fail.
After a row of writes to different places each place holds what was written there, so the state is
as before exactly if each of them held it already.
-/

namespace Machinery

variable {σ ω κ : Type*} {write : σ → ω → Option σ} {place : ω → κ} {Holds : σ → ω → Prop}

/-- A write changes its own place, and only if that holds another value. -/
structure Writing (write : σ → ω → Option σ) (place : ω → κ) (Holds : σ → ω → Prop) : Prop where
  holds {s s' : σ} {w : ω} (h : write s w = some s') : Holds s' w
  other {s s' : σ} {v w : ω} (h : write s w = some s') (hne : place v ≠ place w) (hv : Holds s v) :
    Holds s' v
  idle {s : σ} {w : ω} (h : Holds s w) : write s w = some s

namespace Writing

variable {s s' : σ} {ws : List ω}

/-- What no later write goes to is kept… -/
theorem kept (h : Writing write place Holds) (hrun : ws.foldlM write s = some s') {v : ω}
    (hv : Holds s v) (hne : ∀ w ∈ ws, place v ≠ place w) : Holds s' v := by
  induction ws generalizing s with
  | nil =>
    obtain rfl := Option.some.inj hrun
    exact hv
  | cons w ws ih =>
    rw [List.foldlM_cons] at hrun
    obtain ⟨t, ht, hrest⟩ := Option.bind_eq_some_iff.mp hrun
    have hvt := h.other ht (hne w List.mem_cons_self) hv
    exact ih hrest hvt fun w hw => hne w (List.mem_cons_of_mem _ hw)

/-- …so at the end each place holds what was written there. -/
theorem holds_of_foldlM (h : Writing write place Holds) (hplaces : (ws.map place).Nodup)
    (hrun : ws.foldlM write s = some s') {w : ω} (hw : w ∈ ws) : Holds s' w := by
  induction ws generalizing s with
  | nil => exact absurd hw (by simp)
  | cons v ws ih =>
    rw [List.foldlM_cons] at hrun
    obtain ⟨t, ht, hrest⟩ := Option.bind_eq_some_iff.mp hrun
    rw [List.map_cons, List.nodup_cons] at hplaces
    rcases List.mem_cons.mp hw with rfl | hw
    · refine h.kept hrest (h.holds ht) fun u hu heq => hplaces.1 ?_
      exact heq ▸ List.mem_map_of_mem hu
    · exact ih hplaces.2 hrest hw

/-- Writing what is there already changes nothing. -/
theorem foldlM_idle (h : Writing write place Holds) (hws : ∀ w ∈ ws, Holds s w) :
    ws.foldlM write s = some s := by
  induction ws with
  | nil => rfl
  | cons w ws ih =>
    rw [List.foldlM_cons, h.idle (hws w List.mem_cons_self)]
    exact ih fun v hv => hws v (List.mem_cons_of_mem w hv)

/-- **The state is as before iff every value was there already.** -/
theorem eq_self_iff (h : Writing write place Holds) (hplaces : (ws.map place).Nodup)
    (hrun : ws.foldlM write s = some s') : s' = s ↔ ∀ w ∈ ws, Holds s w := by
  refine ⟨fun heq w hw => heq ▸ h.holds_of_foldlM hplaces hrun hw, fun hws => ?_⟩
  rw [h.foldlM_idle hws] at hrun
  exact (Option.some.inj hrun).symm

end Writing

/-- What no write of a row changes. -/
theorem foldlM_frame {β : Type*} {f : σ → β} {s s' : σ} {ws : List ω}
    (hf : ∀ w ∈ ws, ∀ s s', write s w = some s' → f s' = f s)
    (hrun : ws.foldlM write s = some s') : f s' = f s := by
  induction ws generalizing s with
  | nil => rw [Option.some.inj hrun]
  | cons w ws ih =>
    rw [List.foldlM_cons] at hrun
    obtain ⟨t, ht, hrest⟩ := Option.bind_eq_some_iff.mp hrun
    have hfirst := hf w List.mem_cons_self s t ht
    rw [ih (fun v hv => hf v (List.mem_cons_of_mem w hv)) hrest, hfirst]

/-- Where each write can be made or not, whatever the state, a row of writes can be made iff each of
them can. -/
theorem exists_foldlM_iff {CanWrite : ω → Prop}
    (h : ∀ s w, (∃ s', write s w = some s') ↔ CanWrite w) {s : σ} {ws : List ω} :
    (∃ s', ws.foldlM write s = some s') ↔ ∀ w ∈ ws, CanWrite w := by
  induction ws generalizing s with
  | nil => exact ⟨fun _ w hw => absurd hw (by simp), fun _ => ⟨s, rfl⟩⟩
  | cons w ws ih =>
    rw [List.forall_mem_cons, ← h s w]
    constructor
    · rintro ⟨s', hrun⟩
      obtain ⟨t, ht, hrest⟩ := Option.bind_eq_some_iff.mp hrun
      exact ⟨⟨t, ht⟩, ih.mp ⟨s', hrest⟩⟩
    · rintro ⟨⟨t, ht⟩, hws⟩
      obtain ⟨s', hrest⟩ := ih (s := t) |>.mpr hws
      exact ⟨s', Option.bind_eq_some_iff.mpr ⟨t, ht, hrest⟩⟩

end Machinery
