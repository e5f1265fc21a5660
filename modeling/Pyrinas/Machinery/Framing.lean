import Mathlib.Data.List.Basic
import Mathlib.Tactic.Common

/-!
# Machinery/Framing — splitting a stream into length-prefixed frames

    h d₁ … d_ℓ  h' d'₁ … d'_ℓ'  ⋯  h″ d″₁ …        ℓ = len h,  the last frame not yet complete

A frame is a header `h` followed by `len h` symbols of payload.  `split` reads the complete frames
off a stream and leaves the incomplete one; `split_append` says that reading a stream in two parts
is reading it at once, which is all that independence of chunking needs.
-/

namespace Machinery.Framing

variable {α : Type*} (len : α → ℕ)

/-- The payloads of the complete frames of a stream, and the incomplete frame at its end. -/
def split : List α → List (List α) × List α
  | [] => ([], [])
  | h :: d =>
    if len h ≤ d.length then
      (d.take (len h) :: (split (d.drop (len h))).1, (split (d.drop (len h))).2)
    else ([], h :: d)
  termination_by s => s.length
  decreasing_by all_goals simp only [List.length_cons, List.length_drop]; omega

/-- The incomplete frame at the end of a stream. -/
def rest (s : List α) : List α := (split len s).2

/-- The payloads of the complete frames that carry any. -/
def frames (s : List α) : List (List α) := (split len s).1.filter (· ≠ [])

@[simp] theorem split_nil : split len ([] : List α) = ([], []) := by rw [split]

theorem split_cons_of_le {h : α} {d : List α} (hle : len h ≤ d.length) :
    split len (h :: d)
      = (d.take (len h) :: (split len (d.drop (len h))).1, (split len (d.drop (len h))).2) := by
  rw [split, if_pos hle]

theorem split_cons_of_lt {h : α} {d : List α} (hlt : d.length < len h) :
    split len (h :: d) = ([], h :: d) := by
  rw [split, if_neg (by omega)]

/-- A stream that starts with a complete frame: header, payload, and the stream behind them. -/
theorem split_frame {h : α} {f : List α} (hf : f.length = len h) (e : List α) :
    split len (h :: (f ++ e)) = (f :: (split len e).1, (split len e).2) := by
  rw [split_cons_of_le len (by rw [List.length_append]; omega), ← hf, List.take_left,
    List.drop_left]

/-- …and that is how a stream with a complete frame looks. -/
theorem exists_frame_of_split {s f : List α} {fs : List (List α)} {r : List α}
    (hs : split len s = (f :: fs, r)) :
    ∃ h e, s = h :: (f ++ e) ∧ f.length = len h ∧ split len e = (fs, r) := by
  cases s with
  | nil => simp at hs
  | cons h d =>
    by_cases hle : len h ≤ d.length
    · rw [split_cons_of_le len hle] at hs
      obtain ⟨hf, hr⟩ := Prod.mk.inj hs
      obtain ⟨hf, hfs⟩ := List.cons.inj hf
      refine ⟨h, d.drop (len h), ?_, ?_, Prod.ext hfs hr⟩
      · rw [← hf, List.take_append_drop]
      · rw [← hf, List.length_take]
        omega
    · rw [split_cons_of_lt len (by omega)] at hs
      exact absurd (congrArg Prod.fst hs) (List.cons_ne_nil _ _).symm

/-- A stream without a complete frame is one incomplete frame, or nothing. -/
theorem eq_of_split_nil {s r : List α} (hs : split len s = ([], r)) :
    r = s ∧ (s = [] ∨ ∃ h d, s = h :: d ∧ d.length < len h) := by
  cases s with
  | nil => exact ⟨by simpa using (congrArg Prod.snd hs).symm, Or.inl rfl⟩
  | cons h d =>
    by_cases hle : len h ≤ d.length
    · rw [split_cons_of_le len hle] at hs
      exact absurd (congrArg Prod.fst hs) (List.cons_ne_nil _ _)
    · rw [split_cons_of_lt len (by omega)] at hs
      exact ⟨(congrArg Prod.snd hs).symm, Or.inr ⟨h, d, rfl, by omega⟩⟩

/-- **A stream may be read in parts**: what is left of the first part goes in front of the next. -/
theorem split_append (s t : List α) :
    split len (s ++ t)
      = ((split len s).1 ++ (split len ((split len s).2 ++ t)).1,
          (split len ((split len s).2 ++ t)).2) := by
  induction s using split.induct len with
  | case1 => simp
  | case2 h d hle ih =>
    have hle' : len h ≤ (d ++ t).length := by rw [List.length_append]; omega
    rw [List.cons_append, split_cons_of_le len hle', split_cons_of_le len hle,
      List.take_append_of_le_length hle, List.drop_append_of_le_length hle, ih]
    rfl
  | case3 h d hlt => rw [split_cons_of_lt len (by omega)]; rfl

theorem rest_append (s t : List α) : rest len (s ++ t) = rest len (rest len s ++ t) := by
  rw [rest, split_append]
  rfl

theorem frames_append (s t : List α) :
    frames len (s ++ t) = frames len s ++ frames len (rest len s ++ t) := by
  rw [frames, split_append, List.filter_append]
  rfl

/-- What is left holds no complete frame. -/
theorem split_rest (s : List α) : split len (rest len s) = ([], rest len s) := by
  unfold rest
  induction s using split.induct len with
  | case1 => simp
  | case2 h d hle ih => rw [split_cons_of_le len hle]; exact ih
  | case3 h d hlt =>
    rw [split_cons_of_lt len (by omega)]
    exact split_cons_of_lt len (by omega)

/-- What is left is empty, or a header whose payload has not all come. -/
theorem rest_cases (s : List α) :
    rest len s = [] ∨ ∃ h d, rest len s = h :: d ∧ d.length < len h :=
  (eq_of_split_nil len (split_rest len s)).2

end Machinery.Framing
