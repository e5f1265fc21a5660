import Mathlib.Tactic.Common

/-!
# Machinery/Area — a fixed memory area and bounds-checked copies into it

`Area α n` is an array of exactly `n` cells.  `copyIn` is `memcpy` to an offset: it answers `none`
where the copy would leave the area, so "every copy stays inside" is "no copy answers `none`".
-/

namespace Machinery

/-- A memory area of `n` cells. -/
structure Area (α : Type*) (n : ℕ) where
  cells : List α
  length_cells : cells.length = n
  deriving DecidableEq

namespace Area

variable {α : Type*} {n : ℕ}

attribute [simp] length_cells

/-- An area filled with one value. -/
def fill (n : ℕ) (a : α) : Area α n := ⟨List.replicate n a, List.length_replicate⟩

/-- Copy `d` to offset `off`, unless that leaves the area. -/
def copyIn (a : Area α n) (off : ℕ) (d : List α) : Option (Area α n) :=
  if h : off + d.length ≤ n then
    some ⟨a.cells.take off ++ d ++ a.cells.drop (off + d.length), by
      simp only [List.length_append, List.length_take, List.length_drop, length_cells]
      omega⟩
  else none

/-- An area whose first cells are `d`. -/
def overwrite (a : Area α n) (d : List α) (h : d.length ≤ n) : Area α n :=
  ⟨d ++ a.cells.drop d.length, by
    simp only [List.length_append, List.length_drop, length_cells]
    omega⟩

theorem exists_copyIn (a : Area α n) (off : ℕ) (d : List α) (h : off + d.length ≤ n) :
    ∃ b, a.copyIn off d = some b := ⟨_, dif_pos h⟩

/-- **What a copy leaves**: the cells before it, then the data, then the cells behind it. -/
theorem cells_of_copyIn {a b : Area α n} {off : ℕ} {d : List α} (h : a.copyIn off d = some b) :
    off + d.length ≤ n ∧
      b.cells = a.cells.take off ++ d ++ a.cells.drop (off + d.length) := by
  unfold copyIn at h
  split at h
  · rename_i hle
    exact ⟨hle, by rw [← Option.some.inj h]⟩
  · exact absurd h (by simp)

/-- Copying what is there already changes nothing. -/
theorem copyIn_self {a : Area α n} {off : ℕ} {d : List α} (hoff : off ≤ n)
    (h : d <+: a.cells.drop off) : a.copyIn off d = some a := by
  obtain ⟨rest, hrest⟩ := h
  have hlen := congrArg List.length hrest
  simp only [List.length_append, List.length_drop, length_cells] at hlen
  obtain ⟨b, hb⟩ := a.exists_copyIn off d (by omega)
  have hdrop : a.cells.drop (off + d.length) = rest := by
    rw [← List.drop_drop, ← hrest, List.drop_left]
  have hcells : b.cells = a.cells := by
    rw [(cells_of_copyIn hb).2, hdrop, List.append_assoc, hrest, List.take_append_drop]
  rw [hb]
  cases a
  cases b
  exact congrArg some (by simpa using hcells)

/-- The cells up to the end of a copy are the cells before it and the data. -/
theorem take_of_copyIn {a b : Area α n} {off : ℕ} {d : List α} (h : a.copyIn off d = some b) :
    b.cells.take (off + d.length) = a.cells.take off ++ d := by
  obtain ⟨hle, hb⟩ := cells_of_copyIn h
  have hlen : (a.cells.take off ++ d).length = off + d.length := by
    simp only [List.length_append, List.length_take, length_cells]
    omega
  rw [hb, ← hlen, List.take_left]

/-- The cells behind a copy are the ones from before. -/
theorem drop_of_copyIn {a b : Area α n} {off : ℕ} {d : List α} (h : a.copyIn off d = some b) :
    b.cells.drop (off + d.length) = a.cells.drop (off + d.length) := by
  obtain ⟨hle, hb⟩ := cells_of_copyIn h
  have hlen : (a.cells.take off ++ d).length = off + d.length := by
    simp only [List.length_append, List.length_take, length_cells]
    omega
  rw [hb]
  exact List.drop_left' hlen

end Area

end Machinery
