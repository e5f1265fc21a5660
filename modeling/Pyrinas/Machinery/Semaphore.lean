import Mathlib.Tactic.Common

/-!
# Machinery/Semaphore — a counting semaphore with a limit

A give above the limit is lost: with limit 1, any number of gives between two takes is one.
-/

namespace Machinery

/-- A semaphore: how many takes it will let through. -/
structure Semaphore (limit : ℕ) where
  count : ℕ
  count_le : count ≤ limit
  deriving DecidableEq

namespace Semaphore

variable {limit : ℕ}

/-- A semaphore that lets nothing through. -/
def zero (limit : ℕ) : Semaphore limit := ⟨0, Nat.zero_le _⟩

/-- Let one more take through, up to the limit. -/
def give (s : Semaphore limit) : Semaphore limit := ⟨min (s.count + 1) limit, Nat.min_le_right _ _⟩

/-- Take once, if the count allows it. -/
def take (s : Semaphore limit) : Semaphore limit := ⟨s.count - 1, by have := s.count_le; omega⟩

@[simp] theorem count_zero : (zero limit).count = 0 := rfl

@[simp] theorem count_take (s : Semaphore limit) : s.take.count = s.count - 1 := rfl

/-- After a give something is let through. -/
theorem count_give_pos (hl : 0 < limit) (s : Semaphore limit) : 0 < s.give.count := by
  simp only [give]
  omega

/-- A binary semaphore counts one after a give. -/
@[simp] theorem count_give_one (s : Semaphore 1) : s.give.count = 1 := by
  have := s.give.count_le
  have := count_give_pos Nat.one_pos s
  omega

end Semaphore

end Machinery
