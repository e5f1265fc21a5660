import Mathlib.Data.Fintype.Basic
import Mathlib.Data.Fintype.Card
import Mathlib.Data.List.FinRange

/-!
# Machinery/Slab — a slab of equal blocks

    alloc [b, c, …] ──▸ b, [c, …]      free b [c, …] ──▸ [b, c, …]      alloc []: fails

The blocks that are not free are allocated.
-/

namespace Machinery

/-- A slab of `count` blocks: the free ones, the next to be allocated first. -/
structure Slab (count : ℕ) where
  freeList : List (Fin count)
  nodup : freeList.Nodup

namespace Slab

variable {count : ℕ} {s s' : Slab count} {b : Fin count}

/-- A slab of which nothing is allocated. -/
def unused (count : ℕ) : Slab count := ⟨List.finRange count, List.nodup_finRange count⟩

/-- The blocks that are allocated. -/
def allocated (s : Slab count) : Finset (Fin count) := s.freeList.toFinsetᶜ

/-- Take the next free block, if there is one. -/
def alloc (s : Slab count) : Option (Fin count × Slab count) :=
  match s.freeList, s.nodup with
  | [], _ => none
  | b :: l, h => some (b, ⟨l, h.of_cons⟩)

/-- Give a block back that was allocated. -/
def free (s : Slab count) (b : Fin count) : Slab count :=
  if h : b ∈ s.freeList then s else ⟨b :: s.freeList, List.nodup_cons.mpr ⟨h, s.nodup⟩⟩

@[simp] theorem mem_allocated : b ∈ s.allocated ↔ b ∉ s.freeList := by simp [allocated]

@[simp] theorem allocated_unused : (unused count).allocated = ∅ := by
  ext b
  simp [unused]

/-- **What an allocation does**: the block was free. -/
theorem allocated_alloc (h : s.alloc = some (b, s')) :
    b ∉ s.allocated ∧ s'.allocated = insert b s.allocated := by
  obtain ⟨l, hl⟩ := s
  cases l with
  | nil => simp [alloc] at h
  | cons c l =>
    obtain ⟨rfl, rfl⟩ := Prod.mk.inj (Option.some.inj h)
    refine ⟨by simp, ?_⟩
    ext d
    have hc : c ∉ l := (List.nodup_cons.mp hl).1
    by_cases hd : d = c
    · simp [hd, hc]
    · simp [hd]

/-- **An allocation fails only when every block is allocated.** -/
theorem exists_alloc (h : s.allocated.card < count) : ∃ b s', s.alloc = some (b, s') := by
  obtain ⟨l, hl⟩ := s
  cases l with
  | nil => simp [allocated] at h
  | cons b l => exact ⟨b, _, rfl⟩

@[simp] theorem allocated_free : (s.free b).allocated = s.allocated.erase b := by
  ext c
  unfold free
  split
  next h => by_cases hc : c = b <;> simp [hc, h]
  next => simp

end Slab

end Machinery
