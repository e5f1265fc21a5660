import Mathlib.Data.List.Range
import Mathlib.Data.Nat.ModEq
import Mathlib.Logic.Function.Basic
import Mathlib.Tactic.Common

/-!
# Machinery/Ring — a ring buffer with claims

    ──freed──│ head ──claimed──▸ claim ──unclaimed──▸ tail │──room──      counters only grow;
                                                                         cell = counter % size
The reader claims the next contiguous cells (`getClaim`), works on them where they lie, and later
finishes a number of them (`getFinish`), which frees the *oldest* cells and forgets every claim.
The writer stores as much as fits (`put`).  `cap` cells of `size` may be in use; a claim never
crosses the end of the storage.
-/

namespace Machinery

/-- The cells of a ring, and how many of them it fills. -/
structure RingShape where
  size : ℕ
  cap : ℕ
  cap_pos : 0 < cap
  cap_le : cap ≤ size

/-- A ring buffer: its storage, and how many cells were ever freed, claimed and stored. -/
structure Ring (α : Type*) (S : RingShape) where
  mem : ℕ → α
  head : ℕ
  claim : ℕ
  tail : ℕ
  head_le : head ≤ claim
  claim_le : claim ≤ tail
  tail_le : tail ≤ head + S.cap

namespace Ring

variable {α : Type*} {S : RingShape}

/-- An empty ring over given storage. -/
def empty (S : RingShape) (mem : ℕ → α) : Ring α S := ⟨mem, 0, 0, 0, le_rfl, le_rfl, by omega⟩

/-- The cells in use. -/
def used (r : Ring α S) : ℕ := r.tail - r.head

/-- The values stored from a counter on. -/
def slice (r : Ring α S) (a n : ℕ) : List α := (List.range n).map fun i => r.mem ((a + i) % S.size)

/-- The stored values, oldest first. -/
def contents (r : Ring α S) : List α := r.slice r.head r.used

/-- The values in a contiguous region of the storage. -/
def read (r : Ring α S) (pos n : ℕ) : List α := (List.range n).map fun i => r.mem (pos + i)

/-- Store one value behind the others. -/
def putOne (r : Ring α S) (a : α) (h : r.used < S.cap) : Ring α S where
  mem := Function.update r.mem (r.tail % S.size) a
  head := r.head
  claim := r.claim
  tail := r.tail + 1
  head_le := r.head_le
  claim_le := by have := r.claim_le; omega
  tail_le := by have := r.tail_le; have := r.head_le; have := r.claim_le; unfold used at h; omega

/-- Store as many values as fit; how many that were. -/
def put (r : Ring α S) : List α → ℕ × Ring α S
  | [] => (0, r)
  | a :: d => if h : r.used < S.cap then
      ((put (r.putOne a h) d).1 + 1, (put (r.putOne a h) d).2)
    else (0, r)

/-- The length of the next claim: contiguous unclaimed cells, up to a limit. -/
def claimLen (r : Ring α S) (limit : ℕ) : ℕ :=
  min limit (min (r.tail - r.claim) (S.size - r.claim % S.size))

theorem claimLen_le (r : Ring α S) (limit : ℕ) : r.claim + r.claimLen limit ≤ r.tail := by
  have := r.claim_le
  unfold claimLen
  omega

/-- Claim the next region: its position in the storage, its length, and the ring after it. -/
def getClaim (r : Ring α S) (limit : ℕ) : (ℕ × ℕ) × Ring α S :=
  ((r.claim % S.size, r.claimLen limit),
    { r with
      claim := r.claim + r.claimLen limit
      head_le := by have := r.head_le; omega
      claim_le := r.claimLen_le limit })

/-- Free the `n` oldest cells and forget every claim; an error code if there are not so many. -/
def getFinish (r : Ring α S) (n : ℕ) : ℤ × Ring α S :=
  if h : n ≤ r.used then
    (0, { r with
      head := r.head + n
      claim := r.head + n
      head_le := le_rfl
      claim_le := by have := r.head_le; have := r.claim_le; unfold used at h; omega
      tail_le := by have := r.tail_le; omega })
  else (-22, r)

/-! ## The counters after each operation -/

theorem head_le_tail (r : Ring α S) : r.head ≤ r.tail := r.head_le.trans r.claim_le

theorem size_pos (S : RingShape) : 0 < S.size := S.cap_pos.trans_le S.cap_le

@[simp] theorem used_empty (mem : ℕ → α) : (empty S mem).used = 0 := rfl

@[simp] theorem getClaim_fst (r : Ring α S) (limit : ℕ) :
    (r.getClaim limit).1 = (r.claim % S.size, r.claimLen limit) := rfl

@[simp] theorem head_getClaim (r : Ring α S) (limit : ℕ) :
    (r.getClaim limit).2.head = r.head := rfl

@[simp] theorem claim_getClaim (r : Ring α S) (limit : ℕ) :
    (r.getClaim limit).2.claim = r.claim + r.claimLen limit := rfl

@[simp] theorem tail_getClaim (r : Ring α S) (limit : ℕ) :
    (r.getClaim limit).2.tail = r.tail := rfl

@[simp] theorem mem_getClaim (r : Ring α S) (limit : ℕ) : (r.getClaim limit).2.mem = r.mem := rfl

@[simp] theorem used_getClaim (r : Ring α S) (limit : ℕ) :
    (r.getClaim limit).2.used = r.used := rfl

theorem getFinish_of_le {r : Ring α S} {n : ℕ} (h : n ≤ r.used) :
    (r.getFinish n).1 = 0 ∧ (r.getFinish n).2.head = r.head + n ∧
      (r.getFinish n).2.claim = r.head + n ∧ (r.getFinish n).2.tail = r.tail ∧
      (r.getFinish n).2.mem = r.mem := by
  simp only [getFinish, h, dite_true, and_self]

theorem used_getFinish {r : Ring α S} {n : ℕ} (h : n ≤ r.used) :
    (r.getFinish n).2.used = r.used - n := by
  obtain ⟨-, hhead, -, htail, -⟩ := getFinish_of_le h
  simp only [used, hhead, htail] at h ⊢
  omega

/-- **A claim takes something whenever something is unclaimed.** -/
theorem claimLen_pos {r : Ring α S} {limit : ℕ} (hl : 0 < limit) (h : r.claim < r.tail) :
    0 < r.claimLen limit := by
  have := Nat.mod_lt r.claim (size_pos S)
  unfold claimLen
  omega

/-! ## The values after each operation -/

@[simp] theorem length_slice (r : Ring α S) (a n : ℕ) : (r.slice a n).length = n := by simp [slice]

@[simp] theorem length_contents (r : Ring α S) : r.contents.length = r.used := by simp [contents]

@[simp] theorem slice_zero (r : Ring α S) (a : ℕ) : r.slice a 0 = [] := rfl

theorem slice_add (r : Ring α S) (a m n : ℕ) :
    r.slice a (m + n) = r.slice a m ++ r.slice (a + m) n := by
  simp only [slice, List.range_add, List.map_append, List.map_map, Nat.add_assoc]
  rfl

theorem slice_succ (r : Ring α S) (a n : ℕ) :
    r.slice a (n + 1) = r.mem (a % S.size) :: r.slice (a + 1) n := by
  rw [Nat.add_comm, slice_add]
  rfl

theorem slice_congr_mem {r r' : Ring α S} (h : r'.mem = r.mem) (a n : ℕ) :
    r'.slice a n = r.slice a n := by rw [slice, slice, h]

theorem add_mod_of_inside {k a i : ℕ} (h : a % k + i < k) : (a + i) % k = a % k + i := by
  rw [Nat.add_mod, Nat.mod_eq_of_lt (show i < k by omega), Nat.mod_eq_of_lt h]

/-- Inside the storage a region holds consecutive values. -/
theorem read_eq_slice (r : Ring α S) {a n : ℕ} (h : a % S.size + n ≤ S.size) :
    r.read (a % S.size) n = r.slice a n := by
  refine List.map_congr_left fun i hi => congrArg r.mem ?_
  have hin : i < n := List.mem_range.mp hi
  exact (add_mod_of_inside (by omega)).symm

/-- A claimed region lies inside the storage. -/
theorem claimLen_inside (r : Ring α S) (limit : ℕ) :
    r.claim % S.size + r.claimLen limit ≤ S.size := by
  have := Nat.mod_lt r.claim (size_pos S)
  unfold claimLen
  omega

/-- Counters less than one turn apart name different cells. -/
theorem mod_ne_of_lt {k x y : ℕ} (hxy : x < y) (hy : y < x + k) : x % k ≠ y % k := by
  intro h
  have hdvd : k ∣ y - x := (Nat.modEq_iff_dvd' hxy.le).mp h
  have := Nat.le_of_dvd (by omega) hdvd
  omega

/-- Storing one value overwrites none of those in use. -/
theorem slice_putOne (r : Ring α S) (a : α) (h : r.used < S.cap) {x n : ℕ} (hx : r.head ≤ x)
    (hn : x + n ≤ r.tail) : (r.putOne a h).slice x n = r.slice x n := by
  refine List.map_congr_left fun i hi => ?_
  have hin : i < n := List.mem_range.mp hi
  refine Function.update_of_ne (mod_ne_of_lt (by omega) ?_) _ _
  have := S.cap_le
  unfold used at h
  omega

/-- …and puts it behind them. -/
theorem slice_putOne_tail (r : Ring α S) (a : α) (h : r.used < S.cap) :
    (r.putOne a h).slice r.tail 1 = [a] := by
  simp [slice, putOne]

/-- **What `put` does**: it stores a prefix, as long as there is room, behind the values in use, and
leaves those alone. -/
theorem put_spec (r : Ring α S) (d : List α) :
    (r.put d).1 = min d.length (S.cap - r.used) ∧ (r.put d).2.head = r.head ∧
      (r.put d).2.claim = r.claim ∧ (r.put d).2.tail = r.tail + (r.put d).1 ∧
      (∀ x n, r.head ≤ x → x + n ≤ r.tail → (r.put d).2.slice x n = r.slice x n) ∧
      (r.put d).2.slice r.tail (r.put d).1 = d.take (r.put d).1 := by
  induction d generalizing r with
  | nil => simp [put]
  | cons a d ih =>
    by_cases h : r.used < S.cap
    · obtain ⟨hn, hhead, hclaim, htail, hkeep, hnew⟩ := ih (r.putOne a h)
      have hused : (r.putOne a h).used = r.used + 1 := by
        have := r.head_le_tail
        simp only [used, putOne]
        omega
      simp only [put, h, dite_true]
      refine ⟨?_, hhead, hclaim, ?_, ?_, ?_⟩
      · rw [hn, hused, List.length_cons]; omega
      · rw [htail]; simp only [putOne]; omega
      · intro x n hx hxn
        exact (hkeep x n hx (by simp only [putOne]; omega)).trans (slice_putOne r a h hx hxn)
      · rw [Nat.add_comm, slice_add, Nat.add_comm 1, List.take_succ_cons]
        have h1 := hkeep r.tail 1 r.head_le_tail le_rfl
        rw [h1, slice_putOne_tail]
        exact congrArg _ hnew
    · have hzero : S.cap - r.used = 0 := by omega
      simp [put, h, hzero]

theorem used_put (r : Ring α S) (d : List α) :
    (r.put d).2.used = r.used + min d.length (S.cap - r.used) := by
  obtain ⟨hn, hhead, -, htail, -⟩ := put_spec r d
  have := r.head_le_tail
  rw [used, hhead, htail, hn, used]
  omega

/-- **`put` appends a prefix to the contents.** -/
theorem contents_put (r : Ring α S) (d : List α) :
    (r.put d).2.contents = r.contents ++ d.take (r.put d).1 := by
  obtain ⟨hn, hhead, -, htail, hkeep, hnew⟩ := put_spec r d
  have hle := r.head_le_tail
  rw [contents, used_put, hhead, ← hn, slice_add, hkeep r.head r.used le_rfl (by unfold used; omega),
    show r.head + r.used = r.tail by unfold used; omega, hnew, contents]

/-! ## What has not been claimed -/

/-- The stored values behind the claims, oldest first. -/
def unclaimed (r : Ring α S) : List α := r.slice r.claim (r.tail - r.claim)

/-- **`put` appends a prefix to them.** -/
theorem unclaimed_put (r : Ring α S) (d : List α) :
    (r.put d).2.unclaimed = r.unclaimed ++ d.take (r.put d).1 := by
  obtain ⟨-, -, hclaim, htail, hkeep, hnew⟩ := put_spec r d
  have hle := r.claim_le
  have hsplit : (r.put d).2.tail - r.claim = (r.tail - r.claim) + (r.put d).1 := by omega
  have hend : r.claim + (r.tail - r.claim) = r.tail := by omega
  rw [unclaimed, hclaim, hsplit, slice_add, hkeep _ _ r.head_le hend.le, hend, hnew, unclaimed]

/-- **A claim takes the first of them.** -/
theorem unclaimed_getClaim (r : Ring α S) (limit : ℕ) :
    (r.getClaim limit).2.read (r.claim % S.size) (r.claimLen limit)
      ++ (r.getClaim limit).2.unclaimed = r.unclaimed := by
  have hle := r.claimLen_le limit
  have hsplit : r.tail - r.claim = r.claimLen limit + (r.tail - (r.claim + r.claimLen limit)) := by
    omega
  rw [read_eq_slice _ (r.claimLen_inside limit), unclaimed, unclaimed, hsplit, slice_add]
  simp only [claim_getClaim, tail_getClaim, slice_congr_mem (r.mem_getClaim limit)]

/-- Freeing what was claimed leaves them alone. -/
theorem unclaimed_getFinish {r : Ring α S} {n : ℕ} (h : r.claim = r.head + n) :
    (r.getFinish n).2.unclaimed = r.unclaimed := by
  have hle : n ≤ r.used := by
    have := r.claim_le
    unfold used
    omega
  obtain ⟨-, -, hclaim, htail, hmem⟩ := getFinish_of_le hle
  rw [unclaimed, hclaim, htail, ← h, slice_congr_mem hmem, unclaimed]

end Ring

end Machinery
