import Mathlib.Data.List.Basic

/-!
# Machinery/MessageQueue — a queue of messages with a capacity

    put 3 [1, 2] ──▸ [1, 2, 3]      get [1, 2, 3] ──▸ 1, [2, 3]      put into a full queue: refused
-/

namespace Machinery

/-- A queue that holds up to `capacity` messages. -/
structure MessageQueue (α : Type*) (capacity : ℕ) where
  items : List α
  length_le : items.length ≤ capacity

namespace MessageQueue

variable {α β : Type*} {capacity : ℕ}

/-- A queue without messages. -/
def empty : MessageQueue α capacity := ⟨[], Nat.zero_le _⟩

/-- Put a message behind the others, if there is room. -/
def put (q : MessageQueue α capacity) (a : α) : Option (MessageQueue α capacity) :=
  if h : q.items.length < capacity then
    some ⟨q.items ++ [a], by rw [List.length_append]; exact h⟩
  else none

/-- Get the first message, if there is one. -/
def get (q : MessageQueue α capacity) : Option (α × MessageQueue α capacity) :=
  match q.items, q.length_le with
  | [], _ => none
  | a :: items, h => some (a, ⟨items, Nat.le_of_succ_le h⟩)

/-- The queue with each message as `f` sees it. -/
def map (f : α → β) (q : MessageQueue α capacity) : MessageQueue β capacity :=
  ⟨q.items.map f, by rw [List.length_map]; exact q.length_le⟩

/-- Whether there is room does not depend on the messages… -/
theorem put_map (f : α → β) (q : MessageQueue α capacity) (a : α) :
    (q.map f).put (f a) = (q.put a).map (map f) := by
  unfold put map
  by_cases h : q.items.length < capacity
  · simp [h]
  · simp [h]

/-- …and neither does which one comes first. -/
theorem get_map (f : α → β) (q : MessageQueue α capacity) :
    (q.map f).get = q.get.map (Prod.map f (map f)) := by
  obtain ⟨items, hle⟩ := q
  cases items with
  | nil => rfl
  | cons a items => rfl

theorem items_put {q q' : MessageQueue α capacity} {a : α} (h : q.put a = some q') :
    q'.items = q.items ++ [a] := by
  unfold put at h
  split at h
  · rw [← Option.some.inj h]
  · simp at h

theorem room_of_put {q q' : MessageQueue α capacity} {a : α} (h : q.put a = some q') :
    q.items.length < capacity := by
  unfold put at h
  split at h
  next hroom => exact hroom
  next => simp at h

theorem full_of_put {q : MessageQueue α capacity} {a : α} (h : q.put a = none) :
    ¬ q.items.length < capacity := by
  unfold put at h
  split at h
  next => simp at h
  next hfull => exact hfull

theorem items_get {q q' : MessageQueue α capacity} {a : α} (h : q.get = some (a, q')) :
    q.items = a :: q'.items := by
  obtain ⟨items, hle⟩ := q
  cases items with
  | nil => simp [get] at h
  | cons b items =>
    obtain ⟨rfl, rfl⟩ := Prod.mk.inj (Option.some.inj h)
    rfl

theorem items_of_get_none {q : MessageQueue α capacity} (h : q.get = none) : q.items = [] := by
  obtain ⟨items, hle⟩ := q
  cases items with
  | nil => rfl
  | cons a items => exact absurd h (Option.some_ne_none _)

end MessageQueue

end Machinery
