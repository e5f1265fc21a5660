import Mathlib.Data.List.Infix
import Mathlib.Tactic.Common

/-!
# Machinery/PacketFormat — splitting a stream into packets that say how long they are

    p₁ p₂ … pₖ q        total pᵢ = |pᵢ|,  q the beginning of a packet, or nothing

The first symbols of a packet tell its length, and what comes behind them does not matter to it.
So packets that are sent one behind the other are read one by one, and the beginning of a packet is
not read before the rest of it has come.
-/

namespace Machinery

/-- How long the packet is that a stream begins with, if the stream says so. -/
structure PacketFormat (α : Type*) where
  total : List α → Option ℕ
  pos : ∀ s n, total s = some n → 0 < n
  total_append : ∀ s t n, total s = some n → total (s ++ t) = some n

namespace PacketFormat

variable {α : Type*} (P : PacketFormat α)

/-- A packet, and nothing behind it. -/
def IsPacket (p : List α) : Prop := P.total p = some p.length

instance (p : List α) : Decidable (P.IsPacket p) := inferInstanceAs (Decidable (_ = _))

/-- The packets of a stream, and what is left of it. -/
def split (s : List α) : List (List α) × List α :=
  match _h : P.total s with
  | some n =>
    if n ≤ s.length then
      (s.take n :: (split (s.drop n)).1, (split (s.drop n)).2)
    else ([], s)
  | none => ([], s)
  termination_by s.length
  decreasing_by all_goals have := P.pos s n _h; rw [List.length_drop]; omega

variable {P}

/-- What does not say how long it is, or is not that long, is no packet. -/
theorem split_of_short {s : List α} (h : ∀ n, P.total s = some n → s.length < n) :
    P.split s = ([], s) := by
  rw [split]
  split
  next n hn => exact if_neg (Nat.not_le.mpr (h n hn))
  next => rfl

theorem split_of_le {s : List α} {n : ℕ} (h : P.total s = some n) (hle : n ≤ s.length) :
    P.split s = (s.take n :: (P.split (s.drop n)).1, (P.split (s.drop n)).2) := by
  rw [split]
  split
  next m hm =>
    obtain rfl : m = n := Option.some.inj (hm.symm.trans h)
    exact if_pos hle
  next hnone => exact absurd (hnone.symm.trans h) (by simp)

theorem split_nil : P.split [] = ([], []) := split_of_short fun n hn => P.pos [] n hn

/-- A packet at the front. -/
theorem split_packet {p : List α} (hp : P.IsPacket p) (t : List α) :
    P.split (p ++ t) = (p :: (P.split t).1, (P.split t).2) := by
  rw [split_of_le (P.total_append p t p.length hp) (by simp), List.take_left, List.drop_left]

/-- **Packets that are sent one behind the other are read one by one.** -/
theorem split_packets {ps : List (List α)} (hps : ∀ p ∈ ps, P.IsPacket p) (t : List α) :
    P.split (ps.flatten ++ t) = (ps ++ (P.split t).1, (P.split t).2) := by
  induction ps with
  | nil => rfl
  | cons p ps ih =>
    rw [List.flatten_cons, List.append_assoc, split_packet (hps p List.mem_cons_self),
      ih fun q hq => hps q (List.mem_cons_of_mem p hq)]
    rfl

/-- **The beginning of a packet is not read.** -/
theorem split_of_beginning {s t : List α} (h : P.IsPacket (s ++ t)) (ht : t ≠ []) :
    P.split s = ([], s) := by
  refine split_of_short fun n hn => ?_
  have htotal : n = (s ++ t).length := Option.some.inj ((P.total_append s t n hn).symm.trans h)
  have hpos := List.length_pos_of_ne_nil ht
  rw [htotal, List.length_append]
  omega

/-- **A stream is a packet if it is the one that is read of it.** -/
theorem split_eq_singleton_iff {s : List α} : (P.split s).1 = [s] ↔ P.IsPacket s := by
  constructor
  · intro h
    by_cases hle : ∃ n, P.total s = some n ∧ n ≤ s.length
    · obtain ⟨n, hn, hle⟩ := hle
      rw [split_of_le hn hle] at h
      have hlen := congrArg List.length (List.cons.inj h).1
      rw [List.length_take, Nat.min_eq_left hle] at hlen
      rw [IsPacket, hn, hlen]
    · have hshort : P.split s = ([], s) := split_of_short fun n hn => by
        by_contra hlt
        exact hle ⟨n, hn, Nat.not_lt.mp hlt⟩
      rw [hshort] at h
      exact absurd h (List.cons_ne_nil _ _).symm
  · intro h
    have hsplit := split_packet h []
    rw [List.append_nil, split_nil] at hsplit
    rw [hsplit]

end PacketFormat

end Machinery
