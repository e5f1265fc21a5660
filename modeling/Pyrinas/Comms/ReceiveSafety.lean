import Pyrinas.Comms.Receive

/-!
# Comms/ReceiveSafety — when the receive loop stays inside `message`

The continuation `memcpy` is cut to what the message still needs; the one that starts the next
message with the leftovers of a piece is not.  So the loop is memory safe exactly while the
leftovers behind each new size byte are no more than that size (`LeftoverFits`): one byte more and
`p_message_next` stands past the end of the message, the next subtraction wraps, and every later
piece is copied further out.
-/

open Machinery

namespace Pyrinas

/-! ## Memory safety of the loop -/

/-- At the head of the loop, with a message in progress, `p_message_next` is inside it. -/
def CommsRx.HeadSafe (s : CommsRx) : Prop :=
  s.messageSize ≠ 0 → s.pMessageNext ≤ s.messageSize ∧ s.pMessageNext ≤ 255

/-- Whatever the next piece is, the subtraction made on it does not wrap. -/
def CommsRx.SubtractionExact (s : CommsRx) : Prop :=
  ∀ piece, (commsRxHeader s piece).1.messageSize ≠ 0 →
    ((commsRxHeader s piece).1.remaining : ℤ)
      = (commsRxHeader s piece).1.messageSize - (commsRxHeader s piece).1.pMessageNext

/-- The loop has written only inside `message`, and its head is safe. -/
def RxMemorySafe : Option CommsRx → Prop
  | none => False
  | some s => s.HeadSafe ∧ s.SubtractionExact

/-- What a piece holds behind the end of the message in progress. -/
def CommsRx.behindMessage (s : CommsRx) (piece : List UInt8) : List UInt8 :=
  let (s', data) := commsRxHeader s piece
  if s'.messageSize = 0 then [] else data.drop (s'.messageSize - s'.pMessageNext)

/-- Behind the end of the message in progress there is nothing, a zero size, or a size and no more
bytes than it announces. -/
def LeftoverFits (t : Option CommsRx) (piece : List UInt8) : Prop :=
  ∀ s, t = some s → ∀ b data, s.behindMessage piece = b :: data → b.toNat ≠ 0 →
    data.length ≤ b.toNat

/-! ## The invariant -/

/-- `message_size` is a byte, and `p_message_next` is at most at the end of the message. -/
def RxInside (t : Option CommsRx) : Prop :=
  ∃ s, t = some s ∧ s.messageSize < 256 ∧ (s.messageSize ≠ 0 → s.pMessageNext ≤ s.messageSize)

theorem rxInside_start : RxInside (some .start) :=
  ⟨.start, rfl, by decide, fun _ => by decide⟩

/-- Taking the size from the piece keeps `p_message_next` inside. -/
theorem commsRxHeader_inside {s : CommsRx} (hsize : s.messageSize < 256)
    (hnext : s.messageSize ≠ 0 → s.pMessageNext ≤ s.messageSize) (piece : List UInt8) :
    (commsRxHeader s piece).1.messageSize < 256 ∧
      ((commsRxHeader s piece).1.messageSize ≠ 0 →
        (commsRxHeader s piece).1.pMessageNext ≤ (commsRxHeader s piece).1.messageSize) := by
  cases piece with
  | nil => exact ⟨hsize, hnext⟩
  | cons b data =>
    by_cases h0 : s.messageSize = 0
    · simpa [commsRxHeader, h0] using b.toNat_lt
    · simpa [commsRxHeader, h0] using ⟨hsize, hnext h0⟩

theorem RxInside.memorySafe {t : Option CommsRx} (h : RxInside t) : RxMemorySafe t := by
  obtain ⟨s, rfl, hsize, hnext⟩ := h
  refine ⟨fun h0 => ⟨hnext h0, by have := hnext h0; omega⟩, ?_⟩
  intro piece h0
  obtain ⟨hsize', hnext'⟩ := commsRxHeader_inside hsize hnext piece
  have hle := hnext' h0
  rw [CommsRx.remaining, sizeSub_of_le hle (by omega)]
  omega

/-- **An iteration either ends inside the message in progress, or completes it and goes on with
what is behind it.** -/
theorem commsRxIteration_behind {s : CommsRx} (hsize : s.messageSize < 256)
    (hnext : s.messageSize ≠ 0 → s.pMessageNext ≤ s.messageSize) (piece : List UInt8) :
    (RxInside (commsRxIteration s piece) ∧ s.behindMessage piece = []) ∨
      ∃ s', s'.pMessageNext = 0 ∧
        commsRxIteration s piece = commsRxLeftover s' (s.behindMessage piece) := by
  by_cases hp : piece = []
  · refine Or.inl ⟨⟨s, by rw [hp, commsRxIteration_nil], hsize, hnext⟩, ?_⟩
    simp [CommsRx.behindMessage, commsRxHeader, hp]
  obtain ⟨hsize', hnext'⟩ := commsRxHeader_inside hsize hnext piece
  rcases hh : commsRxHeader s piece with ⟨s', data⟩
  simp only [hh] at hsize' hnext'
  by_cases h0 : s'.messageSize = 0
  · refine Or.inl ⟨⟨s', ?_, hsize', hnext'⟩, ?_⟩
    · simp [commsRxIteration, hp, hh, h0]
    · simp [CommsRx.behindMessage, hh, h0]
  have hit : commsRxIteration s piece = commsRxCopy s' data := by
    simp [commsRxIteration, hp, hh, h0]
  have hbehind : s.behindMessage piece = data.drop (s'.messageSize - s'.pMessageNext) := by
    simp [CommsRx.behindMessage, hh, h0]
  have hle := hnext' h0
  by_cases hlt : data.length < s'.messageSize - s'.pMessageNext
  · obtain ⟨message, -, hcopy⟩ := commsRxCopy_of_lt s' data
      (k := s'.messageSize - s'.pMessageNext) (by omega) hlt hsize'
    refine Or.inl ⟨⟨_, hit.trans hcopy, hsize', fun _ => ?_⟩, ?_⟩
    · simp only
      omega
    · rw [hbehind, List.drop_of_length_le (by omega)]
  · obtain ⟨message, -, hcopy⟩ := commsRxCopy_of_le s' data
      (k := s'.messageSize - s'.pMessageNext) (by omega) (by omega) hsize'
    exact Or.inr ⟨_, rfl, by rw [hit, hcopy, hbehind]⟩

/-- The size and the offset a leftover leaves, when its size byte is not zero. -/
theorem commsRxLeftover_cons {s : CommsRx} (hs : s.pMessageNext = 0) {b : UInt8}
    (hb : b.toNat ≠ 0) (data : List UInt8) :
    commsRxLeftover s (b :: data)
      = (s.message.copyIn 0 data).map fun message => { s with
          messageSize := b.toNat, message := message, pMessageNext := data.length } := by
  simp only [commsRxLeftover, hb, if_false, hs, Nat.zero_add]
  cases s.message.copyIn 0 data <;> rfl

/-- **A piece whose leftovers fit keeps the loop inside.** -/
theorem rxInside_step (t : Option CommsRx) (piece : List UInt8) (h : RxInside t)
    (hok : LeftoverFits t piece) : RxInside (commsRxThread t piece) := by
  obtain ⟨s, rfl, hsize, hnext⟩ := h
  change RxInside (commsRxIteration s piece)
  rcases commsRxIteration_behind hsize hnext piece with ⟨hin, -⟩ | ⟨s', hs', hit⟩
  · exact hin
  rw [hit]
  rcases hbehind : s.behindMessage piece with _ | ⟨b, data⟩
  · exact ⟨_, rfl, by simp, fun h => absurd rfl h⟩
  · by_cases hb : b.toNat = 0
    · exact ⟨{ s' with messageSize := 0 }, by simp [commsRxLeftover, hb], by simp,
        fun h => absurd rfl h⟩
    · have hfit := hok s rfl b data hbehind hb
      have hbyte := b.toNat_lt
      obtain ⟨message, hm⟩ := s'.message.exists_copyIn 0 data (by omega)
      rw [commsRxLeftover_cons hs' hb, hm]
      exact ⟨_, rfl, by simp only; omega, fun _ => hfit⟩

/-- **A piece whose leftovers do not fit takes the loop out of bounds** — out of `message`, or past
the end of the message in progress. -/
theorem not_memorySafe_step (t : Option CommsRx) (piece : List UInt8) (h : RxInside t)
    (hbad : ¬ LeftoverFits t piece) : ¬ RxMemorySafe (commsRxThread t piece) := by
  obtain ⟨s, rfl, hsize, hnext⟩ := h
  simp only [LeftoverFits, not_forall, Option.some.injEq] at hbad
  obtain ⟨_, rfl, b, data, hbehind, hb, hlong⟩ := hbad
  change ¬ RxMemorySafe (commsRxIteration s piece)
  rcases commsRxIteration_behind hsize hnext piece with ⟨-, hnil⟩ | ⟨s', hs', hit⟩
  · exact absurd (hbehind.symm.trans hnil) (List.cons_ne_nil _ _)
  rw [hit, hbehind, commsRxLeftover_cons hs' hb]
  cases s'.message.copyIn 0 data with
  | none => exact id
  | some message => exact fun hsafe => hlong (hsafe.1 hb).1

/-- **The receive loop is memory safe exactly while the leftovers fit their size byte.** -/
theorem rxMemorySafe_iff_leftoverFits (pieces : List (List UInt8)) :
    Always commsRxThread RxMemorySafe (some .start) pieces
      ↔ Meets commsRxThread LeftoverFits (some .start) pieces :=
  always_iff_meets rxInside_step (fun _ => RxInside.memorySafe) not_memorySafe_step
    rxInside_start pieces

/-- A frame of one byte, and behind it a size of one with two bytes. -/
theorem not_rxMemorySafe_leftover :
    ¬ Always commsRxThread RxMemorySafe (some .start) [[1, 7, 1, 8, 9]] := by
  intro h
  have hlast := h.last
  have hrun : (run commsRxThread (some .start) [[1, 7, 1, 8, 9]]).map
      (fun s => (s.messageSize, s.pMessageNext)) = some (1, 2) := by decide
  rcases hs : run commsRxThread (some .start) [[1, 7, 1, 8, 9]] with _ | s
  · rw [hs] at hlast
    exact hlast
  · rw [hs] at hlast hrun
    obtain ⟨hsize, hnext⟩ := Prod.mk.inj (Option.some.inj hrun)
    have := (hlast.1 (by omega)).1
    omega

end Pyrinas
