import Mathlib.Algebra.Group.Nat.Defs
import Pyrinas.Machinery.Area
import Pyrinas.Machinery.Run

/-!
# Comms/Receive — the receive loop of `comms.c`

`comms_rx_thread` claims a piece of `rx_buf` on every iteration and carries three things from one
iteration to the next: the static array `message`, `message_size`, and `p_message_next`, kept here
as its offset from `message`.  `commsRxIteration` is the body of the loop between the claim and
`free:`, on the bytes of the piece; it answers `none` where a `memcpy` leaves `message`.

    piece ──commsRxHeader──▸ data ──commsRxCopy──▸ (event) ──commsRxLeftover──▸ free:
-/

open Machinery

namespace Pyrinas

/-- `comms_evt_type_t` -/
inductive CommsEvtType
  | commsEvtRead
  deriving DecidableEq

/-- `comms_evt_t`, with the bytes `data` points to when the callback is called. -/
structure CommsEvt where
  type : CommsEvtType
  data : List UInt8
  len : ℕ
  deriving DecidableEq

/-- Subtraction of `size_t` values on the 32-bit target. -/
def sizeSub (a b : ℕ) : ℕ := (a + 2 ^ 32 - b) % 2 ^ 32

/-- It is exact as long as it does not wrap, and `size_t` values are below `2 ^ 32`. -/
theorem sizeSub_of_le {a b : ℕ} (hb : b ≤ a) (ha : a < 2 ^ 32) : sizeSub a b = a - b := by
  unfold sizeSub
  rw [show a + 2 ^ 32 - b = a - b + 2 ^ 32 by omega, Nat.add_mod_right]
  exact Nat.mod_eq_of_lt (by omega)

/-- What `comms_rx_thread` keeps between two iterations, and the events it has passed on. -/
structure CommsRx where
  message : Area UInt8 256
  messageSize : ℕ
  pMessageNext : ℕ
  events : List CommsEvt
  deriving DecidableEq

/-- The loop is entered with an empty message; `p_message_next` is written before it is read. -/
def CommsRx.start : CommsRx := ⟨Area.fill 256 0, 0, 0, []⟩

/-- Take the message size from the first byte of a piece, if no message is in progress; what
follows it in the piece is data. -/
def commsRxHeader (s : CommsRx) : List UInt8 → CommsRx × List UInt8
  | [] => (s, [])
  | b :: data =>
    if s.messageSize = 0 then ({ s with pMessageNext := 0, messageSize := b.toNat }, data)
    else (s, b :: data)

/-- Start the next message with what is left of the piece behind a completed one. -/
def commsRxLeftover (s : CommsRx) : List UInt8 → Option CommsRx
  | [] => some { s with messageSize := 0 }
  | b :: data =>
    -- a size of zero skips to `free:`, and with it whatever follows in the piece
    if b.toNat = 0 then some { s with messageSize := 0 }
    else do
      -- everything that is left is copied, whatever the new message size is
      let message ← s.message.copyIn s.pMessageNext data
      some { s with
        messageSize := b.toNat, message := message, pMessageNext := s.pMessageNext + data.length }

/-- `message_size - (p_message_next - message)` -/
def CommsRx.remaining (s : CommsRx) : ℕ := sizeSub s.messageSize s.pMessageNext

/-- Continue the message in progress, and pass it on when it is complete. -/
def commsRxCopy (s : CommsRx) (data : List UInt8) : Option CommsRx := do
  let remaining := s.remaining
  let readCnt := if data.length > remaining then remaining else data.length
  let message ← s.message.copyIn s.pMessageNext (data.take readCnt)
  if sizeSub remaining readCnt = 0 then
    let evt := ⟨.commsEvtRead, message.cells.take s.messageSize, s.messageSize⟩
    commsRxLeftover { s with message := message, pMessageNext := 0, events := s.events ++ [evt] }
      (data.drop readCnt)
  else some { s with message := message, pMessageNext := s.pMessageNext + readCnt }

/-- **One iteration of the loop in `comms_rx_thread`** on a claimed piece. -/
def commsRxIteration (s : CommsRx) (piece : List UInt8) : Option CommsRx :=
  if piece = [] then some s
  else
    let (s, data) := commsRxHeader s piece
    if s.messageSize = 0 then some s else commsRxCopy s data

/-- The iterations of the thread, as long as none leaves `message`. -/
def commsRxThread (s : Option CommsRx) (piece : List UInt8) : Option CommsRx :=
  s.bind (commsRxIteration · piece)

/-! ## The branches of an iteration -/

@[simp] theorem commsRxIteration_nil (s : CommsRx) : commsRxIteration s [] = some s := by
  simp [commsRxIteration]

/-- With no message in progress, the first byte is the size. -/
theorem commsRxIteration_first {s : CommsRx} (hs : s.messageSize = 0) (b : UInt8)
    (data : List UInt8) :
    commsRxIteration s (b :: data)
      = if b.toNat = 0 then some { s with pMessageNext := 0, messageSize := 0 }
        else commsRxCopy { s with pMessageNext := 0, messageSize := b.toNat } data := by
  simp only [commsRxIteration, commsRxHeader, hs, if_true, reduceCtorEq, if_false]
  split
  · rename_i hb
    rw [hb]
  · rfl

/-- With a message in progress, the whole piece is data. -/
theorem commsRxIteration_next {s : CommsRx} (hs : s.messageSize ≠ 0) {piece : List UInt8}
    (hp : piece ≠ []) : commsRxIteration s piece = commsRxCopy s piece := by
  obtain ⟨b, data, rfl⟩ := List.exists_cons_of_ne_nil hp
  simp only [commsRxIteration, commsRxHeader, hs, reduceCtorEq, if_false]

/-- Data that does not complete the message is appended to it. -/
theorem commsRxCopy_of_lt (s : CommsRx) (data : List UInt8) {k : ℕ}
    (hsize : s.messageSize = s.pMessageNext + k) (hk : data.length < k)
    (hlt : s.messageSize < 256) :
    ∃ message, s.message.copyIn s.pMessageNext data = some message ∧
      commsRxCopy s data
        = some { s with message := message, pMessageNext := s.pMessageNext + data.length } := by
  have hrem : s.remaining = k := by
    rw [CommsRx.remaining, sizeSub_of_le (by omega) (by omega)]
    omega
  obtain ⟨message, hm⟩ := s.message.exists_copyIn s.pMessageNext data (by omega)
  have hne : sizeSub k data.length ≠ 0 := by rw [sizeSub_of_le (by omega) (by omega)]; omega
  refine ⟨message, hm, ?_⟩
  simp [commsRxCopy, hrem, if_neg (show ¬ data.length > k by omega), hm, hne]

/-- Data that reaches the end of the message completes it, and the rest is left over. -/
theorem commsRxCopy_of_le (s : CommsRx) (data : List UInt8) {k : ℕ}
    (hsize : s.messageSize = s.pMessageNext + k) (hk : k ≤ data.length)
    (hlt : s.messageSize < 256) :
    ∃ message, s.message.copyIn s.pMessageNext (data.take k) = some message ∧
      commsRxCopy s data
        = commsRxLeftover { s with
            message := message, pMessageNext := 0,
            events := s.events
              ++ [⟨.commsEvtRead, message.cells.take s.messageSize, s.messageSize⟩] }
            (data.drop k) := by
  have hrem : s.remaining = k := by
    rw [CommsRx.remaining, sizeSub_of_le (by omega) (by omega)]
    omega
  have hcnt : (if data.length > k then k else data.length) = k := by split <;> omega
  obtain ⟨message, hm⟩ := s.message.exists_copyIn s.pMessageNext (data.take k)
    (by rw [List.length_take]; omega)
  have hz : sizeSub k k = 0 := by rw [sizeSub_of_le le_rfl (by omega), Nat.sub_self]
  refine ⟨message, hm, ?_⟩
  simp [commsRxCopy, hrem, hcnt, hm, hz]

end Pyrinas
