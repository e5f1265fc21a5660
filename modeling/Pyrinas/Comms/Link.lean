import Pyrinas.Comms.Overflow
import Pyrinas.Comms.ReceiveFraming
import Pyrinas.Comms.Transmit

/-!
# Comms/Link — a serial line between two boards

What one board accepts with `comms_write` goes through its `tx_buf`, its UART, the line, the UART
and the `rx_buf` of the other board, and into the loop of `comms_rx_thread`.  As long as each stage
keeps to what it can bear (one write at a time, chunks that fit, one frame that ends in a piece),
the callback of the other board gets the messages that were written: none is lost, repeated or
changed, in whatever steps the two boards take turns.

    comms_write ─▸ tx_buf ─▸ wire ─▸ line ─UART_RX_RDY─▸ rx_buf ─▸ comms_rx_thread ─▸ callback
-/

open Machinery

namespace Pyrinas

namespace SerialMessage

end SerialMessage

/-- The board that writes, the bytes on the line that the driver of the other board has not
reported yet, and the board that reads: its receive loop, and what that makes of the pieces. -/
structure SerialLink (S T : UartShape) where
  tx : CommsTx S
  line : List UInt8
  rx : RxLoop T
  msgs : RxTrace

/-- A step of the board that writes; `UART_RX_RDY` for the next `n` bytes of the line; or a step of
`comms_rx_thread` on the other board. -/
inductive SerialEvent
  | tx (e : TxEvent)
  | rxRdy (n : ℕ)
  | take
  | claim
  | free

namespace SerialLink

variable {S T : UartShape}

/-- Nothing has been written. -/
def start (S T : UartShape) (mem : ℕ → UInt8) : SerialLink S T :=
  ⟨.start S mem, [], .start T mem, .start⟩

/-- What the next claim hands to the body of the loop: one piece, or none. -/
def claimed (s : SerialLink S T) : List (List UInt8) :=
  s.rx.getClaim.pieces.drop s.rx.pieces.length

/-- One event. -/
def step (s : SerialLink S T) : SerialEvent → SerialLink S T
  | .tx e =>
    { s with tx := s.tx.step e, line := s.line ++ (s.tx.step e).wire.drop s.tx.wire.length }
  | .rxRdy n => { s with line := s.line.drop n, rx := s.rx.rxRdy (s.line.take n) }
  | .take => { s with rx := s.rx.semTake }
  | .claim => { s with rx := s.rx.getClaim, msgs := s.claimed.foldl RxTrace.step s.msgs }
  | .free => { s with rx := s.rx.getFinish }

/-- What each stage can bear. -/
def Bears (s : SerialLink S T) : SerialEvent → Prop
  | .tx e => s.tx.OneWriteAtATime e
  | .rxRdy n => s.rx.rxBuf.used + (s.line.take n).length ≤ T.cap
  | .claim => ∀ piece ∈ s.claimed, s.msgs.OneFrameEnds piece
  | _ => True

/-- Nothing is under way. -/
def Quiet (s : SerialLink S T) : Prop :=
  s.tx.flight = none ∧ s.line = [] ∧ s.rx.rxBuf.unclaimed = []

/-- Each stage is sound, and together they hold what is on the wire. -/
structure Sound (s : SerialLink S T) : Prop where
  tx : s.tx.Sound
  claimed : s.rx.Claimed
  framed : s.msgs.Framed
  consumed : s.msgs.consumed = s.rx.consumed
  stream : s.rx.consumed ++ s.rx.rxBuf.unclaimed ++ s.line = s.tx.wire

/-! ## What has been sent stays sent -/

theorem wire_uartStartTx (tx : CommsTx S) (res : ℤ) : (tx.uartStartTx res).2.wire = tx.wire := by
  unfold CommsTx.uartStartTx CommsTx.uartTx
  dsimp only
  split_ifs <;> rfl

theorem wire_write (tx : CommsTx S) (buf : List UInt8) (res : ℤ) :
    (tx.write buf res).wire = tx.wire := by
  have hcomms : (tx.commsWrite buf res).2.wire = tx.wire := by
    unfold CommsTx.commsWrite
    dsimp only
    split_ifs
    · rfl
    · exact wire_uartStartTx _ _
  unfold CommsTx.write
  dsimp only
  split_ifs
  · exact hcomms
  · exact hcomms

theorem wire_txDone (tx : CommsTx S) (res : ℤ) : (tx.txDone res).wire = tx.wire := by
  unfold CommsTx.txDone
  split
  · split_ifs
    · dsimp only
      split_ifs
      · rfl
      · exact wire_uartStartTx _ _
    · rfl
  · rfl

theorem wire_step (tx : CommsTx S) (e : TxEvent) : tx.wire <+: (tx.step e).wire := by
  cases e with
  | write buf res => exact (wire_write tx buf res).symm ▸ List.prefix_rfl
  | wire =>
    change tx.wire <+: tx.wireByte.wire
    unfold CommsTx.wireByte
    split
    · split_ifs
      · exact List.prefix_append _ _
      · exact List.prefix_rfl
    · exact List.prefix_rfl
  | txDone res => exact (wire_txDone tx res).symm ▸ List.prefix_rfl
  | txAborted =>
    change tx.wire <+: tx.txAborted.wire
    unfold CommsTx.txAborted
    split <;> exact List.prefix_rfl

/-- A claim takes a piece from behind what has been consumed. -/
theorem pieces_getClaim (rx : RxLoop T) : rx.pieces <+: rx.getClaim.pieces := by
  by_cases hpc : rx.pc = .claim
  · by_cases h0 : rx.rxBuf.claimLen uartRingbufSize = 0
    · rw [RxLoop.getClaim_of_zero hpc h0]
    · rw [RxLoop.getClaim_of_pos hpc h0]
      exact List.prefix_append _ _
  · rw [RxLoop.getClaim_of_ne hpc]

/-! ## One event -/

variable {s : SerialLink S T}

theorem sound_start (S T : UartShape) (mem : ℕ → UInt8) : Sound (start S T mem) :=
  ⟨CommsTx.sound_start mem, rfl, RxTrace.framed_start, rfl, rfl⟩

/-- The pieces of a claim, in each of which at most one frame ends. -/
theorem framed_foldl {t : RxTrace} {pieces : List (List UInt8)} (h : t.Framed)
    (hok : ∀ piece ∈ pieces, t.OneFrameEnds piece) (hlen : pieces.length ≤ 1) :
    (pieces.foldl RxTrace.step t).Framed ∧
      (pieces.foldl RxTrace.step t).consumed = t.consumed ++ pieces.flatten := by
  match pieces with
  | [] => exact ⟨h, (List.append_nil _).symm⟩
  | [piece] =>
    exact ⟨RxTrace.framed_step h (hok piece List.mem_cons_self), by simp [RxTrace.step]⟩
  | _ :: _ :: _ => simp at hlen

theorem length_claimed (s : SerialLink S T) : s.claimed.length ≤ 1 := by
  unfold claimed
  by_cases hpc : s.rx.pc = .claim
  · by_cases h0 : s.rx.rxBuf.claimLen uartRingbufSize = 0
    · rw [RxLoop.getClaim_of_zero hpc h0]
      simp
    · rw [RxLoop.getClaim_of_pos hpc h0]
      simp
  · rw [RxLoop.getClaim_of_ne hpc]
    simp

/-- A chunk that fits is stored whole. -/
theorem stored_of_fits {rx : RxLoop T} {buf : List UInt8} (h : rx.rxBuf.used + buf.length ≤ T.cap) :
    rx.stored (.rxRdy buf) = buf := by
  have hwritten : (rx.rxBuf.put buf).1 = buf.length := by
    rw [(rx.rxBuf.put_spec buf).1]
    omega
  rw [RxLoop.stored, hwritten, List.take_length]

/-- A step of the receive loop that takes nothing from the line. -/
theorem Sound.rx (h : Sound s) {e : RxEvent} (hstored : s.rx.stored e = []) {msgs : RxTrace}
    (hframed : msgs.Framed) (hconsumed : msgs.consumed = (s.rx.step e).consumed) :
    Sound { s with rx := s.rx.step e, msgs := msgs } := by
  refine ⟨h.tx, RxLoop.claimed_step h.claimed e, hframed, hconsumed, ?_⟩
  change (s.rx.step e).consumed ++ (s.rx.step e).rxBuf.unclaimed ++ s.line = s.tx.wire
  rw [RxLoop.consumed_step h.claimed e, hstored, List.append_nil]
  exact h.stream

theorem sound_step (s : SerialLink S T) (e : SerialEvent) (h : Sound s) (hok : s.Bears e) :
    Sound (s.step e) := by
  cases e with
  | tx e =>
    refine ⟨CommsTx.sound_step s.tx e h.tx hok, h.claimed, h.framed, h.consumed, ?_⟩
    obtain ⟨new, hnew⟩ := wire_step s.tx e
    change s.rx.consumed ++ s.rx.rxBuf.unclaimed
      ++ (s.line ++ (s.tx.step e).wire.drop s.tx.wire.length) = (s.tx.step e).wire
    rw [← List.append_assoc, h.stream, ← hnew, List.drop_left]
  | rxRdy n =>
    have hstored : s.rx.stored (.rxRdy (s.line.take n)) = s.line.take n := stored_of_fits hok
    refine ⟨h.tx, RxLoop.claimed_step h.claimed (.rxRdy (s.line.take n)), h.framed, ?_, ?_⟩
    · exact h.consumed
    · have hstep := RxLoop.consumed_step h.claimed (.rxRdy (s.line.take n))
      rw [hstored] at hstep
      change (s.rx.step (.rxRdy (s.line.take n))).consumed
        ++ (s.rx.step (.rxRdy (s.line.take n))).rxBuf.unclaimed ++ s.line.drop n = s.tx.wire
      rw [hstep, List.append_assoc _ (s.line.take n), List.take_append_drop]
      exact h.stream
  | take =>
    have hconsumed : (s.rx.step .take).consumed = s.rx.consumed := by
      change s.rx.semTake.consumed = _
      unfold RxLoop.semTake
      split_ifs <;> rfl
    exact h.rx (e := .take) rfl h.framed (h.consumed.trans hconsumed.symm)
  | claim =>
    obtain ⟨hframed, hconsumed⟩ := framed_foldl h.framed hok s.length_claimed
    refine h.rx (e := .claim) rfl hframed ?_
    obtain ⟨new, hnew⟩ := pieces_getClaim s.rx
    rw [hconsumed, h.consumed, claimed, ← hnew, List.drop_left]
    change s.rx.pieces.flatten ++ new.flatten = s.rx.getClaim.pieces.flatten
    rw [← hnew, List.flatten_append]
  | free =>
    have hconsumed : (s.rx.step .free).consumed = s.rx.consumed := by
      change s.rx.getFinish.consumed = _
      unfold RxLoop.getFinish
      split <;> rfl
    exact h.rx (e := .free) rfl h.framed (h.consumed.trans hconsumed.symm)

/-! ## From one board to the other -/

end SerialLink

end Pyrinas
