import Pyrinas.Machinery.Ring

/-!
# Comms/Uart — the ring buffers of `comms.c`

`struct uart_buf` holds `UART_RINGBUF_SIZE` words of four bytes, and the ring is initialised over
all of them; claims are limited to `UART_RINGBUF_SIZE` bytes.  How many of the bytes the ring fills
is left open.
-/

open Machinery

namespace Pyrinas

/-- `UART_RINGBUF_SIZE` -/
def uartRingbufSize : ℕ := 512

/-- The storage of `struct uart_buf`: `sizeof(tx_buf.buf)` bytes, of which the ring fills `cap`. -/
structure UartShape extends RingShape where
  size_eq : size = uartRingbufSize * 4

/-- A ring that fills all of its storage. -/
def UartShape.full : UartShape := ⟨⟨2048, 2048, by decide, le_rfl⟩, rfl⟩

/-- The waiting bytes are at most a claim, and do not cross the end of the storage. -/
def OneClaimTakesAll {S : UartShape} (r : Ring UInt8 S.toRingShape) : Prop :=
  r.used ≤ uartRingbufSize ∧ r.head % S.size + r.used ≤ S.size

/-- **When one claim takes everything**, with no claim outstanding. -/
theorem claimLen_eq_used_iff {S : UartShape} {r : Ring UInt8 S.toRingShape} (hr : r.claim = r.head) :
    r.claimLen uartRingbufSize = r.used ↔ OneClaimTakesAll r := by
  have hpos := Nat.mod_lt r.head (Ring.size_pos S.toRingShape)
  unfold Ring.claimLen OneClaimTakesAll
  rw [hr]
  change min uartRingbufSize (min r.used (S.size - r.head % S.size)) = r.used ↔ _
  omega

/-- A claim of nothing means there is nothing. -/
theorem used_eq_zero_of_claimLen {S : UartShape} {r : Ring UInt8 S.toRingShape}
    (hr : r.claim = r.head) (h : r.claimLen uartRingbufSize = 0) : r.used = 0 := by
  by_contra hne
  have hlt : r.claim < r.tail := by
    have := r.head_le_tail
    unfold Ring.used at hne
    omega
  have := Ring.claimLen_pos (by decide : 0 < uartRingbufSize) hlt
  omega

end Pyrinas
