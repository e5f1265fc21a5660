import Pyrinas.Comms.Wakeup

/-!
# Comms/Overflow — when chunks are received whole or not at all

`UART_RX_RDY` stores as much of a chunk as fits into `rx_buf`, and reports an overflow when that is
nothing.  Of a chunk that is longer than the room that is left the front is stored, and nobody hears
of the rest: the bytes that follow it are read in its place.

    room 0 < len   ─▸ removed, reported
    room ≥ len     ─▸ stored
    0 < room < len ─▸ cut, not reported
-/

open Machinery

namespace Pyrinas

/-- A chunk that was received: how much of it was stored, and whether an overflow was reported. -/
structure RxChunk where
  buf : List UInt8
  written : ℕ
  reported : Bool
  deriving DecidableEq

/-- The receive loop, and the chunks so far. -/
structure RxStream (S : UartShape) where
  loop : RxLoop S
  chunks : List RxChunk

/-- The concatenation of chunks, of which some that were reported have been removed. -/
inductive WholeChunks : List RxChunk → List UInt8 → Prop
  | nil : WholeChunks [] []
  | kept {chunks : List RxChunk} {bytes : List UInt8} (c : RxChunk) (h : WholeChunks chunks bytes) :
      WholeChunks (chunks ++ [c]) (bytes ++ c.buf)
  | removed {chunks : List RxChunk} {bytes : List UInt8} (c : RxChunk)
      (h : WholeChunks chunks bytes) (hreported : c.reported) : WholeChunks (chunks ++ [c]) bytes

namespace RxLoop

variable {S : UartShape}

/-- What `comms_rx_thread` has consumed. -/
def consumed (s : RxLoop S) : List UInt8 := s.pieces.flatten

/-- A claim is outstanding only while the thread is about to free it. -/
def Claimed (s : RxLoop S) : Prop :=
  match s.pc with
  | .take | .claim => s.rxBuf.claim = s.rxBuf.head
  | .free size => s.rxBuf.claim = s.rxBuf.head + size

/-- What an event stores. -/
def stored (s : RxLoop S) : RxEvent → List UInt8
  | .rxRdy buf => buf.take (s.rxBuf.put buf).1
  | _ => []

theorem claimed_step {s : RxLoop S} (h : Claimed s) (e : RxEvent) : Claimed (s.step e) := by
  cases e with
  | rxRdy buf =>
    obtain ⟨-, hhead, hclaim, -⟩ := s.rxBuf.put_spec buf
    simpa only [Claimed, step, rxRdy, hhead, hclaim] using h
  | take =>
    simp only [step, semTake]
    split_ifs with hif
    · simpa only [Claimed, hif.1] using h
    · exact h
  | claim =>
    change Claimed s.getClaim
    by_cases hpc : s.pc = .claim
    · simp only [Claimed, hpc] at h
      by_cases h0 : s.rxBuf.claimLen uartRingbufSize = 0
      · rw [getClaim_of_zero hpc h0]
        simp only [Claimed, Ring.claim_getClaim, h0, Nat.add_zero, Ring.head_getClaim, h]
      · rw [getClaim_of_pos hpc h0]
        simp only [Claimed, Ring.claim_getClaim, Ring.head_getClaim, h]
    · rwa [getClaim_of_ne hpc]
  | free =>
    cases hpc : s.pc with
    | take | claim => simpa only [step, getFinish, hpc] using h
    | free size =>
      simp only [Claimed, hpc] at h
      have hle : size ≤ s.rxBuf.used := by
        have := s.rxBuf.claim_le
        unfold Ring.used
        omega
      obtain ⟨-, hhead, hclaim, -⟩ := Ring.getFinish_of_le hle
      simp only [Claimed, step, getFinish, hpc, hclaim, hhead]

/-- **What is stored is consumed, or waits behind the rest.** -/
theorem consumed_step {s : RxLoop S} (h : Claimed s) (e : RxEvent) :
    (s.step e).consumed ++ (s.step e).rxBuf.unclaimed
      = s.consumed ++ s.rxBuf.unclaimed ++ s.stored e := by
  cases e with
  | rxRdy buf => simp only [step, rxRdy, consumed, Ring.unclaimed_put, stored, List.append_assoc]
  | take =>
    simp only [step, semTake, stored, List.append_nil]
    split_ifs <;> rfl
  | claim =>
    simp only [step, stored, List.append_nil]
    have hunclaimed := s.rxBuf.unclaimed_getClaim uartRingbufSize
    by_cases hpc : s.pc = .claim
    · by_cases h0 : s.rxBuf.claimLen uartRingbufSize = 0
      · rw [getClaim_of_zero hpc h0]
        rw [h0] at hunclaimed
        exact congrArg (s.consumed ++ ·) hunclaimed
      · rw [getClaim_of_pos hpc h0, ← hunclaimed]
        simp [consumed]
    · rw [getClaim_of_ne hpc]
  | free =>
    cases hpc : s.pc with
    | take | claim => simp only [step, getFinish, hpc, stored, List.append_nil]
    | free size =>
      simp only [Claimed, hpc] at h
      simp only [step, getFinish, hpc, stored, List.append_nil, consumed,
        Ring.unclaimed_getFinish h]

end RxLoop

namespace RxStream

variable {S : UartShape}

/-- Nothing has been received. -/
def start (S : UartShape) (mem : ℕ → UInt8) : RxStream S := ⟨.start S mem, []⟩

/-- One event: a chunk of which nothing is stored is reported. -/
def step (x : RxStream S) (e : RxEvent) : RxStream S where
  loop := x.loop.step e
  chunks := match e with
    | .rxRdy buf =>
      let written := (x.loop.rxBuf.put buf).1
      x.chunks ++ [⟨buf, written, written = 0⟩]
    | _ => x.chunks

/-- No chunk is stored in part, and what is consumed, and then what waits, are whole chunks. -/
structure NeverCut (x : RxStream S) : Prop where
  stored : ∀ c ∈ x.chunks, c.written = 0 ∨ c.written = c.buf.length
  whole : WholeChunks x.chunks (x.loop.consumed ++ x.loop.rxBuf.unclaimed)

/-- A chunk fits, or there is no room at all. -/
def FitsOrFull (x : RxStream S) : RxEvent → Prop
  | .rxRdy buf => x.loop.rxBuf.used + buf.length ≤ S.cap ∨ x.loop.rxBuf.used = S.cap
  | _ => True

/-! ## The exact condition -/

/-- What is stored of a chunk. -/
theorem written_iff (r : Ring UInt8 S.toRingShape) (buf : List UInt8) :
    ((r.put buf).1 = 0 ∨ (r.put buf).1 = buf.length) ↔
      r.used + buf.length ≤ S.cap ∨ r.used = S.cap := by
  have hle : r.used ≤ S.cap := by
    have := r.tail_le
    unfold Ring.used
    omega
  rw [(r.put_spec buf).1]
  omega

/-- The chunks are whole, and claims are as the place of the thread says. -/
structure Sound (x : RxStream S) : Prop where
  claimed : x.loop.Claimed
  neverCut : NeverCut x

theorem sound_start (mem : ℕ → UInt8) : Sound (start S mem) := by
  refine ⟨rfl, fun c hc => absurd hc List.not_mem_nil, ?_⟩
  have hnil : (start S mem).loop.consumed ++ (start S mem).loop.rxBuf.unclaimed = [] := rfl
  rw [hnil]
  exact .nil

theorem sound_step (x : RxStream S) (e : RxEvent) (h : Sound x) (hok : FitsOrFull x e) :
    Sound (x.step e) := by
  have hstream := RxLoop.consumed_step h.claimed e
  refine ⟨RxLoop.claimed_step h.claimed e, ?_, ?_⟩
  · cases e with
    | rxRdy buf =>
      exact List.forall_mem_append.mpr
        ⟨h.neverCut.stored, List.forall_mem_singleton.mpr ((written_iff _ _).mpr hok)⟩
    | take | claim | free => exact h.neverCut.stored
  · change WholeChunks _ ((x.loop.step e).consumed ++ (x.loop.step e).rxBuf.unclaimed)
    rw [hstream]
    cases e with
    | rxRdy buf =>
      rcases (written_iff _ _).mpr hok with hnone | hall
      · -- refused, and reported
        have hnil : x.loop.stored (.rxRdy buf) = [] := by rw [RxLoop.stored, hnone, List.take_zero]
        rw [hnil, List.append_nil]
        exact .removed _ h.neverCut.whole (decide_eq_true hnone)
      · have hbuf : x.loop.stored (.rxRdy buf) = buf := by
          rw [RxLoop.stored, hall, List.take_length]
        rw [hbuf]
        exact .kept ⟨buf, _, _⟩ h.neverCut.whole
    | take | claim | free =>
      simp only [RxLoop.stored, List.append_nil]
      exact h.neverCut.whole

/-- A chunk that is longer than the room is cut. -/
theorem not_neverCut_step {x : RxStream S} {e : RxEvent} (hbad : ¬ FitsOrFull x e) :
    ¬ NeverCut (x.step e) := by
  cases e with
  | rxRdy buf =>
    intro h
    exact hbad ((written_iff _ _).mp (h.stored _ (List.mem_append_right _ List.mem_cons_self)))
  | take | claim | free => exact absurd trivial hbad

/-- **Chunks are received whole or not at all exactly while each fits or finds no room.** -/
theorem neverCut_iff_fitsOrFull (mem : ℕ → UInt8) (es : List RxEvent) :
    Always step NeverCut (start S mem) es ↔ Meets step FitsOrFull (start S mem) es :=
  always_iff_meets sound_step (fun _ => Sound.neverCut) (fun _ _ _ => not_neverCut_step)
    (sound_start mem) es

/-- Seventeen chunks of 127 bytes: 16 bytes of the last one fit. -/
theorem not_neverCut_seventeen_chunks :
    ¬ Always step NeverCut (start UartShape.full fun _ => 0)
      (List.replicate 17 (.rxRdy (List.replicate 127 0))) := by
  intro h
  have hcut := h.last.stored ⟨List.replicate 127 0, 16, false⟩ (by decide +kernel)
  simp at hcut

end RxStream

end Pyrinas
