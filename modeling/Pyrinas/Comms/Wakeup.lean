import Pyrinas.Machinery.Run
import Pyrinas.Machinery.Semaphore
import Pyrinas.Comms.Uart
import Pyrinas.Comms.Receive

/-!
# Comms/Wakeup — when no received byte is left waiting

`UART_RX_RDY` stores a chunk in `rx_buf` and gives `comms_sem`; `comms_rx_thread` takes it, makes
*one* claim, and goes back to sleep.  Gives are coalesced and a claim is bounded, by 512 bytes and
by the end of the storage, so the thread can fall asleep on bytes it has been woken for.  It does so
exactly when it claims less than is waiting and nothing arrives before it releases the claim
(`ClaimsSuffice`).

    take ──sem──▸ claim ──▸ free n ──▸ take          rxRdy: any time
-/

open Machinery

namespace Pyrinas

/-- Where `comms_rx_thread` is in its loop: at `k_sem_take`, at `ring_buf_get_claim`, or between the
claim of `size` bytes and their `ring_buf_get_finish`. -/
inductive RxPc
  | take
  | claim
  | free (size : ℕ)
  deriving DecidableEq

/-- `rx_buf`, `comms_sem`, the place of the thread, and the pieces it has claimed. -/
structure RxLoop (S : UartShape) where
  rxBuf : Ring UInt8 S.toRingShape
  commsSem : Semaphore 1
  pc : RxPc
  pieces : List (List UInt8)

/-- `UART_RX_RDY`, and the steps of the thread. -/
inductive RxEvent
  | rxRdy (buf : List UInt8)
  | take
  | claim
  | free

namespace RxLoop

variable {S : UartShape}

/-- The thread is about to wait for the first time. -/
def start (S : UartShape) (mem : ℕ → UInt8) : RxLoop S :=
  ⟨Ring.empty _ mem, Semaphore.zero 1, .take, []⟩

/-- `UART_RX_RDY`: what fits is stored, and the thread is woken in any case. -/
def rxRdy (s : RxLoop S) (buf : List UInt8) : RxLoop S :=
  { s with rxBuf := (s.rxBuf.put buf).2, commsSem := s.commsSem.give }

/-- `k_sem_take`: the thread goes on if the semaphore lets it. -/
def semTake (s : RxLoop S) : RxLoop S :=
  if s.pc = .take ∧ 0 < s.commsSem.count then { s with commsSem := s.commsSem.take, pc := .claim }
  else s

/-- `ring_buf_get_claim`: the next piece, or back to the head of the loop if there is none. -/
def getClaim (s : RxLoop S) : RxLoop S :=
  if s.pc = .claim then
    let ((pos, size), rxBuf) := s.rxBuf.getClaim uartRingbufSize
    if size = 0 then { s with rxBuf := rxBuf, pc := .take }
    else { s with rxBuf := rxBuf, pc := .free size, pieces := s.pieces ++ [rxBuf.read pos size] }
  else s

/-- `free:` — release the piece. -/
def getFinish (s : RxLoop S) : RxLoop S :=
  match s.pc with
  | .free size => { s with rxBuf := (s.rxBuf.getFinish size).2, pc := .take }
  | _ => s

/-- One event. -/
def step (s : RxLoop S) : RxEvent → RxLoop S
  | .rxRdy buf => s.rxRdy buf
  | .take => s.semTake
  | .claim => s.getClaim
  | .free => s.getFinish

/-- If the thread is blocked, no byte is waiting. -/
def NoByteWaiting (s : RxLoop S) : Prop :=
  s.pc = .take → s.commsSem.count = 0 → s.rxBuf.used = 0

/-- Another chunk arrives before the thread releases its claim (or it never does). -/
def RdyBeforeFree : List RxEvent → Prop
  | [] => True
  | .rxRdy _ :: _ => True
  | .free :: _ => False
  | _ :: es => RdyBeforeFree es

/-- Whenever the thread claims with the semaphore at 0, the claim takes everything that is waiting,
or another chunk arrives before the claim is released. -/
def ClaimsSuffice : RxLoop S → List RxEvent → Prop
  | _, [] => True
  | s, e :: es =>
    (e = .claim → s.pc = .claim → s.commsSem.count = 0 →
      OneClaimTakesAll s.rxBuf ∨ RdyBeforeFree es) ∧ ClaimsSuffice (s.step e) es

/-! ## The three outcomes of a claim -/

theorem getClaim_of_ne {s : RxLoop S} (hpc : s.pc ≠ .claim) : s.getClaim = s := if_neg hpc

/-- Nothing to claim: back to `k_sem_take`. -/
theorem getClaim_of_zero {s : RxLoop S} (hpc : s.pc = .claim)
    (h0 : s.rxBuf.claimLen uartRingbufSize = 0) :
    s.getClaim = { s with rxBuf := (s.rxBuf.getClaim uartRingbufSize).2, pc := .take } := by
  simp only [getClaim, hpc, if_true, Ring.getClaim_fst, h0]

/-- Something to claim: it is handed to the loop body. -/
theorem getClaim_of_pos {s : RxLoop S} (hpc : s.pc = .claim)
    (h0 : s.rxBuf.claimLen uartRingbufSize ≠ 0) :
    s.getClaim = { s with
      rxBuf := (s.rxBuf.getClaim uartRingbufSize).2
      pc := .free (s.rxBuf.claimLen uartRingbufSize)
      pieces := s.pieces ++ [(s.rxBuf.getClaim uartRingbufSize).2.read
        (s.rxBuf.claim % S.size) (s.rxBuf.claimLen uartRingbufSize)] } := by
  simp only [getClaim, hpc, if_true, Ring.getClaim_fst, h0, if_false]

/-! ## The loop body only sees pieces of 1 to 512 bytes -/

/-- **Every piece handed to the loop body is non-empty and at most `UART_RINGBUF_SIZE` long.** -/
theorem pieces_bounded (mem : ℕ → UInt8) (es : List RxEvent) :
    ∀ piece ∈ (run step (start S mem) es).pieces,
      0 < piece.length ∧ piece.length ≤ uartRingbufSize := by
  refine invariant_run_all
    (I := fun s : RxLoop S => ∀ piece ∈ s.pieces, 0 < piece.length ∧ piece.length ≤ uartRingbufSize)
    (fun s e h => ?_) (by simp [start]) es
  cases e with
  | rxRdy buf => exact h
  | take =>
    simp only [step, semTake]
    split
    · exact h
    · exact h
  | claim =>
    change ∀ piece ∈ s.getClaim.pieces, _
    by_cases hpc : s.pc = .claim
    · by_cases h0 : s.rxBuf.claimLen uartRingbufSize = 0
      · rw [getClaim_of_zero hpc h0]
        exact h
      · rw [getClaim_of_pos hpc h0]
        intro piece hmem
        rcases List.mem_append.mp hmem with hold | hnew
        · exact h piece hold
        · obtain rfl := List.mem_singleton.mp hnew
          simp only [Ring.read, List.length_map, List.length_range]
          exact ⟨Nat.pos_of_ne_zero h0, Nat.min_le_left _ _⟩
    · rw [getClaim_of_ne hpc]
      exact h
  | free =>
    simp only [step, getFinish]
    split
    · exact h
    · exact h

/-! ## The invariant -/

/-- Between two iterations no claim is outstanding, and a sleeping thread has left nothing. -/
def Settled (s : RxLoop S) : Prop :=
  match s.pc with
  | .take => s.rxBuf.claim = s.rxBuf.head ∧ (s.commsSem.count = 0 → s.rxBuf.used = 0)
  | .claim => s.rxBuf.claim = s.rxBuf.head
  | .free size => s.rxBuf.claim = s.rxBuf.head + size

/-- The thread is about to release less than is waiting, and nothing has woken it since. -/
def Short (s : RxLoop S) : Prop :=
  ∃ size, s.pc = .free size ∧ s.commsSem.count = 0 ∧ size < s.rxBuf.used

theorem settled_start (mem : ℕ → UInt8) : Settled (start S mem) := ⟨rfl, fun _ => rfl⟩

theorem Settled.noByteWaiting {s : RxLoop S} (h : Settled s) : NoByteWaiting s := by
  intro hpc
  simp only [Settled, hpc] at h
  exact h.2

theorem Settled.size_le {s : RxLoop S} (h : Settled s) {size : ℕ} (hpc : s.pc = .free size) :
    size ≤ s.rxBuf.used := by
  simp only [Settled, hpc] at h
  have := s.rxBuf.claim_le
  unfold Ring.used
  omega

/-- A chunk moves neither end of a claim, and wakes the thread. -/
theorem settled_rxRdy {s : RxLoop S} (h : Settled s) (buf : List UInt8) :
    Settled (s.rxRdy buf) ∧ ¬ Short (s.rxRdy buf) := by
  obtain ⟨-, hhead, hclaim, -⟩ := s.rxBuf.put_spec buf
  refine ⟨?_, fun ⟨_, _, hsem, _⟩ => by simp [rxRdy] at hsem⟩
  cases hpc : s.pc <;> simp only [Settled, hpc, rxRdy, hhead, hclaim] at h ⊢
  · exact ⟨h.1, fun hsem => by simp at hsem⟩
  · exact h
  · exact h

theorem settled_semTake {s : RxLoop S} (h : Settled s) :
    Settled s.semTake ∧ (Short s.semTake ↔ Short s) := by
  unfold semTake
  split_ifs with hif
  · obtain ⟨hpc, -⟩ := hif
    simp only [Settled, hpc] at h
    exact ⟨h.1, by simp [Short, hpc]⟩
  · exact ⟨h, Iff.rfl⟩

/-- A claim is short unless it takes everything, or the thread has been woken again already. -/
theorem settled_getClaim {s : RxLoop S} (h : Settled s) :
    Settled s.getClaim ∧ (Short s.getClaim ↔
      Short s ∨ (s.pc = .claim ∧ s.commsSem.count = 0 ∧ ¬ OneClaimTakesAll s.rxBuf)) := by
  by_cases hpc : s.pc = .claim
  · simp only [Settled, hpc] at h
    have hle : s.rxBuf.claimLen uartRingbufSize ≤ s.rxBuf.used := by
      have := s.rxBuf.claimLen_le uartRingbufSize
      unfold Ring.used
      omega
    have hall := claimLen_eq_used_iff h
    by_cases h0 : s.rxBuf.claimLen uartRingbufSize = 0
    · have hused := used_eq_zero_of_claimLen h h0
      rw [getClaim_of_zero hpc h0]
      refine ⟨⟨?_, fun _ => hused⟩, ?_⟩
      · simp only [Ring.claim_getClaim, h0, Nat.add_zero, Ring.head_getClaim, h]
      · simp [Short, hpc, ← hall, h0, hused]
    · rw [getClaim_of_pos hpc h0]
      refine ⟨?_, ?_⟩
      · simp only [Settled, Ring.claim_getClaim, Ring.head_getClaim, h]
      · simp only [Short, hpc, RxPc.free.injEq, Ring.used_getClaim, exists_eq_left',
          reduceCtorEq, false_and, exists_false, false_or, true_and, ← hall]
        omega
  · rw [getClaim_of_ne hpc]
    exact ⟨h, by simp [hpc]⟩

/-- Releasing a claim that was not short leaves nothing behind a sleeping thread. -/
theorem settled_getFinish {s : RxLoop S} (h : Settled s) (hs : ¬ Short s) :
    Settled s.getFinish ∧ ¬ Short s.getFinish := by
  cases hpc : s.pc with
  | take => simpa [getFinish, hpc] using ⟨h, hs⟩
  | claim => simpa [getFinish, hpc] using ⟨h, hs⟩
  | free size =>
    have hle := h.size_le hpc
    obtain ⟨-, hhead, hclaim, -, -⟩ := Ring.getFinish_of_le hle
    simp only [getFinish, hpc]
    refine ⟨⟨hclaim.trans hhead.symm, ?_⟩, by simp [Short]⟩
    intro hsem
    have hge : ¬ size < s.rxBuf.used := fun hlt => hs ⟨size, hpc, hsem, hlt⟩
    simp only [Ring.used_getFinish hle]
    omega

/-- Releasing a short claim puts the thread to sleep on what it left. -/
theorem waiting_of_short {s : RxLoop S} (hs : Short s) : ¬ NoByteWaiting s.getFinish := by
  obtain ⟨size, hpc, hsem, hlt⟩ := hs
  intro hP
  have hused := hP (by simp [getFinish, hpc]) (by simpa [getFinish, hpc] using hsem)
  simp only [getFinish, hpc, Ring.used_getFinish hlt.le] at hused
  omega

/-! ## The exact condition -/

/-- From a settled state: the thread never sleeps on a byte iff its claims suffice, the one it may
be holding included. -/
theorem always_iff_of_settled {s : RxLoop S} (h : Settled s) (es : List RxEvent) :
    Always step NoByteWaiting s es ↔ ClaimsSuffice s es ∧ (Short s → RdyBeforeFree es) := by
  induction es generalizing s with
  | nil => simp [ClaimsSuffice, RdyBeforeFree, h.noByteWaiting]
  | cons e es ih =>
    rw [always_cons, ClaimsSuffice]
    cases e with
    | rxRdy buf =>
      obtain ⟨hset, hshort⟩ := settled_rxRdy h buf
      simp [step, ih hset, hshort, RdyBeforeFree, h.noByteWaiting]
    | take =>
      obtain ⟨hset, hshort⟩ := settled_semTake h
      simp [step, ih hset, hshort, RdyBeforeFree, h.noByteWaiting]
    | claim =>
      obtain ⟨hset, hshort⟩ := settled_getClaim h
      simp only [step, ih hset, hshort, RdyBeforeFree, h.noByteWaiting, true_and, true_implies]
      tauto
    | free =>
      by_cases hs : Short s
      · simp only [step, RdyBeforeFree, hs, true_implies, and_false, iff_false, not_and]
        exact fun _ hall => waiting_of_short hs hall.head
      · obtain ⟨hset, hshort⟩ := settled_getFinish h hs
        simp [step, ih hset, hshort, hs, h.noByteWaiting]

/-- **No received byte is left waiting exactly while the claims suffice.** -/
theorem noByteWaiting_iff_claimsSuffice (mem : ℕ → UInt8) (es : List RxEvent) :
    Always step NoByteWaiting (start S mem) es ↔ ClaimsSuffice (start S mem) es := by
  rw [always_iff_of_settled (settled_start mem)]
  simp [Short, start]

/-- Five chunks of 128 bytes arrive while the thread is not running: one claim takes 512 of the 640
bytes, and the thread sleeps on the rest. -/
theorem not_noByteWaiting_five_chunks :
    ¬ Always step NoByteWaiting (start UartShape.full fun _ => 0)
      (List.replicate 5 (.rxRdy (List.replicate 128 0)) ++ [.take, .claim, .free]) := by
  intro h
  have hused : (run step (start UartShape.full fun _ => 0)
      (List.replicate 5 (.rxRdy (List.replicate 128 0)) ++ [.take, .claim, .free])).rxBuf.used
        = 0 := h.last (by decide +kernel) (by decide +kernel)
  revert hused
  decide +kernel

end RxLoop

end Pyrinas
