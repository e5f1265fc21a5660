import Mathlib.Data.List.Perm.Basic
import Pyrinas.Hci.Uart

/-!
# Hci/Buffers — every buffer is in one place

A buffer is free, or the interrupt handler fills it, or it waits in `tx_queue`, or `tx_thread` holds
it, or the controller does.  No step of any of them loses a command or a data buffer, or gives one
back twice.  Only a buffer of another type is left behind: `bt_uart_isr` returns with it in its
static variable, and overwrites the variable when the next packet begins.

    free ──▸ buf ──▸ tx_queue ──▸ tx_thread ──▸ stack ──▸ free
              └──────── too long, refused ────────────────▸
-/

open Machinery

namespace Pyrinas

namespace HciUart

/-- The buffers that are not free. -/
def inUse (s : HciUart) : List NetBuf :=
  s.buf.toList ++ s.txBuf.toList ++ s.txQueue ++ s.stack

/-- How many buffers of a type there are, free or not. -/
def total (s : HciUart) (type : BtBufType) : ℕ :=
  s.free type + s.inUse.countP fun buf => buf.type = type

/-- Between two packets the handler holds no buffer but one it has left behind, and it discards
only what it has no buffer for. -/
def LeavesNone (s : HciUart) : Prop :=
  match s.pc with
  | .poll => s.remaining = 0 → ∀ buf, s.buf = some buf → buf.type = .other
  | .type => ∀ buf, s.buf = some buf → buf.type = .other
  | .discard => s.buf = none
  | _ => True

/-- There are `count` buffers of each of the two types, and the handler leaves none of them. -/
structure Accounted (count : BtBufType → ℕ) (s : HciUart) : Prop where
  total_eq : ∀ type, type ≠ .other → s.total type = count type
  leavesNone : s.LeavesNone

variable {raw : HciRaw} {s : HciUart} {count : BtBufType → ℕ}

/-- A buffer that is given back is one more free one of its type. -/
theorem free_netBufUnref (s : HciUart) (buf : NetBuf) (type : BtBufType) :
    (s.netBufUnref buf).free type = s.free type + if buf.type = type then 1 else 0 := by
  change Function.update s.free buf.type (s.free buf.type + 1) type = _
  by_cases h : buf.type = type
  · rw [if_pos h, ← h, Function.update_self]
  · rw [if_neg h, Function.update_of_ne (Ne.symm h), Nat.add_zero]

/-! ## The interrupt handler -/

/-- The end of an iteration, with the buffer it has had. -/
theorem payloadRead_accounted (htotal : ∀ type, type ≠ .other → s.total type = count type)
    {old buf : NetBuf} (hold : s.buf = some old) (htype : buf.type = old.type) (read : ℕ) :
    Accounted count (s.payloadRead buf read) := by
  unfold payloadRead
  dsimp only
  split
  · refine ⟨fun type hne => ?_, fun _ buf h => by cases h⟩
    rw [← htotal type hne]
    simp only [total, inUse, hold, Option.toList_none, Option.toList_some, List.countP_append,
      List.countP_cons, List.countP_nil, htype]
    omega
  next hne =>
    refine ⟨fun type hne => ?_, fun h => absurd h hne⟩
    rw [← htotal type hne]
    simp only [total, inUse, hold, Option.toList_some, List.countP_append, List.countP_cons,
      List.countP_nil, htype]

theorem recvPayload_accounted (htotal : ∀ type, type ≠ .other → s.total type = count type) :
    Accounted count s.recvPayload := by
  unfold recvPayload
  split
  next h => exact ⟨htotal, h⟩
  next buf h =>
    split
    · exact payloadRead_accounted htotal h rfl 0
    · exact ⟨htotal, trivial⟩

theorem hdrRecv_accounted (h : Accounted count s) {hdr : HciHdr} {got : List UInt8}
    (hpc : s.pc = .header hdr got) (bytes : List UInt8) :
    Accounted count (s.hdrRecv hdr bytes) := by
  unfold hdrRecv
  split
  · exact ⟨h.total_eq, h.leavesNone⟩
  next buf hbuf =>
    split
    next hfits =>
      have htotal : ∀ type, type ≠ .other →
          { s with buf := some (buf.add bytes hfits), remaining := hdr.len bytes }.total type
            = count type := by
        intro type hne
        rw [← h.total_eq type hne]
        simp only [total, inUse, hbuf, Option.toList_some, List.countP_append, List.countP_cons,
          NetBuf.add]
      dsimp only
      split
      · refine recvPayload_accounted fun type hne => ?_
        rw [← htotal type hne]
        have hfree := free_netBufUnref
          { s with buf := some (buf.add bytes hfits), remaining := hdr.len bytes }
          (buf.add bytes hfits) type
        simp only [total, inUse, Option.toList_some, Option.toList_none, List.countP_append,
          List.countP_cons, List.countP_nil, decide_eq_true_eq] at hfree ⊢
        rw [hfree]
        simp only [netBufUnref]
        omega
      · exact recvPayload_accounted htotal
    · refine ⟨h.total_eq, ?_⟩
      simp only [LeavesNone, hpc]

/-- A type byte: what the handler has left behind is lost here, and it is of neither type. -/
theorem typeRead_accounted (h : Accounted count s) (hpc : s.pc = .type) (type : UInt8) :
    Accounted count (s.typeRead raw type) := by
  have hleft : ∀ buf, s.buf = some buf → buf.type = .other := by
    have hnone := h.leavesNone
    simpa only [LeavesNone, hpc] using hnone
  have hbuf : ∀ ty, ty ≠ .other → s.buf.toList.countP (fun buf => buf.type = ty) = 0 := by
    intro ty hne
    refine List.countP_eq_zero.mpr fun buf hmem => ?_
    rw [hleft buf (Option.mem_toList.mp hmem)]
    simpa using hne.symm
  unfold typeRead
  cases hget : s.btBufGetTx raw type with
  | none =>
    refine ⟨fun ty hne => ?_, fun _ buf hbuf => by cases hbuf⟩
    rw [← h.total_eq ty hne]
    simp only [total, inUse, List.countP_append, hbuf ty hne, Option.toList_none, List.countP_nil]
  | some bufType =>
    have hfree : s.free bufType ≠ 0 := by
      have := (Option.filter_eq_some_iff.mp hget).2
      simpa using this
    have htotal : ∀ ty, ty ≠ .other →
        { s with
          free := Function.update s.free bufType (s.free bufType - 1)
          buf := some (.unused raw bufType) }.total ty = count ty := by
      intro ty hne
      rw [← h.total_eq ty hne]
      simp only [total, inUse, List.countP_append, hbuf ty hne, Option.toList_some,
        List.countP_singleton, NetBuf.unused]
      by_cases ht : bufType = ty
      · subst ht
        simp only [Function.update_self, decide_true, if_true]
        omega
      · simp only [Function.update_of_ne (Ne.symm ht), ht, decide_false, Bool.false_eq_true,
          if_false]
    cases bufType with
    | btBufCmd | btBufAclOut => exact ⟨htotal, trivial⟩
    | other => exact ⟨htotal, fun _ buf hbuf => by rw [← Option.some.inj hbuf]; rfl⟩

theorem payloadTurn_accounted (h : Accounted count s) (got rx : List UInt8) :
    Accounted count (s.payloadTurn got rx) := by
  have hplace : s.LeavesNone := h.leavesNone
  unfold payloadTurn
  split
  · exact ⟨h.total_eq, hplace⟩
  next buf hbuf =>
    dsimp only
    split
    · split
      · exact payloadRead_accounted h.total_eq hbuf (by simp only [NetBuf.add]) _
      · exact ⟨h.total_eq, trivial⟩
    · exact ⟨h.total_eq, hplace⟩

theorem resume_accounted (h : Accounted count s) (rx : List UInt8) :
    Accounted count (s.resume raw rx) := by
  unfold resume
  split
  · exact h
  next hpc =>
    split
    · refine ⟨h.total_eq, ?_⟩
      have hnone := h.leavesNone
      simp only [LeavesNone, hpc] at hnone
      exact fun _ => hnone
    · exact typeRead_accounted h hpc _
  next hdr got hpc =>
    dsimp only
    split
    · exact hdrRecv_accounted h hpc _
    · exact ⟨h.total_eq, trivial⟩
  · exact payloadTurn_accounted h _ _
  next hpc =>
    refine ⟨h.total_eq, fun _ buf hbuf => ?_⟩
    have hnone := h.leavesNone
    simp only [LeavesNone, hpc] at hnone
    exact absurd (hnone.symm.trans hbuf) (Option.some_ne_none buf).symm

theorem irq_accounted (h : Accounted count s) (update pending rxReady : Bool) :
    Accounted count (s.irq update pending rxReady) := by
  unfold irq
  split
  next hif =>
    have hnone := h.leavesNone
    simp only [LeavesNone, hif.1] at hnone
    split
    next hrem => exact ⟨h.total_eq, hnone hrem⟩
    · exact recvPayload_accounted h.total_eq
  · exact h

/-! ## One event, and every schedule -/

/-- `tx_thread` takes the first buffer of the queue. -/
theorem netBufGet_accounted (h : Accounted count s) : Accounted count s.netBufGet := by
  unfold netBufGet
  split
  next buf txQueue htx hq =>
    refine ⟨fun type hne => ?_, h.leavesNone⟩
    rw [← h.total_eq type hne]
    simp only [total, inUse, htx, hq, Option.toList_some, Option.toList_none, List.countP_append,
      List.countP_cons, List.countP_nil]
    omega
  · exact h

/-- It is the controller's then, or free if `bt_send` fails. -/
theorem btSend_accounted (h : Accounted count s) (err : ℤ) : Accounted count (s.btSend err) := by
  unfold btSend
  split
  · exact h
  next buf htx =>
    dsimp only
    split
    · refine ⟨fun type hne => ?_, h.leavesNone⟩
      rw [← h.total_eq type hne]
      simp only [total, inUse, htx, Option.toList_some, Option.toList_none, List.countP_append,
        List.countP_cons, List.countP_nil]
      omega
    · refine ⟨fun type hne => ?_, h.leavesNone⟩
      rw [← h.total_eq type hne]
      have hfree :=
        free_netBufUnref { s with txBuf := none, sent := s.sent ++ [(buf, err)] } buf type
      simp only [total, inUse, htx, hfree, Option.toList_some, List.countP_append,
        List.countP_cons, List.countP_nil, decide_eq_true_eq]
      simp only [netBufUnref, Option.toList_none, List.countP_nil]
      omega

theorem release_accounted (h : Accounted count s) (i : ℕ) : Accounted count (s.release i) := by
  unfold release
  split
  · exact h
  next buf hbuf =>
    refine ⟨fun type hne => ?_, h.leavesNone⟩
    rw [← h.total_eq type hne]
    have hfree := free_netBufUnref { s with stack := s.stack.eraseIdx i } buf type
    obtain ⟨hi, hget⟩ := List.getElem?_eq_some_iff.mp hbuf
    have hstack : s.stack.countP (fun buf => buf.type = type)
        = (s.stack.eraseIdx i).countP (fun buf => buf.type = type)
          + if buf.type = type then 1 else 0 := by
      rw [← (List.getElem_cons_eraseIdx_perm hi).countP_eq, List.countP_cons, hget]
      simp only [decide_eq_true_eq]
    simp only [total, inUse, hfree, List.countP_append, hstack]
    simp only [netBufUnref]
    omega

theorem step_accounted (h : Accounted count s) (e : UartEvent) :
    Accounted count (s.step raw e) := by
  unfold step
  split
  · cases e with
    | arrive bytes => exact ⟨h.total_eq, h.leavesNone⟩
    | irq update pending rxReady => exact irq_accounted h update pending rxReady
    | fifoRead c =>
      have h' : Accounted count { s with fifo := s.fifo.drop (s.fifoBytes c).length } :=
        ⟨h.total_eq, h.leavesNone⟩
      exact resume_accounted h' _
    | netBufGet => exact netBufGet_accounted h
    | btSend err => exact btSend_accounted h err
    | release i => exact release_accounted h i
  · exact h

/-- **No command or data buffer is ever lost, or given back twice**: at every moment of every
schedule those that are free and those that are in use are all there are. -/
theorem total_run (raw : HciRaw) (free : BtBufType → ℕ) (es : List UartEvent) {type : BtBufType}
    (hne : type ≠ .other) : (run (step raw) (boot free) es).total type = free type := by
  have hboot : Accounted free (boot free) := ⟨fun _ _ => rfl, fun _ _ h => by cases h⟩
  have hstep : ∀ s e, Accounted free s → Accounted free (step raw s e) := fun _ e h =>
    step_accounted h e
  exact (invariant_run_all hstep hboot es).total_eq type hne

theorem total_run_refused :
    (run (step (.h4Mode 76)) (boot fun _ => 1)
      [.arrive [1, 3, 12, 0, 1], .irq true true true, .fifoRead 8, .fifoRead 8]).total .btBufCmd
    = 1 := total_run _ _ _ (by decide)

end HciUart

end Pyrinas
