import Pyrinas.Hci.Receiving

/-!
# Hci/Transport — from the host to the controller

What arrives is read in order, and nothing of it is lost (`consumed_append_fifo`); a byte that waits
is read as soon as the interrupt handler comes to it (`fifo_rounds`).  So as long as there is a
buffer for every packet, the controller is handed the packets that fit into one, each once and as it
was sent, in the order they were sent.

    host ──wire──▸ fifo ──bt_uart_isr──▸ tx_queue ──▸ tx_thread ──▸ bt_send
-/

open Machinery

namespace Pyrinas

/-- What an event adds to the stream from the host. -/
def UartEvent.arrived : UartEvent → List UInt8
  | .arrive bytes => bytes
  | _ => []

namespace HciUart

variable {raw : HciRaw} {s : HciUart} {r : H4Reader}

/-! ## Only `uart_fifo_read` takes from the fifo -/

@[simp] theorem fifo_payloadRead (s : HciUart) (buf : NetBuf) (read : ℕ) :
    (s.payloadRead buf read).fifo = s.fifo := by
  unfold payloadRead
  dsimp only
  split <;> rfl

@[simp] theorem fifo_recvPayload (s : HciUart) : s.recvPayload.fifo = s.fifo := by
  unfold recvPayload
  split
  · rfl
  · split
    · exact fifo_payloadRead _ _ _
    · rfl

@[simp] theorem fifo_typeRead (s : HciUart) (type : UInt8) :
    (s.typeRead raw type).fifo = s.fifo := by
  unfold typeRead
  split
  · rfl
  · split <;> rfl

@[simp] theorem fifo_hdrRecv (s : HciUart) (hdr : HciHdr) (bytes : List UInt8) :
    (s.hdrRecv hdr bytes).fifo = s.fifo := by
  unfold hdrRecv
  split
  · rfl
  · split
    · dsimp only
      split <;> simp [netBufUnref]
    · rfl

@[simp] theorem fifo_payloadTurn (s : HciUart) (got rx : List UInt8) :
    (s.payloadTurn got rx).fifo = s.fifo := by
  unfold payloadTurn
  split
  · rfl
  · dsimp only
    split
    · split <;> simp
    · rfl

@[simp] theorem fifo_resume (s : HciUart) (rx : List UInt8) :
    (s.resume raw rx).fifo = s.fifo := by
  unfold resume
  split
  · rfl
  · split <;> simp
  · dsimp only
    split <;> simp
  · simp
  · rfl

/-- What is read, and what is left. -/
theorem fifoBytes_append (raw : HciRaw) (s : HciUart) (count : ℕ) :
    s.fifoBytes count ++ (s.fifoRead raw count).fifo = s.fifo := by
  simp only [fifoRead, fifo_resume, fifoBytes, List.length_take]
  rcases Nat.le_total (min count s.want) s.fifo.length with hle | hle
  · rw [Nat.min_eq_left hle, List.take_append_drop]
  · rw [Nat.min_eq_right hle, List.take_of_length_le hle, List.drop_length, List.append_nil]

@[simp] theorem fifo_irq (s : HciUart) (update pending rxReady : Bool) :
    (s.irq update pending rxReady).fifo = s.fifo := by
  unfold irq
  split
  · split <;> simp
  · rfl

@[simp] theorem fifo_netBufGet (s : HciUart) : s.netBufGet.fifo = s.fifo := by
  unfold netBufGet
  split <;> rfl

@[simp] theorem fifo_btSend (s : HciUart) (err : ℤ) : (s.btSend err).fifo = s.fifo := by
  unfold btSend
  split
  · rfl
  · dsimp only
    split <;> rfl

@[simp] theorem fifo_release (s : HciUart) (i : ℕ) : (s.release i).fifo = s.fifo := by
  unfold release
  split <;> rfl

/-- One event: what it reads is the front of what was there. -/
theorem taken_append_fifo (hrun : s.status = .running) (e : UartEvent) :
    (s.taken raw e).map H4Byte.byte ++ (s.step raw e).fifo = s.fifo ++ e.arrived := by
  rw [step, if_pos hrun]
  cases e with
  | fifoRead count =>
    rw [taken, List.map_map]
    change (s.fifoBytes count).map id ++ (s.fifoRead raw count).fifo = s.fifo ++ []
    rw [List.map_id, fifoBytes_append, List.append_nil]
  | arrive bytes => rfl
  | irq update pending rxReady => simp [taken, handle, UartEvent.arrived]
  | netBufGet => simp [taken, handle, UartEvent.arrived]
  | btSend err => simp [taken, handle, UartEvent.arrived]
  | release i => simp [taken, handle, UartEvent.arrived]

/-! ## Over a schedule -/

/-- The bytes that a schedule reads. -/
def consumed (raw : HciRaw) (s : HciUart) (es : List UartEvent) : List H4Byte :=
  trace (step raw) (taken raw) s es

/-- **The interrupt handler refines the reader of single bytes**, along every schedule. -/
theorem reads_run (hraw : raw.HoldsHeaders) (h : Reads raw s r) (es : List UartEvent) :
    Reads raw (run (step raw) s es) (run (H4Reader.feed raw) r (consumed raw s es)) :=
  refines_run (step_reads hraw) h es

/-- **What has been read and what waits is what has arrived.** -/
theorem consumed_append_fifo (hraw : raw.HoldsHeaders) (h : Reads raw s r) (es : List UartEvent) :
    (consumed raw s es).map H4Byte.byte ++ (run (step raw) s es).fifo
      = s.fifo ++ es.flatMap UartEvent.arrived := by
  rw [consumed, map_trace]
  exact trace_append_store (I := fun s => ∃ r, Reads raw s r)
    (fun s e ⟨r, hr⟩ => ⟨_, step_reads hraw s r e hr⟩)
    (fun s e ⟨_, hr⟩ => taken_append_fifo hr.running e) ⟨r, h⟩ es

/-- **Interrupts and pieces do not matter, and memory is safe**: after any schedule the sample runs,
and has completed what a reader of single bytes has read from the bytes that were consumed. -/
theorem reads_boot (hraw : raw.HoldsHeaders) (free : BtBufType → ℕ) (es : List UartEvent) :
    Reads raw (run (step raw) (boot free) es)
      (run (H4Reader.feed raw) .start (consumed raw (boot free) es)) :=
  reads_run hraw (boot_reads raw free) es

/-- A type byte, and two bytes of a header that come one by one. -/
def headerEvents : List UartEvent :=
  [.arrive [1, 3], .irq true true true, .fifoRead 8, .fifoRead 8, .arrive [12], .fifoRead 8]

theorem reads_boot_arrive :
    (consumed (.h4Mode 76) (boot fun _ => 2) headerEvents).map H4Byte.byte = [1, 3, 12] ∧
    Reads (.h4Mode 76) (run (step (.h4Mode 76)) (boot fun _ => 2) headerEvents)
      (run (H4Reader.feed (.h4Mode 76)) .start
        (consumed (.h4Mode 76) (boot fun _ => 2) headerEvents)) := by
  refine ⟨by decide +kernel, reads_boot (HciRaw.holdsHeaders_h4Mode ?_) _ _⟩
  decide

/-- There is a buffer for every packet that an event begins. -/
def Granted (raw : HciRaw) (s : HciUart) (e : UartEvent) : Prop :=
  ∀ b ∈ s.taken raw e, b.room = true

theorem consumed_of_granted {es : List UartEvent} (h : Meets (step raw) (Granted raw) s es) :
    consumed raw s es = H4Reader.roomy ((consumed raw s es).map H4Byte.byte) := by
  have hall : ∀ b ∈ consumed raw s es, b.room = true := forall_mem_trace h
  rw [H4Reader.roomy, List.map_map]
  refine (List.map_id _).symm.trans (List.map_congr_left fun b hb => ?_)
  obtain ⟨byte, room⟩ := b
  rw [id, Function.comp_apply, H4Byte.mk.injEq]
  exact ⟨rfl, hall _ hb⟩

/-- When every packet gets a buffer, what has been completed was read from the bytes alone. -/
theorem passed_of_granted (hsize : raw.HoldsHeaders) (free : BtBufType → ℕ) {es : List UartEvent}
    (hgranted : Meets (step raw) (Granted raw) (boot free) es) :
    (run (step raw) (boot free) es).passed = (run (H4Reader.feed raw) .start
      (H4Reader.roomy ((consumed raw (boot free) es).map H4Byte.byte))).packets := by
  have hreads := reads_run hsize (boot_reads raw free) es
  rw [consumed_of_granted hgranted] at hreads
  exact hreads.passed_eq

/-- The bytes that were read are the first that were sent… -/
theorem consumed_prefix_wires (hsize : raw.HoldsHeaders) (free : BtBufType → ℕ)
    {es : List UartEvent} {wire : List UInt8} (hsent : es.flatMap UartEvent.arrived <+: wire) :
    (consumed raw (boot free) es).map H4Byte.byte <+: wire := by
  have hstore := consumed_append_fifo hsize (boot_reads raw free) es
  rw [boot, List.nil_append] at hstore
  exact (List.prefix_append _ _).trans (hstore ▸ hsent)

/-- …so nothing is completed that was not sent… -/
theorem passed_prefix_kept (hraw : raw.KnowsH4) (hsize : raw.HoldsHeaders) (free : BtBufType → ℕ)
    {ps : List H4Packet} {es : List UartEvent}
    (hsent : es.flatMap UartEvent.arrived <+: ps.flatMap H4Packet.wire)
    (hgranted : Meets (step raw) (Granted raw) (boot free) es) :
    (run (step raw) (boot free) es).passed <+: H4Reader.kept raw ps := by
  rw [passed_of_granted hsize free hgranted]
  obtain ⟨rest, hrest⟩ := consumed_prefix_wires hsize free hsent
  have hall := H4Reader.run_wires hraw .start rfl ps
  rw [← hrest, H4Reader.roomy_append, run_append] at hall
  have hgrow := H4Reader.packets_run raw (run (H4Reader.feed raw) .start
    (H4Reader.roomy ((consumed raw (boot free) es).map H4Byte.byte))) (H4Reader.roomy rest)
  rwa [hall] at hgrow

/-- …and what was sent is completed once it has been read. -/
theorem kept_prefix_passed (hraw : raw.KnowsH4) (hsize : raw.HoldsHeaders) (free : BtBufType → ℕ)
    {ps qs : List H4Packet} {es : List UartEvent}
    (hsent : es.flatMap UartEvent.arrived <+: ps.flatMap H4Packet.wire)
    (hgranted : Meets (step raw) (Granted raw) (boot free) es) (hqs : qs <+: ps)
    (hlen : (qs.flatMap H4Packet.wire).length + (run (step raw) (boot free) es).fifo.length
      ≤ (es.flatMap UartEvent.arrived).length) :
    H4Reader.kept raw qs <+: (run (step raw) (boot free) es).passed := by
  have hstore := consumed_append_fifo hsize (boot_reads raw free) es
  rw [boot, List.nil_append] at hstore
  have hlen' : (qs.flatMap H4Packet.wire).length
      ≤ ((consumed raw (boot free) es).map H4Byte.byte).length := by
    rw [← hstore, List.length_append] at hlen
    exact Nat.le_of_add_le_add_right hlen
  obtain ⟨rs, hrs⟩ := hqs
  have hpre : qs.flatMap H4Packet.wire <+: (consumed raw (boot free) es).map H4Byte.byte :=
    List.prefix_of_prefix_length_le
      (by rw [← hrs, List.flatMap_append]; exact List.prefix_append _ _)
      (consumed_prefix_wires hsize free hsent) hlen'
  obtain ⟨rest, hrest⟩ := hpre
  have hread := H4Reader.run_wires hraw .start rfl qs
  have hgrow := H4Reader.packets_run raw
    (run (H4Reader.feed raw) .start (H4Reader.roomy (qs.flatMap H4Packet.wire)))
    (H4Reader.roomy rest)
  rw [passed_of_granted hsize free hgranted]
  rwa [← run_append, ← H4Reader.roomy_append, hrest, hread] at hgrow

/-- **Nothing but what was sent, all of it, and in order**: the controller is handed, as they were
sent, the packets that a buffer has room for; and each of them has been completed as soon as the
packets up to it have left the fifo. -/
theorem passed_of_wires (hraw : raw.KnowsH4) (hsize : raw.HoldsHeaders) (free : BtBufType → ℕ)
    (ps : List H4Packet) (es : List UartEvent)
    (hsent : es.flatMap UartEvent.arrived <+: ps.flatMap H4Packet.wire)
    (hgranted : Meets (step raw) (Granted raw) (boot free) es) :
    (run (step raw) (boot free) es).passed <+: H4Reader.kept raw ps ∧
    ∀ qs, qs <+: ps →
      (qs.flatMap H4Packet.wire).length + (run (step raw) (boot free) es).fifo.length
        ≤ (es.flatMap UartEvent.arrived).length →
      H4Reader.kept raw qs <+: (run (step raw) (boot free) es).passed :=
  ⟨passed_prefix_kept hraw hsize free hsent hgranted,
    fun _ hqs hlen => kept_prefix_passed hraw hsize free hsent hgranted hqs hlen⟩

/-- `HCI_Reset` and data for a link; the second header arrives in two parts. -/
def resetAndData : List H4Packet :=
  [⟨.cmd, (0x03, 0x0c), [], by decide⟩, ⟨.acl, (0x40, 0x20), [7, 8], by decide⟩]

def resetAndDataEvents : List UartEvent :=
  [.arrive [0x01, 0x03, 0x0c], .irq true true true, .fifoRead 8, .fifoRead 8,
    .arrive [0x00, 0x02, 0x40], .fifoRead 8, .irq true true true, .fifoRead 8, .fifoRead 8,
    .arrive [0x20, 0x02, 0x00, 7, 8]]

theorem passed_resetAndData :
    (run (step (.h4Mode 76)) (boot fun _ => 2) resetAndDataEvents).passed
        <+: H4Reader.kept (.h4Mode 76) resetAndData ∧
      ∀ qs, qs <+: resetAndData →
        (qs.flatMap H4Packet.wire).length
            + (run (step (.h4Mode 76)) (boot fun _ => 2) resetAndDataEvents).fifo.length
          ≤ (resetAndDataEvents.flatMap UartEvent.arrived).length →
        H4Reader.kept (.h4Mode 76) qs
          <+: (run (step (.h4Mode 76)) (boot fun _ => 2) resetAndDataEvents).passed := by
  refine passed_of_wires (HciRaw.knowsH4_h4Mode 76) (HciRaw.holdsHeaders_h4Mode (by decide)) _ _ _
    (by decide) ?_
  simp only [resetAndDataEvents, meets_cons, meets_nil, and_true, Granted]
  decide

/-! ## Nothing waits for ever -/

/-- `n` times: the interrupt handler looks for work, and reads. -/
def rounds (count : ℕ) : ℕ → List UartEvent
  | 0 => []
  | n + 1 => .irq true true true :: .fifoRead count :: rounds count n

/-- `tx_thread` gets and sends a buffer for each answer of `bt_send`. -/
def turns (errs : List ℤ) : List UartEvent := errs.flatMap fun err => [.netBufGet, .btSend err]

theorem pc_recvPayload_ne (hrem : s.remaining ≠ 0) : s.recvPayload.pc ≠ .poll := by
  unfold recvPayload
  split
  · exact UartPc.noConfusion
  · rw [if_neg hrem]
    exact UartPc.noConfusion

/-- Behind the head of the loop there is always something to read. -/
theorem pc_irq_ne (s : HciUart) : (s.irq true true true).pc ≠ .poll := by
  unfold irq
  by_cases hpc : s.pc = .poll
  · simp only [hpc, and_self, if_true]
    split
    · exact UartPc.noConfusion
    next hrem => exact pc_recvPayload_ne hrem
  · simp [hpc]

theorem want_pos (h : Reads raw s r) (hpc : s.pc ≠ .poll) : 0 < s.want := by
  have hplace := h.place
  cases hs : s.pc with
  | poll => exact absurd hs hpc
  | type => simp [want, hs]
  | header hdr got =>
    simp only [Place, hs] at hplace
    simp only [want, hs]
    omega
  | payload got =>
    simp only [Place, hs] at hplace
    obtain ⟨buf, -, -, hlt, -⟩ := hplace
    simp only [want, hs]
    omega
  | discard =>
    simp only [Place, hs] at hplace
    simp only [want, hs, h4DiscardLen]
    omega

/-- A round reads at least one byte of those that wait. -/
theorem length_fifo_round (hraw : raw.HoldsHeaders) (h : Reads raw s r) {count : ℕ}
    (hcount : 0 < count) :
    (run (step raw) s [.irq true true true, .fifoRead count]).fifo.length ≤ s.fifo.length - 1 := by
  have hirq := step_reads hraw s r (.irq true true true) h
  rw [run_cons, run_cons, run_nil, step, if_pos hirq.running]
  have hs : s.step raw (.irq true true true) = s.irq true true true := by
    rw [step, if_pos h.running]
    rfl
  rw [hs] at hirq ⊢
  have hwant := want_pos hirq (pc_irq_ne s)
  have hsplit := congrArg List.length (fifoBytes_append raw (s.irq true true true) count)
  rw [List.length_append, fifo_irq] at hsplit
  change ((s.irq true true true).fifoRead raw count).fifo.length ≤ _
  have hread : min (min count (s.irq true true true).want) s.fifo.length
      = ((s.irq true true true).fifoBytes count).length := by
    rw [fifoBytes, List.length_take, fifo_irq]
  omega

/-- **Every byte that waits is read**, within as many rounds. -/
theorem fifo_rounds (hraw : raw.HoldsHeaders) {count : ℕ} (hcount : 0 < count) (n : ℕ)
    (h : Reads raw s r) (hn : s.fifo.length ≤ n) :
    (run (step raw) s (rounds count n)).fifo = [] := by
  induction n generalizing s r with
  | zero => exact List.eq_nil_of_length_eq_zero (Nat.le_zero.mp hn)
  | succ n ih =>
    have hround := length_fifo_round hraw h hcount
    rw [rounds, run_cons, run_cons]
    refine ih (refines_run (step_reads hraw) h [.irq true true true, .fifoRead count]) ?_
    rw [run_cons, run_cons] at hround
    exact hround.trans (by omega)

/-- A turn of `tx_thread` sends the next buffer. -/
theorem waiting_turn (raw : HciRaw) (hrun : s.status = .running) (err : ℤ) :
    let s' := run (step raw) s [.netBufGet, .btSend err]
    s'.status = .running ∧ s'.completed = s.completed ∧
      s'.txBuf.toList ++ s'.txQueue = (s.txBuf.toList ++ s.txQueue).tail := by
  have hget : s.netBufGet.status = .running := by
    unfold netBufGet
    split
    · exact hrun
    · exact hrun
  have hturn : run (step raw) s [.netBufGet, .btSend err] = s.netBufGet.btSend err := by
    rw [run_cons, run_cons, run_nil, step, step, if_pos hrun]
    exact if_pos hget
  rw [hturn]
  cases htx : s.txBuf with
  | none =>
    cases hq : s.txQueue with
    | nil =>
      have hs : s.netBufGet.btSend err = s := by simp [netBufGet, btSend, htx, hq]
      simp [hs, hrun, htx, hq]
    | cons buf txQueue =>
      simp only [netBufGet, btSend, htx, hq]
      split <;> simp [completed, netBufUnref, hrun, htx, hq]
  | some buf =>
    simp only [netBufGet, btSend, htx]
    split <;> simp [completed, netBufUnref, hrun, htx]

/-- **Every buffer that waits is sent**, within as many turns, whatever `bt_send` answers. -/
theorem sent_turns (errs : List ℤ) (hrun : s.status = .running)
    (hlen : (s.txBuf.toList ++ s.txQueue).length ≤ errs.length) :
    ((run (step raw) s (turns errs)).sent.map Prod.fst) = s.completed := by
  induction errs generalizing s with
  | nil =>
    have hnil := List.eq_nil_of_length_eq_zero (Nat.le_zero.mp hlen)
    rw [completed, List.append_assoc, hnil, List.append_nil]
    rfl
  | cons err errs ih =>
    obtain ⟨hrun', hdone, hwait⟩ := waiting_turn raw hrun err
    rw [turns, List.flatMap_cons, run_append, ← hdone]
    refine ih hrun' ?_
    rw [hwait, List.length_tail]
    rw [List.length_cons] at hlen
    omega

/-- **From the host to the controller**: whatever the schedule was, once all packets have arrived
it takes a bounded number of rounds of the interrupt handler and turns of `tx_thread` until
`bt_send` has been called with those that a buffer has room for, each once and as it was sent. -/
theorem sent_of_wires (hraw : raw.KnowsH4) (hsize : raw.HoldsHeaders) (free : BtBufType → ℕ)
    (ps : List H4Packet) (es : List UartEvent)
    (hsent : es.flatMap UartEvent.arrived = ps.flatMap H4Packet.wire) {count : ℕ}
    (hcount : 0 < count) {n : ℕ} (hn : (run (step raw) (boot free) es).fifo.length ≤ n)
    (hgranted : Meets (step raw) (Granted raw) (boot free) (es ++ rounds count n))
    {errs : List ℤ} (herrs : ps.length ≤ errs.length) :
    (run (step raw) (boot free) (es ++ rounds count n ++ turns errs)).sent.map
      (NetBuf.content ∘ Prod.fst) = H4Reader.kept raw ps := by
  have hreads := reads_run hsize (boot_reads raw free) (es ++ rounds count n)
  have hempty : (run (step raw) (boot free) (es ++ rounds count n)).fifo = [] := by
    rw [run_append]
    exact fifo_rounds hsize hcount n (reads_run hsize (boot_reads raw free) es) hn
  have harrived : (es ++ rounds count n).flatMap UartEvent.arrived = ps.flatMap H4Packet.wire := by
    have hnone : ∀ n, (rounds count n).flatMap UartEvent.arrived = [] := by
      intro n
      induction n with
      | zero => rfl
      | succ n ih => exact ih
    rw [List.flatMap_append, hsent, hnone, List.append_nil]
  have hall : (es ++ rounds count n).flatMap UartEvent.arrived <+: ps.flatMap H4Packet.wire :=
    harrived ▸ List.prefix_rfl
  have hkept := kept_prefix_passed hraw hsize free hall hgranted List.prefix_rfl
    (by rw [hempty, harrived]; exact Nat.le_refl _)
  have hpassed := (passed_prefix_kept hraw hsize free hall hgranted).eq_of_length_le hkept.length_le
  have hshort : (run (step raw) (boot free) (es ++ rounds count n)).completed.length
      ≤ errs.length := by
    have hlen := congrArg List.length hpassed
    rw [passed, List.length_map, H4Reader.kept, List.length_map] at hlen
    rw [hlen]
    exact (List.length_filter_le _ _).trans herrs
  rw [run_append, ← List.map_map, sent_turns errs hreads.running, ← passed, hpassed]
  refine Nat.le_trans ?_ hshort
  rw [completed, List.append_assoc]
  exact (List.suffix_append _ _).length_le

theorem sent_resetAndData :
    (run (step (.h4Mode 76)) (boot fun _ => 2)
        (resetAndDataEvents ++ rounds 8 8 ++ turns [0, 0])).sent.map (NetBuf.content ∘ Prod.fst)
      = H4Reader.kept (.h4Mode 76) resetAndData := by
  refine sent_of_wires (HciRaw.knowsH4_h4Mode 76) (HciRaw.holdsHeaders_h4Mode (by decide)) _ _ _
    (by decide) (by decide) (by decide) ?_ (by decide)
  simp only [resetAndDataEvents, rounds, List.cons_append, List.nil_append, meets_cons, meets_nil,
    and_true, Granted]
  decide

/-! ## A packet that there is no buffer for -/

/-- **What is in a refused packet is taken for packets**: when there is no buffer at the first byte
of a packet, the host's data is read as if it had been sent by itself, and what it spells is passed
to the controller. -/
theorem passed_of_refused (hraw : raw.KnowsH4) (hsize : raw.HoldsHeaders) (h : Reads raw s r)
    (hidle : r.phase = .idle) (hfifo : s.fifo = []) {p : H4Packet} {ps : List H4Packet}
    (hheader : ∀ b ∈ p.header, ∀ hdr, b ≠ HciHdr.h4Type hdr)
    (hpayload : p.payload = ps.flatMap H4Packet.wire) {es : List UartEvent}
    (hsent : es.flatMap UartEvent.arrived = p.wire) (hread : (run (step raw) s es).fifo = [])
    {bs : List UInt8}
    (hrefused : consumed raw s es = ⟨p.hdr.h4Type, false⟩ :: H4Reader.roomy bs) :
    (run (step raw) s es).passed = s.passed ++ H4Reader.kept raw ps := by
  have hstore := consumed_append_fifo hsize h es
  rw [hread, hfifo, hsent, hrefused, List.append_nil, List.nil_append, List.map_cons,
    H4Reader.map_byte_roomy, H4Packet.wire] at hstore
  obtain rfl := (List.cons.inj hstore).2
  have hreads := reads_run hsize h es
  rw [hrefused, H4Reader.run_refused hraw r hidle hheader hpayload] at hreads
  rw [hreads.passed_eq, h.passed_eq]

/-- Without a data buffer, data that spells `HCI_Reset` resets the controller. -/
theorem passed_reset_in_data :
    (run (step (.h4Mode 76)) (boot fun type => if type = .btBufCmd then 2 else 0)
        (.arrive [0x02, 0x40, 0x20, 0x04, 0x00, 0x01, 0x03, 0x0c, 0x00] :: rounds 8 7)).passed
      = (boot fun type => if type = .btBufCmd then 2 else 0).passed
        ++ H4Reader.kept (.h4Mode 76) [⟨.cmd, (0x03, 0x0c), [], by decide⟩] := by
  refine passed_of_refused (HciRaw.knowsH4_h4Mode 76) (HciRaw.holdsHeaders_h4Mode (by decide))
    (boot_reads _ _) rfl rfl (p := ⟨.acl, (0x40, 0x20), [0x01, 0x03, 0x0c, 0x00], by decide⟩) ?_ rfl
    (by decide) (by decide) (show _ = _ :: H4Reader.roomy [0x40, 0x20, 4, 0, 1, 3, 12, 0] by decide)
  intro b hb hdr
  revert b
  cases hdr <;> decide +kernel

end HciUart

end Pyrinas
