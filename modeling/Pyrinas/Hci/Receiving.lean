import Pyrinas.Machinery.Refinement
import Pyrinas.Hci.Uart

/-!
# Hci/Receiving — the interrupt handler reads what a reader of single bytes reads

Wherever an interrupt ends, however few bytes a call of `uart_fifo_read` returns and whatever the
threads do in between: `bt_uart_isr` is at every moment where `H4Reader` is after the same bytes
(`Reads`), and on the way it writes behind the end of no buffer.  So the packets that reach the
controller depend on the bytes alone, and on which packets there was a buffer for.
-/

open Machinery

namespace Pyrinas

namespace HciUart

/-- The buffers `bt_uart_isr` has completed, the first one first: those `bt_send` was called with,
the one `tx_thread` holds, and those in `tx_queue`. -/
def completed (s : HciUart) : List NetBuf := s.sent.map Prod.fst ++ s.txBuf.toList ++ s.txQueue

/-- …and what is in them. -/
def passed (s : HciUart) : List (BtBufType × List UInt8) := s.completed.map NetBuf.content

/-- Where the interrupt handler is, as a reader of single bytes sees it. -/
def Place (raw : HciRaw) (s : HciUart) (phase : H4Phase) : Prop :=
  match s.pc with
  | .poll =>
    match s.remaining, s.buf with
    | 0, _ => phase = .idle
    | n + 1, none => phase = .skip (n + 1)
    | n + 1, some buf => phase = .payload buf.type buf.data (n + 1) ∧ n + 1 ≤ buf.tailroom
  | .type => phase = .idle ∧ s.remaining = 0
  | .header hdr got =>
    phase = .header hdr got ∧ s.buf = some (.unused raw hdr.bufType) ∧ got.length < hdr.size
  | .payload got =>
    ∃ buf, s.buf = some buf ∧
      phase = .payload buf.type (buf.data ++ got) (s.remaining - got.length) ∧
      got.length < s.remaining ∧ s.remaining ≤ buf.tailroom
  | .discard => s.buf = none ∧ phase = .skip s.remaining ∧ 0 < s.remaining

/-- The sample runs, and is where the reader is. -/
structure Reads (raw : HciRaw) (s : HciUart) (r : H4Reader) : Prop where
  running : s.status = .running
  passed_eq : s.passed = r.packets
  place : s.Place raw r.phase

/-- There is a free buffer for a packet that begins with `b`, if one begins here. -/
def room (raw : HciRaw) (s : HciUart) (b : UInt8) : Bool :=
  s.pc ≠ .type ∨ (raw.bufType b).all fun bufType => s.free bufType ≠ 0

/-- What an event reads. -/
def taken (raw : HciRaw) (s : HciUart) : UartEvent → List H4Byte
  | .fifoRead count => (s.fifoBytes count).map fun b => ⟨b, s.room raw b⟩
  | _ => []

variable {raw : HciRaw} {s : HciUart} {r : H4Reader}

/-! ## One iteration of the loop -/

/-- The end of an iteration: the packet is complete, or `remaining` says how much of it is not. -/
theorem payloadRead_reads (hrun : s.status = .running) (hpassed : s.passed = r.packets)
    (buf : NetBuf) (read : ℕ) (hroom : s.remaining - read ≤ buf.tailroom) :
    Reads raw (s.payloadRead buf read) (r.await buf.type buf.data (s.remaining - read)) := by
  by_cases h : s.remaining - read = 0
  · rw [payloadRead, h]
    refine ⟨hrun, ?_, rfl⟩
    simp only [H4Reader.await, if_true, ← hpassed, passed, completed, List.map_append,
      List.append_assoc]
    rfl
  · obtain ⟨n, hn⟩ := Nat.exists_eq_succ_of_ne_zero h
    rw [payloadRead, H4Reader.await_of_ne h, if_neg h]
    refine ⟨hrun, hpassed, ?_⟩
    rw [hn] at hroom ⊢
    exact ⟨rfl, hroom⟩

theorem recvPayload_reads (hrun : s.status = .running) (hpassed : s.passed = r.packets)
    {buf : NetBuf} (hbuf : s.buf = some buf) (hroom : s.remaining ≤ buf.tailroom) :
    Reads raw s.recvPayload (r.await buf.type buf.data s.remaining) := by
  rw [recvPayload, hbuf]
  by_cases h : s.remaining = 0
  · simpa only [h, if_true] using payloadRead_reads hrun hpassed buf 0 hroom
  · simp only [h, if_false]
    rw [H4Reader.await_of_ne h]
    exact ⟨hrun, hpassed, buf, rfl, by simp, Nat.pos_of_ne_zero h, hroom⟩

theorem recvPayload_skips (hrun : s.status = .running) (hpassed : s.passed = r.packets)
    (hbuf : s.buf = none) (h : s.remaining ≠ 0) :
    Reads raw s.recvPayload (r.skip s.remaining) := by
  rw [recvPayload, hbuf, H4Reader.skip_of_ne h]
  exact ⟨hrun, hpassed, rfl, rfl, Nat.pos_of_ne_zero h⟩

/-- A complete header: the buffer is kept if there is room for the payload, and given back if there
is not. -/
theorem hdrRecv_reads (hraw : raw.HoldsHeaders) (hrun : s.status = .running)
    (hpassed : s.passed = r.packets) {hdr : HciHdr}
    (hbuf : s.buf = some (.unused raw hdr.bufType)) {bytes : List UInt8}
    (hlen : bytes.length = hdr.size) :
    Reads raw (s.hdrRecv hdr bytes) (r.feedHeader raw hdr bytes) := by
  have hfits : bytes.length ≤ (NetBuf.unused raw hdr.bufType).tailroom := by
    rw [hlen]
    exact hraw hdr
  have htail : ((NetBuf.unused raw hdr.bufType).add bytes hfits).tailroom
      = raw.size hdr.bufType - bytes.length := rfl
  rw [hdrRecv, hbuf, H4Reader.feedHeader, if_neg (by omega)]
  simp only [hfits, dite_true, htail]
  by_cases h : raw.size hdr.bufType - bytes.length < hdr.len bytes
  · rw [if_pos h, if_pos h]
    refine recvPayload_skips ?_ ?_ rfl (Nat.ne_of_gt (Nat.zero_lt_of_lt h))
    · exact hrun
    · exact hpassed
  · rw [if_neg h, if_neg h]
    let buf := (NetBuf.unused raw hdr.bufType).add bytes hfits
    exact recvPayload_reads (s := { s with buf := some buf, remaining := hdr.len bytes }) hrun
      hpassed rfl (Nat.le_of_not_lt h)

/-- A type byte: a packet begins if the driver has a buffer for it. -/
theorem typeRead_reads (hrun : s.status = .running) (hpassed : s.passed = r.packets)
    (hpc : s.pc = .type) (hrem : s.remaining = 0) (type : UInt8) :
    Reads raw (s.typeRead raw type) (r.feedType raw ⟨type, s.room raw type⟩) := by
  have hidle : ∀ t : HciUart, t.status = .running → t.passed = r.packets → t.pc = .poll →
      t.remaining = 0 → Reads raw t { r with phase := .idle } := by
    intro t hrun hpassed hpc hrem
    refine ⟨hrun, hpassed, ?_⟩
    rw [Place, hpc, hrem]
  rw [typeRead, btBufGetTx, H4Reader.feedType, room, hpc]
  cases hty : raw.bufType type with
  | none => exact hidle _ hrun hpassed rfl hrem
  | some bufType =>
    by_cases hfree : s.free bufType = 0
    · simp only [Option.filter, hfree, ne_eq, not_true_eq_false, decide_false, Bool.false_eq_true,
        if_false, Option.all_some, or_self]
      cases bufType with
      | btBufCmd | btBufAclOut | other => exact hidle _ hrun hpassed rfl hrem
    · simp only [Option.filter, hfree, ne_eq, not_false_eq_true, decide_true, if_true,
        Option.all_some, or_true]
      cases bufType with
      | btBufCmd | btBufAclOut => exact ⟨hrun, hpassed, rfl, rfl, by decide⟩
      | other => exact hidle _ hrun hpassed rfl hrem

/-- Bytes put behind others. -/
theorem payloadTurn_reads (h : Reads raw s r) {got : List UInt8} (hpc : s.pc = .payload got)
    {rx : List UInt8} (hrx : rx.length ≤ s.remaining - got.length) (room : UInt8 → Bool) :
    Reads raw (s.payloadTurn got rx)
      (run (H4Reader.feed raw) r (rx.map fun b => ⟨b, room b⟩)) := by
  obtain ⟨hrun, hpassed, hplace⟩ := h
  rw [Place, hpc] at hplace
  obtain ⟨buf, hbuf, hphase, hlt, hroom⟩ := hplace
  have hr : r = r.await buf.type (buf.data ++ got) (s.remaining - got.length) := by
    rw [H4Reader.await_of_ne (by omega), ← hphase]
  have hread : run (H4Reader.feed raw) r (rx.map fun b => ⟨b, room b⟩)
      = r.await buf.type (buf.data ++ (got ++ rx)) (s.remaining - (got ++ rx).length) := by
    conv_lhs => rw [hr]
    rw [H4Reader.run_await _ _ _ _ (by simpa using hrx), List.map_map, List.length_map,
      List.length_append, Nat.sub_sub, List.append_assoc]
    congr 3
    exact List.map_id rx
  have hadd : (got ++ rx).length ≤ buf.tailroom := by
    rw [List.length_append]
    omega
  rw [hread, payloadTurn, hbuf]
  by_cases hnil : rx = []
  · subst hnil
    have hgot : got.length ≤ buf.tailroom := by omega
    simp only [h4ReadTurn, if_true, hgot, dite_true, Nat.not_lt_zero, not_false_eq_true,
      decide_true, List.append_nil]
    exact payloadRead_reads hrun hpassed (buf.add got hgot) got.length
      (by simp only [NetBuf.tailroom, NetBuf.add, List.length_append] at hroom ⊢; omega)
  · simp only [h4ReadTurn, hnil, if_false, hadd, dite_true]
    by_cases hfull : got.length + rx.length = s.remaining
    · simp only [hfull, decide_true, if_true]
      exact payloadRead_reads hrun hpassed (buf.add (got ++ rx) hadd) (got ++ rx).length
        (by simp only [List.length_append]; omega)
    · have hlen : (got ++ rx).length < s.remaining := by
        rw [List.length_append]
        omega
      simp only [hfull, decide_false, Bool.false_eq_true, if_false]
      rw [H4Reader.await_of_ne (by omega)]
      exact ⟨hrun, hpassed, buf, rfl, rfl, hlen, hroom⟩

/-! ## One event -/

/-- `uart_fifo_read` has returned. -/
theorem resume_reads (hraw : raw.HoldsHeaders) (h : Reads raw s r) {rx : List UInt8}
    (hrx : rx.length ≤ s.want) :
    Reads raw (s.resume raw rx)
      (run (H4Reader.feed raw) r (rx.map fun b => ⟨b, s.room raw b⟩)) := by
  obtain ⟨hrun, hpassed, hplace⟩ := id h
  cases hpc : s.pc with
  | poll =>
    have hnil : rx = [] := by simpa [want, hpc] using hrx
    rw [resume.eq_def, hpc, hnil]
    exact h
  | type =>
    simp only [Place, hpc] at hplace
    cases rx with
    | nil =>
      rw [resume.eq_def, hpc]
      refine ⟨hrun, hpassed, ?_⟩
      rw [Place, hplace.2]
      exact hplace.1
    | cons b bs =>
      have hbs : bs = [] := by simpa [want, hpc] using hrx
      rw [resume.eq_def, hpc, hbs, List.map_cons, List.map_nil, run_cons, run_nil,
        H4Reader.feed_of_idle hplace.1]
      exact typeRead_reads hrun hpassed hpc hplace.2 b
  | header hdr got =>
    simp only [Place, hpc] at hplace
    obtain ⟨hphase, hbuf, hlt⟩ := hplace
    simp only [want, hpc] at hrx
    have hr : r = r.feedHeader raw hdr got := by rw [H4Reader.feedHeader_of_lt hlt, ← hphase]
    have hread : run (H4Reader.feed raw) r (rx.map fun b => ⟨b, s.room raw b⟩)
        = r.feedHeader raw hdr (got ++ rx) := by
      conv_lhs => rw [hr]
      rw [H4Reader.run_feedHeader _ _ _ _ (by rw [List.length_map]; omega), List.map_map]
      congr 2
      exact List.map_id rx
    rw [hread, resume.eq_def, hpc]
    by_cases hnil : rx = []
    · simp only [hnil, h4ReadTurn, if_true, hlt, not_true_eq_false, decide_false,
        Bool.false_eq_true, if_false, List.append_nil, ← hr]
      refine ⟨hrun, hpassed, ?_⟩
      exact ⟨hphase, hbuf, hlt⟩
    · simp only [h4ReadTurn, hnil, if_false]
      by_cases hfull : got.length + rx.length = hdr.size
      · simp only [hfull, decide_true, if_true]
        exact hdrRecv_reads hraw hrun hpassed hbuf (by rw [List.length_append, hfull])
      · have hlen : (got ++ rx).length < hdr.size := by
          rw [List.length_append]
          omega
        simp only [hfull, decide_false, Bool.false_eq_true, if_false]
        rw [H4Reader.feedHeader_of_lt hlen]
        exact ⟨hrun, hpassed, rfl, hbuf, hlen⟩
  | payload got =>
    rw [resume.eq_def, hpc]
    exact payloadTurn_reads h hpc (by simpa only [want, hpc] using hrx) _
  | discard =>
    simp only [Place, hpc] at hplace
    obtain ⟨hbuf, hphase, hpos⟩ := hplace
    simp only [want, hpc] at hrx
    have hr : r = r.skip s.remaining := by rw [H4Reader.skip_of_ne (by omega), ← hphase]
    have hread : run (H4Reader.feed raw) r (rx.map fun b => ⟨b, s.room raw b⟩)
        = r.skip (s.remaining - rx.length) := by
      conv_lhs => rw [hr]
      rw [H4Reader.run_skip _ _ (by rw [List.length_map]; omega), List.length_map]
    rw [hread, resume.eq_def, hpc]
    refine ⟨hrun, hpassed, ?_⟩
    rw [Place]
    cases hrem : s.remaining - rx.length with
    | zero => rfl
    | succ n => simp only [hbuf]; rfl

theorem fifoRead_reads (hraw : raw.HoldsHeaders) (h : Reads raw s r) (count : ℕ) :
    Reads raw (s.fifoRead raw count)
      (run (H4Reader.feed raw) r (s.taken raw (.fifoRead count))) := by
  let s' : HciUart := { s with fifo := s.fifo.drop (s.fifoBytes count).length }
  have h' : Reads raw s' r := ⟨h.running, h.passed_eq, h.place⟩
  have hwant : (s.fifoBytes count).length ≤ s'.want := by
    change _ ≤ s.want
    rw [fifoBytes, List.length_take]
    omega
  exact resume_reads hraw h' hwant

/-- The head of the loop: nothing is read there. -/
theorem irq_reads (h : Reads raw s r) (update pending rxReady : Bool) :
    Reads raw (s.irq update pending rxReady) r := by
  unfold irq
  split
  next hif =>
    obtain ⟨hrun, hpassed, hplace⟩ := h
    simp only [Place, hif.1] at hplace
    cases hrem : s.remaining with
    | zero =>
      simp only [hrem] at hplace
      exact ⟨hrun, hpassed, hplace, rfl⟩
    | succ n =>
      have hne : s.remaining ≠ 0 := by omega
      rw [if_neg (Nat.succ_ne_zero n)]
      cases hbuf : s.buf with
      | none =>
        simp only [hrem, hbuf] at hplace
        have hr : r = r.skip s.remaining := by
          rw [H4Reader.skip_of_ne hne, hrem, ← hplace]
        rw [hr]
        exact recvPayload_skips hrun hpassed hbuf hne
      | some buf =>
        simp only [hrem, hbuf] at hplace
        have hr : r = r.await buf.type buf.data s.remaining := by
          rw [H4Reader.await_of_ne hne, hrem, ← hplace.1]
        rw [hr]
        exact recvPayload_reads hrun hpassed hbuf (by rw [hrem]; exact hplace.2)
  next => exact h

/-- What the threads do changes neither the packets nor where the interrupt handler is. -/
theorem netBufGet_reads (h : Reads raw s r) : Reads raw s.netBufGet r := by
  unfold netBufGet
  split
  next buf txQueue htx hq =>
    refine ⟨h.running, ?_, h.place⟩
    rw [← h.passed_eq, passed, passed, completed, completed, htx, hq]
    simp
  next => exact h

theorem btSend_reads (h : Reads raw s r) (err : ℤ) : Reads raw (s.btSend err) r := by
  unfold btSend
  split
  next => exact h
  next buf htx =>
    have hpassed : (s.sent ++ [(buf, err)]).map Prod.fst ++ s.txQueue = s.completed := by
      simp [completed, htx]
    have hdone : ∀ t : HciUart, t.completed = (s.sent ++ [(buf, err)]).map Prod.fst ++ s.txQueue →
        t.passed = r.packets := fun t ht => by rw [← h.passed_eq, passed, ht, hpassed, passed]
    split
    · exact ⟨h.running, hdone _ (by simp [completed]), h.place⟩
    · exact ⟨h.running, hdone _ (by simp [completed, netBufUnref]), h.place⟩

theorem release_reads (h : Reads raw s r) (i : ℕ) : Reads raw (s.release i) r := by
  unfold release
  split
  next => exact h
  next => exact ⟨h.running, h.passed_eq, h.place⟩

/-- **One event is as many bytes for the reader as it reads.** -/
theorem step_reads (hraw : raw.HoldsHeaders) (s : HciUart) (r : H4Reader) (e : UartEvent)
    (h : Reads raw s r) :
    Reads raw (s.step raw e) (run (H4Reader.feed raw) r (s.taken raw e)) := by
  rw [step, if_pos h.running]
  cases e with
  | arrive bytes => exact ⟨h.running, h.passed_eq, h.place⟩
  | irq update pending rxReady => exact irq_reads h update pending rxReady
  | fifoRead count => exact fifoRead_reads hraw h count
  | netBufGet => exact netBufGet_reads h
  | btSend err => exact btSend_reads h err
  | release i => exact release_reads h i

theorem boot_reads (raw : HciRaw) (free : BtBufType → ℕ) : Reads raw (boot free) .start :=
  ⟨rfl, rfl, rfl⟩

end HciUart

end Pyrinas
