import Pyrinas.Machinery.Run
import Pyrinas.Comms.Uart
import Pyrinas.Errno

/-!
# Comms/Transmit — serial transmit: when it is a lossless FIFO

`comms_write` stores its buffer in `tx_buf` and calls `uart_start_tx`, which claims the next region
and hands it to the driver; `UART_TX_DONE` finishes that region and starts the next one.  The error
path of `uart_start_tx` finishes the claim the driver refused, but finishing frees the *oldest*
bytes: with a transmission in flight those are the ones being sent.  It also returns the result of
finishing, so the write that was refused answers 0.  A write is one event: what is accepted is
judged by its result.

    accepted = ──sent──│──── in flight ────│──── waiting ────        wire <+: accepted
-/

open Machinery

namespace Pyrinas

/-- A transmission the driver is working on: a region of the storage, and how much of it is out. -/
structure TxFlight where
  pos : ℕ
  len : ℕ
  sent : ℕ
  deriving DecidableEq

/-- `tx_buf`, the driver, the bytes it has put on the wire, and the buffers of the `comms_write`
calls that returned 0. -/
structure CommsTx (S : UartShape) where
  txBuf : Ring UInt8 S.toRingShape
  flight : Option TxFlight
  wire : List UInt8
  accepted : List UInt8

/-- `comms_write`, with what `uart_tx` will answer if it is not busy; a byte leaving the driver; and
the two ends of a transmission. -/
inductive TxEvent
  | write (buf : List UInt8) (res : ℤ)
  | wire
  | txDone (res : ℤ)
  | txAborted

namespace CommsTx

variable {S : UartShape}

/-- Nothing written yet. -/
def start (S : UartShape) (mem : ℕ → UInt8) : CommsTx S := ⟨Ring.empty _ mem, none, [], []⟩

/-- `uart_tx`: busy (`-EBUSY`) while a transmission is in flight. -/
def uartTx (s : CommsTx S) (pos size : ℕ) (res : ℤ) : ℤ × CommsTx S :=
  if s.flight.isSome then (-eBusy, s)
  else if res ≠ 0 then (res, s)
  else (0, { s with flight := some ⟨pos, size, 0⟩ })

/-- `uart_start_tx` -/
def uartStartTx (s : CommsTx S) (res : ℤ) : ℤ × CommsTx S :=
  let ((pos, size), txBuf) := s.txBuf.getClaim uartRingbufSize
  let s := { s with txBuf := txBuf }
  if size = 0 then (0, s)
  else
    let (err, s) := s.uartTx pos size res
    if err ≠ 0 then
      -- "free" the memory: `err` is overwritten, and the oldest bytes go
      let (err, txBuf) := s.txBuf.getFinish size
      (err, { s with txBuf := txBuf })
    else (0, s)

/-- The buffer is stored, as far as it fits. -/
def stored (s : CommsTx S) (buf : List UInt8) : CommsTx S :=
  { s with txBuf := (s.txBuf.put buf).2 }

/-- `comms_write`: `-ENOMEM` if nothing was stored; a part of the buffer is enough to go on. -/
def commsWrite (s : CommsTx S) (buf : List UInt8) (res : ℤ) : ℤ × CommsTx S :=
  let written := (s.txBuf.put buf).1
  let s := s.stored buf
  if written = 0 then (-eNoMem, s) else s.uartStartTx res

/-- A call of `comms_write` from the application, which relies on a result of 0. -/
def write (s : CommsTx S) (buf : List UInt8) (res : ℤ) : CommsTx S :=
  let (err, s') := s.commsWrite buf res
  if err = 0 then { s' with accepted := s'.accepted ++ buf } else s'

/-- The driver sends the next byte from where it lies. -/
def wireByte (s : CommsTx S) : CommsTx S :=
  match s.flight with
  | some f =>
    if f.sent < f.len then
      { s with
        wire := s.wire ++ [s.txBuf.mem (f.pos + f.sent)]
        flight := some { f with sent := f.sent + 1 } }
    else s
  | none => s

/-- `UART_TX_DONE`, once the whole region is out: finish it, and start the next one. -/
def txDone (s : CommsTx S) (res : ℤ) : CommsTx S :=
  match s.flight with
  | some f =>
    if f.sent = f.len then
      let s := { s with flight := none, txBuf := (s.txBuf.getFinish f.len).2 }
      if s.txBuf.used = 0 then s else (s.uartStartTx res).2
    else s
  | none => s

/-- `UART_TX_ABORTED`: finish what was sent. -/
def txAborted (s : CommsTx S) : CommsTx S :=
  match s.flight with
  | some f => { s with flight := none, txBuf := (s.txBuf.getFinish f.sent).2 }
  | none => s

/-- One event. -/
def step (s : CommsTx S) : TxEvent → CommsTx S
  | .write buf res => s.write buf res
  | .wire => s.wireByte
  | .txDone res => s.txDone res
  | .txAborted => s.txAborted

/-- What is on the wire, and what is in flight behind it, is what was accepted, from its beginning;
and an idle wire has carried all of it. -/
def LosslessFifo (s : CommsTx S) : Prop :=
  s.wire <+: s.accepted ∧ (s.flight = none → s.wire = s.accepted) ∧
    ∀ f, s.flight = some f → s.wire ++ s.txBuf.read (f.pos + f.sent) (f.len - f.sent) <+: s.accepted

/-- No write stores anything while a transmission is in flight; a write has room for all of its
buffer and is not refused by the driver; a completed transmission leaves nothing behind or the
driver takes the next one; and none is aborted with anything left to send. -/
def OneWriteAtATime (s : CommsTx S) : TxEvent → Prop
  | .write buf res =>
    (buf = [] ∨ s.txBuf.used = S.cap) ∨
      (s.flight = none ∧ buf.length ≤ S.cap - s.txBuf.used ∧ res = 0)
  | .wire => True
  | .txDone res => ∀ f, s.flight = some f → f.sent = f.len → s.txBuf.used = f.len ∨ res = 0
  | .txAborted => ∀ f, s.flight = some f → f.sent = f.len ∧ s.txBuf.used = f.len

/-! ## Starting a transmission -/

/-- **A free driver that does not refuse takes the next region.** -/
theorem uartStartTx_accepted {s : CommsTx S} (hf : s.flight = none)
    (hc : s.txBuf.claim = s.txBuf.head) (hu : 0 < s.txBuf.used) :
    ∃ n, 0 < n ∧ n ≤ s.txBuf.used ∧ s.txBuf.head % S.size + n ≤ S.size ∧
      (s.uartStartTx 0).1 = 0 ∧
      (s.uartStartTx 0).2.flight = some ⟨s.txBuf.head % S.size, n, 0⟩ ∧
      (s.uartStartTx 0).2.txBuf = (s.txBuf.getClaim uartRingbufSize).2 ∧
      (s.uartStartTx 0).2.txBuf.claim = s.txBuf.head + n ∧
      (s.uartStartTx 0).2.wire = s.wire ∧ (s.uartStartTx 0).2.accepted = s.accepted := by
  have hlt : s.txBuf.claim < s.txBuf.tail := by
    unfold Ring.used at hu
    omega
  have hpos := Ring.claimLen_pos (by decide : 0 < uartRingbufSize) hlt
  have hle := s.txBuf.claimLen_le uartRingbufSize
  have hin := s.txBuf.claimLen_inside uartRingbufSize
  have hres : s.uartStartTx 0
      = (0, { s with
          txBuf := (s.txBuf.getClaim uartRingbufSize).2
          flight := some ⟨s.txBuf.claim % S.size, s.txBuf.claimLen uartRingbufSize, 0⟩ }) := by
    simp [uartStartTx, uartTx, hf, hpos.ne']
  rw [hc] at hin
  refine ⟨s.txBuf.claimLen uartRingbufSize, hpos, by unfold Ring.used; omega, hin, ?_⟩
  simp [hres, hc]

/-- **A driver that is busy or refuses costs the oldest bytes**, as many as were claimed, and the
caller is told 0. -/
theorem uartStartTx_refused {s : CommsTx S} (res : ℤ) (hf : s.flight.isSome ∨ res ≠ 0)
    (hc : s.txBuf.claim < s.txBuf.tail) :
    ∃ n, 0 < n ∧ n ≤ s.txBuf.tail - s.txBuf.claim ∧
      (s.uartStartTx res).1 = 0 ∧ (s.uartStartTx res).2.flight = s.flight ∧
      (s.uartStartTx res).2.txBuf.used = s.txBuf.used - n ∧
      (s.uartStartTx res).2.wire = s.wire ∧ (s.uartStartTx res).2.accepted = s.accepted := by
  have hpos := Ring.claimLen_pos (by decide : 0 < uartRingbufSize) hc
  have hle := s.txBuf.claimLen_le uartRingbufSize
  have hused : s.txBuf.claimLen uartRingbufSize ≤ (s.txBuf.getClaim uartRingbufSize).2.used := by
    have := s.txBuf.head_le
    rw [Ring.used_getClaim]
    unfold Ring.used
    omega
  obtain ⟨herr, -, -, -, -⟩ := Ring.getFinish_of_le hused
  have hres : s.uartStartTx res
      = (0, { s with txBuf := ((s.txBuf.getClaim uartRingbufSize).2.getFinish
          (s.txBuf.claimLen uartRingbufSize)).2 }) := by
    rcases hf with hf | hf
    · simp [uartStartTx, uartTx, eBusy, hf, hpos.ne', herr]
    · by_cases hs : s.flight.isSome
      · simp [uartStartTx, uartTx, eBusy, hs, hpos.ne', herr]
      · simp [uartStartTx, uartTx, hs, hf, hpos.ne', herr]
  refine ⟨s.txBuf.claimLen uartRingbufSize, hpos, by omega, ?_⟩
  rw [hres]
  simp only [Ring.used_getFinish hused, Ring.used_getClaim, and_self]

/-- A write that stores nothing changes nothing. -/
theorem write_of_full {s : CommsTx S} {buf : List UInt8} {res : ℤ}
    (h : buf = [] ∨ s.txBuf.used = S.cap) : s.write buf res = s := by
  have hput : s.txBuf.put buf = (0, s.txBuf) := by
    cases buf with
    | nil => rfl
    | cons b buf => simp [Ring.put, h.resolve_left (by simp)]
  simp [write, commsWrite, stored, eNoMem, hput]

/-- A write that stores something goes on to `uart_start_tx`, and is accepted if that answers 0. -/
theorem write_of_room {s : CommsTx S} {buf : List UInt8} {res : ℤ}
    (hb : buf ≠ []) (hu : s.txBuf.used < S.cap)
    (h0 : ((s.stored buf).uartStartTx res).1 = 0) :
    s.write buf res = { ((s.stored buf).uartStartTx res).2 with
      accepted := ((s.stored buf).uartStartTx res).2.accepted ++ buf } := by
  have hn : (s.txBuf.put buf).1 ≠ 0 := by
    rw [(s.txBuf.put_spec buf).1]
    have := List.length_pos_iff.mpr hb
    omega
  simp [write, commsWrite, hn, h0]

/-- Starting a transmission does not look at what was accepted. -/
theorem uartStartTx_of_accepted (s : CommsTx S) (acc : List UInt8) (res : ℤ) :
    { s with accepted := acc }.uartStartTx res
      = ((s.uartStartTx res).1, { (s.uartStartTx res).2 with accepted := acc }) := by
  simp only [uartStartTx, uartTx]
  split_ifs <;> rfl

/-- A write to an idle driver that takes the region. -/
theorem write_started {s : CommsTx S} {buf : List UInt8} (hb : buf ≠ []) (hu : s.txBuf.used < S.cap)
    (hf : s.flight = none) (hc : (s.txBuf.put buf).2.claim = (s.txBuf.put buf).2.head)
    (hpos : 0 < (s.txBuf.put buf).2.used) :
    s.write buf 0 = ({ s.stored buf with accepted := s.accepted ++ buf }.uartStartTx 0).2 := by
  obtain ⟨-, -, -, -, h0, -, -, -, -, hacc⟩ := uartStartTx_accepted (s := s.stored buf) hf hc hpos
  rw [write_of_room hb hu h0, hacc]
  exact (congrArg Prod.snd (uartStartTx_of_accepted _ _ 0)).symm

/-! ## The invariant -/

/-- An idle wire has carried everything; otherwise the oldest bytes of the ring are in flight, and
what is not on the wire yet lies in the ring. -/
def Sound (s : CommsTx S) : Prop :=
  match s.flight with
  | none => s.txBuf.claim = s.txBuf.head ∧ s.txBuf.used = 0 ∧ s.wire = s.accepted
  | some f => 0 < f.len ∧ f.sent ≤ f.len ∧ f.pos = s.txBuf.head % S.size ∧ f.pos + f.len ≤ S.size ∧
      s.txBuf.claim = s.txBuf.head + f.len ∧
      s.wire ++ s.txBuf.slice (s.txBuf.head + f.sent) (s.txBuf.used - f.sent) = s.accepted

theorem sound_start (mem : ℕ → UInt8) : Sound (start S mem) := ⟨rfl, rfl, rfl⟩

theorem sound_none {s : CommsTx S} (h : Sound s) (hf : s.flight = none) :
    s.txBuf.claim = s.txBuf.head ∧ s.txBuf.used = 0 ∧ s.wire = s.accepted := by
  simpa only [Sound, hf] using h

theorem sound_some {s : CommsTx S} {f : TxFlight} (h : Sound s) (hf : s.flight = some f) :
    0 < f.len ∧ f.sent ≤ f.len ∧ f.pos = s.txBuf.head % S.size ∧ f.pos + f.len ≤ S.size ∧
      s.txBuf.claim = s.txBuf.head + f.len ∧
      s.wire ++ s.txBuf.slice (s.txBuf.head + f.sent) (s.txBuf.used - f.sent) = s.accepted := by
  simpa only [Sound, hf] using h

/-- A region that is claimed is in use. -/
theorem len_le_used {s : CommsTx S} {n : ℕ} (h : s.txBuf.claim = s.txBuf.head + n) :
    n ≤ s.txBuf.used := by
  have := s.txBuf.claim_le
  unfold Ring.used
  omega

/-- With a transmission in flight, the accepted bytes are those on the wire and the rest of the
ring. -/
theorem length_accepted {s : CommsTx S} {f : TxFlight} (h : Sound s) (hf : s.flight = some f) :
    s.accepted.length = s.wire.length + (s.txBuf.used - f.sent) := by
  obtain ⟨-, -, -, -, -, heq⟩ := sound_some h hf
  simpa using (congrArg List.length heq).symm

theorem Sound.losslessFifo {s : CommsTx S} (h : Sound s) : LosslessFifo s := by
  cases hf : s.flight with
  | none =>
    obtain ⟨-, -, heq⟩ := sound_none h hf
    exact ⟨heq ▸ List.prefix_rfl, fun _ => heq, fun f hs => by simp [hf] at hs⟩
  | some f =>
    obtain ⟨-, hsent, hpos, hin, hclaim, heq⟩ := sound_some h hf
    have hused := len_le_used hclaim
    refine ⟨⟨_, heq⟩, fun hn => by simp [hf] at hn, ?_⟩
    intro f' hs
    obtain rfl : f = f' := Option.some.inj (hf.symm.trans hs)
    have hread : s.txBuf.read (f.pos + f.sent) (f.len - f.sent)
        = s.txBuf.slice (s.txBuf.head + f.sent) (f.len - f.sent) := by
      rcases hsent.eq_or_lt with hall | hlt
      · rw [hall, Nat.sub_self]
        rfl
      · rw [hpos] at hin ⊢
        rw [← Ring.add_mod_of_inside (show s.txBuf.head % S.size + f.sent < S.size by omega)]
        refine Ring.read_eq_slice _ ?_
        rw [Ring.add_mod_of_inside (by omega)]
        omega
    rw [hread, ← heq, List.prefix_append_right_inj,
      show s.txBuf.used - f.sent = (f.len - f.sent) + (s.txBuf.used - f.len) by omega,
      Ring.slice_add]
    exact List.prefix_append _ _

/-! ## What an allowed step preserves -/

/-- **The next region follows what is on the wire.** -/
theorem sound_uartStartTx {s : CommsTx S} (hf : s.flight = none)
    (hc : s.txBuf.claim = s.txBuf.head) (hu : 0 < s.txBuf.used)
    (heq : s.wire ++ s.txBuf.contents = s.accepted) : Sound (s.uartStartTx 0).2 := by
  obtain ⟨n, hpos, -, hin, -, hflight, hbuf, hclaim, hwire, hacc⟩ := uartStartTx_accepted hf hc hu
  simp only [Sound, hflight]
  refine ⟨hpos, Nat.zero_le n, by rw [hbuf]; rfl, hin, ?_, ?_⟩
  · rw [hclaim, hbuf]
    rfl
  · rw [hwire, hacc, hbuf]
    exact heq

/-- The state `UART_TX_DONE` is in before it starts the next region. -/
theorem finished_spec {s : CommsTx S} {f : TxFlight} (h : Sound s) (hf : s.flight = some f)
    (hsent : f.sent = f.len) :
    (s.txBuf.getFinish f.len).2.claim = (s.txBuf.getFinish f.len).2.head ∧
      (s.txBuf.getFinish f.len).2.used = s.txBuf.used - f.len ∧
      s.wire ++ (s.txBuf.getFinish f.len).2.contents = s.accepted := by
  obtain ⟨-, -, -, -, hclaim, heq⟩ := sound_some h hf
  have hle := len_le_used hclaim
  obtain ⟨-, hhead, hcl, -, hmem⟩ := Ring.getFinish_of_le hle
  refine ⟨hcl.trans hhead.symm, Ring.used_getFinish hle, ?_⟩
  rw [Ring.contents, hhead, Ring.used_getFinish hle, Ring.slice_congr_mem hmem]
  rwa [hsent] at heq

/-- What `txDone` does with a region that is out: finish it, and start the next one if there is
one. -/
theorem txDone_of_sent {s : CommsTx S} {f : TxFlight} (res : ℤ) (hf : s.flight = some f)
    (hsent : f.sent = f.len) :
    s.txDone res = if (s.txBuf.getFinish f.len).2.used = 0 then
        { s with flight := none, txBuf := (s.txBuf.getFinish f.len).2 }
      else ({ s with flight := none, txBuf := (s.txBuf.getFinish f.len).2 }.uartStartTx res).2 := by
  simp only [txDone, hf, hsent, if_true]

theorem txDone_of_not_sent {s : CommsTx S} {res : ℤ}
    (h : ∀ f, s.flight = some f → f.sent ≠ f.len) : s.txDone res = s := by
  cases hf : s.flight with
  | none => simp only [txDone, hf]
  | some f => simp only [txDone, hf, h f hf, if_false]

theorem sound_wireByte {s : CommsTx S} (h : Sound s) : Sound s.wireByte := by
  cases hf : s.flight with
  | none => simpa [wireByte, hf] using h
  | some f =>
    by_cases hlt : f.sent < f.len
    · obtain ⟨hpos, -, hp, hin, hclaim, heq⟩ := sound_some h hf
      have hused := len_le_used hclaim
      simp only [wireByte, hf, hlt, if_true, Sound]
      refine ⟨hpos, hlt, hp, hin, hclaim, ?_⟩
      rw [hp] at hin ⊢
      rw [← heq, show s.txBuf.used - f.sent = s.txBuf.used - (f.sent + 1) + 1 by omega,
        Ring.slice_succ, Ring.add_mod_of_inside (by omega)]
      simp [Nat.add_assoc]
    · simpa [wireByte, hf, hlt] using h

theorem sound_step (s : CommsTx S) (e : TxEvent) (h : Sound s) (hok : OneWriteAtATime s e) :
    Sound (s.step e) := by
  cases e with
  | write buf res =>
    by_cases hfull : buf = [] ∨ s.txBuf.used = S.cap
    · rwa [step, write_of_full hfull]
    · obtain ⟨hf, hlen, rfl⟩ := hok.resolve_left hfull
      obtain ⟨hb, hne⟩ := not_or.mp hfull
      obtain ⟨hcl, hused, hwire⟩ := sound_none h hf
      obtain ⟨hn, hhead, hclaim, -⟩ := s.txBuf.put_spec buf
      have hblen := List.length_pos_iff.mpr hb
      have hcont : (s.txBuf.put buf).2.contents = buf := by
        have hnil : s.txBuf.contents = [] := List.length_eq_zero_iff.mp (by simp [hused])
        rw [Ring.contents_put, hn, hnil, List.nil_append, List.take_of_length_le (by omega)]
      have hpos : 0 < (s.txBuf.put buf).2.used := by
        rw [Ring.used_put]
        omega
      have hcl' : (s.txBuf.put buf).2.claim = (s.txBuf.put buf).2.head := by
        rw [hclaim, hhead, hcl]
      rw [step, write_started hb (by omega) hf hcl' hpos]
      refine sound_uartStartTx hf hcl' hpos ?_
      change s.wire ++ (s.txBuf.put buf).2.contents = s.accepted ++ buf
      rw [hcont, hwire]
  | wire => exact sound_wireByte h
  | txDone res =>
    rw [step]
    by_cases hs : ∃ f, s.flight = some f ∧ f.sent = f.len
    · obtain ⟨f, hf, hsent⟩ := hs
      obtain ⟨hcl, hused, hcont⟩ := finished_spec h hf hsent
      rw [txDone_of_sent res hf hsent]
      split_ifs with h0
      · refine ⟨hcl, h0, ?_⟩
        have hnil : (s.txBuf.getFinish f.len).2.contents = [] :=
          List.length_eq_zero_iff.mp (by rw [Ring.length_contents, h0])
        rwa [hnil, List.append_nil] at hcont
      · obtain rfl : res = 0 := (hok f hf hsent).resolve_left (by omega)
        exact sound_uartStartTx rfl hcl (Nat.pos_of_ne_zero h0) hcont
    · rwa [txDone_of_not_sent fun f hf hsent => hs ⟨f, hf, hsent⟩]
  | txAborted =>
    cases hf : s.flight with
    | none => simpa [step, txAborted, hf] using h
    | some f =>
      obtain ⟨hsent, hused⟩ := hok f hf
      obtain ⟨hcl, hused', hcont⟩ := finished_spec h hf hsent
      have h0 : (s.txBuf.getFinish f.len).2.used = 0 := by omega
      simp only [step, txAborted, hf, hsent]
      refine ⟨hcl, h0, ?_⟩
      have hnil : (s.txBuf.getFinish f.len).2.contents = [] :=
        List.length_eq_zero_iff.mp (by rw [Ring.length_contents, h0])
      rwa [hnil, List.append_nil] at hcont

/-! ## A forbidden step cannot be made good -/

/-- A region in flight, whatever became of the bytes behind it. -/
def InFlight (s : CommsTx S) (f : TxFlight) : Prop :=
  s.flight = some f ∧ 0 < f.len ∧ f.sent ≤ f.len ∧ f.len ≤ s.txBuf.used

/-- **Left to itself the driver sends the rest of the ring and comes to rest.** -/
theorem drain {s : CommsTx S} {f : TxFlight} (h : InFlight s f) :
    ∃ rs, Meets step OneWriteAtATime s rs ∧ (run step s rs).flight = none ∧
      (run step s rs).accepted = s.accepted ∧
      (run step s rs).wire.length = s.wire.length + (s.txBuf.used - f.sent) := by
  induction hm : 2 * s.txBuf.used - f.sent using Nat.strong_induction_on generalizing s f with
  | _ m ih =>
    obtain ⟨hf, hpos, hsent, hused⟩ := h
    rcases hsent.lt_or_eq with hlt | hall
    · -- the next byte goes out
      have hw : s.wireByte = { s with
          wire := s.wire ++ [s.txBuf.mem (f.pos + f.sent)]
          flight := some { f with sent := f.sent + 1 } } := by
        simp only [wireByte, hf, hlt, if_true]
      have hnext : InFlight s.wireByte { f with sent := f.sent + 1 } := by
        rw [hw]
        exact ⟨rfl, hpos, hlt, hused⟩
      have hused' : s.wireByte.txBuf.used = s.txBuf.used := by rw [hw]
      obtain ⟨rs, hrs, hnone, hacc, hlen⟩ := ih _ (by simp only [hused']; omega) hnext rfl
      refine ⟨.wire :: rs, meets_cons.mpr ⟨trivial, hrs⟩, hnone, ?_, ?_⟩
      · rw [run_cons, step, hacc, hw]
      · rw [run_cons, step, hlen, hw]
        simp only [List.length_append, List.length_singleton]
        omega
    · obtain ⟨-, hhead, hcl, -, -⟩ := Ring.getFinish_of_le hused
      have hdone := txDone_of_sent 0 hf hall
      have hok : OneWriteAtATime s (.txDone 0) := fun _ _ _ => .inr rfl
      by_cases h0 : (s.txBuf.getFinish f.len).2.used = 0
      · -- nothing is left
        rw [if_pos h0] at hdone
        refine ⟨[.txDone 0], by simpa using hok, ?_, ?_, ?_⟩
        · rw [run_cons, run_nil, step, hdone]
        · rw [run_cons, run_nil, step, hdone]
        · rw [run_cons, run_nil, step, hdone]
          rw [Ring.used_getFinish hused] at h0
          simp only
          omega
      · -- the next region is started
        rw [if_neg h0] at hdone
        let t : CommsTx S := { s with flight := none, txBuf := (s.txBuf.getFinish f.len).2 }
        obtain ⟨n, hn, hnle, -, -, hflight, hbuf, -, hwire, hacc'⟩ :=
          uartStartTx_accepted (s := t) rfl (hcl.trans hhead.symm) (Nat.pos_of_ne_zero h0)
        have hused' : (t.uartStartTx 0).2.txBuf.used = s.txBuf.used - f.len := by
          rw [hbuf, Ring.used_getClaim]
          exact Ring.used_getFinish hused
        have hnext : InFlight (t.uartStartTx 0).2 ⟨t.txBuf.head % S.size, n, 0⟩ :=
          ⟨hflight, hn, Nat.zero_le n, by rw [hbuf]; exact hnle⟩
        obtain ⟨rs, hrs, hnone, hacc, hlen⟩ := ih _ (by simp only [hused']; omega) hnext rfl
        refine ⟨.txDone 0 :: rs, meets_cons.mpr ⟨hok, ?_⟩, ?_, ?_, ?_⟩
        · rwa [step, hdone]
        · rwa [run_cons, step, hdone]
        · rw [run_cons, step, hdone, hacc, hacc']
        · rw [run_cons, step, hdone, hlen, hwire, hused']
          change s.wire.length + (s.txBuf.used - f.len - 0) = _
          rw [hall, Nat.sub_zero]

/-- A wire at rest that is shorter than what was accepted. -/
theorem not_always_of_short {s : CommsTx S} {rs : List TxEvent} (hf : (run step s rs).flight = none)
    (hlen : (run step s rs).wire.length ≠ (run step s rs).accepted.length) :
    ¬ Always step LosslessFifo s rs :=
  fun h => hlen (congrArg List.length (h.last.2.1 hf))

/-- A region in flight that will leave the wire shorter than what was accepted. -/
theorem exists_short_run {s : CommsTx S} {f : TxFlight} (h : InFlight s f)
    (hlen : s.wire.length + (s.txBuf.used - f.sent) < s.accepted.length) :
    ∃ rs, Meets step OneWriteAtATime s rs ∧ ¬ Always step LosslessFifo s rs := by
  obtain ⟨rs, hrs, hnone, hacc, hwire⟩ := drain h
  exact ⟨rs, hrs, not_always_of_short hnone (by rw [hwire, hacc]; exact hlen.ne)⟩

/-- A write while a transmission is in flight, to a driver that refuses it, or with more than there
is room for. -/
theorem write_not_allowed {s : CommsTx S} (h : Sound s) {buf : List UInt8} {res : ℤ}
    (hbad : ¬ OneWriteAtATime s (.write buf res)) :
    ∃ rs, Meets step OneWriteAtATime (s.write buf res) rs ∧
      ¬ Always step LosslessFifo (s.write buf res) rs := by
  obtain ⟨hfull, hidle⟩ := not_or.mp hbad
  obtain ⟨hb, hne⟩ := not_or.mp hfull
  obtain ⟨hn, hhead, hclaim, htail, -⟩ := s.txBuf.put_spec buf
  have hblen := List.length_pos_iff.mpr hb
  have hused := Ring.used_put s.txBuf buf
  have hlt : s.txBuf.used < S.cap := by
    have := s.txBuf.tail_le
    unfold Ring.used at hne ⊢
    omega
  have hcl : (s.stored buf).txBuf.claim < (s.stored buf).txBuf.tail := by
    have := s.txBuf.claim_le
    simp only [stored]
    omega
  cases hf : s.flight with
  | some f =>
    -- the driver is busy: as many bytes as were claimed for this write are freed under it
    obtain ⟨hpos, hsent, -, -, hcf, -⟩ := sound_some h hf
    have hlen := length_accepted h hf
    have hle := len_le_used hcf
    obtain ⟨n, hn0, hnle, h0, hflight, hused', hwire, hacc⟩ :=
      uartStartTx_refused res (.inl (by simp [stored, hf])) hcl
    have htu : (s.stored buf).txBuf.used
        = s.txBuf.used + min buf.length (S.cap - s.txBuf.used) := hused
    have hroom : n ≤ (s.stored buf).txBuf.used - f.len := by
      have hu := s.txBuf.head_le_tail
      simp only [stored, Ring.used] at hnle ⊢
      omega
    rw [write_of_room hb hlt h0]
    refine exists_short_run (f := f) ⟨hflight.trans hf, hpos, hsent, ?_⟩ ?_
    · simp only [hused']
      omega
    · simp only [hused', hwire, hacc, List.length_append]
      simp only [stored] at htu ⊢
      omega
  | none =>
    obtain ⟨hcs, hu0, hwire0⟩ := sound_none h hf
    by_cases hres : res = 0
    · -- only the beginning of the buffer was stored
      subst hres
      have hlong : S.cap - s.txBuf.used < buf.length := by
        by_contra hle
        exact hidle ⟨hf, by omega, rfl⟩
      have hpos : 0 < (s.txBuf.put buf).2.used := by omega
      have hcl' : (s.txBuf.put buf).2.claim = (s.txBuf.put buf).2.head := by
        rw [hclaim, hhead, hcs]
      rw [write_started hb hlt hf hcl' hpos]
      obtain ⟨n, hn0, hnle, -, -, hflight, hbuf, -, hwire, hacc⟩ :=
        uartStartTx_accepted (s := { s.stored buf with accepted := s.accepted ++ buf }) hf hcl' hpos
      refine exists_short_run ⟨hflight, hn0, Nat.zero_le n, by rw [hbuf]; exact hnle⟩ ?_
      rw [hwire, hacc, hbuf, List.length_append, Ring.used_getClaim]
      change s.wire.length + ((s.txBuf.put buf).2.used - 0) < _
      rw [hwire0]
      omega
    · -- the driver refused, and the write was answered 0
      obtain ⟨n, hn0, hnle, h0, hflight, hused', hwire, hacc⟩ :=
        uartStartTx_refused res (.inr hres) hcl
      rw [write_of_room hb hlt h0]
      refine ⟨[], meets_nil, not_always_of_short (hflight.trans hf) ?_⟩
      simp only [run_nil, hwire, hacc, List.length_append]
      simp only [stored, hwire0]
      omega

/-- A next region that the driver refuses. -/
theorem txDone_not_allowed {s : CommsTx S} (h : Sound s) {res : ℤ}
    (hbad : ¬ OneWriteAtATime s (.txDone res)) :
    ¬ Always step LosslessFifo (s.txDone res) [] := by
  simp only [OneWriteAtATime, not_forall, not_or] at hbad
  obtain ⟨f, hf, hsent, hne, hres⟩ := hbad
  obtain ⟨hpos, -, -, -, hcf, -⟩ := sound_some h hf
  have hle := len_le_used hcf
  have hlen := length_accepted h hf
  obtain ⟨hcl, hused, -⟩ := finished_spec h hf hsent
  have h0 : (s.txBuf.getFinish f.len).2.used ≠ 0 := by omega
  rw [txDone_of_sent res hf hsent, if_neg h0]
  obtain ⟨-, -, -, -, hflight, -, hwire, hacc⟩ := uartStartTx_refused
    (s := { s with flight := none, txBuf := (s.txBuf.getFinish f.len).2 }) res (.inr hres)
    (by unfold Ring.used at h0; simp only [hcl]; omega)
  refine not_always_of_short hflight ?_
  rw [run_nil, hwire, hacc]
  simp only
  omega

/-- An abort with something left to send. -/
theorem txAborted_not_allowed {s : CommsTx S} (h : Sound s)
    (hbad : ¬ OneWriteAtATime s .txAborted) : ¬ Always step LosslessFifo s.txAborted [] := by
  simp only [OneWriteAtATime, not_forall] at hbad
  obtain ⟨f, hf, hne⟩ := hbad
  obtain ⟨hpos, hsent, -, -, hcf, -⟩ := sound_some h hf
  have hle := len_le_used hcf
  have hlen := length_accepted h hf
  have habort : s.txAborted
      = { s with flight := none, txBuf := (s.txBuf.getFinish f.sent).2 } := by
    simp only [txAborted, hf]
  refine not_always_of_short (by rw [habort, run_nil]) ?_
  rw [habort, run_nil]
  simp only
  omega

/-- **Serial transmit is a lossless FIFO exactly when nothing is written while a transmission is in
flight**, no write is too long or refused, no completed transmission is followed by a refused one,
and none is aborted with anything left. -/
theorem losslessFifo_iff_oneWriteAtATime (mem : ℕ → UInt8) (es : List TxEvent) :
    Robust step OneWriteAtATime LosslessFifo (start S mem) es
      ↔ Meets step OneWriteAtATime (start S mem) es := by
  refine robust_iff_meets sound_step (fun _ => Sound.losslessFifo) ?_ (sound_start mem) es
  intro s e h hbad
  cases e with
  | write buf res => exact write_not_allowed h hbad
  | wire => exact absurd trivial hbad
  | txDone res => exact ⟨[], meets_nil, txDone_not_allowed h hbad⟩
  | txAborted => exact ⟨[], meets_nil, txAborted_not_allowed h hbad⟩

/-- One byte is written while two are in flight: the driver is busy, so the oldest byte is freed in
place of the new one, and finishing the two then takes the new one with it. -/
theorem not_losslessFifo_write_in_flight :
    ¬ Always step LosslessFifo (start UartShape.full fun _ => 0)
      [.write [1, 2] 0, .write [3] 0, .wire, .wire, .txDone 0] := by
  refine not_always_of_short ?_ ?_
  · decide +kernel
  · decide +kernel

end CommsTx

end Pyrinas
