import Pyrinas.Errno
import Pyrinas.Machinery.Run
import Pyrinas.Machinery.Slab

/-!
# Comms/Slabs — when every receive buffer is accounted for

A receive buffer is a block of `uart_slab`.  It is allocated before it is offered to the driver, and
freed when the driver releases it.  A buffer the driver refuses is held by nobody and freed by
nobody: the slab has one block less for good.

    uart_slab ─alloc─▸ uart_rx_enable, uart_rx_buf_rsp ─▸ held ─UART_RX_BUF_RELEASED─▸ uart_slab
                                  └─refused─▸ lost
-/

open Machinery

namespace Pyrinas

/-- `UART_SLAB_BUF_COUNT` -/
abbrev uartSlabBufCount : ℕ := 12

/-- A block of `uart_slab`. -/
abbrev UartBuf := Fin uartSlabBufCount

/-- The receiving side of the UART driver: the buffers it holds, a current and a next one. -/
structure RxDriver where
  held : Finset UartBuf
  card_le : held.card ≤ 2

namespace RxDriver

/-- A driver that receives nothing. -/
def off : RxDriver := ⟨∅, Nat.zero_le _⟩

/-- `uart_rx_enable`: refused with an error, and in any case while the driver receives. -/
def rxEnable (d : RxDriver) (buf : UartBuf) (err : ℤ) : ℤ × RxDriver :=
  if err ≠ 0 then (err, d)
  else if d.held = ∅ then (0, ⟨{buf}, by simp⟩)
  else (-eBusy, d)

/-- `uart_rx_buf_rsp`: refused with an error, and in any case when there is a next buffer
already. -/
def rxBufRsp (d : RxDriver) (buf : UartBuf) (err : ℤ) : ℤ × RxDriver :=
  if err ≠ 0 then (err, d)
  else if h : d.held.card < 2 then
    (0, ⟨insert buf d.held, (Finset.card_insert_le buf d.held).trans h⟩)
  else (-eBusy, d)

/-- The driver lets go of a buffer. -/
def release (d : RxDriver) (buf : UartBuf) : RxDriver :=
  ⟨d.held.erase buf, (Finset.card_le_card (Finset.erase_subset buf d.held)).trans d.card_le⟩

end RxDriver

/-- The device runs, an assertion has failed, or the driver has got a pointer that was never set. -/
inductive RxStatus
  | running
  | asserted
  | faulted
  deriving DecidableEq

/-- `uart_slab` and the driver; `requestFailed` records that the allocation in `UART_RX_BUF_REQUEST`
has failed. -/
structure RxSlabs where
  uartSlab : Slab uartSlabBufCount
  driver : RxDriver
  requestFailed : Bool
  status : RxStatus

/-- `comms_init`, and what the driver calls back with; and what it answers to the buffer it is
offered. -/
inductive RxSlabEvent
  | commsInit (enableErr : ℤ)
  | rxBufRequest (rspErr : ℤ)
  | rxBufReleased (buf : UartBuf)
  | rxDisabled (enableErr : ℤ)

namespace RxSlabs

/-- At boot. -/
def boot : RxSlabs := ⟨.unused _, .off, false, .running⟩

/-- `uart_start_rx`: the buffer of a driver that does not start is not freed. -/
def uartStartRx (s : RxSlabs) (enableErr : ℤ) : ℤ × RxSlabs :=
  match s.uartSlab.alloc with
  | none => (-eNoMem, s)
  | some (buf, uartSlab) =>
    let (err, driver) := s.driver.rxEnable buf enableErr
    (err, { s with uartSlab := uartSlab, driver := driver })

/-- The part of `comms_init` that starts receiving, with its assertion. -/
def commsInit (assert : Bool) (s : RxSlabs) (enableErr : ℤ) : RxSlabs :=
  let (err, s) := s.uartStartRx enableErr
  if assert ∧ err ≠ 0 then { s with status := .asserted } else s

/-- `UART_RX_BUF_REQUEST`, with its two assertions. -/
def rxBufRequest (assert : Bool) (s : RxSlabs) (rspErr : ℤ) : RxSlabs :=
  match s.uartSlab.alloc with
  | none => { s with requestFailed := true, status := if assert then .asserted else .faulted }
  | some (buf, uartSlab) =>
    let (err, driver) := s.driver.rxBufRsp buf rspErr
    let s := { s with uartSlab := uartSlab, driver := driver }
    if assert ∧ err ≠ 0 then { s with status := .asserted } else s

/-- `UART_RX_BUF_RELEASED`, for a buffer the driver holds. -/
def rxBufReleased (s : RxSlabs) (buf : UartBuf) : RxSlabs :=
  { s with uartSlab := s.uartSlab.free buf, driver := s.driver.release buf }

/-- One event, on a running device: only buffers that are held are released, and all of them before
`UART_RX_DISABLED`. -/
def handle (assert : Bool) (s : RxSlabs) : RxSlabEvent → RxSlabs
  | .commsInit enableErr => s.commsInit assert enableErr
  | .rxBufRequest rspErr => s.rxBufRequest assert rspErr
  | .rxBufReleased buf => if buf ∈ s.driver.held then s.rxBufReleased buf else s
  | .rxDisabled enableErr => if s.driver.held = ∅ then (s.uartStartRx enableErr).2 else s

/-- One event; a device that does not run any more stays as it is. -/
def step (assert : Bool) (s : RxSlabs) (e : RxSlabEvent) : RxSlabs :=
  if s.status = .running then s.handle assert e else s

/-- The allocated blocks are those the driver holds, and no allocation in `UART_RX_BUF_REQUEST` has
failed. -/
structure AccountedFor (s : RxSlabs) : Prop where
  allocated : s.uartSlab.allocated = s.driver.held
  request : s.requestFailed = false

/-- The driver does not refuse the buffer it is offered. -/
def NeverRefused (s : RxSlabs) : RxSlabEvent → Prop
  | .commsInit enableErr => s.status = .running → enableErr = 0 ∧ s.driver.held = ∅
  | .rxBufRequest rspErr => s.status = .running → rspErr = 0 ∧ s.driver.held.card < 2
  | .rxBufReleased _ => True
  | .rxDisabled enableErr => s.status = .running → s.driver.held = ∅ → enableErr = 0

variable {assert : Bool} {s : RxSlabs}

/-! ## Offering a buffer -/

theorem held_rxEnable (d : RxDriver) (buf : UartBuf) (err : ℤ) :
    (d.rxEnable buf err).2.held = if err = 0 ∧ d.held = ∅ then insert buf d.held else d.held := by
  unfold RxDriver.rxEnable
  split_ifs <;> simp_all

theorem held_rxBufRsp (d : RxDriver) (buf : UartBuf) (err : ℤ) :
    (d.rxBufRsp buf err).2.held
      = if err = 0 ∧ d.held.card < 2 then insert buf d.held else d.held := by
  unfold RxDriver.rxBufRsp
  split_ifs <;> simp_all

namespace AccountedFor

/-- There are more blocks than the driver can hold, so one can be allocated. -/
theorem exists_alloc (h : AccountedFor s) :
    ∃ buf uartSlab, s.uartSlab.alloc = some (buf, uartSlab) := by
  refine Slab.exists_alloc ?_
  rw [h.allocated]
  exact s.driver.card_le.trans_lt (by decide)

/-- **A buffer that is allocated and offered is accounted for iff the driver takes it.** -/
theorem offer_iff (h : AccountedFor s) {buf : UartBuf} {uartSlab : Slab uartSlabBufCount}
    (halloc : s.uartSlab.alloc = some (buf, uartSlab)) {taken : Prop} [Decidable taken]
    {driver : RxDriver}
    (hdriver : driver.held = if taken then insert buf s.driver.held else s.driver.held)
    (status : RxStatus) :
    AccountedFor { s with uartSlab := uartSlab, driver := driver, status := status } ↔ taken := by
  obtain ⟨hfree, hall⟩ := Slab.allocated_alloc halloc
  rw [h.allocated] at hfree hall
  constructor
  · rintro ⟨hheld, -⟩
    by_contra hnot
    rw [hall, hdriver, if_neg hnot] at hheld
    exact hfree (Finset.insert_eq_self.mp hheld)
  · intro htaken
    exact ⟨by rw [hall, hdriver, if_pos htaken], h.request⟩

theorem uartStartRx_iff (h : AccountedFor s) (enableErr : ℤ) :
    AccountedFor (s.uartStartRx enableErr).2 ↔ enableErr = 0 ∧ s.driver.held = ∅ := by
  obtain ⟨buf, uartSlab, halloc⟩ := h.exists_alloc
  simp only [uartStartRx, halloc]
  exact h.offer_iff halloc (held_rxEnable _ _ _) s.status

theorem commsInit_iff (h : AccountedFor s) (enableErr : ℤ) :
    AccountedFor (s.commsInit assert enableErr) ↔ enableErr = 0 ∧ s.driver.held = ∅ := by
  rw [← h.uartStartRx_iff enableErr]
  simp only [commsInit]
  split
  · exact ⟨fun ⟨hall, hreq⟩ => ⟨hall, hreq⟩, fun ⟨hall, hreq⟩ => ⟨hall, hreq⟩⟩
  · exact Iff.rfl

theorem rxBufRequest_iff (h : AccountedFor s) (rspErr : ℤ) :
    AccountedFor (s.rxBufRequest assert rspErr) ↔ rspErr = 0 ∧ s.driver.held.card < 2 := by
  obtain ⟨buf, uartSlab, halloc⟩ := h.exists_alloc
  simp only [rxBufRequest, halloc]
  split
  · exact h.offer_iff halloc (held_rxBufRsp _ _ _) .asserted
  · exact h.offer_iff halloc (held_rxBufRsp _ _ _) s.status

/-- What the driver lets go of is free again. -/
theorem rxBufReleased (h : AccountedFor s) (buf : UartBuf) :
    AccountedFor (s.rxBufReleased buf) := by
  refine ⟨?_, h.request⟩
  rw [RxSlabs.rxBufReleased, Slab.allocated_free, h.allocated]
  rfl

/-- **Every buffer stays accounted for iff the driver takes what it is offered.** -/
theorem step_iff (h : AccountedFor s) (e : RxSlabEvent) :
    AccountedFor (s.step assert e) ↔ NeverRefused s e := by
  by_cases hrun : s.status = .running
  · rw [step, if_pos hrun]
    cases e with
    | commsInit enableErr =>
      simp only [NeverRefused, hrun, true_imp_iff]
      exact h.commsInit_iff enableErr
    | rxBufRequest rspErr =>
      simp only [NeverRefused, hrun, true_imp_iff]
      exact h.rxBufRequest_iff rspErr
    | rxBufReleased buf =>
      simp only [handle, NeverRefused, iff_true]
      split
      · exact h.rxBufReleased buf
      · exact h
    | rxDisabled enableErr =>
      simp only [handle, NeverRefused, hrun, true_imp_iff]
      split
      next hheld => simp only [h.uartStartRx_iff, hheld, and_true, true_imp_iff]
      next hheld => simp only [h, hheld, false_imp_iff]
  · rw [step, if_neg hrun]
    cases e <;> simp [NeverRefused, hrun, h]

end AccountedFor

theorem accountedFor_boot : AccountedFor boot := ⟨Slab.allocated_unused, rfl⟩

/-- **The blocks are accounted for exactly while the driver refuses none.** -/
theorem accountedFor_iff_neverRefused (assert : Bool) (es : List RxSlabEvent) :
    Always (step assert) AccountedFor boot es ↔ Meets (step assert) NeverRefused boot es :=
  always_iff_meets (fun _ e h hok => (h.step_iff e).mpr hok) (fun _ => id)
    (fun _ e h hbad hP => hbad ((h.step_iff e).mp hP)) accountedFor_boot es

/-- Receiving is disabled, and does not start again. -/
theorem not_accountedFor_enable_fails :
    ¬ Always (step true) AccountedFor boot
      [.commsInit 0, .rxBufReleased 0, .rxDisabled (-eBusy)] := by
  intro h
  have hheld := h.last.allocated
  revert hheld
  decide

end RxSlabs

end Pyrinas
