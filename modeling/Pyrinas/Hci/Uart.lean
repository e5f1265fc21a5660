import Pyrinas.Hci.H4

/-!
# Hci/Uart — the receiving side of `hci_uart`

`bt_uart_isr` reads the UART fifo into a buffer and hands it to `tx_thread` when a packet is
complete; `tx_thread` hands it to the controller.  The interrupt handler is cut at every call of
`uart_fifo_read`: bytes arrive between two calls, each call returns as many of them as the driver
likes, and the threads run whenever they can.

    poll ──▸ type ──▸ header ──▸ payload ──▸ tx_queue ──▸ tx_thread ──▸ bt_send ──▸ released
      ▴                  └─too long─▸ discard ─┐
      └────────────────────────────────────────┘
-/

open Machinery

namespace Pyrinas

/-- A network buffer: its type, the bytes in it, and how many it can hold. -/
structure NetBuf where
  type : BtBufType
  data : List UInt8
  size : ℕ
  length_le : data.length ≤ size
  deriving DecidableEq

namespace NetBuf

/-- A buffer without data, of the size the driver has for the type. -/
def unused (raw : HciRaw) (type : BtBufType) : NetBuf := ⟨type, [], raw.size type, Nat.zero_le _⟩

/-- `net_buf_tailroom` -/
def tailroom (buf : NetBuf) : ℕ := buf.size - buf.data.length

/-- Bytes behind the data, for which there must be room. -/
def add (buf : NetBuf) (mem : List UInt8) (h : mem.length ≤ buf.tailroom) : NetBuf :=
  { buf with
    data := buf.data ++ mem
    length_le := by
      have := buf.length_le
      rw [tailroom] at h
      rw [List.length_append]
      omega }

/-- The type of a buffer and the bytes in it. -/
def content (buf : NetBuf) : BtBufType × List UInt8 := (buf.type, buf.data)

end NetBuf

/-- Where `bt_uart_isr` is: outside or at the head of its loop, or at one of its calls of
`uart_fifo_read`, with the bytes `h4_read` has got so far. -/
inductive UartPc
  | poll
  | type
  | header (hdr : HciHdr) (got : List UInt8)
  | payload (got : List UInt8)
  | discard
  deriving DecidableEq

/-- The sample runs, `net_buf_add_mem` has found no room, bytes have been written behind the end of
a buffer, or a buffer that does not exist has been used. -/
inductive UartStatus
  | running
  | asserted
  | overrun
  | faulted
  deriving DecidableEq

/-- The UART fifo, the statics of `bt_uart_isr`, the pools, `tx_queue`, `tx_thread` and the
controller: `sent` holds what `bt_send` was called with and what it returned, `stack` the buffers
that the controller has not released. -/
structure HciUart where
  fifo : List UInt8
  pc : UartPc
  buf : Option NetBuf
  remaining : ℕ
  free : BtBufType → ℕ
  txQueue : List NetBuf
  txBuf : Option NetBuf
  sent : List (NetBuf × ℤ)
  stack : List NetBuf
  status : UartStatus

/-- Bytes arrive; the interrupt handler looks for work; `uart_fifo_read` returns, with at most
`count` bytes; `tx_thread` gets a buffer; `bt_send` returns; the controller releases a buffer. -/
inductive UartEvent
  | arrive (bytes : List UInt8)
  | irq (update pending rxReady : Bool)
  | fifoRead (count : ℕ)
  | netBufGet
  | btSend (err : ℤ)
  | release (i : ℕ)

/-- `H4_DISCARD_LEN` -/
def h4DiscardLen : ℕ := 33

/-- One turn of the loop of `h4_read`, when `uart_fifo_read` gives it `rx`: what it has got now, and
whether it returns. -/
def h4ReadTurn (len min : ℕ) (got rx : List UInt8) : List UInt8 × Bool :=
  if rx = [] then (got, ¬ got.length < min)
  else (got ++ rx, got.length + rx.length = len)

namespace HciUart

/-- At start, with `free` buffers of each type. -/
def boot (free : BtBufType → ℕ) : HciUart := ⟨[], .poll, none, 0, free, [], none, [], [], .running⟩

/-- A buffer goes back to its pool: `net_buf_unref` of the only reference. -/
def netBufUnref (s : HciUart) (buf : NetBuf) : HciUart :=
  { s with free := Function.update s.free buf.type (s.free buf.type + 1) }

/-- The end of an iteration that has read `read` bytes of a payload into `buf`. -/
def payloadRead (s : HciUart) (buf : NetBuf) (read : ℕ) : HciUart :=
  let remaining := s.remaining - read
  if remaining = 0 then
    { s with remaining := remaining, txQueue := s.txQueue ++ [buf], buf := none, pc := .poll }
  else { s with remaining := remaining, buf := some buf, pc := .poll }

/-- The part of an iteration behind the header: discard or read. -/
def recvPayload (s : HciUart) : HciUart :=
  match s.buf with
  | none => { s with pc := .discard }
  | some buf =>
    -- with nothing to read, `h4_read` returns without asking the UART
    if s.remaining = 0 then s.payloadRead buf 0 else { s with pc := .payload [] }

/-- `bt_buf_get_tx`, for a type byte: the buffer type, if there is a free buffer of it. -/
def btBufGetTx (raw : HciRaw) (s : HciUart) (type : UInt8) : Option BtBufType :=
  (raw.bufType type).filter fun bufType => s.free bufType ≠ 0

/-- The type byte of a new packet has been read. -/
def typeRead (raw : HciRaw) (s : HciUart) (type : UInt8) : HciUart :=
  match s.btBufGetTx raw type with
  | none => { s with buf := none, pc := .poll }
  | some bufType =>
    let s := { s with
      free := Function.update s.free bufType (s.free bufType - 1)
      buf := some (.unused raw bufType) }
    match bufType with
    | .btBufCmd => { s with pc := .header .cmd [] }
    | .btBufAclOut => { s with pc := .header .acl [] }
    -- the handler returns, and leaves the buffer where it is
    | .other => { s with pc := .poll }

/-- `h4_cmd_recv` and `h4_acl_recv` when they have read the header, and the check of its length. -/
def hdrRecv (s : HciUart) (hdr : HciHdr) (bytes : List UInt8) : HciUart :=
  match s.buf with
  | none => { s with status := .faulted }
  | some buf =>
    if h : bytes.length ≤ buf.tailroom then
      let buf := buf.add bytes h
      let s := { s with buf := some buf, remaining := hdr.len bytes }
      if s.remaining > buf.tailroom then { s.netBufUnref buf with buf := none }.recvPayload
      else s.recvPayload
    else { s with status := .asserted }

/-- A turn of the `h4_read` that reads a payload to the tail of the buffer. -/
def payloadTurn (s : HciUart) (got rx : List UInt8) : HciUart :=
  match s.buf with
  | none => { s with status := .faulted }
  | some buf =>
    let (got, returns) := h4ReadTurn s.remaining 0 got rx
    if h : got.length ≤ buf.tailroom then
      if returns then s.payloadRead (buf.add got h) got.length else { s with pc := .payload got }
    else { s with status := .overrun }

/-- How many bytes `bt_uart_isr` asks `uart_fifo_read` for. -/
def want (s : HciUart) : ℕ :=
  match s.pc with
  | .poll => 0
  | .type => 1
  | .header hdr got => hdr.size - got.length
  | .payload got => s.remaining - got.length
  | .discard => min s.remaining h4DiscardLen

/-- What `uart_fifo_read` returns: no more than is there, than is asked for, and than `count`. -/
def fifoBytes (s : HciUart) (count : ℕ) : List UInt8 := s.fifo.take (min count s.want)

/-- `uart_fifo_read` has returned `rx`: on to the next call, or to the end of the iteration. -/
def resume (raw : HciRaw) (s : HciUart) (rx : List UInt8) : HciUart :=
  match s.pc with
  | .poll => s
  | .type =>
    match rx with
    | [] => { s with pc := .poll }
    | type :: _ => s.typeRead raw type
  | .header hdr got =>
    let (got, returns) := h4ReadTurn hdr.size hdr.size got rx
    if returns then s.hdrRecv hdr got else { s with pc := .header hdr got }
  | .payload got => s.payloadTurn got rx
  | .discard => { s with remaining := s.remaining - rx.length, pc := .poll }

/-- `uart_fifo_read` -/
def fifoRead (raw : HciRaw) (s : HciUart) (count : ℕ) : HciUart :=
  let rx := s.fifoBytes count
  { s with fifo := s.fifo.drop rx.length }.resume raw rx

/-- The loop of `bt_uart_isr`, and the start of an iteration. -/
def irq (s : HciUart) (update pending rxReady : Bool) : HciUart :=
  if s.pc = .poll ∧ update ∧ pending ∧ rxReady then
    if s.remaining = 0 then { s with pc := .type } else s.recvPayload
  else s

/-- `net_buf_get` in `tx_thread` -/
def netBufGet (s : HciUart) : HciUart :=
  match s.txBuf, s.txQueue with
  | none, buf :: txQueue => { s with txBuf := some buf, txQueue := txQueue }
  | _, _ => s

/-- `bt_send` in `tx_thread`: a buffer that is not accepted is released at once. -/
def btSend (s : HciUart) (err : ℤ) : HciUart :=
  match s.txBuf with
  | none => s
  | some buf =>
    let s := { s with txBuf := none, sent := s.sent ++ [(buf, err)] }
    if err = 0 then { s with stack := s.stack ++ [buf] } else s.netBufUnref buf

/-- The controller releases a buffer. -/
def release (s : HciUart) (i : ℕ) : HciUart :=
  match s.stack[i]? with
  | none => s
  | some buf => { s with stack := s.stack.eraseIdx i }.netBufUnref buf

/-- One event, while the sample runs. -/
def handle (raw : HciRaw) (s : HciUart) : UartEvent → HciUart
  | .arrive bytes => { s with fifo := s.fifo ++ bytes }
  | .irq update pending rxReady => s.irq update pending rxReady
  | .fifoRead count => s.fifoRead raw count
  | .netBufGet => s.netBufGet
  | .btSend err => s.btSend err
  | .release i => s.release i

/-- One event; when something has gone wrong, nothing more happens. -/
def step (raw : HciRaw) (s : HciUart) (e : UartEvent) : HciUart :=
  if s.status = .running then s.handle raw e else s

end HciUart

end Pyrinas
