import Mathlib.Data.List.FinRange
import Mathlib.Logic.Function.Basic
import Pyrinas.Errno

/-!
# Ble/Central — the connection slots of the BLE central

`ble_central_write` queues a payload in every ready slot and submits `bt_send_work`; its handler
pops one payload of each ready slot and passes it to `bt_gatt_nus_c_send`, which works in the
background and calls `ble_data_sent` in the end.  Connections come and go.

    write ──▸ q₀ q₁ ⋯ ──bt_send_work──▸ nus_c₀ nus_c₁ ⋯ ──▸ ble_data_sent ──bt_send_work──▸

Scanning, pairing and the discovery itself are left to the caller: what is modelled of `connected`,
`discovery_completed` and `disconnected` is what they do to the slots.
-/

namespace Pyrinas

/-- `CONFIG_BT_MAX_CONN`, and `BLE_QUEUE_ITEM_SIZE`, a positive multiple of four. -/
structure CentralShape where
  maxConn : ℕ
  itemSize : ℕ
  itemSize_pos : 0 < itemSize

/-- `BLE_CENTRAL_QUEUE_SIZE` -/
def bleCentralQueueSize : ℕ := 10

/-- The `data` of a `ble_fifo_data_t`. -/
abbrev Payload := List UInt8

/-- `struct ble_nus_c_connection`.  `busy` is the state of `nus_c`: a write is outstanding.  `put`
and `accepted` record the payloads that went into the queue and to the peer since the slot got
ready. -/
structure NusCConnection where
  ready : Bool
  conn : Option ℕ
  q : List Payload
  busy : Bool
  put : List Payload
  accepted : List Payload
  deriving DecidableEq

namespace NusCConnection

/-- An unused slot. -/
def unused : NusCConnection := ⟨false, none, [], false, [], []⟩

/-- `k_msgq_put`: a full queue takes nothing. -/
def msgqPut (c : NusCConnection) (evt : Payload) : NusCConnection :=
  if c.q.length < bleCentralQueueSize then { c with q := c.q ++ [evt], put := c.put ++ [evt] }
  else c

/-- `bt_gatt_nus_c_send`, with what it answers if no write is outstanding. -/
def nusSend (c : NusCConnection) (payload : Payload) (res : ℤ) : ℤ × NusCConnection :=
  if c.busy then (-eAlready, c)
  else if res ≠ 0 then (res, c)
  else (0, { c with busy := true, accepted := c.accepted ++ [payload] })

/-- One pass of the loop of `bt_send_work_handler`: the payload is popped, and the error is only
logged. -/
def sendNext (c : NusCConnection) (res : ℤ) : NusCConnection :=
  if c.ready = false ∨ c.conn = none then c
  else
    match c.q with
    | [] => c
    | payload :: q => ({ c with q := q }.nusSend payload res).2

/-- The slot gets ready; the record starts anew unless it was. -/
def setReady (c : NusCConnection) : NusCConnection :=
  if c.ready then c else { c with ready := true, put := [], accepted := [] }

/-! What putting and sending leave of a slot. -/

section Frame

variable (c : NusCConnection) (evt : Payload) (res : ℤ)

@[simp] theorem ready_msgqPut : (c.msgqPut evt).ready = c.ready := by
  unfold msgqPut
  split <;> rfl

@[simp] theorem conn_msgqPut : (c.msgqPut evt).conn = c.conn := by
  unfold msgqPut
  split <;> rfl

theorem q_msgqPut : (c.msgqPut evt).q
    = if c.q.length < bleCentralQueueSize then c.q ++ [evt] else c.q := by
  unfold msgqPut
  split <;> rfl

/-- The answer to a send is about the write, not about the slot. -/
theorem nusSend_frame (payload : Payload) : (c.nusSend payload res).2.ready = c.ready ∧
    (c.nusSend payload res).2.conn = c.conn ∧ (c.nusSend payload res).2.q = c.q := by
  unfold nusSend
  split_ifs <;> exact ⟨rfl, rfl, rfl⟩

@[simp] theorem ready_sendNext : (c.sendNext res).ready = c.ready := by
  unfold sendNext
  split
  next => rfl
  next =>
    split
    next => rfl
    next => exact (nusSend_frame _ res _).1

@[simp] theorem conn_sendNext : (c.sendNext res).conn = c.conn := by
  unfold sendNext
  split
  next => rfl
  next =>
    split
    next => rfl
    next => exact (nusSend_frame _ res _).2.1

/-- A slot in use gives one payload away. -/
theorem q_sendNext : (c.sendNext res).q
    = if c.ready = false ∨ c.conn = none then c.q else c.q.tail := by
  unfold sendNext
  split
  next => rfl
  next =>
    split
    next hq => rw [hq, List.tail_nil]
    next hq =>
      rw [hq, List.tail_cons]
      exact (nusSend_frame _ res _).2.2

end Frame

end NusCConnection

/-- `m_conns`, `m_num_connected`, and whether `bt_send_work` is pending. -/
structure Central (S : CentralShape) where
  conns : Fin S.maxConn → NusCConnection
  numConnected : ℤ
  sendWork : Bool

/-- What the application, the work queue, and the Bluetooth stack do. -/
inductive CentralEvent (S : CentralShape)
  | write (data : Payload)
  | sendWork (res : Fin S.maxConn → ℤ)
  | dataSent (i : Fin S.maxConn)
  | connected (conn : ℕ) (connErr : ℤ)
  | discoveryCompleted (conn : ℕ) (err : ℤ)
  | disconnected (conn : ℕ)

namespace Central

variable {S : CentralShape}

/-- `ble_central_init` -/
def init (S : CentralShape) : Central S := ⟨fun _ => .unused, 0, false⟩

/-- The first slot with a given `conn`. -/
def slotOf (s : Central S) (conn : Option ℕ) : Option (Fin S.maxConn) :=
  (List.finRange S.maxConn).find? fun i => (s.conns i).conn = conn

/-- `ble_central_write` -/
def write (s : Central S) (data : Payload) : Central S :=
  if ∃ i, (s.conns i).ready then
    if data.length > S.itemSize then s
    else { s with
      conns := fun i => if (s.conns i).ready then (s.conns i).msgqPut data else s.conns i
      sendWork := true }
  else s

/-- `bt_send_work_handler`, if it is pending.  `schedule_work` is never set. -/
def sendWorkHandler (s : Central S) (res : Fin S.maxConn → ℤ) : Central S :=
  if s.sendWork then { s with conns := fun i => (s.conns i).sendNext (res i), sendWork := false }
  else s

/-- `ble_data_sent` for an outstanding write of slot `i`. -/
def dataSent (s : Central S) (i : Fin S.maxConn) : Central S :=
  if (s.conns i).busy then
    { s with
      conns := Function.update s.conns i { s.conns i with busy := false }
      sendWork := s.sendWork || !(s.conns i).q.isEmpty }
  else s

/-- `disconnected` -/
def disconnected (s : Central S) (conn : ℕ) : Central S :=
  match s.slotOf (some conn) with
  | none => s
  | some i => { s with
    conns := Function.update s.conns i { s.conns i with conn := none, q := [], ready := false }
    numConnected := s.numConnected - 1 }

/-- `connected`: a failed attempt is undone, others take a free slot. -/
def connected (s : Central S) (conn : ℕ) (connErr : ℤ) : Central S :=
  if connErr ≠ 0 then s.disconnected conn
  else
    match s.slotOf none with
    | none => s
    | some i => { s with
      conns := Function.update s.conns i { s.conns i with conn := some conn } }

/-- `discovery_completed`, with the error of assigning the handles or enabling notifications. -/
def discoveryCompleted (s : Central S) (conn : ℕ) (err : ℤ) : Central S :=
  if err ≠ 0 then s
  else
    match s.slotOf (some conn) with
    | none => s
    | some i => { s with
      conns := Function.update s.conns i (s.conns i).setReady
      numConnected := s.numConnected + 1 }

/-- One event. -/
def step (s : Central S) : CentralEvent S → Central S
  | .write data => s.write data
  | .sendWork res => s.sendWorkHandler res
  | .dataSent i => s.dataSent i
  | .connected conn connErr => s.connected conn connErr
  | .discoveryCompleted conn err => s.discoveryCompleted conn err
  | .disconnected conn => s.disconnected conn

theorem conn_of_slotOf {s : Central S} {conn : Option ℕ} {i : Fin S.maxConn}
    (h : s.slotOf conn = some i) : (s.conns i).conn = conn := by
  simpa using List.find?_some h

theorem slotOf_eq_none_iff {s : Central S} {conn : Option ℕ} :
    s.slotOf conn = none ↔ ∀ i, (s.conns i).conn ≠ conn := by
  simp [slotOf]

/-- A slot after a disconnection, a connection or a discovery of whatever connection. -/
theorem conns_disconnected (s : Central S) (conn : ℕ) (j : Fin S.maxConn) :
    (s.disconnected conn).conns j = if s.slotOf (some conn) = some j
      then { s.conns j with conn := none, q := [], ready := false } else s.conns j := by
  unfold disconnected
  cases h : s.slotOf (some conn) with
  | none => simp
  | some i =>
    by_cases hij : i = j
    · subst hij
      simp
    · simp [hij, Function.update_of_ne (Ne.symm hij)]

theorem conns_connected (s : Central S) (conn : ℕ) (j : Fin S.maxConn) :
    (s.connected conn 0).conns j = if s.slotOf none = some j
      then { s.conns j with conn := some conn } else s.conns j := by
  rw [connected, if_neg (by simp)]
  cases h : s.slotOf none with
  | none => simp
  | some i =>
    by_cases hij : i = j
    · subst hij
      simp
    · simp [hij, Function.update_of_ne (Ne.symm hij)]

theorem conns_discoveryCompleted (s : Central S) (conn : ℕ) (j : Fin S.maxConn) :
    (s.discoveryCompleted conn 0).conns j = if s.slotOf (some conn) = some j
      then (s.conns j).setReady else s.conns j := by
  rw [discoveryCompleted, if_neg (by simp)]
  cases h : s.slotOf (some conn) with
  | none => simp
  | some i =>
    by_cases hij : i = j
    · subst hij
      simp
    · simp [hij, Function.update_of_ne (Ne.symm hij)]

/-- Other events leave the connections in their slots. -/
theorem conn_write (s : Central S) (data : Payload) (i : Fin S.maxConn) :
    ((s.write data).conns i).conn = (s.conns i).conn := by
  unfold write
  split_ifs
  · rfl
  · dsimp only
    split
    next => exact NusCConnection.conn_msgqPut _ data
    next => rfl
  · rfl

theorem conn_sendWorkHandler (s : Central S) (res : Fin S.maxConn → ℤ) (i : Fin S.maxConn) :
    ((s.sendWorkHandler res).conns i).conn = (s.conns i).conn := by
  unfold sendWorkHandler
  split
  next => exact NusCConnection.conn_sendNext _ _
  next => rfl

theorem conn_dataSent (s : Central S) (i j : Fin S.maxConn) :
    ((s.dataSent i).conns j).conn = (s.conns j).conn := by
  unfold dataSent
  split
  next =>
    by_cases hij : j = i
    · subst hij
      simp
    · simp [Function.update_of_ne hij]
  next => rfl

theorem conn_discoveryCompleted (s : Central S) (conn : ℕ) (j : Fin S.maxConn) :
    ((s.discoveryCompleted conn 0).conns j).conn = (s.conns j).conn := by
  rw [conns_discoveryCompleted]
  split
  next =>
    unfold NusCConnection.setReady
    split <;> rfl
  next => rfl

end Central

end Pyrinas
