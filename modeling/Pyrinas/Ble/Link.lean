import Mathlib.Data.Finset.Insert
import Mathlib.Data.Finset.Erase
import Pyrinas.Ble.Central

/-!
# Ble/Link — scanning, pairing and discovery around the slots of the BLE central

The callbacks of `ble_central.c` with what they ask of the Bluetooth stack: scanning, connection
attempts, pairing, the discovery manager, disconnections.  What the stack answers comes with the
event, and an event that the stack cannot cause in a state leaves it as it is.

    scan match ─▸ attempt ─▸ connected ─▸ pairing ─▸ security_changed ─▸ discovery ─▸ ready
        ▴                                                                               │
        └───────────────────────────────── disconnected ◂───────────────────────────────┘
-/

namespace Pyrinas

/-- The discovery manager while it is held: the connection, and whether its services are still being
discovered. -/
structure GattDm where
  conn : ℕ
  discovering : Bool
  deriving DecidableEq

/-- The central, and what the Bluetooth stack does for it.  `refs` counts the references the module
holds on each connection object, and under none what it does to anything else. -/
structure Link (S : CentralShape) where
  central : Central S
  scanning : Bool
  startScanWork : Bool
  attempts : Finset ℕ
  linked : Finset ℕ
  pairing : Finset ℕ
  closing : Finset ℕ
  dm : Option GattDm
  refs : Option ℕ → ℤ

/-- The callbacks, the work items, and the calls of the application, each with the answers that its
calls into the stack get: an error, or 0.  `uninit` is what a pointer holds that was not written,
and `named` what `nus_c->conn` holds if the handles were not assigned. -/
inductive LinkEvent (S : CentralShape)
  | scanFilterMatch (stopErr createErr : ℤ) (conn : ℕ) (uninit : Option ℕ)
  | connected (conn : ℕ) (connErr secErr dmErr stopErr scanErr : ℤ)
  | securityChanged (conn : ℕ) (err dmErr closeErr : ℤ)
  | discoveryCompleted (assignErr notifErr closeErr scanErr : ℤ) (named : Option ℕ)
  | discoveryServiceNotFound
  | discoveryErrorFound (closeErr : ℤ)
  | disconnected (conn : ℕ) (scanErr : ℤ)
  | startScanWork (started : Bool)
  | write (data : Payload)
  | sendWork (res : Fin S.maxConn → ℤ)
  | dataSent (i : Fin S.maxConn)

namespace Link

variable {S : CentralShape}

/-- A connection has a slot. -/
def Tracked (s : Link S) (conn : ℕ) : Prop := ∃ i, (s.central.conns i).conn = some conn

instance (s : Link S) (conn : ℕ) : Decidable (s.Tracked conn) :=
  inferInstanceAs (Decidable (∃ i, (s.central.conns i).conn = some conn))

/-! ## Calls into the stack -/

/-- `bt_scan_stop` -/
def scanStop (s : Link S) (stopErr : ℤ) : Link S :=
  { s with scanning := s.scanning && stopErr ≠ 0 }

/-- `ble_central_scan_start`: `bt_scan_start` answers `-EALREADY` while scanning, and only then;
after another error the work tries again. -/
def bleCentralScanStart (s : Link S) (scanErr : ℤ) : Link S :=
  { s with
    scanning := s.scanning || scanErr = 0
    startScanWork := s.startScanWork || (!s.scanning && scanErr ≠ 0) }

/-- `force_disconnect`, also where it is written out. -/
def forceDisconnect (s : Link S) (conn : ℕ) (closeErr : ℤ) : Link S :=
  { s with closing :=
      if conn ∈ s.linked ∧ closeErr = 0 then insert conn s.closing else s.closing }

/-- `gatt_discover`: the discovery manager refuses while it is held. -/
def gattDiscover (s : Link S) (conn : ℕ) (dmErr : ℤ) : Link S :=
  { s with dm := if s.Tracked conn ∧ s.dm = none ∧ dmErr = 0 then some ⟨conn, true⟩ else s.dm }

/-- `bt_conn_ref` and `bt_conn_unref` -/
def ref (s : Link S) (conn : Option ℕ) (n : ℤ) : Link S :=
  { s with refs := Function.update s.refs conn (s.refs conn + n) }

/-! ## The callbacks -/

/-- `scan_filter_match`: the reference that `bt_conn_le_create` gives is dropped at once; if it
gives none, whatever `conn` holds is dropped. -/
def scanFilterMatch (s : Link S) (stopErr createErr : ℤ) (conn : ℕ) (uninit : Option ℕ) : Link S :=
  let s := s.scanStop stopErr
  if createErr ≠ 0 then s.ref uninit (-1)
  else ({ s with attempts := insert conn s.attempts }.ref (some conn) 1).ref (some conn) (-1)

/-- `disconnected` -/
def disconnected (s : Link S) (conn : ℕ) (scanErr : ℤ) : Link S :=
  if s.Tracked conn then
    ({ s with central := s.central.disconnected conn }.ref (some conn) (-1)).bleCentralScanStart
      scanErr
  else s

/-- The loop of `connected` that looks for a free slot. -/
def takeSlot (s : Link S) (conn : ℕ) : Link S :=
  match s.central.slotOf none with
  | none => s
  | some _ => { s with central := s.central.connected conn 0 }.ref (some conn) 1

/-- `bt_conn_set_security`, and `gatt_discover` if it fails. -/
def setSecurity (s : Link S) (conn : ℕ) (secErr dmErr : ℤ) : Link S :=
  if secErr ≠ 0 then s.gattDiscover conn dmErr else { s with pairing := insert conn s.pairing }

/-- `connected` -/
def connected (s : Link S) (conn : ℕ) (connErr secErr dmErr stopErr scanErr : ℤ) : Link S :=
  if connErr ≠ 0 then (s.disconnected conn scanErr).bleCentralScanStart scanErr
  else ((s.takeSlot conn).setSecurity conn secErr dmErr).scanStop stopErr

/-- `security_changed` -/
def securityChanged (s : Link S) (conn : ℕ) (err dmErr closeErr : ℤ) : Link S :=
  if err = 0 then
    if s.Tracked conn then s.gattDiscover conn dmErr else s
  else s.forceDisconnect conn closeErr

/-- `discovery_completed`: it returns early, with the discovery manager held, if it cannot assign
the handles or enable notifications. -/
def discoveryCompleted (s : Link S) (conn : ℕ) (assignErr notifErr closeErr scanErr : ℤ)
    (named : Option ℕ) : Link S :=
  if assignErr ≠ 0 then named.elim s (s.forceDisconnect · closeErr)
  else if notifErr ≠ 0 then s.forceDisconnect conn closeErr
  else
    let s := { s with dm := none }
    if s.Tracked conn then
      let s := { s with central := s.central.discoveryCompleted conn 0 }
      if s.central.numConnected < S.maxConn then s.bleCentralScanStart scanErr else s
    else s

/-! ## One step -/

/-- `ble_central_ready`, after `ble_central_init`; the NUS clients are initialised for the first
time, which does not fail. -/
def bleCentralReady (S : CentralShape) (scanErr : ℤ) : Link S :=
  bleCentralScanStart ⟨.init S, false, false, ∅, ∅, ∅, ∅, none, fun _ => 0⟩ scanErr

/-- One event.  A new connection is none that exists; an attempt ends, and a connection ends, once;
the stack ends the pairing before it calls `security_changed`, and the discovery before it calls
what waits for it. -/
def step (s : Link S) : LinkEvent S → Link S
  | .scanFilterMatch stopErr createErr conn uninit =>
    if s.scanning ∧ (createErr = 0 → conn ∉ s.attempts ∧ conn ∉ s.linked) then
      s.scanFilterMatch stopErr createErr conn uninit
    else s
  | .connected conn connErr secErr dmErr stopErr scanErr =>
    if conn ∈ s.attempts then
      { s with
        attempts := s.attempts.erase conn
        linked := if connErr = 0 then insert conn s.linked else s.linked }.connected
          conn connErr secErr dmErr stopErr scanErr
    else s
  | .securityChanged conn err dmErr closeErr =>
    if conn ∈ s.linked then
      { s with pairing := s.pairing.erase conn }.securityChanged conn err dmErr closeErr
    else s
  | .discoveryCompleted assignErr notifErr closeErr scanErr named =>
    match s.dm with
    | some ⟨conn, true⟩ =>
      { s with dm := some ⟨conn, false⟩ }.discoveryCompleted
        conn assignErr notifErr closeErr scanErr named
    | _ => s
  | .discoveryServiceNotFound =>
    match s.dm with
    | some ⟨_, true⟩ => { s with dm := none }
    | _ => s
  | .discoveryErrorFound closeErr =>
    match s.dm with
    | some ⟨conn, true⟩ => { s with dm := none }.forceDisconnect conn closeErr
    | _ => s
  | .disconnected conn scanErr =>
    if conn ∈ s.linked then
      { s with
        linked := s.linked.erase conn
        pairing := s.pairing.erase conn
        closing := s.closing.erase conn }.disconnected conn scanErr
    else s
  | .startScanWork started =>
    if s.startScanWork then
      { s with startScanWork := false, scanning := s.scanning || started }
    else s
  | .write data => { s with central := s.central.write data }
  | .sendWork res => { s with central := s.central.sendWorkHandler res }
  | .dataSent i => { s with central := s.central.dataSent i }

end Link

end Pyrinas
