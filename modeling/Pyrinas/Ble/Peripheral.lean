import Pyrinas.Ble.Central
import Pyrinas.Machinery.MessageQueue
import Pyrinas.Machinery.Run

/-!
# Ble/Peripheral — when the queue of the BLE peripheral stalls

`ble_peripheral_write` queues a payload and submits `bt_send_work`, whose handler sends one payload
and leaves the next to `bt_sent_cb`.  But a send that fails has no `bt_sent_cb`, and what a write
puts behind a disconnection waits for a connection that submits nothing.

    write ──▸ m_peripheral_event_queue ──bt_send_work──▸ notification ──▸ bt_sent_cb ──▸ …

Another thread may run between the checks of a write and its `k_msgq_put`, and between any two steps
of the handler.
-/

open Machinery

namespace Pyrinas

/-- Where `bt_send_work_handler` is: not running, before the test of `current_conn`, before
`k_msgq_get`, or before `bt_gatt_nus_send`. -/
inductive PeripheralPc
  | idle
  | testing
  | getting
  | sending (payload : Payload)
  deriving DecidableEq

/-- The variables of `ble_peripheral.c`; `pending` and `pc` belong to `bt_send_work`, `writes` are
the calls of `ble_peripheral_write` past their checks, and `outstanding` counts the notifications
whose `bt_sent_cb` is to come. -/
structure Peripheral where
  currentConn : Option ℕ
  eventQueue : MessageQueue Payload 20
  pending : Bool
  pc : PeripheralPc
  writes : List Payload
  outstanding : ℕ

/-- A callback of the connection, the two parts of a write, the next step of the work queue with
what `bt_gatt_nus_send` answers, or a notification that was sent. -/
inductive PeripheralEvent
  | connected (conn err : ℕ)
  | disconnected
  | write (data : Payload)
  | writePut (i : ℕ)
  | work (sendErr : ℤ)
  | sentCb

namespace Peripheral

/-- At boot. -/
def boot : Peripheral := ⟨none, .empty, false, .idle, [], 0⟩

/-- `connected`: an error of the MTU exchange is only logged. -/
def connected (s : Peripheral) (conn err : ℕ) : Peripheral :=
  if err ≠ 0 then s else { s with currentConn := some conn }

/-- `disconnected`, of whichever connection. -/
def disconnected (s : Peripheral) : Peripheral :=
  { s with currentConn := none, eventQueue := .empty }

/-- `ble_peripheral_write`, up to `k_msgq_put`. -/
def write (s : Peripheral) (itemSize : ℕ) (data : Payload) : Peripheral :=
  if s.currentConn = none then s
  else if data.length > itemSize then s
  else { s with writes := s.writes ++ [data] }

/-- `ble_peripheral_write`, from `k_msgq_put` on. -/
def writePut (s : Peripheral) (i : ℕ) : Peripheral :=
  match s.writes[i]? with
  | none => s
  | some data =>
    let s := { s with writes := s.writes.eraseIdx i }
    match s.eventQueue.put data with
    | none => s
    | some q => { s with eventQueue := q, pending := true }

/-- The next step of the work queue: it clears the flag and calls `bt_send_work_handler`, which
tests the connection, gets a payload, or sends it; an error is only logged. -/
def work (s : Peripheral) (sendErr : ℤ) : Peripheral :=
  match s.pc with
  | .idle => if s.pending then { s with pending := false, pc := .testing } else s
  | .testing => { s with pc := if s.currentConn = none then .idle else .getting }
  | .getting =>
    match s.eventQueue.get with
    | some (payload, q) => { s with eventQueue := q, pc := .sending payload }
    | none => { s with pc := .idle }
  | .sending _ =>
    if sendErr ≠ 0 then { s with pc := .idle }
    else { s with pc := .idle, outstanding := s.outstanding + 1 }

/-- `bt_sent_cb` -/
def sentCb (s : Peripheral) : Peripheral :=
  if s.outstanding = 0 then s
  else
    let s := { s with outstanding := s.outstanding - 1 }
    if s.eventQueue.items.length = 0 then s else { s with pending := true }

/-- One event. -/
def step (itemSize : ℕ) (s : Peripheral) : PeripheralEvent → Peripheral
  | .connected conn err => s.connected conn err
  | .disconnected => s.disconnected
  | .write data => s.write itemSize data
  | .writePut i => s.writePut i
  | .work sendErr => s.work sendErr
  | .sentCb => s.sentCb

/-- Something will look at the queue. -/
def Continues (s : Peripheral) : Prop := s.pending ∨ s.pc ≠ .idle ∨ 0 < s.outstanding

/-- With a connection, something will look at a queue that holds payloads. -/
def NoStall (s : Peripheral) : Prop :=
  s.currentConn ≠ none → s.eventQueue.items ≠ [] → s.Continues

/-- A connection is made, and a send fails, only where something else will look at the payloads in
the queue. -/
def GoesOn (s : Peripheral) : PeripheralEvent → Prop
  | .connected _ err => err = 0 → s.eventQueue.items ≠ [] →
      s.pending ∨ s.pc ≠ .idle ∨ 0 < s.outstanding
  | .work sendErr => (∃ payload, s.pc = .sending payload) → sendErr ≠ 0 →
      s.currentConn ≠ none → s.eventQueue.items ≠ [] → s.pending ∨ 0 < s.outstanding
  | _ => True

/-! ## A step -/

variable {s : Peripheral}

theorem noStall_boot : NoStall boot := fun h => absurd rfl h

theorem NoStall.connected (h : NoStall s) {conn err : ℕ}
    (hok : s.GoesOn (.connected conn err)) : NoStall (s.connected conn err) := by
  unfold Peripheral.connected
  split_ifs with herr
  · exact h
  · exact fun _ hq => hok (not_not.mp herr) hq

theorem noStall_disconnected (s : Peripheral) : NoStall s.disconnected := fun h => absurd rfl h

theorem NoStall.write (h : NoStall s) (itemSize : ℕ) (data : Payload) :
    NoStall (s.write itemSize data) := by
  unfold Peripheral.write
  split_ifs
  · exact h
  · exact h
  · exact h

theorem NoStall.writePut (h : NoStall s) (i : ℕ) : NoStall (s.writePut i) := by
  unfold Peripheral.writePut
  split
  next => exact h
  next =>
    dsimp only
    split
    next => exact h
    next => exact fun _ _ => .inl rfl

/-- **The handler stalls only where a send fails.** -/
theorem NoStall.work (h : NoStall s) {sendErr : ℤ} (hok : s.GoesOn (.work sendErr)) :
    NoStall (s.work sendErr) := by
  unfold Peripheral.work
  split
  next hpc =>
    split_ifs
    · exact fun _ _ => .inr (.inl PeripheralPc.noConfusion)
    · exact h
  next =>
    intro hconn _
    refine .inr (.inl ?_)
    simp [show s.currentConn ≠ none from hconn]
  next =>
    split
    next => exact fun _ _ => .inr (.inl PeripheralPc.noConfusion)
    next hget => exact fun _ hq => absurd (MessageQueue.items_of_get_none hget) hq
  next payload hpc =>
    split_ifs with herr
    · intro hconn hq
      rcases hok ⟨payload, hpc⟩ herr hconn hq with hpend | hout
      · exact .inl hpend
      · exact .inr (.inr hout)
    · exact fun _ _ => .inr (.inr (Nat.succ_pos _))

theorem NoStall.sentCb (h : NoStall s) : NoStall s.sentCb := by
  unfold Peripheral.sentCb
  split_ifs with hout
  · exact h
  · dsimp only
    split_ifs with hempty
    · exact fun _ hq => absurd (List.length_eq_zero_iff.mp hempty) hq
    · exact fun _ _ => .inl rfl

theorem noStall_step (itemSize : ℕ) (s : Peripheral) (e : PeripheralEvent) (h : NoStall s)
    (hok : s.GoesOn e) : NoStall (s.step itemSize e) := by
  cases e with
  | connected => exact h.connected hok
  | disconnected => exact noStall_disconnected s
  | write data => exact h.write itemSize data
  | writePut i => exact h.writePut i
  | work => exact h.work hok
  | sentCb => exact h.sentCb

/-! ## The exact condition -/

/-- A connection to a queue nothing will look at, or a failed send before one. -/
theorem not_noStall_step (itemSize : ℕ) (s : Peripheral) (e : PeripheralEvent)
    (hbad : ¬ s.GoesOn e) : ¬ NoStall (s.step itemSize e) := by
  cases e with
  | connected conn err =>
    simp only [GoesOn, not_forall] at hbad
    obtain ⟨herr, hq, hidle⟩ := hbad
    intro h
    rw [step, Peripheral.connected, if_neg (not_not.mpr herr)] at h
    exact hidle (h (Option.some_ne_none conn) hq)
  | work sendErr =>
    simp only [GoesOn, not_forall] at hbad
    obtain ⟨⟨payload, hpc⟩, herr, hconn, hq, hidle⟩ := hbad
    intro h
    simp only [step, Peripheral.work, hpc, if_pos herr] at h
    rcases h hconn hq with hpend | hrun | hout
    · exact hidle (.inl hpend)
    · exact hrun rfl
    · exact hidle (.inr hout)
  | disconnected | write | writePut | sentCb => exact absurd trivial hbad

/-- **The queue never stalls exactly when no connection and no failing send finds payloads that
nothing else will look at.** -/
theorem noStall_iff_goesOn (itemSize : ℕ) (es : List PeripheralEvent) :
    Always (step itemSize) NoStall boot es ↔ Meets (step itemSize) GoesOn boot es :=
  always_iff_meets (noStall_step itemSize) (fun _ h => h)
    (fun s e _ => not_noStall_step itemSize s e) noStall_boot es

/-! ## While nothing is refused -/

/-- `bt_gatt_nus_send` fails only without a connection, and no disconnection overtakes a write. -/
def Grants (s : Peripheral) : PeripheralEvent → Prop
  | .work sendErr => sendErr ≠ 0 → s.currentConn = none
  | .disconnected => s.writes = []
  | _ => True

/-- Without a connection there is nothing to send. -/
def Quiet (s : Peripheral) : Prop :=
  s.currentConn = none → s.writes = [] ∧ s.eventQueue.items = []

theorem quiet_step (itemSize : ℕ) (h : s.Quiet) {e : PeripheralEvent} (hok : s.Grants e) :
    (s.step itemSize e).Quiet := by
  cases e with
  | connected conn err =>
    simp only [step, Peripheral.connected]
    split_ifs
    · exact h
    · exact fun hnone => absurd hnone (Option.some_ne_none conn)
  | disconnected => exact fun _ => ⟨hok, rfl⟩
  | write data =>
    simp only [step, Peripheral.write]
    split_ifs with hconn
    · exact h
    · exact h
    · exact fun hnone => absurd hnone hconn
  | writePut i =>
    simp only [step, Peripheral.writePut]
    split
    next => exact h
    next data hdata =>
      have hconn : s.currentConn ≠ none := fun hnone => by simp [(h hnone).1] at hdata
      split <;> exact fun hnone => absurd hnone hconn
  | work sendErr =>
    simp only [step, Peripheral.work]
    split
    next => split_ifs <;> exact h
    next => exact h
    next =>
      split
      next payload q hget =>
        intro hnone
        have hempty := (h hnone).2
        simp [MessageQueue.items_get hget] at hempty
      next => exact h
    next => split_ifs <;> exact h
  | sentCb =>
    simp only [step, Peripheral.sentCb]
    split_ifs <;> exact h

theorem goesOn_of_grants (h : s.NoStall) (hq : s.Quiet) {e : PeripheralEvent} (hok : s.Grants e) :
    s.GoesOn e := by
  cases e with
  | connected conn err =>
    intro _ hne
    by_cases hnone : s.currentConn = none
    · exact absurd (hq hnone).2 hne
    · exact h hnone hne
  | work sendErr => exact fun _ herr hconn => absurd (hok herr) hconn
  | disconnected | write | writePut | sentCb => trivial

/-- **While sends are accepted and no disconnection overtakes a write, the queue never stalls.** -/
theorem noStall_of_grants (itemSize : ℕ) (es : List PeripheralEvent)
    (h : Meets (step itemSize) Grants boot es) : Always (step itemSize) NoStall boot es := by
  refine always_of_meets (I := fun s => s.NoStall ∧ s.Quiet) (fun s e hs hok => ?_)
    (fun s hs => hs.1) ⟨noStall_boot, fun _ => ⟨rfl, rfl⟩⟩ h
  exact ⟨noStall_step itemSize s e hs.1 (goesOn_of_grants hs.1 hs.2 hok),
    quiet_step itemSize hs.2 hok⟩

/-- Two payloads are queued before the handler runs, and the first cannot be sent. -/
theorem not_noStall_send_fails :
    ¬ Always (step 168) NoStall boot
      [.connected 1 0, .write [1], .writePut 0, .write [2], .writePut 0,
        .work 0, .work 0, .work 0, .work (-eNoMem)] := by
  intro h
  have hlast := h.last (by decide) (by decide)
  rcases hlast with hpend | hrun | hout
  · exact absurd hpend (by decide)
  · exact absurd rfl hrun
  · exact absurd hout (by decide)

end Peripheral

end Pyrinas
