import Mathlib.Data.Fintype.Card
import Pyrinas.Ble.LinkSteps
import Pyrinas.Machinery.Run

/-!
# Ble/Counter — when `m_num_connected` counts the ready slots

`discovery_completed` counts up and `disconnected` counts down, whatever the slot was before.  So a
connection that ends before its discovery has completed is counted down without having been counted
up, and one whose discovery completes twice is counted twice.

    connected ─▸ disconnected                              −1
    connected ─▸ completed ─▸ security_changed ─▸ completed     2
-/

open Machinery

namespace Pyrinas

namespace Central

variable {S : CentralShape}

/-- The slots whose ready flag is 1. -/
def readySlots (s : Central S) : Finset (Fin S.maxConn) :=
  Finset.univ.filter fun i => (s.conns i).ready

/-- `m_num_connected` is their number. -/
def CounterExact (s : Central S) : Prop := s.numConnected = s.readySlots.card

/-- Only a ready slot is disconnected, and only one that is not gets ready. -/
def Balanced (s : Central S) : CentralEvent S → Prop
  | .disconnected conn => ∀ i, s.slotOf (some conn) = some i → (s.conns i).ready
  | .connected conn connErr =>
    connErr ≠ 0 → ∀ i, s.slotOf (some conn) = some i → (s.conns i).ready
  | .discoveryCompleted conn err =>
    err = 0 → ∀ i, s.slotOf (some conn) = some i → (s.conns i).ready = false
  | _ => True

theorem mem_readySlots {s : Central S} {i : Fin S.maxConn} :
    i ∈ s.readySlots ↔ (s.conns i).ready := by simp [readySlots]

/-- An exact counter is not negative and not above `CONFIG_BT_MAX_CONN`. -/
theorem CounterExact.bounds {s : Central S} (h : s.CounterExact) :
    0 ≤ s.numConnected ∧ s.numConnected ≤ S.maxConn := by
  have hle : s.readySlots.card ≤ S.maxConn := by
    simpa using Finset.card_le_univ s.readySlots
  rw [h]
  exact ⟨Int.natCast_nonneg _, Int.ofNat_le.mpr hle⟩

theorem counterExact_init : (init S).CounterExact := by
  simp [CounterExact, readySlots, init, NusCConnection.unused]

/-- Nothing that counts has changed. -/
theorem CounterExact.congr {s s' : Central S} (h : s.CounterExact)
    (hn : s'.numConnected = s.numConnected) (hr : ∀ i, (s'.conns i).ready = (s.conns i).ready) :
    s'.CounterExact := by
  have hslots : s'.readySlots = s.readySlots := by
    ext i
    rw [mem_readySlots, mem_readySlots, hr]
  rw [CounterExact, hn, hslots, h]

/-- **A disconnection keeps the counter exact if the slot was ready, and only then.** -/
theorem counterExact_disconnected {s : Central S} (h : s.CounterExact) (conn : ℕ) :
    (s.disconnected conn).CounterExact ↔
      ∀ i, s.slotOf (some conn) = some i → (s.conns i).ready := by
  cases hslot : s.slotOf (some conn) with
  | none => simp [disconnected, hslot, h]
  | some i =>
    have hslots : (s.disconnected conn).readySlots = s.readySlots.erase i := by
      ext j
      simp only [mem_readySlots, conns_disconnected, hslot, Option.some.injEq, Finset.mem_erase]
      split_ifs with hij
      · simp [hij]
      · simp [Ne.symm hij]
    have hnum : (s.disconnected conn).numConnected = s.numConnected - 1 := by
      simp [disconnected, hslot]
    rw [CounterExact, hslots, hnum, h]
    simp only [Option.some.injEq, forall_eq', ← mem_readySlots]
    by_cases hi : i ∈ s.readySlots
    · have hcard := Finset.card_erase_add_one hi
      simp only [hi, iff_true]
      omega
    · rw [Finset.erase_eq_of_notMem hi]
      simp only [hi, iff_false]
      omega

/-- **A discovery keeps the counter exact if the slot was not ready, and only then.** -/
theorem counterExact_discoveryCompleted {s : Central S} (h : s.CounterExact) (conn : ℕ) :
    (s.discoveryCompleted conn 0).CounterExact ↔
      ∀ i, s.slotOf (some conn) = some i → (s.conns i).ready = false := by
  cases hslot : s.slotOf (some conn) with
  | none => simp [discoveryCompleted, hslot, h]
  | some i =>
    have hslots : (s.discoveryCompleted conn 0).readySlots = insert i s.readySlots := by
      ext j
      simp only [mem_readySlots, conns_discoveryCompleted, hslot, Option.some.injEq,
        Finset.mem_insert]
      split_ifs with hij
      · cases hr : (s.conns j).ready <;> simp [hij, NusCConnection.setReady, hr]
      · simp [Ne.symm hij]
    have hnum : (s.discoveryCompleted conn 0).numConnected = s.numConnected + 1 := by
      simp [discoveryCompleted, hslot]
    rw [CounterExact, hslots, hnum, h]
    simp only [Option.some.injEq, forall_eq', ← Bool.not_eq_true, ← mem_readySlots]
    by_cases hi : i ∈ s.readySlots
    · rw [Finset.insert_eq_of_mem hi]
      simp only [hi, not_true_eq_false, iff_false]
      omega
    · rw [Finset.card_insert_of_notMem hi]
      simp only [hi, not_false_eq_true, iff_true]
      omega

/-- A new connection is not counted. -/
theorem counterExact_connected {s : Central S} (h : s.CounterExact) (conn : ℕ) :
    (s.connected conn 0).CounterExact := by
  refine h.congr ?_ fun i => ?_
  · unfold connected
    rw [if_neg (by simp)]
    split <;> rfl
  · rw [conns_connected]
    split <;> rfl

theorem counterExact_write {s : Central S} (h : s.CounterExact) (data : Payload) :
    (s.write data).CounterExact := by
  unfold write
  split_ifs
  · exact h
  · refine h.congr rfl fun i => ?_
    dsimp only
    split
    next => exact NusCConnection.ready_msgqPut _ data
    next => rfl
  · exact h

theorem counterExact_sendWorkHandler {s : Central S} (h : s.CounterExact)
    (res : Fin S.maxConn → ℤ) : (s.sendWorkHandler res).CounterExact := by
  unfold sendWorkHandler
  split
  next => exact h.congr rfl fun i => NusCConnection.ready_sendNext _ (res i)
  next => exact h

theorem counterExact_dataSent {s : Central S} (h : s.CounterExact) (i : Fin S.maxConn) :
    (s.dataSent i).CounterExact := by
  unfold dataSent
  split
  next =>
    refine h.congr rfl fun j => ?_
    by_cases hij : j = i
    · subst hij
      simp
    · simp [Function.update_of_ne hij]
  next => exact h

/-- **A step keeps an exact counter exact if it is balanced, and only then.** -/
theorem counterExact_step {s : Central S} (h : s.CounterExact) (e : CentralEvent S) :
    (s.step e).CounterExact ↔ s.Balanced e := by
  cases e with
  | disconnected conn => exact counterExact_disconnected h conn
  | connected conn connErr =>
    by_cases h0 : connErr = 0
    · subst h0
      exact iff_of_true (counterExact_connected h conn) fun hne => absurd rfl hne
    · rw [step, connected, if_pos h0, counterExact_disconnected h conn]
      exact ⟨fun hready _ => hready, fun hready => hready h0⟩
  | discoveryCompleted conn err =>
    by_cases h0 : err = 0
    · subst h0
      rw [step, counterExact_discoveryCompleted h conn]
      exact ⟨fun hready _ => hready, fun hready => hready rfl⟩
    · rw [step, discoveryCompleted, if_pos h0]
      exact iff_of_true h fun h1 => absurd h1 h0
  | write data => exact iff_of_true (counterExact_write h data) trivial
  | sendWork res => exact iff_of_true (counterExact_sendWorkHandler h res) trivial
  | dataSent i => exact iff_of_true (counterExact_dataSent h i) trivial

end Central

namespace Link

variable {S : CentralShape}

/-- `m_num_connected` is the number of ready slots. -/
def CounterExact (s : Link S) : Prop := s.central.CounterExact

/-- What the event does to the slots is balanced. -/
def Balanced (s : Link S) (e : LinkEvent S) : Prop :=
  ∀ e', s.centralEvent e = some e' → s.central.Balanced e'

theorem counterExact_step {s : Link S} (h : s.CounterExact) (e : LinkEvent S) :
    (s.step e).CounterExact ↔ s.Balanced e := by
  rw [CounterExact, central_step, Balanced]
  cases s.centralEvent e with
  | none => exact iff_of_true h fun _ hne => by simp at hne
  | some e' => simpa using Central.counterExact_step h e'

/-- **The counter is exact exactly while every slot that is disconnected is ready, and no slot that
gets ready is.** -/
theorem counterExact_iff_balanced (scanErr : ℤ) (es : List (LinkEvent S)) :
    Always step CounterExact (bleCentralReady S scanErr) es ↔
      Meets step Balanced (bleCentralReady S scanErr) es := by
  have hready : (bleCentralReady S scanErr).CounterExact := Central.counterExact_init
  refine always_iff_meets (I := CounterExact) ?_ (fun _ h => h) ?_ hready es
  · exact fun s e h hok => (counterExact_step h e).mpr hok
  · exact fun s e h hbad hexact => hbad ((counterExact_step h e).mp hexact)

/-- A peer leaves before its services are discovered: the counter is −1. -/
theorem not_counterExact_early_disconnect :
    ¬ Always step CounterExact (bleCentralReady ⟨1, 4, by decide⟩ 0)
      [.scanFilterMatch 0 0 7 none, .connected 7 0 0 0 0 0, .disconnected 7 0] := by
  intro h
  have hnonneg := h.last.bounds.1
  revert hnonneg
  decide

end Link

end Pyrinas
