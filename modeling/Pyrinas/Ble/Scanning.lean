import Pyrinas.Ble.Counter
import Pyrinas.Ble.Zombies

/-!
# Ble/Scanning — the central keeps looking for peers

While a slot is free the central scans, or is about to, or something is in progress whose end starts
the scan again: an attempt, a pairing, a discovery, or a disconnection that was asked for.

    scanning ──▸ attempt ──▸ pairing ──▸ discovery ──▸ scanning
                    └────────────┴───────────┴──▸ disconnection ──▸ scanning

Where a callback only logs, the chain breaks, and nothing but a connection that ends by itself
starts the scan again.
-/

open Machinery

namespace Pyrinas

namespace Link

variable {S : CentralShape} {s : Link S}

/-- Some slot is free. -/
def HasFree (s : Link S) : Prop := ∃ i, (s.central.conns i).conn = none

/-- An attempt, a pairing, a discovery, or a disconnection that was asked for, is in progress. -/
def InProgress (s : Link S) : Prop :=
  s.attempts.Nonempty ∨ s.pairing.Nonempty ∨ (∃ conn, s.dm = some ⟨conn, true⟩) ∨
    s.closing.Nonempty

/-- …or scanning is active or scheduled. -/
def Active (s : Link S) : Prop := s.scanning ∨ s.startScanWork ∨ s.InProgress

/-- With a slot free and nothing in progress, scanning is active or scheduled. -/
def LooksForPeers (s : Link S) : Prop :=
  s.HasFree → ¬ s.InProgress → s.scanning ∨ s.startScanWork

/-- A connection is being discovered. -/
def Discovering (s : Link S) : Prop := ∃ conn, s.dm = some ⟨conn, true⟩

/-- One of them is another connection. -/
def Other (conns : Finset ℕ) (conn : ℕ) : Prop := ∃ c ∈ conns, c ≠ conn

/-- Where an event does not start the scan again, nothing has to: no slot is left free, or scanning
is active or scheduled, or something else is in progress. -/
def Restarts (s : Link S) : LinkEvent S → Prop
  | .scanFilterMatch stopErr createErr _ _ =>
    s.scanning → createErr ≠ 0 → s.HasFree →
      stopErr ≠ 0 ∨ s.startScanWork ∨
        s.attempts.Nonempty ∨ s.pairing.Nonempty ∨ s.Discovering ∨ s.closing.Nonempty
  | .connected conn connErr secErr dmErr stopErr _ =>
    conn ∈ s.attempts → connErr = 0 → secErr ≠ 0 →
      (∃ i j, i ≠ j ∧ (s.central.conns i).conn = none ∧ (s.central.conns j).conn = none) →
        s.dm = none ∧ dmErr = 0 ∨ s.scanning ∧ stopErr ≠ 0 ∨ s.startScanWork ∨
          Other s.attempts conn ∨ s.pairing.Nonempty ∨ s.Discovering ∨ s.closing.Nonempty
  | .securityChanged conn err dmErr closeErr =>
    conn ∈ s.linked → s.HasFree →
      (if err = 0 then s.Tracked conn ∧ s.dm = none ∧ dmErr = 0 else closeErr = 0) ∨
        s.scanning ∨ s.startScanWork ∨
          s.attempts.Nonempty ∨ Other s.pairing conn ∨ s.Discovering ∨ s.closing.Nonempty
  | .discoveryCompleted assignErr notifErr closeErr _ named =>
    ∀ conn, s.dm = some ⟨conn, true⟩ → s.HasFree →
      (if assignErr = 0 ∧ notifErr = 0 then s.Tracked conn ∧ s.central.numConnected + 1 < S.maxConn
        else closeErr = 0 ∧ ∃ c ∈ s.linked, (if assignErr ≠ 0 then named else some conn) = some c) ∨
        s.scanning ∨ s.startScanWork ∨
          s.attempts.Nonempty ∨ s.pairing.Nonempty ∨ s.closing.Nonempty
  | .discoveryServiceNotFound =>
    ∀ conn, s.dm = some ⟨conn, true⟩ → s.HasFree →
      s.scanning ∨ s.startScanWork ∨ s.attempts.Nonempty ∨ s.pairing.Nonempty ∨ s.closing.Nonempty
  | .discoveryErrorFound closeErr =>
    ∀ conn, s.dm = some ⟨conn, true⟩ → s.HasFree →
      conn ∈ s.linked ∧ closeErr = 0 ∨ s.scanning ∨ s.startScanWork ∨
        s.attempts.Nonempty ∨ s.pairing.Nonempty ∨ s.closing.Nonempty
  | .disconnected conn _ =>
    conn ∈ s.linked → ¬ s.Tracked conn → s.HasFree →
      s.scanning ∨ s.startScanWork ∨
        s.attempts.Nonempty ∨ Other s.pairing conn ∨ s.Discovering ∨ Other s.closing conn
  | .startScanWork started =>
    s.startScanWork → s.HasFree → started ∨ s.scanning ∨
      s.attempts.Nonempty ∨ s.pairing.Nonempty ∨ s.Discovering ∨ s.closing.Nonempty
  | _ => True

/-! ## What is left in progress -/

theorem nonempty_erase_iff {conns : Finset ℕ} {conn : ℕ} :
    (conns.erase conn).Nonempty ↔ Other conns conn := by
  simp only [Finset.Nonempty, Finset.mem_erase, Other, and_comm]

/-- After an attempt… -/
theorem inProgress_attempted (s : Link S) (conn : ℕ) :
    InProgress { s with attempts := s.attempts.erase conn } ↔
      Other s.attempts conn ∨ s.pairing.Nonempty ∨ s.Discovering ∨ s.closing.Nonempty := by
  rw [InProgress, nonempty_erase_iff]
  rfl

/-- …a pairing… -/
theorem active_paired (s : Link S) (conn : ℕ) :
    Active { s with pairing := s.pairing.erase conn } ↔ s.scanning ∨ s.startScanWork ∨
      s.attempts.Nonempty ∨ Other s.pairing conn ∨ s.Discovering ∨ s.closing.Nonempty := by
  rw [Active, InProgress, nonempty_erase_iff]
  rfl

/-- …a discovery… -/
theorem active_released (s : Link S) :
    Active { s with dm := none } ↔ s.scanning ∨ s.startScanWork ∨
      s.attempts.Nonempty ∨ s.pairing.Nonempty ∨ s.closing.Nonempty := by
  simp [Active, InProgress]

/-- …or a connection. -/
theorem active_ended (s : Link S) (conn : ℕ) :
    Active { s with
        linked := s.linked.erase conn
        pairing := s.pairing.erase conn
        closing := s.closing.erase conn } ↔ s.scanning ∨ s.startScanWork ∨
      s.attempts.Nonempty ∨ Other s.pairing conn ∨ s.Discovering ∨ Other s.closing conn := by
  rw [Active, InProgress, nonempty_erase_iff, nonempty_erase_iff]
  rfl

theorem looksForPeers_iff : s.LooksForPeers ↔ (s.HasFree → s.Active) := by
  unfold LooksForPeers Active
  tauto

theorem LooksForPeers.of_inProgress (h : s.InProgress) : s.LooksForPeers := fun _ hnot =>
  absurd h hnot

/-- Whatever `bt_scan_start` answers. -/
theorem looksForPeers_bleCentralScanStart (s : Link S) (scanErr : ℤ) :
    (s.bleCentralScanStart scanErr).LooksForPeers := by
  intro _ _
  unfold bleCentralScanStart
  by_cases h : scanErr = 0
  · exact .inl (by simp [h])
  · cases hs : s.scanning
    · exact .inr (by simp [h])
    · exact .inl (by simp)

theorem inProgress_gattDiscover {conn : ℕ} {dmErr : ℤ} :
    (s.gattDiscover conn dmErr).InProgress ↔
      (s.Tracked conn ∧ s.dm = none ∧ dmErr = 0) ∨ s.InProgress := by
  have hdm : (∃ c, (s.gattDiscover conn dmErr).dm = some ⟨c, true⟩) ↔
      (s.Tracked conn ∧ s.dm = none ∧ dmErr = 0) ∨ ∃ c, s.dm = some ⟨c, true⟩ := by
    unfold gattDiscover
    dsimp only
    split
    next h => exact iff_of_true ⟨conn, rfl⟩ (.inl h)
    next h => exact (or_iff_right h).symm
  rw [InProgress, InProgress, hdm]
  simp only [gattDiscover, or_assoc, or_left_comm]

theorem inProgress_forceDisconnect {conn : ℕ} {closeErr : ℤ} :
    (s.forceDisconnect conn closeErr).InProgress ↔
      (conn ∈ s.linked ∧ closeErr = 0) ∨ s.InProgress := by
  have hclosing : (s.forceDisconnect conn closeErr).closing.Nonempty ↔
      (conn ∈ s.linked ∧ closeErr = 0) ∨ s.closing.Nonempty := by
    unfold forceDisconnect
    dsimp only
    split
    next h => exact iff_of_true (Finset.insert_nonempty _ _) (.inl h)
    next h => exact (or_iff_right h).symm
  rw [InProgress, InProgress, hclosing]
  simp only [forceDisconnect, or_left_comm]

/-- A discovery is asked for… -/
theorem looksForPeers_gattDiscover {conn : ℕ} {dmErr : ℤ} :
    (s.gattDiscover conn dmErr).LooksForPeers ↔
      (s.HasFree → (s.Tracked conn ∧ s.dm = none ∧ dmErr = 0) ∨ s.Active) := by
  rw [looksForPeers_iff, Active, Active, inProgress_gattDiscover]
  refine forall_congr' fun _ => ?_
  simp only [gattDiscover, or_left_comm]

/-- …or a disconnection. -/
theorem looksForPeers_forceDisconnect {conn : ℕ} {closeErr : ℤ} :
    (s.forceDisconnect conn closeErr).LooksForPeers ↔
      (s.HasFree → (conn ∈ s.linked ∧ closeErr = 0) ∨ s.Active) := by
  rw [looksForPeers_iff, Active, Active, inProgress_forceDisconnect]
  refine forall_congr' fun _ => ?_
  simp only [forceDisconnect, or_left_comm]

/-- After a slot is taken, one is free iff two were. -/
theorem hasFree_takeSlot (conn : ℕ) : (s.takeSlot conn).HasFree ↔
    ∃ i j, i ≠ j ∧ (s.central.conns i).conn = none ∧ (s.central.conns j).conn = none := by
  have hconn : ∀ i, ((s.takeSlot conn).central.conns i).conn = none ↔
      s.central.slotOf none ≠ some i ∧ (s.central.conns i).conn = none := by
    intro i
    rw [central_takeSlot, conn_connected]
    split <;> simp_all
  simp only [HasFree, hconn]
  constructor
  · rintro ⟨j, hj, hnone⟩
    obtain ⟨i, hi⟩ := Option.ne_none_iff_exists'.mp fun h =>
      Central.slotOf_eq_none_iff.mp h j hnone
    exact ⟨i, j, fun heq => hj (heq ▸ hi), Central.conn_of_slotOf hi, hnone⟩
  · rintro ⟨i, j, hne, hi, hj⟩
    by_cases h : s.central.slotOf none = some i
    · exact ⟨j, fun hj => hne (Option.some.inj (h.symm.trans hj)), hj⟩
    · exact ⟨i, h, hi⟩

theorem inProgress_scanStop {stopErr : ℤ} :
    (s.scanStop stopErr).InProgress ↔ s.InProgress := Iff.rfl

/-- A connection that could not be paired is discovered. -/
theorem looksForPeers_discovered (conn : ℕ) (dmErr stopErr : ℤ) :
    (((s.takeSlot conn).gattDiscover conn dmErr).scanStop stopErr).LooksForPeers ↔
      ((∃ i j, i ≠ j ∧ (s.central.conns i).conn = none ∧ (s.central.conns j).conn = none) →
        s.dm = none ∧ dmErr = 0 ∨ s.scanning ∧ stopErr ≠ 0 ∨ s.startScanWork ∨ s.InProgress) := by
  obtain ⟨-, hatt, hpairing, hclosing, hdm, hwork, hscan⟩ := takeSlot_frame s conn
  have hprog : (((s.takeSlot conn).gattDiscover conn dmErr).scanStop stopErr).InProgress ↔
      (s.takeSlot conn).Tracked conn ∧ s.dm = none ∧ dmErr = 0 ∨ s.InProgress := by
    have htake : (s.takeSlot conn).InProgress ↔ s.InProgress := by
      simp only [InProgress, hatt, hpairing, hclosing, hdm]
    rw [inProgress_scanStop, inProgress_gattDiscover, htake, hdm]
  have hscanning : (((s.takeSlot conn).gattDiscover conn dmErr).scanStop stopErr).scanning ↔
      s.scanning ∧ stopErr ≠ 0 := by
    simp [scanStop, gattDiscover, hscan]
  have hsched : (((s.takeSlot conn).gattDiscover conn dmErr).scanStop stopErr).startScanWork
      = s.startScanWork := hwork
  rw [looksForPeers_iff, Active, hprog, hscanning, hsched, ← hasFree_takeSlot conn]
  refine forall_congr' fun hfree => ?_
  obtain ⟨i, -, -, hi, -⟩ := (hasFree_takeSlot conn).mp hfree
  have ht : (s.takeSlot conn).Tracked conn := tracked_takeSlot ⟨i, hi⟩ conn
  constructor
  · rintro (hs | hw | ⟨-, hd⟩ | hp)
    · exact .inr (.inl hs)
    · exact .inr (.inr (.inl hw))
    · exact .inl hd
    · exact .inr (.inr (.inr hp))
  · rintro (hd | hs | hw | hp)
    · exact .inr (.inr (.inl ⟨ht, hd⟩))
    · exact .inl hs
    · exact .inr (.inl hw)
    · exact .inr (.inr (.inr hp))

/-! ## One event -/

theorem looksForPeers_scanFilterMatch (h : s.LooksForPeers) (stopErr createErr : ℤ) (conn : ℕ)
    (uninit : Option ℕ) :
    (s.step (.scanFilterMatch stopErr createErr conn uninit)).LooksForPeers ↔
      s.Restarts (.scanFilterMatch stopErr createErr conn uninit) := by
  simp only [step, Restarts]
  split
  next hif =>
    by_cases hc : createErr = 0
    · refine iff_of_true ?_ fun _ hne => absurd hc hne
      rw [Link.scanFilterMatch, if_neg (not_not.mpr hc)]
      exact .of_inProgress (.inl (Finset.insert_nonempty _ _))
    · rw [Link.scanFilterMatch, if_pos hc, looksForPeers_iff, Active]
      have hscan : ((s.scanStop stopErr).ref uninit (-1)).scanning ↔ stopErr ≠ 0 := by
        simp [scanStop, ref, hif.1]
      rw [hscan]
      exact ⟨fun hlook _ _ => hlook, fun hok => hok hif.1 hc⟩
  next hif =>
    refine iff_of_true h fun hs hc => ?_
    exact absurd ⟨hs, fun h0 => absurd h0 hc⟩ hif

theorem looksForPeers_connected (h : s.LooksForPeers) (conn : ℕ)
    (connErr secErr dmErr stopErr scanErr : ℤ) :
    (s.step (.connected conn connErr secErr dmErr stopErr scanErr)).LooksForPeers ↔
      s.Restarts (.connected conn connErr secErr dmErr stopErr scanErr) := by
  simp only [step, Restarts, ← inProgress_attempted]
  split
  next ha =>
    unfold Link.connected
    by_cases hc : connErr = 0
    · rw [if_neg (not_not.mpr hc), setSecurity]
      split
      next hsec =>
        rw [looksForPeers_discovered]
        exact ⟨fun hlook _ _ _ => hlook, fun hok => hok ha hc hsec⟩
      next hsec =>
        refine iff_of_true ?_ fun _ _ hne => absurd hne hsec
        exact .of_inProgress (.inr (.inl (Finset.insert_nonempty _ _)))
    · rw [if_pos hc]
      exact iff_of_true (looksForPeers_bleCentralScanStart _ _) fun _ hc0 => absurd hc0 hc
  next ha => exact iff_of_true h fun hmem => absurd hmem ha

theorem looksForPeers_securityChanged (h : s.LooksForPeers) (conn : ℕ) (err dmErr closeErr : ℤ) :
    (s.step (.securityChanged conn err dmErr closeErr)).LooksForPeers ↔
      s.Restarts (.securityChanged conn err dmErr closeErr) := by
  simp only [step, Restarts, ← active_paired]
  split
  next hl =>
    unfold Link.securityChanged
    split
    next he =>
      split
      next ht =>
        rw [looksForPeers_gattDiscover]
        exact ⟨fun hlook _ => hlook, fun hok => hok hl⟩
      next ht =>
        have hnot : ¬ (s.Tracked conn ∧ s.dm = none ∧ dmErr = 0) := fun h => ht h.1
        rw [looksForPeers_iff, or_iff_right hnot]
        exact ⟨fun hlook _ => hlook, fun hok => hok hl⟩
    next he =>
      rw [looksForPeers_forceDisconnect]
      simp only [hl, true_and]
      exact ⟨fun hlook _ => hlook, fun hok => hok trivial⟩
  next hl => exact iff_of_true h fun hmem => absurd hmem hl

theorem looksForPeers_disconnected (h : s.LooksForPeers) (conn : ℕ) (scanErr : ℤ) :
    (s.step (.disconnected conn scanErr)).LooksForPeers ↔
      s.Restarts (.disconnected conn scanErr) := by
  simp only [step, Restarts, ← active_ended, Link.disconnected]
  split
  next hl =>
    split
    next ht =>
      exact iff_of_true (looksForPeers_bleCentralScanStart _ _) fun _ hnot => absurd ht hnot
    next ht =>
      rw [looksForPeers_iff]
      exact ⟨fun hlook _ _ => hlook, fun hok => hok hl ht⟩
  next hl => exact iff_of_true h fun hmem => absurd hmem hl

theorem looksForPeers_startScanWork (h : s.LooksForPeers) (started : Bool) :
    (s.step (.startScanWork started)).LooksForPeers ↔ s.Restarts (.startScanWork started) := by
  simp only [step, Restarts]
  split
  next hw =>
    have hactive : Active { s with
        startScanWork := false
        scanning := s.scanning || started } ↔ started ∨ s.scanning ∨ s.InProgress := by
      rw [Active, Bool.or_eq_true, or_comm (a := s.scanning = true), or_assoc]
      simp only [Bool.false_eq_true, false_or]
      exact Iff.rfl
    rw [looksForPeers_iff, hactive]
    exact ⟨fun hlook _ => hlook, fun hok => hok hw⟩
  next hw => exact iff_of_true h fun hpending => absurd hpending hw

theorem numConnected_discoveryCompleted {conn : ℕ} (ht : s.Tracked conn) :
    (s.central.discoveryCompleted conn 0).numConnected = s.central.numConnected + 1 := by
  obtain ⟨i, hi⟩ := tracked_iff.mp ht
  simp [Central.discoveryCompleted, hi]

/-- A discovery that is over but not given back is not in progress. -/
theorem active_held (s : Link S) (conn : ℕ) :
    Active { s with dm := some ⟨conn, false⟩ } ↔ Active { s with dm := none } := by
  simp [Active, InProgress]

theorem looksForPeers_discoveryCompleted (h : s.LooksForPeers)
    (assignErr notifErr closeErr scanErr : ℤ) (named : Option ℕ) :
    (s.step (.discoveryCompleted assignErr notifErr closeErr scanErr named)).LooksForPeers ↔
      s.Restarts (.discoveryCompleted assignErr notifErr closeErr scanErr named) := by
  simp only [step, Restarts, ← active_released]
  split
  next conn hd =>
    have hdm : ∀ {P : ℕ → Prop}, (∀ c, s.dm = some ⟨c, true⟩ → P c) ↔ P conn := by
      intro P
      refine ⟨fun hP => hP conn hd, fun hP c hc => ?_⟩
      obtain rfl : conn = c := by simpa [hd] using hc
      exact hP
    rw [hdm]
    by_cases he : assignErr = 0 ∧ notifErr = 0
    · rw [if_pos he, Link.discoveryCompleted, if_neg (not_not.mpr he.1), if_neg (not_not.mpr he.2)]
      dsimp only
      split
      next ht =>
        have hnum := numConnected_discoveryCompleted (s := s) ht
        split
        next hlt =>
          refine iff_of_true (looksForPeers_bleCentralScanStart _ _) fun _ => .inl ⟨ht, ?_⟩
          rw [← hnum]
          exact hlt
        next hge =>
          have hfree : HasFree { s with
              dm := none
              central := s.central.discoveryCompleted conn 0 } ↔ s.HasFree := by
            simp only [HasFree, Central.conn_discoveryCompleted]
          have hnot : ¬ (s.Tracked conn ∧ s.central.numConnected + 1 < S.maxConn) :=
            fun h => hge (hnum ▸ h.2)
          rw [looksForPeers_iff, hfree, or_iff_right hnot]
          exact Iff.rfl
      next ht =>
        have hnot : ¬ (s.Tracked conn ∧ s.central.numConnected + 1 < S.maxConn) := fun h => ht h.1
        rw [looksForPeers_iff, or_iff_right hnot]
        exact Iff.rfl
    · rw [if_neg he, discoveryCompleted_early he]
      generalize (if assignErr ≠ 0 then named else some conn) = target
      cases target with
      | none =>
        have hnot : ¬ (closeErr = 0 ∧ ∃ c ∈ s.linked, (none : Option ℕ) = some c) := by simp
        rw [or_iff_right hnot, ← active_held s conn]
        exact looksForPeers_iff
      | some c =>
        have hmem : (closeErr = 0 ∧ ∃ a ∈ s.linked, some c = some a) ↔
            c ∈ s.linked ∧ closeErr = 0 := by
          simp [and_comm]
        rw [hmem, ← active_held s conn]
        exact looksForPeers_forceDisconnect
  next hd => exact iff_of_true h fun conn hdm => absurd hdm (hd conn)

theorem looksForPeers_discoveryServiceNotFound (h : s.LooksForPeers) :
    (s.step .discoveryServiceNotFound).LooksForPeers ↔ s.Restarts .discoveryServiceNotFound := by
  simp only [step, Restarts, ← active_released]
  split
  next conn hd =>
    rw [looksForPeers_iff]
    exact ⟨fun hlook _ _ => hlook, fun hok => hok conn hd⟩
  next hd => exact iff_of_true h fun conn hdm => absurd hdm (hd conn)

theorem looksForPeers_discoveryErrorFound (h : s.LooksForPeers) (closeErr : ℤ) :
    (s.step (.discoveryErrorFound closeErr)).LooksForPeers ↔
      s.Restarts (.discoveryErrorFound closeErr) := by
  simp only [step, Restarts, ← active_released]
  split
  next conn hd =>
    rw [looksForPeers_forceDisconnect]
    constructor
    · intro hlook c hc
      obtain rfl : conn = c := by simpa [hd] using hc
      exact hlook
    · exact fun hok => hok conn hd
  next hd => exact iff_of_true h fun conn hdm => absurd hdm (hd conn)

/-- The application and its payloads have no part in it. -/
theorem looksForPeers_central (h : s.LooksForPeers) {central : Central S}
    (hc : ∀ i, (central.conns i).conn = (s.central.conns i).conn) :
    LooksForPeers { s with central := central } := by
  rintro ⟨i, hi⟩
  exact h ⟨i, (hc i).symm.trans hi⟩

/-- **A step keeps the central looking for peers if it restarts what has to be, and only then.** -/
theorem looksForPeers_step (h : s.LooksForPeers) (e : LinkEvent S) :
    (s.step e).LooksForPeers ↔ s.Restarts e := by
  cases e with
  | scanFilterMatch stopErr createErr conn uninit =>
    exact looksForPeers_scanFilterMatch h stopErr createErr conn uninit
  | connected conn connErr secErr dmErr stopErr scanErr =>
    exact looksForPeers_connected h conn connErr secErr dmErr stopErr scanErr
  | securityChanged conn err dmErr closeErr =>
    exact looksForPeers_securityChanged h conn err dmErr closeErr
  | discoveryCompleted assignErr notifErr closeErr scanErr named =>
    exact looksForPeers_discoveryCompleted h assignErr notifErr closeErr scanErr named
  | discoveryServiceNotFound => exact looksForPeers_discoveryServiceNotFound h
  | discoveryErrorFound closeErr => exact looksForPeers_discoveryErrorFound h closeErr
  | disconnected conn scanErr => exact looksForPeers_disconnected h conn scanErr
  | startScanWork started => exact looksForPeers_startScanWork h started
  | write data =>
    exact iff_of_true (looksForPeers_central h (Central.conn_write _ data)) trivial
  | sendWork res =>
    exact iff_of_true (looksForPeers_central h (Central.conn_sendWorkHandler _ res)) trivial
  | dataSent i =>
    exact iff_of_true (looksForPeers_central h (Central.conn_dataSent _ i)) trivial

/-- **The central keeps looking for peers exactly while every callback restarts what has to be.** -/
theorem looksForPeers_iff_restarts (scanErr : ℤ) (es : List (LinkEvent S)) :
    Always step LooksForPeers (bleCentralReady S scanErr) es ↔
      Meets step Restarts (bleCentralReady S scanErr) es := by
  have hready : (bleCentralReady S scanErr).LooksForPeers :=
    looksForPeers_bleCentralScanStart _ scanErr
  refine always_iff_meets (I := LooksForPeers) ?_ (fun _ h => h) ?_ hready es
  · exact fun s e h hok => (looksForPeers_step h e).mpr hok
  · exact fun s e h hbad hlook => hbad ((looksForPeers_step h e).mp hlook)

/-- A connection cannot be created: scanning was stopped, and nothing starts it again. -/
theorem not_looksForPeers_create_fails :
    ¬ Always step LooksForPeers (bleCentralReady ⟨2, 4, by decide⟩ 0)
      [.scanFilterMatch 0 (-12) 7 none] := by
  intro h
  have hlook := looksForPeers_iff.mp h.last ⟨0, by decide⟩
  revert hlook
  simp [run, step, bleCentralReady, bleCentralScanStart, Link.scanFilterMatch, scanStop, ref,
    Active, InProgress]

/-! ## While nothing is refused -/

/-- The stack refuses nothing that it is asked for, and has no more connections than there are
slots; every peer has the service, and none leaves while it is looked for. -/
def Grants (s : Link S) : LinkEvent S → Prop
  | .scanFilterMatch _ createErr _ _ => createErr = 0
  | .connected _ connErr secErr _ _ _ => connErr = 0 → secErr = 0 ∧ s.HasFree
  | .securityChanged _ _ dmErr closeErr => dmErr = 0 ∧ closeErr = 0
  | .discoveryCompleted assignErr notifErr _ _ _ => assignErr = 0 ∧ notifErr = 0
  | .discoveryServiceNotFound => ¬ s.Discovering
  | .discoveryErrorFound closeErr => closeErr = 0
  | .disconnected conn _ => s.dm ≠ some ⟨conn, true⟩
  | .startScanWork started => started
  | _ => True

/-- Every connection has a slot, and the discovery manager is held for one of them. -/
structure Placed (s : Link S) : Prop where
  linked : ∀ conn ∈ s.linked, s.Tracked conn
  held : ∀ d, s.dm = some d → d.discovering ∧ s.Tracked d.conn

/-- What moves nobody, and starts no discovery. -/
theorem Placed.congr (h : s.Placed) {s' : Link S}
    (hc : ∀ i, (s'.central.conns i).conn = (s.central.conns i).conn) (hl : s'.linked = s.linked)
    (hd : ∀ d, s'.dm = some d → s.dm = some d) : s'.Placed := by
  have htracked : ∀ c, s.Tracked c → s'.Tracked c := fun c ⟨i, hi⟩ => ⟨i, (hc i).trans hi⟩
  refine ⟨fun c hmem => htracked c (h.linked c (hl ▸ hmem)), fun d hdm => ?_⟩
  obtain ⟨hdisc, ht⟩ := h.held d (hd d hdm)
  exact ⟨hdisc, htracked _ ht⟩

theorem placed_step (hs : s.Consistent) (h : s.Placed) {e : LinkEvent S} (hok : s.Grants e) :
    (s.step e).Placed := by
  have hstep := canStep hs e
  generalize s.step e = s' at hstep ⊢
  cases hstep with
  | @connected conn secErr dmErr stopErr scanErr ha =>
    obtain ⟨rfl, i, hi⟩ := hok rfl
    obtain ⟨j, hj⟩ := Option.ne_none_iff_exists'.mp fun hnone =>
      Central.slotOf_eq_none_iff.mp hnone i hi
    have hframe := takeSlot_frame { s with
      attempts := s.attempts.erase conn
      linked := insert conn s.linked } conn
    have htracked : ∀ c, _ ↔ c = conn ∨ s.Tracked c :=
      tracked_connected (central_takeSlot { s with
        attempts := s.attempts.erase conn
        linked := insert conn s.linked } conn) hj
    refine ⟨fun c hmem => (htracked c).mpr ?_, fun d hdm => ?_⟩
    · rcases Finset.mem_insert.mp (hframe.1 ▸ hmem) with rfl | hmem
      · exact .inl rfl
      · exact .inr (h.linked c hmem)
    · obtain ⟨hdisc, ht⟩ := h.held d (hframe.2.2.2.2.1 ▸ hdm)
      exact ⟨hdisc, (htracked _).mpr (.inr ht)⟩
  | attemptFailed ha hc => exact h.congr (fun _ => rfl) rfl fun _ => id
  | @secured conn dmErr closeErr hl =>
    refine ⟨h.linked, fun d hdm => ?_⟩
    simp only [gattDiscover] at hdm
    split at hdm
    next hdisc =>
      obtain rfl := Option.some.inj hdm
      exact ⟨rfl, hdisc.1⟩
    next => exact h.held d hdm
  | completed hd ht =>
    have hconn := Central.conn_discoveryCompleted s.central
    split <;> exact h.congr (hconn _) rfl fun _ hdm => absurd hdm (Option.some_ne_none _).symm
  | completedUntracked hd ht | errorFound hd =>
    exact h.congr (fun _ => rfl) rfl fun _ hdm => absurd hdm (Option.some_ne_none _).symm
  | early hd he ht => exact absurd hok he
  | serviceNotFound hd => exact absurd ⟨_, hd⟩ hok
  | @disconnected conn scanErr hl ht =>
    have htracked : ∀ {t : Link S}, t.central = s.central.disconnected conn →
        ∀ c, t.Tracked c ↔ c ≠ conn ∧ s.Tracked c := fun hc => tracked_disconnected hs hc
    refine ⟨fun c hmem => (htracked rfl c).mpr ?_, fun d hdm => ?_⟩
    · obtain ⟨hne, hmem⟩ := Finset.mem_erase.mp hmem
      exact ⟨hne, h.linked c hmem⟩
    · obtain ⟨hdisc, ht⟩ := h.held d hdm
      refine ⟨hdisc, (htracked rfl d.conn).mpr ⟨?_, ht⟩⟩
      rintro rfl
      obtain ⟨c, discovering⟩ := d
      obtain rfl : discovering = true := hdisc
      exact hok hdm
  | disconnectedUntracked hl ht => exact absurd (h.linked _ hl) ht
  | write data => exact h.congr (Central.conn_write _ data) rfl fun _ => id
  | sendWork res => exact h.congr (Central.conn_sendWorkHandler _ res) rfl fun _ => id
  | dataSent i => exact h.congr (Central.conn_dataSent _ i) rfl fun _ => id
  | _ => exact h.congr (fun _ => rfl) rfl fun _ => id

/-- A connection that is not ready and a free slot are not counted. -/
theorem numConnected_lt (hexact : s.CounterExact) (hfnr : s.FreeNotReady) (hfree : s.HasFree)
    {conn : ℕ} (ht : s.Tracked conn)
    (hnot : ∀ i, s.central.slotOf (some conn) = some i → (s.central.conns i).ready = false) :
    s.central.numConnected + 1 < S.maxConn := by
  obtain ⟨i, hi⟩ := tracked_iff.mp ht
  obtain ⟨j, hj⟩ := hfree
  have hne : j ≠ i := by
    rintro rfl
    exact Option.some_ne_none conn ((Central.conn_of_slotOf hi).symm.trans hj)
  have hnotready : ∀ k ∈ ({i, j} : Finset (Fin S.maxConn)), k ∉ s.central.readySlots := by
    intro k hk
    rw [Central.mem_readySlots, Bool.not_eq_true]
    rcases Finset.mem_insert.mp hk with rfl | hk
    · exact hnot k hi
    · rw [Finset.mem_singleton.mp hk]
      exact hfnr j hj
  have hcard : ({i, j} : Finset (Fin S.maxConn)).card = 2 := Finset.card_pair hne.symm
  have hdisjoint : Disjoint ({i, j} : Finset (Fin S.maxConn)) s.central.readySlots :=
    Finset.disjoint_left.mpr hnotready
  have hle := Finset.card_le_univ (({i, j} : Finset (Fin S.maxConn)) ∪ s.central.readySlots)
  rw [Finset.card_union_of_disjoint hdisjoint, hcard, Fintype.card_fin] at hle
  have hnum : s.central.numConnected = s.central.readySlots.card := hexact
  omega

/-- **Where nothing is refused, every callback restarts what has to be.** -/
theorem restarts_of_grants (hs : s.Consistent) (h : s.Placed) (hexact : s.CounterExact)
    (hfnr : s.FreeNotReady) {e : LinkEvent S} (hok : s.Grants e) (hbalanced : s.Balanced e) :
    s.Restarts e := by
  have hheld : s.dm = none ∨ s.Discovering := by
    cases hd : s.dm with
    | none => exact .inl rfl
    | some d =>
      obtain ⟨c, discovering⟩ := d
      obtain rfl : discovering = true := (h.held _ hd).1
      exact .inr ⟨c, hd⟩
  cases e with
  | scanFilterMatch => exact fun _ hne => absurd hok hne
  | connected => exact fun _ hc hsec => absurd (hok hc).1 hsec
  | securityChanged conn err dmErr closeErr =>
    intro hl _
    by_cases he : err = 0
    · rcases hheld with hnone | hdisc
      · exact .inl (by rw [if_pos he]; exact ⟨h.linked conn hl, hnone, hok.1⟩)
      · exact .inr (.inr (.inr (.inr (.inr (.inl hdisc)))))
    · exact .inl (by rw [if_neg he]; exact hok.2)
  | discoveryCompleted assignErr notifErr closeErr scanErr named =>
    intro conn hd hfree
    have ht : s.Tracked conn := (h.held _ hd).2
    have herr : assignErr = 0 ∧ notifErr = 0 := hok
    have hcentral : s.centralEvent (.discoveryCompleted assignErr notifErr closeErr scanErr named)
        = some (.discoveryCompleted conn 0) := by
      simp only [centralEvent, hd, if_pos herr]
    have hnot := hbalanced _ hcentral rfl
    refine .inl ?_
    rw [if_pos herr]
    exact ⟨ht, numConnected_lt hexact hfnr hfree ht hnot⟩
  | discoveryServiceNotFound => exact fun conn hd => absurd ⟨conn, hd⟩ hok
  | discoveryErrorFound => exact fun conn hd _ => .inl ⟨hs.linked conn (h.held _ hd).2, hok⟩
  | disconnected conn => exact fun hl ht => absurd (h.linked conn hl) ht
  | startScanWork => exact fun _ _ => .inl hok
  | write | sendWork | dataSent => trivial

/-- **While the stack refuses nothing and the counter is right, the central keeps looking for
peers.** -/
theorem looksForPeers_of_grants (scanErr : ℤ) (es : List (LinkEvent S))
    (h : Meets step (fun s e => s.Grants e ∧ s.Balanced e) (bleCentralReady S scanErr) es) :
    Always step LooksForPeers (bleCentralReady S scanErr) es := by
  have hready : (bleCentralReady S scanErr).Placed :=
    ⟨fun _ hmem => absurd hmem (Finset.notMem_empty _),
      fun _ hdm => absurd hdm (Option.some_ne_none _).symm⟩
  refine always_of_meets (I := fun s => s.Consistent ∧ s.Placed ∧ s.CounterExact ∧
    s.FreeNotReady ∧ s.LooksForPeers) (fun s e hs hok => ?_) (fun s hs => hs.2.2.2.2)
    ⟨consistent_bleCentralReady scanErr, hready, Central.counterExact_init, fun _ _ => rfl,
      looksForPeers_bleCentralScanStart _ scanErr⟩ h
  obtain ⟨hcons, hplaced, hexact, hfnr, hlook⟩ := hs
  obtain ⟨hgrants, hbalanced⟩ := hok
  exact ⟨consistent_step hcons e, placed_step hcons hplaced hgrants,
    (counterExact_step hexact e).mpr hbalanced, freeNotReady_step hcons hfnr e,
    (looksForPeers_step hlook e).mpr
      (restarts_of_grants hcons hplaced hexact hfnr hgrants hbalanced)⟩

end Link

end Pyrinas
