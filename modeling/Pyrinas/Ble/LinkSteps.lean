import Pyrinas.Ble.Link

/-!
# Ble/LinkSteps — what a step of the link can do

For the slots an event is an event of the central, or none; and a step of a consistent link, in
which every connection has one slot at most, does one of a few things.

    step : Link ──▸ Link        central : Link ──▸ Central        central ∘ step = step ∘ central
-/

namespace Pyrinas

namespace Link

variable {S : CentralShape}

/-! ## What an event does to the slots -/

/-- What an event is for the slots. -/
def centralEvent (s : Link S) : LinkEvent S → Option (CentralEvent S)
  | .connected conn connErr _ _ _ _ =>
    if conn ∈ s.attempts then some (.connected conn connErr) else none
  | .discoveryCompleted assignErr notifErr _ _ _ =>
    match s.dm with
    | some ⟨conn, true⟩ =>
      if assignErr = 0 ∧ notifErr = 0 then some (.discoveryCompleted conn 0) else none
    | _ => none
  | .disconnected conn _ => if conn ∈ s.linked then some (.disconnected conn) else none
  | .write data => some (.write data)
  | .sendWork res => some (.sendWork res)
  | .dataSent i => some (.dataSent i)
  | _ => none

theorem tracked_iff {s : Link S} {conn : ℕ} :
    s.Tracked conn ↔ ∃ i, s.central.slotOf (some conn) = some i := by
  rw [← not_iff_not, not_exists]
  constructor
  · intro h i hi
    exact h ⟨i, Central.conn_of_slotOf hi⟩
  · rintro h ⟨i, hi⟩
    obtain ⟨j, hj⟩ := Option.ne_none_iff_exists'.mp fun hnone =>
      Central.slotOf_eq_none_iff.mp hnone i hi
    exact h j hj

theorem slotOf_of_not_tracked {s : Link S} {conn : ℕ} (h : ¬ s.Tracked conn) :
    s.central.slotOf (some conn) = none := by
  by_contra hne
  exact h (tracked_iff.mpr (Option.ne_none_iff_exists'.mp hne))

theorem central_disconnected (s : Link S) (conn : ℕ) (scanErr : ℤ) :
    (s.disconnected conn scanErr).central = s.central.disconnected conn := by
  unfold disconnected
  split
  next => rfl
  next h => simp only [Central.disconnected, slotOf_of_not_tracked h]

theorem central_takeSlot (s : Link S) (conn : ℕ) :
    (s.takeSlot conn).central = s.central.connected conn 0 := by
  unfold takeSlot
  split
  next h => simp [Central.connected, h]
  next => rfl

theorem central_connected (s : Link S) (conn : ℕ) (connErr secErr dmErr stopErr scanErr : ℤ) :
    (s.connected conn connErr secErr dmErr stopErr scanErr).central
      = s.central.connected conn connErr := by
  unfold connected
  split
  next h =>
    rw [Central.connected, if_pos h]
    exact central_disconnected s conn scanErr
  next h =>
    obtain rfl := not_not.mp h
    unfold setSecurity
    split <;> exact central_takeSlot s conn

/-- What taking a slot leaves alone. -/
theorem takeSlot_frame (s : Link S) (conn : ℕ) : (s.takeSlot conn).linked = s.linked ∧
    (s.takeSlot conn).attempts = s.attempts ∧ (s.takeSlot conn).pairing = s.pairing ∧
    (s.takeSlot conn).closing = s.closing ∧ (s.takeSlot conn).dm = s.dm ∧
    (s.takeSlot conn).startScanWork = s.startScanWork ∧
    (s.takeSlot conn).scanning = s.scanning := by
  unfold takeSlot
  split <;> exact ⟨rfl, rfl, rfl, rfl, rfl, rfl, rfl⟩

/-- What asking for security leaves alone. -/
theorem setSecurity_frame (s : Link S) (conn : ℕ) (secErr dmErr : ℤ) :
    (s.setSecurity conn secErr dmErr).central = s.central ∧
    (s.setSecurity conn secErr dmErr).linked = s.linked ∧
    (s.setSecurity conn secErr dmErr).attempts = s.attempts ∧
    (s.setSecurity conn secErr dmErr).closing = s.closing ∧
    (s.setSecurity conn secErr dmErr).startScanWork = s.startScanWork ∧
    (s.setSecurity conn secErr dmErr).refs = s.refs := by
  unfold setSecurity
  split <;> exact ⟨rfl, rfl, rfl, rfl, rfl, rfl⟩

/-- A discovery that goes through. -/
theorem central_discoveryCompleted (s : Link S) (conn : ℕ) (closeErr scanErr : ℤ)
    (named : Option ℕ) :
    (s.discoveryCompleted conn 0 0 closeErr scanErr named).central
      = s.central.discoveryCompleted conn 0 := by
  unfold discoveryCompleted
  rw [if_neg (by simp), if_neg (by simp)]
  dsimp only
  split
  next => split <;> rfl
  next h => simp [Central.discoveryCompleted, slotOf_of_not_tracked h]

/-- An early return. -/
theorem discoveryCompleted_early {assignErr notifErr : ℤ} (h : ¬ (assignErr = 0 ∧ notifErr = 0))
    (s : Link S) (conn : ℕ) (closeErr scanErr : ℤ) (named : Option ℕ) :
    s.discoveryCompleted conn assignErr notifErr closeErr scanErr named
      = (if assignErr ≠ 0 then named else some conn).elim s (s.forceDisconnect · closeErr) := by
  unfold discoveryCompleted
  by_cases ha : assignErr ≠ 0
  · rw [if_pos ha, if_pos ha]
  · have hn : notifErr ≠ 0 := fun hn => h ⟨not_not.mp ha, hn⟩
    rw [if_neg ha, if_pos hn, if_neg ha]
    rfl

/-- **The slots take the steps of the central**, or none. -/
theorem central_step (s : Link S) (e : LinkEvent S) :
    (s.step e).central = (s.centralEvent e).elim s.central s.central.step := by
  cases e with
  | scanFilterMatch stopErr createErr conn uninit =>
    simp only [step, scanFilterMatch]
    split_ifs <;> rfl
  | connected conn connErr secErr dmErr stopErr scanErr =>
    simp only [step, centralEvent]
    split
    · exact central_connected _ _ _ _ _ _ _
    · rfl
  | securityChanged conn err dmErr closeErr =>
    simp only [step, securityChanged]
    split_ifs <;> rfl
  | discoveryCompleted assignErr notifErr closeErr scanErr named =>
    simp only [step, centralEvent]
    rcases s.dm with _ | ⟨conn, discovering⟩
    · rfl
    · cases discovering with
      | false => rfl
      | true =>
        by_cases h : assignErr = 0 ∧ notifErr = 0
        · obtain ⟨rfl, rfl⟩ := h
          exact central_discoveryCompleted _ _ _ _ _
        · simp only [discoveryCompleted_early h, if_neg h]
          cases (if assignErr ≠ 0 then named else some conn) <;> rfl
  | discoveryServiceNotFound =>
    simp only [step]
    split <;> rfl
  | discoveryErrorFound closeErr =>
    simp only [step]
    split <;> rfl
  | disconnected conn scanErr =>
    simp only [step, centralEvent]
    split
    · exact central_disconnected _ _ _
    · rfl
  | startScanWork started =>
    simp only [step]
    split <;> rfl
  | write | sendWork | dataSent => rfl

/-! ## Connections and slots -/

/-- No connection has two slots, what has a slot is connected, and what is attempted is not. -/
structure Consistent (s : Link S) : Prop where
  distinct : ∀ i j conn, (s.central.conns i).conn = some conn →
    (s.central.conns j).conn = some conn → i = j
  linked : ∀ conn, s.Tracked conn → conn ∈ s.linked
  fresh : ∀ conn ∈ s.attempts, conn ∉ s.linked

theorem consistent_bleCentralReady (scanErr : ℤ) : Consistent (bleCentralReady S scanErr) := by
  refine ⟨?_, ?_, ?_⟩
  · intro i j conn h
    simp [bleCentralReady, bleCentralScanStart, Central.init, NusCConnection.unused] at h
  · rintro conn ⟨i, h⟩
    simp [bleCentralReady, bleCentralScanStart, Central.init, NusCConnection.unused] at h
  · intro conn h
    simp [bleCentralReady, bleCentralScanStart] at h

variable {s s' : Link S}

theorem Consistent.congr (h : Consistent s)
    (hc : ∀ i, (s'.central.conns i).conn = (s.central.conns i).conn) (hl : s'.linked = s.linked)
    (ha : s'.attempts = s.attempts) : Consistent s' := by
  refine ⟨?_, ?_, ?_⟩
  · intro i j conn hi hj
    exact h.distinct i j conn ((hc i).symm.trans hi) ((hc j).symm.trans hj)
  · rintro conn ⟨i, hi⟩
    exact hl ▸ h.linked conn ⟨i, (hc i).symm.trans hi⟩
  · rw [ha, hl]
    exact h.fresh

/-- The slot of a connection is the one that is found. -/
theorem Consistent.slotOf (h : Consistent s) {conn : ℕ} {i : Fin S.maxConn}
    (hi : (s.central.conns i).conn = some conn) : s.central.slotOf (some conn) = some i := by
  obtain ⟨j, hj⟩ := tracked_iff.mp ⟨i, hi⟩
  rw [hj, h.distinct i j conn hi (Central.conn_of_slotOf hj)]

/-- What is being attempted has no slot. -/
theorem Consistent.not_tracked (h : Consistent s) {conn : ℕ} (ha : conn ∈ s.attempts) :
    ¬ s.Tracked conn :=
  fun ht => h.fresh conn ha (h.linked conn ht)

/-! ## What a step can do -/

/-- What a step of a consistent link can do. -/
inductive CanStep (s : Link S) : LinkEvent S → Link S → Prop
  | idle (e : LinkEvent S) : CanStep s e s
  | attempt {stopErr : ℤ} {conn : ℕ} {uninit : Option ℕ} (hs : s.scanning)
    (ha : conn ∉ s.attempts) (hl : conn ∉ s.linked) :
    CanStep s (.scanFilterMatch stopErr 0 conn uninit)
      { s.scanStop stopErr with attempts := insert conn s.attempts }
  | createFailed {stopErr createErr : ℤ} {conn : ℕ} {uninit : Option ℕ} (hs : s.scanning)
    (hc : createErr ≠ 0) :
    CanStep s (.scanFilterMatch stopErr createErr conn uninit)
      ((s.scanStop stopErr).ref uninit (-1))
  | attemptFailed {conn : ℕ} {connErr secErr dmErr stopErr scanErr : ℤ} (ha : conn ∈ s.attempts)
    (hc : connErr ≠ 0) :
    CanStep s (.connected conn connErr secErr dmErr stopErr scanErr)
      ({ s with attempts := s.attempts.erase conn }.bleCentralScanStart scanErr)
  | connected {conn : ℕ} {secErr dmErr stopErr scanErr : ℤ} (ha : conn ∈ s.attempts) :
    CanStep s (.connected conn 0 secErr dmErr stopErr scanErr)
      ((({ s with
        attempts := s.attempts.erase conn
        linked := insert conn s.linked }.takeSlot conn).setSecurity conn secErr dmErr).scanStop
          stopErr)
  | secured {conn : ℕ} {dmErr closeErr : ℤ} (hl : conn ∈ s.linked) :
    CanStep s (.securityChanged conn 0 dmErr closeErr)
      ({ s with pairing := s.pairing.erase conn }.gattDiscover conn dmErr)
  | notSecured {conn : ℕ} {err dmErr closeErr : ℤ} (hl : conn ∈ s.linked) (he : err ≠ 0) :
    CanStep s (.securityChanged conn err dmErr closeErr)
      ({ s with pairing := s.pairing.erase conn }.forceDisconnect conn closeErr)
  | completed {conn : ℕ} {closeErr scanErr : ℤ} {named : Option ℕ}
    (hd : s.dm = some ⟨conn, true⟩) (ht : s.Tracked conn) :
    CanStep s (.discoveryCompleted 0 0 closeErr scanErr named)
      (if (s.central.discoveryCompleted conn 0).numConnected < S.maxConn then
        { s with
          dm := none
          central := s.central.discoveryCompleted conn 0 }.bleCentralScanStart scanErr
      else { s with
        dm := none
        central := s.central.discoveryCompleted conn 0 })
  | completedUntracked {conn : ℕ} {closeErr scanErr : ℤ} {named : Option ℕ}
    (hd : s.dm = some ⟨conn, true⟩) (ht : ¬ s.Tracked conn) :
    CanStep s (.discoveryCompleted 0 0 closeErr scanErr named) { s with dm := none }
  | early {conn : ℕ} {assignErr notifErr closeErr scanErr : ℤ} {named target : Option ℕ}
    (hd : s.dm = some ⟨conn, true⟩) (he : ¬ (assignErr = 0 ∧ notifErr = 0))
    (ht : target = if assignErr ≠ 0 then named else some conn) :
    CanStep s (.discoveryCompleted assignErr notifErr closeErr scanErr named)
      (target.elim { s with dm := some ⟨conn, false⟩ }
        ({ s with dm := some ⟨conn, false⟩ }.forceDisconnect · closeErr))
  | serviceNotFound {conn : ℕ} (hd : s.dm = some ⟨conn, true⟩) :
    CanStep s .discoveryServiceNotFound { s with dm := none }
  | errorFound {conn : ℕ} {closeErr : ℤ} (hd : s.dm = some ⟨conn, true⟩) :
    CanStep s (.discoveryErrorFound closeErr) ({ s with dm := none }.forceDisconnect conn closeErr)
  | disconnected {conn : ℕ} {scanErr : ℤ} (hl : conn ∈ s.linked) (ht : s.Tracked conn) :
    CanStep s (.disconnected conn scanErr)
      (({ s with
        linked := s.linked.erase conn
        pairing := s.pairing.erase conn
        closing := s.closing.erase conn
        central := s.central.disconnected conn }.ref (some conn) (-1)).bleCentralScanStart scanErr)
  | disconnectedUntracked {conn : ℕ} {scanErr : ℤ} (hl : conn ∈ s.linked) (ht : ¬ s.Tracked conn) :
    CanStep s (.disconnected conn scanErr)
      { s with
        linked := s.linked.erase conn
        pairing := s.pairing.erase conn
        closing := s.closing.erase conn }
  | startScanWork (started : Bool) (hw : s.startScanWork) :
    CanStep s (.startScanWork started)
      { s with
        startScanWork := false
        scanning := s.scanning || started }
  | write (data : Payload) : CanStep s (.write data) { s with central := s.central.write data }
  | sendWork (res : Fin S.maxConn → ℤ) :
    CanStep s (.sendWork res) { s with central := s.central.sendWorkHandler res }
  | dataSent (i : Fin S.maxConn) :
    CanStep s (.dataSent i) { s with central := s.central.dataSent i }

/-- What is taken and given back. -/
theorem ref_ref_neg (s : Link S) (conn : Option ℕ) : (s.ref conn 1).ref conn (-1) = s := by
  have hrefs : ((s.ref conn 1).ref conn (-1)).refs = s.refs := by
    simp only [ref, Function.update_self, Function.update_idem, Int.add_neg_cancel_right,
      Function.update_eq_self]
  calc (s.ref conn 1).ref conn (-1)
      = { s with refs := ((s.ref conn 1).ref conn (-1)).refs } := rfl
    _ = s := by rw [hrefs]

/-- `gatt_discover` looks for the slot itself. -/
theorem gattDiscover_of_not_tracked {s : Link S} {conn : ℕ} (h : ¬ s.Tracked conn) (dmErr : ℤ) :
    s.gattDiscover conn dmErr = s := by
  simp [gattDiscover, h]

/-- **A step does what it can do.** -/
theorem canStep {s : Link S} (h : Consistent s) (e : LinkEvent S) : CanStep s e (s.step e) := by
  cases e with
  | scanFilterMatch stopErr createErr conn uninit =>
    simp only [step, scanFilterMatch]
    split
    next hif =>
      by_cases hc : createErr = 0
      · subst hc
        rw [if_neg (by simp), ref_ref_neg]
        exact .attempt hif.1 (hif.2 rfl).1 (hif.2 rfl).2
      · rw [if_pos hc]
        exact .createFailed hif.1 hc
    next => exact .idle _
  | connected conn connErr secErr dmErr stopErr scanErr =>
    simp only [step]
    split
    next ha =>
      by_cases hc : connErr = 0
      · subst hc
        rw [if_pos rfl]
        exact .connected ha
      · have hnot : ¬ Tracked { s with attempts := s.attempts.erase conn } conn := h.not_tracked ha
        rw [if_neg hc, Link.connected, if_pos hc, Link.disconnected, if_neg hnot]
        exact .attemptFailed ha hc
    next => exact .idle _
  | securityChanged conn err dmErr closeErr =>
    simp only [step, securityChanged]
    split
    next hl =>
      by_cases he : err = 0
      · subst he
        rw [if_pos rfl]
        split
        next => exact .secured hl
        next ht =>
          rw [← gattDiscover_of_not_tracked ht dmErr]
          exact .secured hl
      · rw [if_neg he]
        exact .notSecured hl he
    next => exact .idle _
  | discoveryCompleted assignErr notifErr closeErr scanErr named =>
    simp only [step]
    split
    next conn hd =>
      by_cases he : assignErr = 0 ∧ notifErr = 0
      · obtain ⟨rfl, rfl⟩ := he
        simp only [Link.discoveryCompleted, ne_eq, not_true_eq_false, if_false]
        split
        next ht => exact .completed hd ht
        next ht => exact .completedUntracked hd ht
      · rw [discoveryCompleted_early he]
        exact .early hd he rfl
    next => exact .idle _
  | discoveryServiceNotFound =>
    simp only [step]
    split
    next conn hd => exact .serviceNotFound hd
    next => exact .idle _
  | discoveryErrorFound closeErr =>
    simp only [step]
    split
    next conn hd => exact .errorFound hd
    next => exact .idle _
  | disconnected conn scanErr =>
    simp only [step, Link.disconnected]
    split
    next hl =>
      split
      next ht => exact .disconnected hl ht
      next ht => exact .disconnectedUntracked hl ht
    next => exact .idle _
  | startScanWork started =>
    simp only [step]
    split
    next hw => exact .startScanWork started hw
    next => exact .idle _
  | write data => exact .write data
  | sendWork res => exact .sendWork res
  | dataSent i => exact .dataSent i

/-! ## Consistency -/

section Consistency

variable {s : Link S}

/-- A connection moves into the free slot that is found. -/
theorem conn_connected (s : Link S) (conn : ℕ) (i : Fin S.maxConn) :
    ((s.central.connected conn 0).conns i).conn
      = if s.central.slotOf none = some i then some conn else (s.central.conns i).conn := by
  rw [Central.conns_connected]
  split <;> rfl

/-- …and leaves the slot it had. -/
theorem conn_disconnected (s : Link S) (conn : ℕ) (i : Fin S.maxConn) :
    ((s.central.disconnected conn).conns i).conn
      = if s.central.slotOf (some conn) = some i then none else (s.central.conns i).conn := by
  rw [Central.conns_disconnected]
  split <;> rfl

/-- With a free slot, a connection that is made has a slot then, and others have theirs. -/
theorem tracked_connected {s' : Link S} {conn : ℕ} {i : Fin S.maxConn}
    (hc : s'.central = s.central.connected conn 0) (hslot : s.central.slotOf none = some i)
    (c : ℕ) : s'.Tracked c ↔ c = conn ∨ s.Tracked c := by
  constructor
  · rintro ⟨j, hj⟩
    rw [hc, conn_connected] at hj
    split at hj
    next => exact .inl (Option.some.inj hj).symm
    next => exact .inr ⟨j, hj⟩
  · rintro (rfl | ⟨j, hj⟩)
    · exact ⟨i, by rw [hc, conn_connected, if_pos hslot]⟩
    · refine ⟨j, ?_⟩
      rw [hc, conn_connected, if_neg, hj]
      intro hnone
      simp [Central.conn_of_slotOf hnone] at hj

/-- A connection that has ended has none. -/
theorem tracked_disconnected (h : Consistent s) {s' : Link S} {conn : ℕ}
    (hc : s'.central = s.central.disconnected conn) (c : ℕ) :
    s'.Tracked c ↔ c ≠ conn ∧ s.Tracked c := by
  constructor
  · rintro ⟨j, hj⟩
    rw [hc, conn_disconnected] at hj
    split at hj
    next => simp at hj
    next hslot => exact ⟨fun heq => hslot (h.slotOf (heq ▸ hj)), j, hj⟩
  · rintro ⟨hne, j, hj⟩
    refine ⟨j, ?_⟩
    rw [hc, conn_disconnected, if_neg, hj]
    intro hslot
    exact hne (Option.some.inj (hj.symm.trans (Central.conn_of_slotOf hslot)))

/-- A connection that is made takes one slot, in which nobody was. -/
theorem consistent_connected (h : Consistent s) {conn : ℕ} (ha : conn ∈ s.attempts) {s' : Link S}
    (hc : s'.central = s.central.connected conn 0) (hl : s'.linked = insert conn s.linked)
    (hatt : s'.attempts = s.attempts.erase conn) : Consistent s' := by
  have hconn : ∀ i c, (s'.central.conns i).conn = some c →
      s.central.slotOf none = some i ∧ c = conn ∨ (s.central.conns i).conn = some c ∧ c ≠ conn := by
    intro i c hi
    rw [hc, conn_connected] at hi
    split at hi
    next hslot => exact .inl ⟨hslot, (Option.some.inj hi).symm⟩
    next => exact .inr ⟨hi, fun heq => h.not_tracked ha ⟨i, heq ▸ hi⟩⟩
  refine ⟨?_, ?_, ?_⟩
  · intro i j c hi hj
    rcases hconn i c hi with ⟨hi, rfl⟩ | ⟨hi, hne⟩
    · rcases hconn j c hj with ⟨hj, -⟩ | ⟨-, hne⟩
      · exact Option.some.inj (hi.symm.trans hj)
      · exact absurd rfl hne
    · rcases hconn j c hj with ⟨-, rfl⟩ | ⟨hj, -⟩
      · exact absurd rfl hne
      · exact h.distinct i j c hi hj
  · rintro c ⟨i, hi⟩
    rw [hl]
    rcases hconn i c hi with ⟨-, rfl⟩ | ⟨hi, -⟩
    · exact Finset.mem_insert_self _ _
    · exact Finset.mem_insert_of_mem (h.linked c ⟨i, hi⟩)
  · intro c hmem
    rw [hatt, Finset.mem_erase] at hmem
    rw [hl, Finset.mem_insert, not_or]
    exact ⟨hmem.1, h.fresh c hmem.2⟩

/-- A connection that ends gives its slot back. -/
theorem consistent_disconnected (h : Consistent s) {conn : ℕ} {s' : Link S}
    (hc : s'.central = s.central.disconnected conn) (hl : s'.linked = s.linked.erase conn)
    (hatt : s'.attempts = s.attempts) : Consistent s' := by
  have hconn : ∀ i c, (s'.central.conns i).conn = some c →
      (s.central.conns i).conn = some c ∧ c ≠ conn := by
    intro i c hi
    rw [hc, conn_disconnected] at hi
    split at hi
    next => simp at hi
    next hslot => exact ⟨hi, fun heq => hslot (h.slotOf (heq ▸ hi))⟩
  refine ⟨?_, ?_, ?_⟩
  · exact fun i j c hi hj => h.distinct i j c (hconn i c hi).1 (hconn j c hj).1
  · rintro c ⟨i, hi⟩
    rw [hl, Finset.mem_erase]
    exact ⟨(hconn i c hi).2, h.linked c ⟨i, (hconn i c hi).1⟩⟩
  · intro c hmem
    rw [hl, Finset.mem_erase, not_and]
    exact fun _ => h.fresh c (hatt ▸ hmem)

/-- **Every step keeps connections and slots consistent.** -/
theorem consistent_step (h : Consistent s) (e : LinkEvent S) : Consistent (s.step e) := by
  have hstep := canStep h e
  generalize s.step e = s' at hstep ⊢
  cases hstep with
  | idle => exact h
  | attempt hs ha hl =>
    refine ⟨h.distinct, h.linked, ?_⟩
    intro c hmem
    rcases Finset.mem_insert.mp hmem with rfl | hmem
    · exact hl
    · exact h.fresh c hmem
  | attemptFailed ha hc =>
    exact ⟨h.distinct, h.linked, fun c hmem => h.fresh c (Finset.mem_of_mem_erase hmem)⟩
  | @connected conn secErr dmErr stopErr scanErr ha =>
    refine consistent_connected h ha ?_ ?_ ?_
    · exact (setSecurity_frame _ conn secErr dmErr).1.trans (central_takeSlot _ conn)
    · exact (setSecurity_frame _ conn secErr dmErr).2.1.trans (takeSlot_frame _ conn).1
    · exact (setSecurity_frame _ conn secErr dmErr).2.2.1.trans (takeSlot_frame _ conn).2.1
  | @disconnected conn scanErr hl ht => exact consistent_disconnected h rfl rfl rfl
  | @disconnectedUntracked conn scanErr hl ht =>
    have hnone : s.central = s.central.disconnected conn := by
      simp only [Central.disconnected, slotOf_of_not_tracked ht]
    exact consistent_disconnected h hnone rfl rfl
  | completed hd ht =>
    have hconn := Central.conn_discoveryCompleted s.central
    split <;> exact h.congr (hconn _) rfl rfl
  | @early _ _ _ _ _ _ target hd he ht =>
    cases target <;> exact h.congr (fun _ => rfl) rfl rfl
  | write data => exact h.congr (Central.conn_write _ data) rfl rfl
  | sendWork res => exact h.congr (Central.conn_sendWorkHandler _ res) rfl rfl
  | dataSent i => exact h.congr (Central.conn_dataSent _ i) rfl rfl
  | _ => exact h.congr (fun _ => rfl) rfl rfl

end Consistency

/-! ## One slot -/

/-- What an event does to one slot. -/
inductive SlotStep : LinkEvent S → NusCConnection → NusCConnection → Prop
  | same (e : LinkEvent S) (c : NusCConnection) : SlotStep e c c
  | put (data : Payload) {c : NusCConnection} (hr : c.ready) :
    SlotStep (.write data) c (c.msgqPut data)
  | send (res : Fin S.maxConn → ℤ) (c : NusCConnection) (err : ℤ) :
    SlotStep (.sendWork res) c (c.sendNext err)
  | dataSent (i : Fin S.maxConn) (c : NusCConnection) :
    SlotStep (.dataSent i) c { c with busy := false }
  | taken {conn : ℕ} {secErr dmErr stopErr scanErr : ℤ} {c : NusCConnection} (hf : c.conn = none) :
    SlotStep (.connected conn 0 secErr dmErr stopErr scanErr) c { c with conn := some conn }
  | ready {assignErr notifErr closeErr scanErr : ℤ} {named : Option ℕ} {c : NusCConnection}
    (hc : c.conn ≠ none) :
    SlotStep (.discoveryCompleted assignErr notifErr closeErr scanErr named) c c.setReady
  | cleared (conn : ℕ) (scanErr : ℤ) (c : NusCConnection) :
    SlotStep (.disconnected conn scanErr) c { c with conn := none, q := [], ready := false }

/-- **Every slot takes such a step.** -/
theorem slotStep {s : Link S} (h : s.Consistent) (e : LinkEvent S) (i : Fin S.maxConn) :
    SlotStep e (s.central.conns i) ((s.step e).central.conns i) := by
  have hstep := canStep h e
  generalize s.step e = s' at hstep ⊢
  cases hstep with
  | @connected conn secErr dmErr stopErr scanErr ha =>
    have hcentral : ((({ s with
        attempts := s.attempts.erase conn
        linked := insert conn s.linked } : Link S).takeSlot conn).setSecurity conn secErr
          dmErr).central = s.central.connected conn 0 :=
      (setSecurity_frame _ conn secErr dmErr).1.trans (central_takeSlot _ conn)
    simp only [scanStop, hcentral, Central.conns_connected]
    split
    next hslot => exact .taken (Central.conn_of_slotOf hslot)
    next => exact .same _ _
  | @completed conn closeErr scanErr named hd ht =>
    have hconns := Central.conns_discoveryCompleted s.central conn i
    split <;>
    · simp only [bleCentralScanStart, hconns]
      split
      next hslot => exact .ready (by rw [Central.conn_of_slotOf hslot]; simp)
      next => exact .same _ _
  | @early _ _ _ _ _ _ target hd he ht => cases target <;> exact .same _ _
  | @disconnected conn scanErr hl ht =>
    simp only [bleCentralScanStart, ref, Central.conns_disconnected]
    split
    next => exact .cleared _ _ _
    next => exact .same _ _
  | write data =>
    simp only [Central.write]
    split_ifs
    · exact .same _ _
    · dsimp only
      split
      next hr => exact .put data hr
      next => exact .same _ _
    · exact .same _ _
  | sendWork res =>
    simp only [Central.sendWorkHandler]
    split
    next => exact .send res _ (res i)
    next => exact .same _ _
  | dataSent j =>
    simp only [Central.dataSent]
    split
    next =>
      by_cases hij : i = j
      · subst hij
        simp only [Function.update_self]
        exact .dataSent i _
      · simp only [Function.update_of_ne hij]
        exact .same _ _
    next => exact .same _ _
  | _ => exact .same _ _

/-- A slot has a connection that it had, or one that was just made. -/
theorem SlotStep.of_conn {e : LinkEvent S} {c c' : NusCConnection} {conn : ℕ}
    (h : SlotStep e c c') (hc : c'.conn = some conn) :
    c.conn = some conn ∧ (c.ready → c'.ready) ∨ c.conn = none ∧
      ∃ secErr dmErr stopErr scanErr, e = .connected conn 0 secErr dmErr stopErr scanErr := by
  cases h with
  | same => exact .inl ⟨hc, id⟩
  | put data hr =>
    rw [NusCConnection.conn_msgqPut] at hc
    exact .inl ⟨hc, by rw [NusCConnection.ready_msgqPut]; exact id⟩
  | send res _ err =>
    rw [NusCConnection.conn_sendNext] at hc
    exact .inl ⟨hc, by rw [NusCConnection.ready_sendNext]; exact id⟩
  | dataSent => exact .inl ⟨hc, id⟩
  | taken hf =>
    obtain rfl := Option.some.inj hc
    exact .inr ⟨hf, _, _, _, _, rfl⟩
  | ready =>
    unfold NusCConnection.setReady at hc ⊢
    split at hc
    next hr => exact .inl ⟨hc, fun _ => by rwa [if_pos hr]⟩
    next hr => exact .inl ⟨hc, fun hready => absurd hready hr⟩
  | cleared => simp at hc

/-- A slot that is given back is not ready. -/
theorem SlotStep.free {e : LinkEvent S} {c c' : NusCConnection} (h : SlotStep e c c')
    (hc : c.conn = none → c.ready = false) (hn : c'.conn = none) : c'.ready = false := by
  cases h with
  | same => exact hc hn
  | put data hr =>
    rw [NusCConnection.conn_msgqPut] at hn
    rw [NusCConnection.ready_msgqPut, hc hn]
  | send res _ err =>
    rw [NusCConnection.conn_sendNext] at hn
    rw [NusCConnection.ready_sendNext, hc hn]
  | dataSent => exact hc hn
  | taken hf => simp at hn
  | ready hne =>
    refine absurd ?_ hne
    unfold NusCConnection.setReady at hn
    split at hn <;> exact hn
  | cleared => rfl

/-- With a free slot, a connection that is made has one. -/
theorem tracked_takeSlot (hfree : ∃ i, (s.central.conns i).conn = none) (conn : ℕ) :
    (s.takeSlot conn).Tracked conn := by
  obtain ⟨i, hi⟩ := hfree
  obtain ⟨j, hj⟩ := Option.ne_none_iff_exists'.mp fun hnone =>
    Central.slotOf_eq_none_iff.mp hnone i hi
  exact (tracked_connected (central_takeSlot s conn) hj conn).mpr (.inl rfl)

end Link

end Pyrinas
