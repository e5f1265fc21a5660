import Pyrinas.Ble.LinkSteps
import Pyrinas.Machinery.Run

/-!
# Ble/Zombies — no slot is held by a connection that nothing will free

Something always is to happen to a connection that is not ready: it is paired, or discovered, or it
was asked to disconnect.  Otherwise its slot is lost until the peer leaves by itself.

The callbacks lose a slot where they only log: `gatt_discover` if the discovery manager refuses,
`discovery_service_not_found`, a disconnection that is refused, and the early returns of
`discovery_completed`, which never give the discovery manager back.
-/

open Machinery

namespace Pyrinas

namespace Link

variable {S : CentralShape} {s s' : Link S} {conn : ℕ}

/-- The connection has a slot that is ready. -/
def Ready (s : Link S) (conn : ℕ) : Prop :=
  ∃ i, (s.central.conns i).conn = some conn ∧ (s.central.conns i).ready

/-- A connection is being paired or discovered, or was asked to disconnect. -/
def InHand (s : Link S) (conn : ℕ) : Prop :=
  conn ∈ s.pairing ∨ s.dm = some ⟨conn, true⟩ ∨ conn ∈ s.closing

/-- Every slot in use is ready or in hand, and the discovery manager is held only to discover. -/
structure NoZombies (s : Link S) : Prop where
  slots : ∀ i conn, (s.central.conns i).conn = some conn →
    (s.central.conns i).ready ∨ s.InHand conn
  released : ∀ d, s.dm = some d → d.discovering

/-- `gatt_discover` leaves the connection being discovered. -/
def Discovers (s : Link S) (conn : ℕ) (dmErr : ℤ) : Prop :=
  s.dm = none ∧ dmErr = 0 ∨ s.dm = some ⟨conn, true⟩

/-- No callback gives a connection up that nothing else takes care of. -/
def Cares (s : Link S) : LinkEvent S → Prop
  | .connected conn connErr secErr dmErr _ _ =>
    conn ∈ s.attempts → connErr = 0 → secErr ≠ 0 → (∃ i, (s.central.conns i).conn = none) →
      s.Discovers conn dmErr
  | .securityChanged conn err dmErr closeErr =>
    s.Tracked conn → s.Ready conn ∨ conn ∈ s.closing ∨
      if err = 0 then s.Discovers conn dmErr else s.dm = some ⟨conn, true⟩ ∨ closeErr = 0
  | .discoveryCompleted assignErr notifErr _ _ _ =>
    ∀ conn, s.dm = some ⟨conn, true⟩ → assignErr = 0 ∧ notifErr = 0
  | .discoveryServiceNotFound =>
    ∀ conn, s.dm = some ⟨conn, true⟩ → s.Tracked conn →
      s.Ready conn ∨ conn ∈ s.pairing ∨ conn ∈ s.closing
  | .discoveryErrorFound closeErr =>
    ∀ conn, s.dm = some ⟨conn, true⟩ → s.Tracked conn →
      s.Ready conn ∨ conn ∈ s.pairing ∨ conn ∈ s.closing ∨ closeErr = 0
  | _ => True

/-! ## What stays in hand -/

theorem Consistent.ready (h : Consistent s) {i : Fin S.maxConn}
    (hi : (s.central.conns i).conn = some conn) (hr : s.Ready conn) :
    (s.central.conns i).ready := by
  obtain ⟨j, hj, hready⟩ := hr
  rwa [h.distinct i j conn hi hj]

/-- A discovery that is asked for is under way iff it can be. -/
theorem dm_gattDiscover (ht : s.Tracked conn) (dmErr : ℤ) :
    (s.gattDiscover conn dmErr).dm = some ⟨conn, true⟩ ↔ s.Discovers conn dmErr := by
  unfold gattDiscover Discovers
  rcases s.dm with _ | d
  · by_cases h : dmErr = 0 <;> simp [h, ht]
  · simp

theorem InHand.gattDiscover {c : ℕ} (h : s.InHand c) (conn : ℕ) (dmErr : ℤ) :
    (s.gattDiscover conn dmErr).InHand c := by
  rcases h with hp | hd | hc
  · exact .inl hp
  · refine .inr (.inl ?_)
    simp [Link.gattDiscover, hd]
  · exact .inr (.inr hc)

theorem mem_closing_forceDisconnect {c : ℕ} {closeErr : ℤ} :
    c ∈ (s.forceDisconnect conn closeErr).closing ↔
      c ∈ s.closing ∨ c = conn ∧ conn ∈ s.linked ∧ closeErr = 0 := by
  unfold forceDisconnect
  dsimp only
  split_ifs with h
  · rw [Finset.mem_insert]
    tauto
  · tauto

/-- Only the answer to the pairing ends it. -/
theorem inHand_erase_pairing {c : ℕ} (hne : c ≠ conn) :
    InHand { s with pairing := s.pairing.erase conn } c ↔ s.InHand c := by
  simp [InHand, hne]

/-- The discovery manager has one connection in hand. -/
theorem InHand.of_other {c : ℕ} (h : s.InHand c) (hd : s.dm = some ⟨conn, true⟩) (hne : c ≠ conn) :
    c ∈ s.pairing ∨ c ∈ s.closing := by
  rcases h with hp | hdm | hc
  · exact .inl hp
  · simp [hd, Ne.symm hne] at hdm
  · exact .inr hc

/-- A completed discovery makes its slot ready. -/
theorem ready_discoveryCompleted (ht : s.Tracked conn)
    (hc : s'.central = s.central.discoveryCompleted conn 0) : s'.Ready conn := by
  obtain ⟨i, hi⟩ := tracked_iff.mp ht
  refine ⟨i, ?_, ?_⟩
  · rw [hc, Central.conn_discoveryCompleted, Central.conn_of_slotOf hi]
  · rw [hc, Central.conns_discoveryCompleted, if_pos hi]
    unfold NusCConnection.setReady
    split
    next hr => exact hr
    next => rfl

theorem InHand.of_pairing {c : ℕ} (h : c ∈ s.pairing) : s.InHand c := .inl h

theorem InHand.of_dm {c : ℕ} (h : s.dm = some ⟨c, true⟩) : s.InHand c := .inr (.inl h)

theorem InHand.of_closing {c : ℕ} (h : c ∈ s.closing) : s.InHand c := .inr (.inr h)

/-- The sets are what they were. -/
theorem InHand.of_sets {c : ℕ} (h : c ∈ s.pairing ∨ c ∈ s.closing) (hp : s'.pairing = s.pairing)
    (hc : s'.closing = s.closing) : s'.InHand c := by
  rw [InHand, hp, hc]
  exact h.imp_right .inr

theorem InHand.forceDisconnect {c : ℕ} (h : s.InHand c) (conn : ℕ) (closeErr : ℤ) :
    (s.forceDisconnect conn closeErr).InHand c := by
  rcases h with hp | hd | hc
  · exact .of_pairing hp
  · exact .of_dm hd
  · exact .of_closing (mem_closing_forceDisconnect.mpr (.inl hc))

/-- A disconnection that is accepted. -/
theorem inHand_forceDisconnect (hl : conn ∈ s.linked) {closeErr : ℤ} (hclose : closeErr = 0) :
    (s.forceDisconnect conn closeErr).InHand conn :=
  .of_closing (mem_closing_forceDisconnect.mpr (.inr ⟨rfl, hl, hclose⟩))

/-- A connection that is made takes nothing out of hand. -/
theorem inHand_takeSlot {c : ℕ} (hin : s.InHand c) (conn : ℕ) (secErr dmErr : ℤ) :
    (({ s with
      attempts := s.attempts.erase conn
      linked := insert conn s.linked }.takeSlot conn).setSecurity conn secErr dmErr).InHand c := by
  obtain ⟨-, -, hpairing, hclosing, hdm, -⟩ := takeSlot_frame { s with
    attempts := s.attempts.erase conn
    linked := insert conn s.linked } conn
  have htake : ({ s with
      attempts := s.attempts.erase conn
      linked := insert conn s.linked }.takeSlot conn).InHand c := by
    rw [InHand, hpairing, hclosing, hdm]
    exact hin
  unfold setSecurity
  split
  next => exact htake.gattDiscover conn dmErr
  next =>
    rcases htake with hp | hd | hc
    · exact .of_pairing (Finset.mem_insert_of_mem hp)
    · exact .of_dm hd
    · exact .of_closing hc

/-- A connection that was paired is discovered, if nothing else is to happen to it. -/
theorem inHand_secured {dmErr closeErr : ℤ} (hok : s.Cares (.securityChanged conn 0 dmErr closeErr))
    {c : ℕ} (ht : s.Tracked c) (hin : s.InHand c) :
    s.Ready c ∨ ({ s with pairing := s.pairing.erase conn }.gattDiscover conn dmErr).InHand c := by
  by_cases hc : c = conn
  · subst hc
    rcases hok ht with hr | hclosing | hdisc
    · exact .inl hr
    · exact .inr (.of_closing hclosing)
    · rw [if_pos rfl] at hdisc
      refine .inr (.of_dm ?_)
      exact (dm_gattDiscover (s := { s with pairing := s.pairing.erase c }) ht dmErr).mpr hdisc
  · exact .inr (((inHand_erase_pairing hc).mpr hin).gattDiscover conn dmErr)

/-- One that was not is asked to disconnect. -/
theorem inHand_notSecured {err dmErr closeErr : ℤ} (hl : conn ∈ s.linked) (he : err ≠ 0)
    (hok : s.Cares (.securityChanged conn err dmErr closeErr)) {c : ℕ} (ht : s.Tracked c)
    (hin : s.InHand c) :
    s.Ready c ∨
      ({ s with pairing := s.pairing.erase conn }.forceDisconnect conn closeErr).InHand c := by
  by_cases hc : c = conn
  · subst hc
    rcases hok ht with hr | hclosing | hask
    · exact .inl hr
    · refine .inr (InHand.forceDisconnect ?_ c closeErr)
      exact .of_closing hclosing
    · rw [if_neg he] at hask
      rcases hask with hd | hclose
      · refine .inr (InHand.forceDisconnect ?_ c closeErr)
        exact .of_dm hd
      · refine .inr (inHand_forceDisconnect ?_ hclose)
        exact hl
  · exact .inr (((inHand_erase_pairing hc).mpr hin).forceDisconnect conn closeErr)

/-- So is one whose discovery fails. -/
theorem inHand_errorFound {closeErr : ℤ} (hs : s.Consistent) (hd : s.dm = some ⟨conn, true⟩)
    (hok : s.Cares (.discoveryErrorFound closeErr)) {c : ℕ} (ht : s.Tracked c) (hin : s.InHand c) :
    s.Ready c ∨ ({ s with dm := none }.forceDisconnect conn closeErr).InHand c := by
  by_cases hc : c = conn
  · subst hc
    rcases hok c hd ht with hr | hp | hclosing | hclose
    · exact .inl hr
    · refine .inr (InHand.forceDisconnect ?_ c closeErr)
      exact .of_pairing hp
    · refine .inr (InHand.forceDisconnect ?_ c closeErr)
      exact .of_closing hclosing
    · refine .inr (inHand_forceDisconnect ?_ hclose)
      exact hs.linked c ht
  · have hin' : InHand { s with dm := none } c := .of_sets (hin.of_other hd hc) rfl rfl
    exact .inr (hin'.forceDisconnect conn closeErr)

/-- The end of another connection. -/
theorem inHand_disconnected {c : ℕ} (hne : c ≠ conn) (hin : s.InHand c)
    (hp : s'.pairing = s.pairing.erase conn) (hc : s'.closing = s.closing.erase conn)
    (hd : s'.dm = s.dm) : s'.InHand c := by
  rw [InHand, hp, hc, hd, Finset.mem_erase, Finset.mem_erase]
  exact hin.imp (⟨hne, ·⟩) (Or.imp_right (⟨hne, ·⟩))

/-- **What is in hand stays so**, unless it gets ready or loses its slot. -/
theorem inHand_step (hs : s.Consistent) {e : LinkEvent S} (hok : s.Cares e) {c : ℕ}
    (ht : s.Tracked c) (ht' : (s.step e).Tracked c) (hin : s.InHand c) :
    s.Ready c ∨ (s.step e).Ready c ∨ (s.step e).InHand c := by
  have hstep := canStep hs e
  generalize s.step e = s' at hstep ht' ⊢
  cases hstep with
  | @connected conn secErr dmErr stopErr scanErr ha =>
    exact .inr (.inr (inHand_takeSlot hin conn secErr dmErr))
  | secured hl => exact (inHand_secured hok ht hin).imp_right .inr
  | notSecured hl he => exact (inHand_notSecured hl he hok ht hin).imp_right .inr
  | @completed conn closeErr scanErr named hd htr =>
    by_cases hc : c = conn
    · subst hc
      refine .inr (.inl ?_)
      split <;> exact ready_discoveryCompleted htr rfl
    · refine .inr (.inr ?_)
      split <;> exact .of_sets (hin.of_other hd hc) rfl rfl
  | @completedUntracked conn closeErr scanErr named hd htr =>
    have hc : c ≠ conn := fun heq => htr (heq ▸ ht)
    exact .inr (.inr (.of_sets (hin.of_other hd hc) rfl rfl))
  | @early conn assignErr notifErr closeErr scanErr named target hd he htarget =>
    exact absurd (hok conn hd) he
  | @serviceNotFound conn hd =>
    refine .imp_right .inr ?_
    by_cases hc : c = conn
    · subst hc
      exact (hok c hd ht).imp_right fun h => .of_sets h rfl rfl
    · exact .inr (.of_sets (hin.of_other hd hc) rfl rfl)
  | errorFound hd => exact (inHand_errorFound hs hd hok ht hin).imp_right .inr
  | @disconnected conn scanErr hl htr =>
    have hc : c ≠ conn := ((tracked_disconnected hs rfl c).mp ht').1
    exact .inr (.inr (inHand_disconnected hc hin rfl rfl rfl))
  | @disconnectedUntracked conn scanErr hl htr =>
    have hc : c ≠ conn := fun heq => htr (heq ▸ ht)
    exact .inr (.inr (inHand_disconnected hc hin rfl rfl rfl))
  | _ => exact .inr (.inr hin)

/-- What `connected` asks for, for a connection that takes a slot. -/
theorem inHand_setSecurity (ht : s.Tracked conn) (secErr dmErr : ℤ) :
    (s.setSecurity conn secErr dmErr).InHand conn ↔
      secErr = 0 ∨ conn ∈ s.pairing ∨ s.Discovers conn dmErr ∨ conn ∈ s.closing := by
  unfold setSecurity
  split
  next hsec =>
    rw [InHand, dm_gattDiscover ht]
    exact ⟨.inr, fun h => h.resolve_left hsec⟩
  next hsec => exact iff_of_true (.inl (Finset.mem_insert_self _ _)) (.inl (not_not.mp hsec))

/-- A connection that takes a slot is in hand if it is paired, or discovered instead. -/
theorem inHand_connected {secErr dmErr stopErr scanErr : ℤ} (ha : conn ∈ s.attempts)
    (hfree : ∃ i, (s.central.conns i).conn = none) :
    (s.step (.connected conn 0 secErr dmErr stopErr scanErr)).InHand conn ↔
      secErr = 0 ∨ conn ∈ s.pairing ∨ s.Discovers conn dmErr ∨ conn ∈ s.closing := by
  obtain ⟨-, -, hpairing, hclosing, hdm, -⟩ := takeSlot_frame { s with
    attempts := s.attempts.erase conn
    linked := insert conn s.linked } conn
  have ht : ({ s with
      attempts := s.attempts.erase conn
      linked := insert conn s.linked }.takeSlot conn).Tracked conn := by
    apply tracked_takeSlot
    exact hfree
  simp only [step, if_pos ha, Link.connected, ne_eq, not_true_eq_false, if_false, if_true]
  refine Iff.trans ?_ ((inHand_setSecurity ht secErr dmErr).trans ?_)
  · exact Iff.rfl
  · rw [hpairing, hclosing, Discovers, hdm]
    exact Iff.rfl

/-- The discovery manager is given back. -/
theorem released_step (hs : s.Consistent) {e : LinkEvent S} (hok : s.Cares e)
    (h : ∀ d, s.dm = some d → d.discovering) :
    ∀ d, (s.step e).dm = some d → d.discovering := by
  have hdiscover : ∀ (t : Link S) (conn : ℕ) (dmErr : ℤ),
      (∀ d, t.dm = some d → d.discovering) →
      ∀ d, (t.gattDiscover conn dmErr).dm = some d → d.discovering := by
    intro t conn dmErr ht d hd
    unfold gattDiscover at hd
    dsimp only at hd
    split at hd
    next => exact Option.some.inj hd ▸ rfl
    next => exact ht d hd
  have hstep := canStep hs e
  generalize s.step e = s' at hstep ⊢
  cases hstep with
  | @connected conn secErr dmErr stopErr scanErr ha =>
    obtain ⟨-, -, -, -, hdm, -⟩ := takeSlot_frame { s with
      attempts := s.attempts.erase conn
      linked := insert conn s.linked } conn
    unfold setSecurity
    split
    · exact hdiscover _ conn dmErr (by rw [hdm]; exact h)
    · exact (show ∀ d, (Link.takeSlot _ conn).dm = some d → d.discovering by rw [hdm]; exact h)
  | @secured conn dmErr closeErr hl => exact hdiscover _ conn dmErr h
  | completed hd ht => split <;> exact fun d hd => absurd hd (by simp [bleCentralScanStart])
  | completedUntracked hd ht => exact fun d hd => absurd hd (by simp)
  | @early conn _ _ _ _ _ target hd he ht => exact absurd (hok conn hd) he
  | serviceNotFound hd => exact fun d hd => absurd hd (by simp)
  | errorFound hd => exact fun d hd => absurd hd (by simp [forceDisconnect])
  | _ => exact h

/-- **A step that cares leaves no zombie.** -/
theorem noZombies_step (hs : s.Consistent) (h : s.NoZombies) {e : LinkEvent S} (hok : s.Cares e) :
    (s.step e).NoZombies := by
  refine ⟨?_, released_step hs hok h.released⟩
  intro i c hc
  rcases (slotStep hs e i).of_conn hc with ⟨hi, hready⟩ | ⟨hi, secErr, dmErr, stopErr, scanErr, rfl⟩
  · rcases h.slots i c hi with hr | hin
    · exact .inl (hready hr)
    · rcases inHand_step hs hok ⟨i, hi⟩ ⟨i, hc⟩ hin with hr | hr | hin
      · exact .inl (hready (hs.ready hi hr))
      · exact .inl ((consistent_step hs e).ready hc hr)
      · exact .inr hin
  · by_cases ha : c ∈ s.attempts
    · refine .inr ((inHand_connected ha ⟨i, hi⟩).mpr ?_)
      by_cases hsec : secErr = 0
      · exact .inl hsec
      · exact .inr (.inr (.inl (hok ha rfl hsec ⟨i, hi⟩)))
    · simp only [step, if_neg ha] at hc
      simp [hi] at hc

/-! ## What is let go shows -/

/-- Only what is connected is paired or asked to disconnect. -/
def Held (s : Link S) : Prop := ∀ c, c ∈ s.pairing ∨ c ∈ s.closing → c ∈ s.linked

theorem Held.erase_pairing (h : s.Held) (conn : ℕ) :
    Held { s with pairing := s.pairing.erase conn } := by
  rintro c (hp | hc)
  · exact h c (.inl (Finset.mem_of_mem_erase hp))
  · exact h c (.inr hc)

theorem Held.forceDisconnect (h : s.Held) (conn : ℕ) (closeErr : ℤ) :
    (s.forceDisconnect conn closeErr).Held := by
  rintro c (hp | hc)
  · exact h c (.inl hp)
  · rcases mem_closing_forceDisconnect.mp hc with hold | ⟨rfl, hnew, -⟩
    · exact h c (.inr hold)
    · exact hnew

/-- A connection that is made may be paired. -/
theorem Held.connected (h : s.Held) (conn : ℕ) (hl : s'.linked = insert conn s.linked)
    (hp : s'.pairing ⊆ insert conn s.pairing) (hc : s'.closing = s.closing) : s'.Held := by
  intro c hmem
  rw [hc] at hmem
  rw [hl, Finset.mem_insert]
  rcases hmem with hpairing | hclosing
  · rcases Finset.mem_insert.mp (hp hpairing) with rfl | hold
    · exact .inl rfl
    · exact .inr (h c (.inl hold))
  · exact .inr (h c (.inr hclosing))

/-- A connection that ends is neither. -/
theorem Held.disconnected (h : s.Held) (hl : s'.linked = s.linked.erase conn)
    (hp : s'.pairing = s.pairing.erase conn) (hc : s'.closing = s.closing.erase conn) :
    s'.Held := by
  intro c hmem
  rw [hp, hc, Finset.mem_erase, Finset.mem_erase, ← and_or_left] at hmem
  rw [hl, Finset.mem_erase]
  exact ⟨hmem.1, h c hmem.2⟩

theorem pairing_setSecurity_subset (s : Link S) (conn : ℕ) (secErr dmErr : ℤ) :
    (s.setSecurity conn secErr dmErr).pairing ⊆ insert conn s.pairing := by
  unfold setSecurity
  split
  · exact Finset.subset_insert conn s.pairing
  · exact Finset.Subset.refl _

theorem held_step (hs : s.Consistent) (h : s.Held) (e : LinkEvent S) : (s.step e).Held := by
  have hstep := canStep hs e
  generalize s.step e = s' at hstep ⊢
  cases hstep with
  | @connected conn secErr dmErr stopErr scanErr ha =>
    refine h.connected conn ?_ ?_ ?_
    · exact (setSecurity_frame _ conn secErr dmErr).2.1.trans (takeSlot_frame _ conn).1
    · refine (pairing_setSecurity_subset _ conn secErr dmErr).trans ?_
      rw [(takeSlot_frame _ conn).2.2.1]
    · exact (setSecurity_frame _ conn secErr dmErr).2.2.2.1.trans (takeSlot_frame _ conn).2.2.2.1
  | secured hl => exact h.erase_pairing _
  | notSecured hl he => exact (h.erase_pairing _).forceDisconnect _ _
  | errorFound hd => exact h.forceDisconnect _ _
  | @early _ _ _ closeErr _ _ target hd he ht =>
    cases target with
    | none => exact h
    | some conn => exact h.forceDisconnect conn closeErr
  | completed hd ht => split <;> exact h
  | disconnected hl ht => exact h.disconnected rfl rfl rfl
  | disconnectedUntracked hl ht => exact h.disconnected rfl rfl rfl
  | _ => exact h

/-- A free slot is not ready. -/
def FreeNotReady (s : Link S) : Prop :=
  ∀ i, (s.central.conns i).conn = none → (s.central.conns i).ready = false

theorem freeNotReady_step (hs : s.Consistent) (h : s.FreeNotReady) (e : LinkEvent S) :
    (s.step e).FreeNotReady :=
  fun i => (slotStep hs e i).free (h i)

theorem not_noZombies_connected (hs : s.Consistent) (hheld : s.Held) (hfnr : s.FreeNotReady)
    {connErr secErr dmErr stopErr scanErr : ℤ}
    (hbad : ¬ s.Cares (.connected conn connErr secErr dmErr stopErr scanErr)) :
    ¬ (s.step (.connected conn connErr secErr dmErr stopErr scanErr)).NoZombies := by
  intro hz
  simp only [Cares, Classical.not_imp] at hbad
  obtain ⟨ha, rfl, hsec, hfree, hdisc⟩ := hbad
  obtain ⟨i, hi⟩ := Option.ne_none_iff_exists'.mp fun hnone =>
    hfree.elim (Central.slotOf_eq_none_iff.mp hnone)
  have hcentral : (s.step (.connected conn 0 secErr dmErr stopErr scanErr)).central
      = s.central.connected conn 0 := by
    simp [central_step, centralEvent, ha, Central.step]
  have hslot := hz.slots i conn (by rw [hcentral, conn_connected, if_pos hi])
  rw [hcentral, Central.conns_connected, if_pos hi, inHand_connected ha hfree] at hslot
  rcases hslot with hr | hsec0 | hp | hd | hc
  · simp [hfnr i (Central.conn_of_slotOf hi)] at hr
  · exact hsec hsec0
  · exact hs.fresh conn ha (hheld conn (.inl hp))
  · exact hdisc hd
  · exact hs.fresh conn ha (hheld conn (.inr hc))

theorem not_noZombies_securityChanged (hs : s.Consistent) {err dmErr closeErr : ℤ}
    (hbad : ¬ s.Cares (.securityChanged conn err dmErr closeErr)) :
    ¬ (s.step (.securityChanged conn err dmErr closeErr)).NoZombies := by
  intro hz
  simp only [Cares, Classical.not_imp, not_or] at hbad
  obtain ⟨⟨i, hi⟩, hr, hclosing, hask⟩ := hbad
  have hl : conn ∈ s.linked := hs.linked conn ⟨i, hi⟩
  have hnot : ¬ (s.central.conns i).ready := fun hready => hr ⟨i, hi, hready⟩
  simp only [step, if_pos hl, Link.securityChanged] at hz
  split at hz
  next he =>
    rw [if_pos he] at hask
    split at hz
    next ht =>
      rcases hz.slots i conn hi with hready | hp | hd | hc
      · exact hnot hready
      · exact Finset.notMem_erase conn s.pairing hp
      · exact hask ((dm_gattDiscover ht dmErr).mp hd)
      · exact hclosing hc
    next ht => exact ht ⟨i, hi⟩
  next he =>
    rw [if_neg he, not_or] at hask
    rcases hz.slots i conn hi with hready | hp | hd | hc
    · exact hnot hready
    · exact Finset.notMem_erase conn s.pairing hp
    · exact hask.1 hd
    · rcases mem_closing_forceDisconnect.mp hc with hold | ⟨-, -, hclose⟩
      · exact hclosing hold
      · exact hask.2 hclose

theorem not_noZombies_discoveryErrorFound {closeErr : ℤ}
    (hbad : ¬ s.Cares (.discoveryErrorFound closeErr)) :
    ¬ (s.step (.discoveryErrorFound closeErr)).NoZombies := by
  intro hz
  simp only [Cares, not_forall, not_or] at hbad
  obtain ⟨conn, hd, ⟨i, hi⟩, hr, hp, hclosing, hclose⟩ := hbad
  simp only [step, hd] at hz
  rcases hz.slots i conn hi with hready | hpairing | hdm | hc
  · exact hr ⟨i, hi, hready⟩
  · exact hp hpairing
  · simp [forceDisconnect] at hdm
  · rcases mem_closing_forceDisconnect.mp hc with hold | ⟨-, -, hclose0⟩
    · exact hclosing hold
    · exact hclose hclose0

/-- **A step that does not care leaves a zombie.** -/
theorem not_noZombies_step (hs : s.Consistent) (hheld : s.Held) (hfnr : s.FreeNotReady)
    {e : LinkEvent S} (hbad : ¬ s.Cares e) : ¬ (s.step e).NoZombies := by
  cases e with
  | connected => exact not_noZombies_connected hs hheld hfnr hbad
  | securityChanged => exact not_noZombies_securityChanged hs hbad
  | discoveryCompleted assignErr notifErr closeErr scanErr named =>
    intro hz
    simp only [Cares, not_forall] at hbad
    obtain ⟨conn, hd, he⟩ := hbad
    have hdm : (s.step (.discoveryCompleted assignErr notifErr closeErr scanErr named)).dm
        = some ⟨conn, false⟩ := by
      simp only [step, hd, discoveryCompleted_early he]
      cases (if assignErr ≠ 0 then named else some conn) <;> rfl
    simpa using hz.released _ hdm
  | discoveryServiceNotFound =>
    intro hz
    simp only [Cares, not_forall, not_or] at hbad
    obtain ⟨conn, hd, ⟨i, hi⟩, hr, hp, hclosing⟩ := hbad
    simp only [step, hd] at hz
    rcases hz.slots i conn hi with hready | hpairing | hdm | hc
    · exact hr ⟨i, hi, hready⟩
    · exact hp hpairing
    · simp at hdm
    · exact hclosing hc
  | discoveryErrorFound => exact not_noZombies_discoveryErrorFound hbad
  | _ => exact fun _ => hbad trivial

/-- **No slot is lost exactly while the callbacks give no connection up.** -/
theorem noZombies_iff_cares (scanErr : ℤ) (es : List (LinkEvent S)) :
    Always step NoZombies (bleCentralReady S scanErr) es ↔
      Meets step Cares (bleCentralReady S scanErr) es := by
  have hready : (bleCentralReady S scanErr).NoZombies :=
    ⟨fun _ _ h => absurd h.symm (Option.some_ne_none _),
      fun _ h => absurd h.symm (Option.some_ne_none _)⟩
  have hheld : (bleCentralReady S scanErr).Held := fun c h =>
    h.elim (absurd · (Finset.notMem_empty c)) (absurd · (Finset.notMem_empty c))
  refine always_iff_meets (I := fun s => s.Consistent ∧ s.Held ∧ s.FreeNotReady ∧ s.NoZombies)
    ?_ ?_ ?_ ⟨consistent_bleCentralReady scanErr, hheld, fun _ _ => rfl, hready⟩ es
  · rintro s e ⟨hs, hh, hf, hz⟩ hok
    exact ⟨consistent_step hs e, held_step hs hh e, freeNotReady_step hs hf e,
      noZombies_step hs hz hok⟩
  · exact fun s h => h.2.2.2
  · exact fun s e h hbad => not_noZombies_step h.1 h.2.1 h.2.2.1 hbad

/-- A peer without the service keeps its slot. -/
theorem not_noZombies_service_not_found :
    ¬ Always step NoZombies (bleCentralReady ⟨2, 4, by decide⟩ 0)
      [.scanFilterMatch 0 0 7 none, .connected 7 0 0 0 0 0, .securityChanged 7 0 0 0,
        .discoveryServiceNotFound] := by
  intro h
  have hslot := h.last.slots 0 7 (by decide)
  revert hslot
  unfold InHand
  decide

end Link

end Pyrinas
