import Pyrinas.Ble.LinkSteps
import Pyrinas.Machinery.Run

/-!
# Ble/Isolation — a slot keeps its peers apart

A connection has one slot and the module one reference on it; a free slot is not ready and holds no
payloads, since a disconnection purges the queue.  So what is sent was written for the peer it is
sent to, however often the slot changes hands.

The exception is `scan_filter_match`: if `bt_conn_le_create` fails it drops a reference on a pointer
that was never written.

    tenure 1: write a, write b, send a ─▸ disconnected, purge b ─▸ tenure 2: write c, send c
-/

open Machinery

namespace Pyrinas

/-- When a payload was queued: in which tenure of the slot, and whether the slot was ready. -/
structure Stamp where
  payload : Payload
  tenure : ℕ
  ready : Bool
  deriving DecidableEq

/-- A payload that was sent, the tenure it was sent in, and the stamp it had. -/
structure Sent where
  payload : Payload
  tenure : ℕ
  stamp : Option Stamp
  deriving DecidableEq

/-- The link; for every slot how many connections it has had, and the stamps of the payloads in its
queue; and what was sent. -/
structure Isolation (S : CentralShape) where
  link : Link S
  tenure : Fin S.maxConn → ℕ
  stamps : Fin S.maxConn → List Stamp
  sent : List Sent

namespace Isolation

variable {S : CentralShape}

/-- `ble_central_ready` -/
def bleCentralReady (S : CentralShape) (scanErr : ℤ) : Isolation S :=
  ⟨.bleCentralReady S scanErr, fun _ => 0, fun _ => [], []⟩

/-- A slot that gets a connection begins a new tenure. -/
def nextTenure (before after : NusCConnection) (tenure : ℕ) : ℕ :=
  if after.conn ≠ before.conn ∧ after.conn ≠ none then tenure + 1 else tenure

/-- A payload that is queued is stamped, and the stamp goes with it. -/
def nextStamps (before after : NusCConnection) (tenure : ℕ) (stamps : List Stamp) :
    LinkEvent S → List Stamp
  | .write data =>
    if before.q.length < after.q.length then stamps ++ [⟨data, tenure, before.ready⟩] else stamps
  | .sendWork _ => if after.q.length < before.q.length then stamps.tail else stamps
  | _ => if after.q = [] then [] else stamps

/-- What a slot sends: the payload that leaves the queue when the work runs. -/
def nextSent (before after : NusCConnection) (tenure : ℕ) (stamps : List Stamp) :
    LinkEvent S → List Sent
  | .sendWork _ =>
    match before.q with
    | payload :: _ =>
      if after.q.length < before.q.length then [⟨payload, tenure, stamps.head?⟩] else []
    | [] => []
  | _ => []

/-- One event, and the record of it. -/
def step (x : Isolation S) (e : LinkEvent S) : Isolation S :=
  let before := x.link.central.conns
  let after := (x.link.step e).central.conns
  { link := x.link.step e
    tenure := fun i => nextTenure (before i) (after i) (x.tenure i)
    stamps := fun i => nextStamps (before i) (after i) (x.tenure i) (x.stamps i) e
    sent := x.sent ++ (List.finRange S.maxConn).flatMap fun i =>
      nextSent (before i) (after i) (x.tenure i) (x.stamps i) e }

/-- No connection has two slots; the references are one for every connection with a slot; a free
slot is not ready and its queue is empty; and everything that was sent was queued in the same tenure
while the slot was ready. -/
structure Isolated (x : Isolation S) : Prop where
  oneSlot : ∀ i j conn, (x.link.central.conns i).conn = some conn →
    (x.link.central.conns j).conn = some conn → i = j
  refs : ∀ conn, x.link.refs (some conn) = if x.link.Tracked conn then 1 else 0
  noOtherRef : x.link.refs none = 0
  free : ∀ i, (x.link.central.conns i).conn = none →
    (x.link.central.conns i).ready = false ∧ (x.link.central.conns i).q = []
  sent : ∀ m ∈ x.sent, m.stamp = some ⟨m.payload, m.tenure, true⟩

/-- No scan match whose connection cannot be created. -/
def Creates (x : Isolation S) : LinkEvent S → Prop
  | .scanFilterMatch _ createErr _ _ => x.link.scanning → createErr = 0
  | _ => True

/-! ## One slot -/

/-- A slot and the record of it: a free slot is not ready and empty, every payload has its stamp,
and the stamps are of this tenure, made while the slot was ready. -/
structure SlotSound (c : NusCConnection) (tenure : ℕ) (stamps : List Stamp) : Prop where
  free : c.conn = none → c.ready = false ∧ c.q = []
  parallel : stamps.map Stamp.payload = c.q
  stamped : ∀ stamp ∈ stamps, stamp.tenure = tenure ∧ stamp.ready = true

section Slot

variable {e : LinkEvent S} {c c' : NusCConnection} {tenure : ℕ} {stamps : List Stamp}

/-- The queue and the connection are what they were. -/
theorem SlotSound.of_same (h : SlotSound c tenure stamps) (hq : c'.q = c.q) (hc : c'.conn = c.conn)
    (hr : c'.conn = none → c'.ready = false) (e : LinkEvent S) :
    SlotSound c' (nextTenure c c' tenure) (nextStamps c c' tenure stamps e) := by
  have hten : nextTenure c c' tenure = tenure := by simp [nextTenure, hc]
  have hst : nextStamps c c' tenure stamps e = stamps := by
    have hempty : c'.q = [] → stamps = [] := fun hnil => by
      simpa [← hq, hnil] using h.parallel
    cases e <;> simp only [nextStamps, hq, lt_irrefl, if_false] <;> split_ifs <;> simp_all
  rw [hten, hst]
  exact ⟨fun hn => ⟨hr hn, hq ▸ (h.free (hc ▸ hn)).2⟩, hq ▸ h.parallel, h.stamped⟩

/-- A payload is queued with a stamp of now. -/
theorem SlotSound.put (h : SlotSound c tenure stamps) (data : Payload) (hr : c.ready) :
    SlotSound (c.msgqPut data) (nextTenure c (c.msgqPut data) tenure)
      (nextStamps c (c.msgqPut data) tenure stamps (LinkEvent.write (S := S) data)) := by
  have hten : nextTenure c (c.msgqPut data) tenure = tenure := by simp [nextTenure]
  have hfree : (c.msgqPut data).conn = none → (c.msgqPut data).ready = false := by
    rw [NusCConnection.conn_msgqPut, NusCConnection.ready_msgqPut]
    exact fun hn => (h.free hn).1
  by_cases hroom : c.q.length < bleCentralQueueSize
  · have hq : (c.msgqPut data).q = c.q ++ [data] := by
      rw [NusCConnection.q_msgqPut, if_pos hroom]
    have hst : nextStamps c (c.msgqPut data) tenure stamps (LinkEvent.write (S := S) data)
        = stamps ++ [⟨data, tenure, true⟩] := by
      simp [nextStamps, hq, hr]
    rw [hten, hst]
    refine ⟨fun hn => ?_, ?_, ?_⟩
    · rw [NusCConnection.conn_msgqPut] at hn
      simp [(h.free hn).1] at hr
    · rw [List.map_append, h.parallel, hq]
      rfl
    · intro stamp hmem
      rcases List.mem_append.mp hmem with hold | hnew
      · exact h.stamped stamp hold
      · obtain rfl := List.mem_singleton.mp hnew
        exact ⟨rfl, rfl⟩
  · have hq : (c.msgqPut data).q = c.q := by rw [NusCConnection.q_msgqPut, if_neg hroom]
    exact h.of_same hq (c.conn_msgqPut data) hfree _

/-- A payload leaves with its stamp. -/
theorem SlotSound.send (h : SlotSound c tenure stamps) (res : Fin S.maxConn → ℤ) (err : ℤ) :
    SlotSound (c.sendNext err) (nextTenure c (c.sendNext err) tenure)
      (nextStamps c (c.sendNext err) tenure stamps (LinkEvent.sendWork res)) := by
  have hfree : (c.sendNext err).conn = none → (c.sendNext err).ready = false := by
    rw [NusCConnection.conn_sendNext, NusCConnection.ready_sendNext]
    exact fun hn => (h.free hn).1
  by_cases hidle : c.ready = false ∨ c.conn = none
  · have hq : (c.sendNext err).q = c.q := by rw [NusCConnection.q_sendNext, if_pos hidle]
    exact h.of_same hq (c.conn_sendNext err) hfree _
  · have hq : (c.sendNext err).q = c.q.tail := by rw [NusCConnection.q_sendNext, if_neg hidle]
    have hten : nextTenure c (c.sendNext err) tenure = tenure := by simp [nextTenure]
    have hst : nextStamps c (c.sendNext err) tenure stamps (LinkEvent.sendWork res)
        = stamps.tail := by
      have hpar := h.parallel
      simp only [nextStamps, hq]
      cases hcq : c.q with
      | nil =>
        obtain rfl : stamps = [] := by simpa [hcq] using hpar
        rfl
      | cons payload q => simp
    rw [hten, hst]
    refine ⟨fun hn => ⟨hfree hn, ?_⟩, ?_, ?_⟩
    · rw [NusCConnection.conn_sendNext] at hn
      rw [hq, (h.free hn).2, List.tail_nil]
    · rw [hq, ← h.parallel, List.map_tail]
    · exact fun stamp hmem => h.stamped stamp (List.mem_of_mem_tail hmem)

/-- **A step keeps a slot sound.** -/
theorem SlotSound.step (h : SlotSound c tenure stamps) (hs : Link.SlotStep e c c') :
    SlotSound c' (nextTenure c c' tenure) (nextStamps c c' tenure stamps e) := by
  cases hs with
  | same => exact h.of_same rfl rfl (fun hn => (h.free hn).1) e
  | put data hr => exact h.put data hr
  | send res _ err => exact h.send res err
  | dataSent i =>
    refine SlotSound.of_same h ?_ ?_ ?_ _
    · rfl
    · rfl
    · exact fun hn => (h.free hn).1
  | taken hf =>
    -- nothing is left of an earlier tenure
    have hst : stamps = [] := by simpa [(h.free hf).2] using h.parallel
    subst hst
    refine ⟨fun hn => by simp at hn, ?_, ?_⟩
    · simp [nextStamps, (h.free hf).2]
    · simp [nextStamps]
  | ready hc =>
    have hframe : c.setReady.q = c.q ∧ c.setReady.conn = c.conn := by
      unfold NusCConnection.setReady
      split <;> exact ⟨rfl, rfl⟩
    exact h.of_same hframe.1 hframe.2 (fun hn => absurd (hframe.2.symm.trans hn) hc) _
  | cleared conn scanErr =>
    refine ⟨fun _ => ⟨rfl, rfl⟩, ?_, ?_⟩
    · simp [nextStamps]
    · simp [nextStamps]

/-- **What is sent has a stamp of this tenure.** -/
theorem SlotSound.sent (h : SlotSound c tenure stamps) (e : LinkEvent S) :
    ∀ m ∈ nextSent c c' tenure stamps e, m.stamp = some ⟨m.payload, m.tenure, true⟩ := by
  intro m hm
  cases e with
  | sendWork res =>
    simp only [nextSent] at hm
    split at hm
    next payload q hq =>
      have hpar := h.parallel
      rw [hq] at hpar
      obtain ⟨stamp, rest, rfl, rfl, -⟩ := List.map_eq_cons_iff.mp hpar
      obtain ⟨rfl, hready⟩ := h.stamped stamp List.mem_cons_self
      split at hm
      next =>
        obtain rfl := List.mem_singleton.mp hm
        rw [← hready]
        rfl
      next => simp at hm
    next => simp at hm
  | _ => simp [nextSent] at hm

end Slot

/-! ## References -/

/-- One reference for every connection with a slot, and nothing else. -/
structure RefsExact (s : Link S) : Prop where
  conns : ∀ conn, s.refs (some conn) = if s.Tracked conn then 1 else 0
  other : s.refs none = 0

section Refs

variable {s s' : Link S}

theorem RefsExact.congr (h : RefsExact s) (hr : s'.refs = s.refs)
    (hc : ∀ i, (s'.central.conns i).conn = (s.central.conns i).conn) : RefsExact s' := by
  refine ⟨?_, by rw [hr, h.other]⟩
  intro conn
  have ht : s'.Tracked conn ↔ s.Tracked conn := by simp only [Link.Tracked, hc]
  simp only [hr, h.conns, ht]

theorem refs_ref (s : Link S) (p q : Option ℕ) (n : ℤ) :
    (s.ref p n).refs q = if q = p then s.refs p + n else s.refs q := by
  simp only [Link.ref, Function.update_apply]

/-- A connection that moves into a slot is referenced. -/
theorem RefsExact.takeSlot (h : RefsExact s) {conn : ℕ} (hnot : ¬ s.Tracked conn) :
    RefsExact (s.takeSlot conn) := by
  unfold Link.takeSlot
  split
  next => exact h
  next i hslot =>
    refine ⟨?_, by simp [refs_ref, h.other]⟩
    intro c
    have ht : ({ s with central := s.central.connected conn 0 }.ref (some conn) 1).Tracked c ↔
        c = conn ∨ s.Tracked c := Link.tracked_connected rfl hslot c
    rw [if_congr ht rfl rfl, refs_ref]
    by_cases hc : c = conn
    · simp [hc, h.conns, hnot]
    · simp [hc, h.conns]

/-- The connection that gives its slot back is not. -/
theorem RefsExact.disconnected (h : RefsExact s) (hs : s.Consistent) {conn : ℕ}
    (htr : s.Tracked conn) (hr : s'.refs = (s.ref (some conn) (-1)).refs)
    (hc : s'.central = s.central.disconnected conn) : RefsExact s' := by
  refine ⟨?_, by simp [hr, refs_ref, h.other]⟩
  intro c
  rw [if_congr (Link.tracked_disconnected hs hc c) rfl rfl, hr, refs_ref]
  by_cases hc : c = conn
  · simp [hc, h.conns, htr]
  · simp [hc, h.conns]

/-- **Only a connection that cannot be created spoils the references.** -/
theorem refsExact_step (h : RefsExact s) (hs : s.Consistent) (e : LinkEvent S)
    (hok : ∀ stopErr createErr conn uninit,
      e = .scanFilterMatch stopErr createErr conn uninit → s.scanning → createErr = 0) :
    RefsExact (s.step e) := by
  have hstep := Link.canStep hs e
  generalize s.step e = s' at hstep ⊢
  cases hstep with
  | createFailed hscan hc => exact absurd (hok _ _ _ _ rfl hscan) hc
  | @connected conn secErr dmErr stopErr scanErr ha =>
    have hframe := Link.setSecurity_frame ({ s with
      attempts := s.attempts.erase conn
      linked := insert conn s.linked }.takeSlot conn) conn secErr dmErr
    have htake : RefsExact ({ s with
        attempts := s.attempts.erase conn
        linked := insert conn s.linked }.takeSlot conn) := by
      refine RefsExact.takeSlot ?_ (hs.not_tracked ha)
      exact h.congr rfl fun _ => rfl
    exact htake.congr hframe.2.2.2.2.2 fun i => by rw [Link.scanStop, hframe.1]
  | @disconnected conn scanErr hl ht => exact h.disconnected hs ht rfl rfl
  | completed hd ht =>
    have hconn := Central.conn_discoveryCompleted s.central
    split <;> exact h.congr rfl (hconn _)
  | @early _ _ _ _ _ _ target hd he ht => cases target <;> exact h.congr rfl fun _ => rfl
  | write data => exact h.congr rfl (Central.conn_write _ data)
  | sendWork res => exact h.congr rfl (Central.conn_sendWorkHandler _ res)
  | dataSent i => exact h.congr rfl (Central.conn_dataSent _ i)
  | _ => exact h.congr rfl fun _ => rfl

end Refs

/-! ## The whole link -/

/-- Every slot is sound, so are the references, and everything that was sent was. -/
structure Sound (x : Isolation S) : Prop where
  consistent : x.link.Consistent
  refs : RefsExact x.link
  slots : ∀ i, SlotSound (x.link.central.conns i) (x.tenure i) (x.stamps i)
  sent : ∀ m ∈ x.sent, m.stamp = some ⟨m.payload, m.tenure, true⟩

theorem Sound.isolated {x : Isolation S} (h : x.Sound) : x.Isolated :=
  ⟨h.consistent.distinct, h.refs.conns, h.refs.other, fun i => (h.slots i).free, h.sent⟩

theorem sound_bleCentralReady (scanErr : ℤ) : Sound (bleCentralReady S scanErr) := by
  refine ⟨Link.consistent_bleCentralReady scanErr, ⟨?_, rfl⟩, ?_, ?_⟩
  · intro conn
    rw [if_neg]
    · rfl
    · rintro ⟨i, hi⟩
      exact Option.some_ne_none conn hi.symm
  · exact fun i => ⟨fun _ => ⟨rfl, rfl⟩, rfl, fun stamp hmem => absurd hmem List.not_mem_nil⟩
  · exact fun m hmem => absurd hmem List.not_mem_nil

theorem sound_step {x : Isolation S} (h : x.Sound) (e : LinkEvent S) (hok : x.Creates e) :
    (x.step e).Sound := by
  refine ⟨?_, ?_, ?_, ?_⟩
  · exact Link.consistent_step h.consistent e
  · refine refsExact_step h.refs h.consistent e ?_
    rintro stopErr createErr conn uninit rfl
    exact hok
  · exact fun i => (h.slots i).step (Link.slotStep h.consistent e i)
  · intro m hmem
    rcases List.mem_append.mp hmem with hold | hnew
    · exact h.sent m hold
    · obtain ⟨i, -, hm⟩ := List.mem_flatMap.mp hnew
      exact (h.slots i).sent e m hm

/-- A reference that was never taken is dropped. -/
theorem not_isolated_step {x : Isolation S} (h : x.Sound) {e : LinkEvent S}
    (hbad : ¬ x.Creates e) : ¬ (x.step e).Isolated := by
  cases e with
  | scanFilterMatch stopErr createErr conn uninit =>
    simp only [Creates, Classical.not_imp] at hbad
    obtain ⟨hscan, hcreate⟩ := hbad
    have hstep : x.link.step (.scanFilterMatch stopErr createErr conn uninit)
        = (x.link.scanStop stopErr).ref uninit (-1) := by
      simp [Link.step, hscan, hcreate, Link.scanFilterMatch]
    have hrefs : (x.step (.scanFilterMatch stopErr createErr conn uninit)).link.refs uninit
        = x.link.refs uninit - 1 := by
      simp only [step, hstep, refs_ref, if_true]
      rfl
    intro hiso
    cases uninit with
    | none =>
      rw [hiso.noOtherRef, h.refs.other] at hrefs
      simp at hrefs
    | some c =>
      have ht : (x.step (.scanFilterMatch stopErr createErr conn (some c))).link.Tracked c ↔
          x.link.Tracked c := by
        simp only [step, hstep]
        exact Iff.rfl
      rw [hiso.refs, h.refs.conns, if_congr ht rfl rfl] at hrefs
      omega
  | _ => exact absurd trivial hbad

/-- **Slots isolate peers exactly while every connection that is attempted can be created.** -/
theorem isolated_iff_creates (scanErr : ℤ) (es : List (LinkEvent S)) :
    Always step Isolated (bleCentralReady S scanErr) es ↔
      Meets step Creates (bleCentralReady S scanErr) es := by
  refine always_iff_meets (I := Sound) ?_ ?_ ?_ (sound_bleCentralReady scanErr) es
  · exact fun x e h hok => sound_step h e hok
  · exact fun x h => h.isolated
  · exact fun x e h hbad => not_isolated_step h hbad

/-- The pointer still holds the connection of the last match: the connection of a slot in use loses
its reference. -/
theorem not_isolated_create_fails :
    ¬ Always step Isolated (bleCentralReady ⟨2, 4, by decide⟩ 0)
      [.scanFilterMatch 0 0 7 none, .connected 7 0 0 0 0 0, .securityChanged 7 0 0 0,
        .discoveryCompleted 0 0 0 0 none, .scanFilterMatch 0 (-12) 8 (some 7)] := by
  intro h
  have href := h.last.refs 7
  revert href
  decide

end Isolation

end Pyrinas
