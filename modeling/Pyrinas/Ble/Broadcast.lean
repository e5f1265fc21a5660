import Pyrinas.Ble.Delivery
import Pyrinas.Ble.Zombies

/-!
# Ble/Broadcast — every peer gets what the hub writes in the hub's order

`ble_central_write` puts a payload into the queue of every peer that is ready, and a peer may miss
any of them: its queue is full, its write is refused, or it is not connected.  But no peer gets one
twice or two of them the wrong way round, however often it comes and goes, so no two peers disagree
about an order.

    write a, b, c, d ──▸ peer 0:  a   c d
                     ──▸ peer 1:  a b   d

A connection goes by the number of the peer at its other end.
-/

open Machinery

namespace Pyrinas

/-- In a list without repetitions two elements stand in one order only. -/
theorem not_sublist_swap {α : Type*} {l : List α} (hl : l.Nodup) {a b : α} (h : [a, b].Sublist l) :
    ¬ [b, a].Sublist l := by
  intro h'
  induction l with
  | nil => exact absurd h.length_le (by simp)
  | cons c l ih =>
    obtain ⟨hc, hl⟩ := List.nodup_cons.mp hl
    cases h with
    | cons _ h =>
      cases h' with
      | cons _ h' => exact ih hl h h'
      | cons_cons _ _ => exact hc (h.subset (List.mem_cons_of_mem _ List.mem_cons_self))
    | cons_cons _ h =>
      cases h' with
      | cons _ h' => exact hc (h'.subset (List.mem_cons_of_mem _ List.mem_cons_self))
      | cons_cons _ _ => exact hc (h.subset List.mem_cons_self)

/-- What `bt_gatt_nus_c_send` takes of a slot in one pass of the loop. -/
def NusCConnection.taken (c : NusCConnection) (res : ℤ) : List Payload :=
  (c.sendNext res).accepted.drop c.accepted.length

namespace Link

variable {S : CentralShape}

instance (s : Link S) (conn : ℕ) : Decidable (s.Ready conn) :=
  inferInstanceAs (Decidable (∃ i, (s.central.conns i).conn = some conn ∧
    (s.central.conns i).ready))

/-- What the slots of a connection have, one after another. -/
def inSlots (s : Link S) (conn : ℕ) (f : Fin S.maxConn → List Payload) : List Payload :=
  (List.finRange S.maxConn).flatMap fun i =>
    if (s.central.conns i).conn = some conn then f i else []

/-- The payloads that are queued for a client. -/
def queued (s : Link S) (conn : ℕ) : List Payload := s.inSlots conn fun i => (s.central.conns i).q

/-- The payloads that an event sends to a client. -/
def sends (s : Link S) (conn : ℕ) : LinkEvent S → List Payload
  | .sendWork res =>
    if s.central.sendWork then s.inSlots conn fun i => (s.central.conns i).taken (res i) else []
  | _ => []

end Link

/-- The hub, and what each peer was sent in all its connections. -/
structure Broadcast (S : CentralShape) where
  hub : Link S
  sent : ℕ → List Payload

namespace Broadcast

variable {S : CentralShape}

/-- After `ble_central_ready`. -/
def bleCentralReady (S : CentralShape) (scanErr : ℤ) : Broadcast S :=
  ⟨.bleCentralReady S scanErr, fun _ => []⟩

/-- One event, and what it sends to each peer. -/
def step (s : Broadcast S) (e : LinkEvent S) : Broadcast S where
  hub := s.hub.step e
  sent peer := s.sent peer ++ s.hub.sends peer e

/-- The payloads that the application writes. -/
def written (es : List (LinkEvent S)) : List Payload :=
  es.filterMap fun
    | .write data => some data
    | _ => none

end Broadcast

/-! ## The slots of a connection -/

namespace NusCConnection

variable (c : NusCConnection) (res : ℤ)

/-- Getting ready changes neither the connection nor the queue. -/
theorem setReady_frame : c.setReady.conn = c.conn ∧ c.setReady.q = c.q := by
  unfold setReady
  split <;> exact ⟨rfl, rfl⟩

/-- **What leaves the queue is taken, or lost**… -/
theorem taken_append_q : (c.taken res ++ (c.sendNext res).q).Sublist c.q := by
  unfold taken sendNext
  split
  next => simp
  next =>
    split
    next hq => simp [hq]
    next payload q hq =>
      unfold nusSend
      split_ifs
      · simp [hq]
      · simp [hq]
      · simp [hq]

/-- …and it is taken where the write is accepted. -/
theorem taken_append_q_eq (h : c.ready → c.q ≠ [] → c.busy = false ∧ res = 0) :
    c.taken res ++ (c.sendNext res).q = c.q := by
  unfold taken sendNext
  split
  next => simp
  next hgo =>
    split
    next hq => simp [hq]
    next payload q hq =>
      have hr : c.ready = true := by simpa using (not_or.mp hgo).1
      obtain ⟨hbusy, rfl⟩ := h hr (by simp [hq])
      simp [nusSend, hbusy, hq]

end NusCConnection

namespace Link

variable {S : CentralShape} {s : Link S} {conn : ℕ}

/-- A connection has one slot at most. -/
theorem Consistent.inSlots (h : s.Consistent) {i : Fin S.maxConn}
    (hi : (s.central.conns i).conn = some conn) (f : Fin S.maxConn → List Payload) :
    s.inSlots conn f = f i := by
  obtain ⟨before, after, hsplit⟩ := List.append_of_mem (List.mem_finRange i)
  have hnodup := List.nodup_finRange S.maxConn
  rw [hsplit] at hnodup
  have hother : ∀ js : List (Fin S.maxConn), i ∉ js → (js.flatMap fun j =>
      if (s.central.conns j).conn = some conn then f j else []) = [] := by
    intro js hjs
    refine List.flatMap_eq_nil_iff.mpr fun j hj => if_neg fun hconn => hjs ?_
    rwa [h.distinct i j conn hi hconn]
  have hb : i ∉ before := fun hmem =>
    (List.nodup_append.mp hnodup).2.2 i hmem i List.mem_cons_self rfl
  have ha : i ∉ after := (List.nodup_cons.mp (List.nodup_append.mp hnodup).2.1).1
  rw [Link.inSlots, hsplit, List.flatMap_append, List.flatMap_cons, hother before hb,
    hother after ha, if_pos hi, List.nil_append, List.append_nil]

theorem Consistent.queued (h : s.Consistent) {i : Fin S.maxConn}
    (hi : (s.central.conns i).conn = some conn) : s.queued conn = (s.central.conns i).q :=
  h.inSlots hi _

theorem inSlots_of_not_tracked (h : ¬ s.Tracked conn) (f : Fin S.maxConn → List Payload) :
    s.inSlots conn f = [] :=
  List.flatMap_eq_nil_iff.mpr fun i _ => if_neg fun hi => h ⟨i, hi⟩

theorem not_tracked_of_conn {s' : Link S}
    (hconn : ∀ i, (s'.central.conns i).conn = (s.central.conns i).conn) (h : ¬ s.Tracked conn) :
    ¬ s'.Tracked conn := by
  rintro ⟨i, hi⟩
  exact h ⟨i, (hconn i).symm.trans hi⟩

/-- Slots with the same payloads for a client. -/
theorem queued_congr {s' : Link S}
    (h : ∀ i, (if (s'.central.conns i).conn = some conn then (s'.central.conns i).q else [])
      = if (s.central.conns i).conn = some conn then (s.central.conns i).q else []) :
    s'.queued conn = s.queued conn :=
  List.flatMap_congr fun i _ => h i

/-- A free slot is not ready and has nothing queued. -/
def Unused (s : Link S) : Prop := ∀ i, (s.central.conns i).conn = none →
  (s.central.conns i).ready = false ∧ (s.central.conns i).q = []

theorem SlotStep.unused {e : LinkEvent S} {c c' : NusCConnection} (h : SlotStep e c c')
    (hc : c.conn = none → c.ready = false ∧ c.q = []) (hn : c'.conn = none) :
    c'.ready = false ∧ c'.q = [] := by
  refine ⟨h.free (fun hnone => (hc hnone).1) hn, ?_⟩
  cases h with
  | same => exact (hc hn).2
  | put data hr =>
    rw [NusCConnection.conn_msgqPut] at hn
    simp [(hc hn).1] at hr
  | send res _ err =>
    rw [NusCConnection.conn_sendNext] at hn
    rw [NusCConnection.q_sendNext, if_pos (.inr hn), (hc hn).2]
  | dataSent => exact (hc hn).2
  | taken hf => simp at hn
  | ready hne => exact absurd (c.setReady_frame.1.symm.trans hn) hne
  | cleared => rfl

theorem unused_step (hs : s.Consistent) (h : s.Unused) (e : LinkEvent S) : (s.step e).Unused :=
  fun i => (slotStep hs e i).unused (h i)

/-! ## What is queued for a client -/

/-- `ble_central_write` queues a payload for every client that is ready and has room. -/
theorem queued_write (hs : s.Consistent) (conn : ℕ) (data : Payload) :
    (s.step (.write data)).queued conn = s.queued conn ++
      if s.Ready conn ∧ data.length ≤ S.itemSize ∧ (s.queued conn).length < bleCentralQueueSize then
        [data]
      else [] := by
  have hs' := consistent_step hs (.write data)
  have hconn := Central.conn_write s.central data
  by_cases ht : s.Tracked conn
  · obtain ⟨i, hi⟩ := ht
    have hq : (s.step (.write data)).queued conn = ((s.central.write data).conns i).q :=
      hs'.queued ((hconn i).trans hi)
    rw [hq, hs.queued hi]
    by_cases hr : s.Ready conn
    · have hready : (s.central.conns i).ready := hs.ready hi hr
      have hany : ∃ i, (s.central.conns i).ready := ⟨i, hready⟩
      by_cases hlen : data.length ≤ S.itemSize
      · simp only [Central.write, if_pos hany, if_neg (not_lt.mpr hlen), if_pos hready,
          NusCConnection.q_msgqPut, hr, hlen, true_and]
        split_ifs
        · rfl
        · exact (List.append_nil _).symm
      · simp only [Central.write, if_pos hany, if_pos (not_le.mp hlen), hlen, false_and, and_false,
          if_false, List.append_nil]
    · have hready : ¬ (s.central.conns i).ready := fun h => hr ⟨i, hi, h⟩
      rw [if_neg fun h => hr h.1, List.append_nil]
      unfold Central.write
      split_ifs
      · rfl
      · simp only [if_neg hready]
      · rfl
  · have ht' : ¬ (s.step (.write data)).Tracked conn := not_tracked_of_conn hconn ht
    have hr : ¬ s.Ready conn := by
      rintro ⟨i, hi, -⟩
      exact ht ⟨i, hi⟩
    rw [queued, queued, inSlots_of_not_tracked ht, inSlots_of_not_tracked ht',
      if_neg fun h => hr h.1]
    rfl

/-- The work sends what it takes out of the queue, or loses it. -/
theorem queued_sendWork (hs : s.Consistent) (conn : ℕ) (res : Fin S.maxConn → ℤ) :
    (s.sends conn (.sendWork res) ++ (s.step (.sendWork res)).queued conn).Sublist
        (s.queued conn) ∧
      ((s.central.sendWork → ∀ i, (s.central.conns i).conn = some conn →
        (s.central.conns i).ready → (s.central.conns i).q ≠ [] →
          (s.central.conns i).busy = false ∧ res i = 0) →
        s.sends conn (.sendWork res) ++ (s.step (.sendWork res)).queued conn = s.queued conn) := by
  have hs' := consistent_step hs (.sendWork res)
  have hconn := Central.conn_sendWorkHandler s.central res
  by_cases ht : s.Tracked conn
  · obtain ⟨i, hi⟩ := ht
    have hq : (s.step (.sendWork res)).queued conn = ((s.central.sendWorkHandler res).conns i).q :=
      hs'.queued ((hconn i).trans hi)
    rw [hq, hs.queued hi]
    cases hwork : s.central.sendWork with
    | false => simp [sends, Central.sendWorkHandler, hwork]
    | true =>
      simp only [sends, Central.sendWorkHandler, hwork, if_true, hs.inSlots hi]
      exact ⟨NusCConnection.taken_append_q _ _, fun hok =>
        NusCConnection.taken_append_q_eq _ _ (hok trivial i hi)⟩
  · have ht' : ¬ (s.step (.sendWork res)).Tracked conn := not_tracked_of_conn hconn ht
    simp only [sends, queued, inSlots_of_not_tracked ht, inSlots_of_not_tracked ht', ite_self,
      List.append_nil, List.Sublist.refl, implies_true, and_self]

/-- Nothing else changes what is queued for a client, but its disconnection. -/
theorem queued_other (hs : s.Consistent) (hu : s.Unused) (conn : ℕ) (e : LinkEvent S)
    (hwrite : ∀ data, e ≠ .write data) (hsend : ∀ res, e ≠ .sendWork res) :
    (s.step e).queued conn = s.queued conn ∨
      (s.step e).queued conn = [] ∧ ∃ scanErr, e = .disconnected conn scanErr := by
  have hstep := canStep hs e
  generalize s.step e = s' at hstep ⊢
  cases hstep with
  | @connected c secErr dmErr stopErr scanErr ha =>
    refine .inl (queued_congr fun i => ?_)
    have hcentral : ((({ s with
        attempts := s.attempts.erase c
        linked := insert c s.linked } : Link S).takeSlot c).setSecurity c secErr
          dmErr).central = s.central.connected c 0 :=
      (setSecurity_frame _ c secErr dmErr).1.trans (central_takeSlot _ c)
    simp only [scanStop, hcentral, Central.conns_connected]
    split
    next hslot =>
      -- nothing is queued in a slot that was free
      have hfree := Central.conn_of_slotOf hslot
      simp [hfree, (hu i hfree).2]
    next => rfl
  | @completed c closeErr scanErr named hd ht =>
    have hconns := Central.conns_discoveryCompleted s.central c
    have hsame : ∀ i, ((s.central.discoveryCompleted c 0).conns i).conn = (s.central.conns i).conn
        ∧ ((s.central.discoveryCompleted c 0).conns i).q = (s.central.conns i).q := by
      intro i
      rw [hconns]
      split
      · exact NusCConnection.setReady_frame _
      · exact ⟨rfl, rfl⟩
    refine .inl (queued_congr fun i => ?_)
    split <;> simp only [bleCentralScanStart, hsame]
  | @early _ _ _ _ _ _ target hd he ht => cases target <;> exact .inl rfl
  | @disconnected c scanErr hl ht =>
    by_cases hc : c = conn
    · subst hc
      refine .inr ⟨inSlots_of_not_tracked ?_ _, scanErr, rfl⟩
      rw [tracked_disconnected hs rfl]
      exact fun h => h.1 rfl
    · refine .inl (queued_congr fun i => ?_)
      simp only [bleCentralScanStart, ref, Central.conns_disconnected]
      split
      next hslot =>
        have hi := Central.conn_of_slotOf hslot
        simp [hi, hc]
      next => rfl
  | write data => exact absurd rfl (hwrite data)
  | sendWork res => exact absurd rfl (hsend res)
  | dataSent j =>
    refine .inl (queued_congr fun i => ?_)
    simp only [Central.conns_dataSent]
    split <;> rfl
  | _ => exact .inl rfl

end Link

namespace Broadcast

variable {S : CentralShape} {s : Broadcast S} {w : List Payload}

/-! ## A run -/

/-- What a peer was sent, and what waits for it, is part of what was written. -/
structure InOrder (w : List Payload) (s : Broadcast S) : Prop where
  consistent : s.hub.Consistent
  unused : s.hub.Unused
  sublist : ∀ peer, (s.sent peer ++ s.hub.queued peer).Sublist w

theorem inOrder_bleCentralReady (S : CentralShape) (scanErr : ℤ) :
    (bleCentralReady S scanErr).InOrder [] where
  consistent := Link.consistent_bleCentralReady scanErr
  unused := fun _ _ => ⟨rfl, rfl⟩
  sublist peer := by
    have hnone : ¬ (Link.bleCentralReady S scanErr).Tracked peer := by
      rintro ⟨i, hi⟩
      exact Option.some_ne_none peer hi.symm
    rw [bleCentralReady, Link.queued, Link.inSlots_of_not_tracked hnone]
    exact List.Sublist.refl _

/-- **A step keeps every peer in order**: a payload that is written comes last, and one that leaves
a queue is sent, or gone. -/
theorem InOrder.step (h : s.InOrder w) (e : LinkEvent S) :
    (s.step e).InOrder (w ++ written [e]) := by
  refine ⟨Link.consistent_step h.consistent e, Link.unused_step h.consistent h.unused e,
    fun peer => ?_⟩
  have hsub := h.sublist peer
  have hother : (∀ data, e ≠ .write data) → (∀ res, e ≠ .sendWork res) →
      (s.sent peer ++ (s.hub.step e).queued peer).Sublist w := by
    intro hwrite hsend
    rcases Link.queued_other h.consistent h.unused peer e hwrite hsend with hsame | ⟨hempty, -⟩
    · rwa [hsame]
    · rw [hempty, List.append_nil]
      exact (List.sublist_append_left _ _).trans hsub
  cases e with
  | write data =>
    have hqueued := Link.queued_write h.consistent peer data
    change ((s.sent peer ++ []) ++ (s.hub.step (.write data)).queued peer).Sublist (w ++ [data])
    rw [List.append_nil, hqueued, ← List.append_assoc]
    refine hsub.append ?_
    split_ifs
    · exact List.Sublist.refl _
    · exact List.nil_sublist _
  | sendWork res =>
    obtain ⟨htaken, -⟩ := Link.queued_sendWork h.consistent peer res
    change ((s.sent peer ++ s.hub.sends peer (.sendWork res))
      ++ (s.hub.step (.sendWork res)).queued peer).Sublist (w ++ [])
    rw [List.append_nil, List.append_assoc]
    exact (htaken.append_left _).trans hsub
  | _ =>
    change ((s.sent peer ++ []) ++ (s.hub.step _).queued peer).Sublist (w ++ [])
    rw [List.append_nil, List.append_nil]
    exact hother (fun _ => by simp) fun _ => by simp

theorem inOrder_run (scanErr : ℤ) (es : List (LinkEvent S)) :
    (run step (bleCentralReady S scanErr) es).InOrder (written es) := by
  induction es using List.reverseRecOn with
  | nil => exact inOrder_bleCentralReady S scanErr
  | append_singleton es e ih =>
    rw [run_append, written, List.filterMap_append]
    exact ih.step e

/-- **Every peer gets a part of what was written, in its order**, whatever is lost and however the
peers come and go; so no two of them get two payloads in different orders, if none is written
twice. -/
theorem sent_sublist_written (scanErr : ℤ) (es : List (LinkEvent S)) :
    (∀ peer, ((run step (bleCentralReady S scanErr) es).sent peer).Sublist (written es)) ∧
      ((written es).Nodup → ∀ peer peer' a b,
        [a, b].Sublist ((run step (bleCentralReady S scanErr) es).sent peer) →
          ¬ [b, a].Sublist ((run step (bleCentralReady S scanErr) es).sent peer')) := by
  have hsub : ∀ peer, ((run step (bleCentralReady S scanErr) es).sent peer).Sublist (written es) :=
    fun peer => (List.sublist_append_left _ _).trans ((inOrder_run scanErr es).sublist peer)
  exact ⟨hsub, fun hnodup peer peer' a b ha hb =>
    not_sublist_swap hnodup (ha.trans (hsub peer)) (hb.trans (hsub peer'))⟩

end Broadcast

end Pyrinas
