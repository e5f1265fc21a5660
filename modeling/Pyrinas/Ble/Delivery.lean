import Pyrinas.Ble.Central
import Pyrinas.Machinery.Run

/-!
# Ble/Delivery — when every queued payload is delivered once and in order

`bt_send_work_handler` pops a payload before it knows whether `bt_gatt_nus_c_send` takes it.  If the
slot's previous write is outstanding it does not, and the payload is gone: later ones overtake it,
or nothing ever sends the rest of the queue.

    put = accepted ++ q        as long as no run of the work meets an outstanding write
-/

open Machinery

namespace Pyrinas

namespace Central

variable {S : CentralShape}

/-- In every ready slot what was accepted is a prefix of what was put, and something will send the
rest. -/
def Delivers (s : Central S) : Prop :=
  ∀ i, (s.conns i).ready → (s.conns i).accepted <+: (s.conns i).put ∧
    ((s.conns i).q ≠ [] → s.sendWork ∨ (s.conns i).busy)

/-- `bt_send_work` runs only when no ready slot with payloads waiting has a write outstanding, and
those slots' sends are accepted. -/
def NoOverlap (s : Central S) : CentralEvent S → Prop
  | .sendWork res => s.sendWork → ∀ i, (s.conns i).ready → (s.conns i).q ≠ [] →
    (s.conns i).busy = false ∧ res i = 0
  | _ => True

/-! ## The invariant -/

/-- Nothing was lost in a slot, and if something waits in it the work (`w`) is pending or a write is
outstanding. -/
structure SlotSound (w : Bool) (c : NusCConnection) : Prop where
  conn : c.ready → c.conn ≠ none
  put : c.ready → c.put = c.accepted ++ c.q
  waiting : c.q ≠ [] → c.ready ∧ (w ∨ c.busy)

/-- Every slot is sound. -/
def Sound (s : Central S) : Prop := ∀ i, SlotSound s.sendWork (s.conns i)

theorem slotSound_unused (w : Bool) : SlotSound w .unused := by
  constructor <;> simp [NusCConnection.unused]

theorem sound_init : Sound (init S) := fun _ => slotSound_unused _

theorem Sound.delivers {s : Central S} (h : Sound s) : Delivers s := fun i hr =>
  ⟨⟨_, ((h i).put hr).symm⟩, fun hq => ((h i).waiting hq).2⟩

theorem SlotSound.mono {w w' : Bool} {c : NusCConnection} (h : SlotSound w c) (hw : w → w') :
    SlotSound w' c :=
  ⟨h.conn, h.put, fun hq => ⟨(h.waiting hq).1, (h.waiting hq).2.imp_left hw⟩⟩

/-- Replacing one slot by a sound one. -/
theorem sound_update {w : Bool} {conns : Fin S.maxConn → NusCConnection} {i : Fin S.maxConn}
    {c : NusCConnection} (h : ∀ j, SlotSound w (conns j)) (hc : SlotSound w c) :
    ∀ j, SlotSound w (Function.update conns i c j) := by
  intro j
  by_cases hj : j = i
  · subst hj
    rwa [Function.update_self]
  · rw [Function.update_of_ne hj]
    exact h j

/-! ## What an allowed event preserves -/

theorem slotSound_msgqPut {w : Bool} {c : NusCConnection} (h : SlotSound w c) (hr : c.ready)
    (evt : Payload) : SlotSound true (c.msgqPut evt) := by
  unfold NusCConnection.msgqPut
  split
  · exact ⟨h.conn, fun hr => by simp [h.put hr], fun _ => ⟨hr, .inl rfl⟩⟩
  · exact h.mono fun _ => rfl

/-- A slot whose write is accepted has passed on the oldest payload. -/
theorem slotSound_sendNext {c : NusCConnection} {res : ℤ} (h : SlotSound true c)
    (hok : c.ready → c.q ≠ [] → c.busy = false ∧ res = 0) : SlotSound false (c.sendNext res) := by
  unfold NusCConnection.sendNext
  split
  next hskip =>
    refine ⟨h.conn, h.put, fun hq => ?_⟩
    have hr := (h.waiting hq).1
    rcases hskip with hr' | hc
    · simp [hr'] at hr
    · exact absurd hc (h.conn hr)
  next hgo =>
    obtain ⟨hr, hc⟩ := not_or.mp hgo
    have hr : c.ready = true := by simpa using hr
    split
    next hq => exact ⟨h.conn, h.put, fun hne => absurd hq hne⟩
    next payload q hq =>
      obtain ⟨hbusy, rfl⟩ := hok hr (by simp [hq])
      have hsend : { c with q := q }.nusSend payload 0
          = (0, { c with q := q, busy := true, accepted := c.accepted ++ [payload] }) := by
        simp [NusCConnection.nusSend, hbusy]
      rw [hsend]
      refine ⟨h.conn, fun _ => ?_, fun _ => ⟨hr, .inr rfl⟩⟩
      simp [h.put hr, hq]

theorem slotSound_setReady {w : Bool} {c : NusCConnection} (h : SlotSound w c)
    (hc : c.conn ≠ none) : SlotSound w c.setReady := by
  unfold NusCConnection.setReady
  split
  · exact h
  next hr =>
    have hq : c.q = [] := by
      by_contra hne
      exact hr (h.waiting hne).1
    exact ⟨fun _ => hc, fun _ => by simp [hq], fun hne => absurd hq hne⟩

theorem sound_write {s : Central S} (h : Sound s) (data : Payload) : Sound (s.write data) := by
  unfold write
  split
  · split
    · exact h
    · intro i
      dsimp only
      split
      next hr => exact slotSound_msgqPut (h i) hr data
      next => exact (h i).mono fun _ => rfl
  · exact h

theorem sound_dataSent {s : Central S} (h : Sound s) (i : Fin S.maxConn) :
    Sound (s.dataSent i) := by
  unfold dataSent
  split
  · have hmono : ∀ j, SlotSound (s.sendWork || !(s.conns i).q.isEmpty) (s.conns j) := fun j =>
      (h j).mono fun hw => by simp [hw]
    refine sound_update hmono ⟨(h i).conn, (h i).put, fun hq => ⟨((h i).waiting hq).1, .inl ?_⟩⟩
    have hq : (s.conns i).q.isEmpty = false := by simpa using hq
    simp [hq]
  · exact h

theorem sound_disconnected {s : Central S} (h : Sound s) (conn : ℕ) :
    Sound (s.disconnected conn) := by
  unfold disconnected
  split
  · exact h
  · exact sound_update h ⟨by simp, by simp, by simp⟩

theorem sound_step (s : Central S) (e : CentralEvent S) (h : Sound s) (hok : NoOverlap s e) :
    Sound (s.step e) := by
  cases e with
  | write data => exact sound_write h data
  | sendWork res =>
    simp only [step, sendWorkHandler]
    split
    next hw => exact fun i => slotSound_sendNext (hw ▸ h i) (hok hw i)
    next => exact h
  | dataSent i => exact sound_dataSent h i
  | connected conn connErr =>
    simp only [step, connected]
    split
    · exact sound_disconnected h conn
    · split
      · exact h
      · exact sound_update h ⟨by simp, (h _).put, (h _).waiting⟩
  | discoveryCompleted conn err =>
    simp only [step, discoveryCompleted]
    split
    · exact h
    · split
      · exact h
      next i hi => exact sound_update h (slotSound_setReady (h i) (by simp [conn_of_slotOf hi]))
  | disconnected conn => exact sound_disconnected h conn

/-! ## A payload that is lost shows in the end -/

/-- A ready slot from which a payload disappeared. -/
def Lost (c : NusCConnection) : Prop :=
  c.ready = true ∧ c.conn ≠ none ∧ c.accepted.length + c.q.length < c.put.length

theorem conns_dataSent (s : Central S) (i j : Fin S.maxConn) : (s.dataSent i).conns j
    = if j = i then { s.conns j with busy := false } else s.conns j := by
  unfold dataSent
  split
  next hb =>
    by_cases hj : j = i
    · subst hj
      simp
    · simp [hj]
  next hb =>
    by_cases hj : j = i
    · subst hj
      rw [if_pos rfl, ← Bool.eq_false_iff.mpr hb]
    · rw [if_neg hj]

theorem sendWork_dataSent (s : Central S) (i : Fin S.maxConn) : (s.dataSent i).sendWork
    = (s.sendWork || ((s.conns i).busy && !(s.conns i).q.isEmpty)) := by
  unfold dataSent
  split
  next hb => simp [hb]
  next hb => simp [hb]

/-- Every outstanding write of some slots completes: those slots are idle, nothing else happens to
any, and the work is pending if one of them has payloads waiting. -/
theorem run_dataSent (s : Central S) (l : List (Fin S.maxConn)) :
    (∀ j, (run step s (l.map .dataSent)).conns j
      = if j ∈ l then { s.conns j with busy := false } else s.conns j) ∧
    (s.sendWork → (run step s (l.map .dataSent)).sendWork) ∧
    ∀ i ∈ l, (s.conns i).busy → (s.conns i).q ≠ [] →
      (run step s (l.map .dataSent)).sendWork := by
  induction l generalizing s with
  | nil => simp
  | cons k l ih =>
    obtain ⟨hconns, hmono, hwork⟩ := ih (s.dataSent k)
    refine ⟨?_, fun hw => hmono (by simp [sendWork_dataSent, hw]), ?_⟩
    · intro j
      rw [List.map_cons, run_cons, step, hconns, conns_dataSent]
      by_cases hjk : j = k
      · simp [hjk]
      · simp [hjk]
    · intro i hi hb hq
      rw [List.map_cons, run_cons, step]
      by_cases hik : i = k
      · subst hik
        have hq' : (s.conns i).q.isEmpty = false := by simpa using hq
        exact hmono (by simp [sendWork_dataSent, hb, hq'])
      · have hil : i ∈ l := (List.mem_cons.mp hi).resolve_left hik
        have hsame : (s.dataSent k).conns i = s.conns i := by rw [conns_dataSent, if_neg hik]
        exact hwork i hil (by rwa [hsame]) (by rwa [hsame])

/-- Every outstanding write completes, and the work runs. -/
def round (S : CentralShape) : List (CentralEvent S) :=
  (List.finRange S.maxConn).map .dataSent ++ [.sendWork fun _ => 0]

theorem meets_round (s : Central S) : Meets step NoOverlap s (round S) := by
  have hsent : ∀ l : List (Fin S.maxConn), ∀ s : Central S,
      Meets step NoOverlap s (l.map .dataSent) := by
    intro l
    induction l with
    | nil => exact fun _ => meets_nil
    | cons k l ih => exact fun s => meets_cons.mpr ⟨trivial, ih _⟩
  refine meets_append.mpr ⟨hsent _ s, meets_cons.mpr ⟨fun _ i _ _ => ⟨?_, rfl⟩, meets_nil⟩⟩
  rw [(run_dataSent s _).1 i, if_pos (List.mem_finRange i)]

/-- **A round passes on one payload of a ready slot**, if the work is pending or a write
outstanding. -/
theorem conns_round {s : Central S} {i : Fin S.maxConn} {payload : Payload} {q : List Payload}
    (hr : (s.conns i).ready) (hc : (s.conns i).conn ≠ none) (hq : (s.conns i).q = payload :: q)
    (hw : s.sendWork ∨ (s.conns i).busy) : (run step s (round S)).conns i
      = { s.conns i with
          q := q, busy := true, accepted := (s.conns i).accepted ++ [payload] } := by
  obtain ⟨hconns, hmono, hwork⟩ := run_dataSent s (List.finRange S.maxConn)
  have hpend : (run step s ((List.finRange S.maxConn).map .dataSent)).sendWork := by
    rcases hw with hw | hb
    · exact hmono hw
    · exact hwork i (List.mem_finRange i) hb (by simp [hq])
  rw [round, run_append, run_cons, run_nil, step, sendWorkHandler, if_pos hpend]
  dsimp only
  rw [hconns i, if_pos (List.mem_finRange i)]
  simp [NusCConnection.sendNext, NusCConnection.nusSend, hr, hc, hq]

/-- A payload other than a given one. -/
theorem exists_payload_ne (S : CentralShape) (p : Payload) :
    ∃ data : Payload, data ≠ p ∧ data.length ≤ S.itemSize := by
  cases p with
  | nil => exact ⟨[0], by simp, S.itemSize_pos⟩
  | cons b p => exact ⟨[], by simp, Nat.zero_le _⟩

/-- **A lost payload shows once the queue has run empty**: then the next one sent is not the one
that was due. -/
theorem exists_run_of_lost {s : Central S} {i : Fin S.maxConn} (h : Lost (s.conns i)) :
    ∃ rs, Meets step NoOverlap s rs ∧ ¬ Always step Delivers s rs := by
  induction hq : (s.conns i).q generalizing s with
  | nil =>
    obtain ⟨hr, hc, hlen⟩ := h
    have hdue : (s.conns i).accepted.length < (s.conns i).put.length := by
      simpa [hq] using hlen
    obtain ⟨data, hne, hdata⟩ := exists_payload_ne S (s.conns i).put[(s.conns i).accepted.length]
    have hconn : (s.write data).conns i
        = { s.conns i with q := [data], put := (s.conns i).put ++ [data] } := by
      simp only [write, if_pos (⟨i, hr⟩ : ∃ i, (s.conns i).ready), if_neg (not_lt.mpr hdata), hr,
        if_true, NusCConnection.msgqPut, hq, List.length_nil]
      rfl
    have hpend : (s.write data).sendWork := by
      simp only [write, if_pos (⟨i, hr⟩ : ∃ i, (s.conns i).ready), if_neg (not_lt.mpr hdata)]
    have hround := conns_round (s := s.write data) (i := i) (q := [])
      (by rw [hconn]; exact hr) (by rw [hconn]; exact hc) (by rw [hconn]) (.inl hpend)
    refine ⟨.write data :: round S, meets_cons.mpr ⟨trivial, meets_round _⟩, ?_⟩
    intro hall
    have hpre := (hall.last i (by rw [run_cons, step, hround, hconn]; exact hr)).1
    rw [run_cons, step, hround, hconn] at hpre
    have hget := hpre.getElem (i := (s.conns i).accepted.length) (by simp)
    simp only [List.getElem_append_right (Nat.le_refl _), Nat.sub_self, List.getElem_singleton,
      List.getElem_append_left hdue] at hget
    exact hne hget
  | cons payload q ih =>
    obtain ⟨hr, hc, hlen⟩ := h
    by_cases hd : Delivers s
    · have hround := conns_round hr hc hq ((hd i hr).2 (by simp [hq]))
      have hlost : Lost ((run step s (round S)).conns i) := by
        rw [hround]
        refine ⟨hr, hc, ?_⟩
        rw [hq] at hlen
        simp only [List.length_append, List.length_cons, List.length_nil] at hlen ⊢
        omega
      obtain ⟨rs, hrs, hviol⟩ := ih hlost (by rw [hround])
      exact ⟨round S ++ rs, meets_append.mpr ⟨meets_round s, hrs⟩,
        fun hall => hviol (always_append.mp hall).2⟩
    · exact ⟨[], meets_nil, fun hall => hd hall.head⟩

/-- **A send that is not accepted loses its payload.** -/
theorem lost_sendNext {c : NusCConnection} {res : ℤ} (h : SlotSound true c) (hr : c.ready)
    (hq : c.q ≠ []) (hbad : c.busy = true ∨ res ≠ 0) : Lost (c.sendNext res) := by
  obtain ⟨payload, q, hcons⟩ := List.exists_cons_of_ne_nil hq
  have hsend : c.sendNext res = { c with q := q } := by
    have hgo : ¬ (c.ready = false ∨ c.conn = none) := by simp [hr, h.conn hr]
    rw [NusCConnection.sendNext, if_neg hgo, hcons]
    rcases hbad with hb | hres
    · simp [NusCConnection.nusSend, hb]
    · by_cases hb : c.busy
      · simp [NusCConnection.nusSend, hb]
      · simp [NusCConnection.nusSend, hb, hres]
  rw [hsend]
  refine ⟨hr, h.conn hr, ?_⟩
  simp [h.put hr, hcons]

/-- **Every queued payload is delivered once and in order exactly when the work never runs over an
outstanding write.** -/
theorem delivers_iff_noOverlap (es : List (CentralEvent S)) :
    Robust step NoOverlap Delivers (init S) es ↔ Meets step NoOverlap (init S) es := by
  refine robust_iff_meets sound_step (fun _ => Sound.delivers) ?_ sound_init es
  intro s e h hbad
  cases e with
  | sendWork res =>
    simp only [NoOverlap, not_forall, not_and_or, Bool.not_eq_false] at hbad
    obtain ⟨hw, i, hr, hq, hbad⟩ := hbad
    refine exists_run_of_lost (i := i) ?_
    simp only [step, sendWorkHandler, if_pos hw]
    exact lost_sendNext (hw ▸ h i) hr hq hbad
  | write => exact absurd trivial hbad
  | dataSent => exact absurd trivial hbad
  | connected => exact absurd trivial hbad
  | discoveryCompleted => exact absurd trivial hbad
  | disconnected => exact absurd trivial hbad

/-- One slot, three writes: the first is outstanding when the work runs for the second, which is
lost; then the third is sent. -/
theorem not_delivers_three_writes :
    ¬ Always step Delivers (init ⟨1, 4, by decide⟩)
      [.connected 7 0, .discoveryCompleted 7 0, .write [1], .sendWork fun _ => 0, .write [2],
        .sendWork fun _ => 0, .dataSent 0, .write [3], .sendWork fun _ => 0] := by
  intro h
  have hpre := (h.last 0 (by decide)).1
  revert hpre
  decide

end Central

end Pyrinas
