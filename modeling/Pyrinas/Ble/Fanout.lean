import Pyrinas.Ble.Arrivals
import Pyrinas.Ble.Broadcast

/-!
# Ble/Fanout — from `ble_publish` on the hub to the subscribers on the clients

On the hub `ble_publish_raw` hands the event to `ble_central_write`, which queues it for every
client that is ready; the work gives each of them its next one, and there `bt_receive_cb` passes it
to the `ble_evt_handler` that the hub has too.  A client may miss what the others get.  But what it
sees is in the order of the hub, so no two clients see two events in different orders.

                  ┌▸ q₀ ─▸ air ─▸ m_event_queue ─▸ subscriber
    ble_publish ──┼▸ q₁ ─▸ air ─▸ m_event_queue ─▸ subscriber
                  └▸ ⋯

A connection goes by the number of the client at its other end, and nothing interrupts the hub while
it publishes, which it does in a timer.
-/

open Machinery

namespace Pyrinas

/-- `ble_publish`, and `ble_publish_raw` as far as `pb_encode`. -/
def EventCodec.encoded {F : EventFields} (C : EventCodec F) (name data : CString) :
    Option Payload :=
  match blePublish F name data with
  | some (.ok event) => C.pbEncode event
  | _ => none

/-- The hub with its clients.  `published` are the strings that came to `ble_central_write`, and
`owed` those that came there while a client was ready; `air` has the writes to a client that it has
not received. -/
structure Fanout (S : CentralShape) (F : EventFields) where
  hub : Link S
  published : List (CString × CString)
  owed : ℕ → List (CString × CString)
  air : ℕ → List Payload
  clients : ℕ → EventBytes F

/-- A call of `ble_publish` on the hub, or anything else that happens there; a write to a client
that is lost, or received; or anything else that happens on a client. -/
inductive FanoutEvent (S : CentralShape) (F : EventFields)
  | publish (name data : CString)
  | hub (e : LinkEvent S)
  | lost (client i : ℕ)
  | receive (client : ℕ) (stack : ProtobufEvent F)
  | client (client : ℕ) (e : EventBytesEvent F)

namespace Fanout

variable {S : CentralShape} {F : EventFields} (C : EventCodec F)

/-- After `ble_central_ready`, with any contents of the clients' `evt`. -/
def boot (S : CentralShape) (scanErr : ℤ) (evt : ℕ → ProtobufEvent F) : Fanout S F :=
  ⟨.bleCentralReady S scanErr, [], fun _ => [], fun _ => [], fun client => .boot (evt client)⟩

/-- `ble_publish` and `ble_publish_raw` of the hub. -/
def publish (s : Fanout S F) (name data : CString) : Fanout S F :=
  match C.encoded name data with
  | some payload =>
    { s with
      hub := s.hub.step (.write payload)
      published := s.published ++ [(name, data)]
      owed := fun client => s.owed client ++ if s.hub.Ready client then [(name, data)] else [] }
  | none => s

/-- An event on the hub: what it sends is in the air. -/
def onHub (s : Fanout S F) (e : LinkEvent S) : Fanout S F :=
  { s with
    hub := s.hub.step e
    air := fun client => s.air client ++ s.hub.sends client e }

/-- `bt_receive_cb` of a client, and `ble_evt_handler`. -/
def receive (s : Fanout S F) (client : ℕ) (stack : ProtobufEvent F) : Fanout S F :=
  match s.air client with
  | [] => s
  | payload :: air =>
    { s with
      air := Function.update s.air client air
      clients := Function.update s.clients client
        ((s.clients client).bleEvtHandler (if payload = [] then none else C.pbDecode payload)
          stack) }

/-- One event; nothing else is written, and nothing else received. -/
def step (s : Fanout S F) : FanoutEvent S F → Fanout S F
  | .publish name data => s.publish C name data
  | .hub (.write _) => s
  | .hub e => s.onHub e
  | .lost client i => { s with
    air := Function.update s.air client ((s.air client).eraseIdx i) }
  | .receive client stack => s.receive C client stack
  | .client _ (.evtHandler _ _) => s
  | .client client e => { s with
    clients := Function.update s.clients client ((s.clients client).step e) }

/-- What a client has taken out of its queue, whether a handler was there or not: the C strings at
the two pointers. -/
def seen (s : Fanout S F) (client : ℕ) : List (Option CString × Option CString) :=
  (s.clients client).handed.map fun call => (call.evt.name.cString, call.evt.data.cString)

/-- The strings are shorter than 255 characters. -/
def Short : FanoutEvent S F → Prop
  | .publish name data => name.length < 255 ∧ data.length < 255
  | _ => True

/-- Nothing for this client gets lost here. -/
def Lossless (client : ℕ) (s : Fanout S F) : FanoutEvent S F → Prop
  | .publish name data => s.hub.Ready client →
    (s.hub.queued client).length < bleCentralQueueSize ∧
      ∀ event, blePublish F name data = some (.ok event) →
        ∃ payload ∈ C.pbEncode event, payload.length ≤ S.itemSize
  | .hub (.sendWork res) => s.hub.central.sendWork →
    ∀ i, (s.hub.central.conns i).conn = some client → (s.hub.central.conns i).ready →
      (s.hub.central.conns i).q ≠ [] → (s.hub.central.conns i).busy = false ∧ res i = 0
  | .hub (.disconnected conn _) => conn = client → s.hub.queued client = []
  | .lost c _ => c ≠ client
  | .receive c _ => c = client → (s.clients client).eventQueue.items.length < 20
  | _ => True

/-- To a client the hub is like a client to the hub: what is queued for it is on its way. -/
def view (s : Fanout S F) (client : ℕ) : PubSub F :=
  ⟨.boot, [], s.owed client, s.air client ++ s.hub.queued client, s.clients client⟩

end Fanout

theorem EventCodec.exists_of_encoded {F : EventFields} (C : EventCodec F) {name data : CString}
    {payload : Payload} (h : C.encoded name data = some payload) :
    ∃ event, blePublish F name data = some (.ok event) ∧ C.pbEncode event = some payload := by
  unfold EventCodec.encoded at h
  split at h
  next event hevent => exact ⟨event, hevent, h⟩
  next => cases h

theorem EventCodec.spells_of_encoded {F : EventFields} {C : EventCodec F}
    {name data : CString} {payload : Payload} (h : C.encoded name data = some payload)
    (hname : name.length < 255) (hdata : data.length < 255) : C.Spells payload (name, data) := by
  obtain ⟨event, hevent, hpayload⟩ := C.exists_of_encoded h
  exact C.spells hevent hname hdata hpayload

namespace Fanout

variable {S : CentralShape} {F : EventFields} {C : EventCodec F} {s s' : Fanout S F} {client : ℕ}

/-! ## A step, as a client sees it -/

/-- What does not touch a client. -/
theorem view_congr (hhub : s'.hub = s.hub) (howed : s'.owed client = s.owed client)
    (hair : s'.air client = s.air client) (hclient : s'.clients client = s.clients client) :
    s'.view client = s.view client := by
  rw [view, view, hhub, howed, hair, hclient]

theorem underWay_view (s : Fanout S F) (client : ℕ) :
    (s.view client).underWay = s.air client ++ s.hub.queued client := by
  simp [view, PubSub.underWay, Peripheral.boot, PeripheralPc.sendingPayload, MessageQueue.empty]

/-- **What is published is queued for a client that is ready, or lost.** -/
theorem advances_publish (hs : s.hub.Consistent) (h : (s.view client).Carries C)
    {name data : CString} (hname : name.length < 255) (hdata : data.length < 255) :
    ∃ new, PubSub.Advances C (s.Lossless C client (.publish name data)) (s.view client)
      ((s.publish C name data).view client) new := by
  cases hencode : C.encoded name data with
  | none =>
    rw [publish, hencode]
    exact ⟨[], h.advances_self _⟩
  | some payload =>
    rw [publish, hencode]
    have hqueued := Link.queued_write hs client payload
    by_cases hr : s.hub.Ready client
    · have hspells := C.spells_of_encoded hencode hname hdata
      refine ⟨[(name, data)], h.advances_append (.cons hspells .nil) h.calls ?_ rfl rfl ?_ ?_⟩
      · simp only [view, if_pos hr]
      · simp only [underWay_view, hqueued, ← List.append_assoc]
        refine List.Sublist.append_left ?_ _
        split_ifs
        · exact List.Sublist.refl _
        · exact List.nil_sublist _
      · intro hok
        obtain ⟨hroom, hfits⟩ := hok hr
        have hlong : payload.length ≤ S.itemSize := by
          obtain ⟨event, hevent, hpayload⟩ := C.exists_of_encoded hencode
          obtain ⟨payload', hpayload', hle⟩ := hfits event hevent
          rwa [Option.some.inj (hpayload.symm.trans hpayload')]
        simp only [underWay_view, hqueued, hr, hroom, hlong, and_self, if_true, List.append_assoc]
    · rw [if_neg fun hcond => hr hcond.1, List.append_nil] at hqueued
      have hway : (view ⟨s.hub.step (.write payload), s.published ++ [(name, data)],
          fun client => s.owed client ++ if s.hub.Ready client then [(name, data)] else [],
          s.air, s.clients⟩ client).underWay = (s.view client).underWay := by
        simp only [underWay_view, hqueued]
      refine ⟨[], h.advances h.calls ?_ rfl rfl (hway ▸ List.Sublist.refl _) fun _ => hway⟩
      simp only [view, if_neg hr, List.append_nil]

/-- What else happens on the hub takes nothing out of the order. -/
theorem advances_hub (hs : s.hub.Consistent) (hu : s.hub.Unused) (h : (s.view client).Carries C)
    (e : LinkEvent S) :
    PubSub.Advances C (s.Lossless C client (.hub e)) (s.view client)
      ((s.step C (.hub e)).view client) [] := by
  have hway : ((s.onHub e).view client).underWay
      = s.air client ++ (s.hub.sends client e ++ (s.hub.step e).queued client) := by
    rw [underWay_view, ← List.append_assoc]
    rfl
  have hsends : (∀ res, e ≠ .sendWork res) → s.hub.sends client e = [] := by
    intro hsend
    cases e with
    | sendWork res => exact absurd rfl (hsend res)
    | _ => rfl
  have hother : (∀ data, e ≠ .write data) → (∀ res, e ≠ .sendWork res) →
      PubSub.Advances C (s.Lossless C client (.hub e)) (s.view client)
        ((s.onHub e).view client) [] := by
    intro hwrite hsend
    rw [hsends hsend, List.nil_append] at hway
    rcases Link.queued_other hs hu client e hwrite hsend with
      hsame | ⟨hempty, scanErr, rfl⟩
    · rw [hsame, ← underWay_view] at hway
      exact h.advances h.calls rfl rfl rfl (hway ▸ List.Sublist.refl _) fun _ => hway
    · rw [hempty] at hway
      refine h.advances h.calls rfl rfl rfl ?_ fun hok => ?_
      · rw [hway, underWay_view]
        exact (List.nil_sublist _).append_left _
      · rw [hway, underWay_view, hok rfl]
  cases e with
  | write data => exact h.advances_self _
  | sendWork res =>
    obtain ⟨hsub, hall⟩ := Link.queued_sendWork hs client res
    change PubSub.Advances C _ _ ((s.onHub (.sendWork res)).view client) []
    refine h.advances h.calls rfl rfl rfl ?_ fun hok => ?_
    · rw [hway, underWay_view]
      exact hsub.append_left _
    · rw [hway, underWay_view, hall hok]
  | _ => exact hother (fun _ => by simp) fun _ => by simp

/-- **A client receives what was sent to it**, as the hub receives what a client has sent. -/
theorem advances_toClient (h : (s.view client).Carries C) (c : ℕ) (stack : ProtobufEvent F) :
    PubSub.Advances C (s.Lossless C client (.receive c stack)) (s.view client)
      ((s.receive C c stack).view client) [] := by
  by_cases hc : c = client
  · subst hc
    cases hair : s.air c with
    | nil =>
      rw [receive, hair]
      exact h.advances_self _
    | cons payload air =>
      have hview : (s.receive C c stack).view c = (s.view c).receive C stack := by
        simp [view, receive, PubSub.receive, hair]
      have hadv := PubSub.advances_receive h stack
      rw [hview]
      exact ⟨hadv.carries, hadv.published, hadv.sublist, fun hok => hadv.all (hok rfl)⟩
  · have hview : (s.receive C c stack).view client = s.view client := by
      unfold receive
      split
      · rfl
      · exact view_congr rfl rfl (Function.update_of_ne (Ne.symm hc) _ _)
          (Function.update_of_ne (Ne.symm hc) _ _)
    rw [hview]
    exact h.advances_self _

/-- The work queue of a client hands over what it takes out of the queue. -/
theorem advances_client (h : (s.view client).Carries C) (lossless : Prop) (c : ℕ)
    (e : EventBytesEvent F) :
    PubSub.Advances C lossless (s.view client) ((s.step C (.client c e)).view client) [] := by
  by_cases hc : c = client
  · subst hc
    have hview : view { s with
        clients := Function.update s.clients c ((s.clients c).step e) } c
          = { s.view c with hub := (s.clients c).step e } := by
      simp [view]
    cases e with
    | evtHandler decoded stack => exact h.advances_self lossless
    | subscribe | subscribeRaw =>
      refine hview ▸ h.advances h.calls rfl rfl rfl ?_ fun _ => rfl
      exact List.Sublist.refl _
    | work => exact hview ▸ PubSub.advances_hubWork h lossless
  · have hview : (s.step C (.client c e)).view client = s.view client := by
      cases e with
      | evtHandler decoded stack => rfl
      | _ => exact view_congr rfl rfl rfl (Function.update_of_ne (Ne.symm hc) _ _)
    rw [hview]
    exact h.advances_self lossless

/-- **A step**, as a client sees it. -/
theorem advances_view (hs : s.hub.Consistent) (hu : s.hub.Unused) (h : (s.view client).Carries C)
    (e : FanoutEvent S F) (hshort : Short e) :
    ∃ new, PubSub.Advances C (s.Lossless C client e) (s.view client)
      ((s.step C e).view client) new := by
  cases e with
  | publish name data => exact advances_publish hs h hshort.1 hshort.2
  | hub e => exact ⟨[], advances_hub hs hu h e⟩
  | lost c i =>
    refine ⟨[], ?_⟩
    by_cases hc : c = client
    · subst hc
      refine h.advances h.calls rfl rfl rfl ?_ fun hok => absurd rfl hok
      rw [underWay_view, underWay_view]
      simp only [step, Function.update_self]
      exact (List.eraseIdx_sublist _ i).append_right _
    · have hview : (s.step C (.lost c i)).view client = s.view client :=
        view_congr rfl rfl (Function.update_of_ne (Ne.symm hc) _ _) rfl
      rw [hview]
      exact h.advances_self _
  | receive c stack => exact ⟨[], advances_toClient h c stack⟩
  | client c e => exact ⟨[], advances_client h _ c e⟩

/-! ## A run -/

/-- The slots are in order, and a client is owed nothing that was not published. -/
structure Sound (s : Fanout S F) : Prop where
  consistent : s.hub.Consistent
  unused : s.hub.Unused
  owed : ∀ client, (s.owed client).Sublist s.published

theorem sound_boot (S : CentralShape) (scanErr : ℤ) (evt : ℕ → ProtobufEvent F) :
    (boot S scanErr evt).Sound where
  consistent := Link.consistent_bleCentralReady scanErr
  unused := fun _ _ => ⟨rfl, rfl⟩
  owed := fun _ => List.Sublist.refl _

theorem sound_step (h : s.Sound) (e : FanoutEvent S F) : (s.step C e).Sound := by
  have hhub : ∀ e, (s.onHub e).Sound := fun e =>
    ⟨Link.consistent_step h.consistent e, Link.unused_step h.consistent h.unused e, h.owed⟩
  cases e with
  | publish name data =>
    rw [step, publish]
    split
    next payload _ =>
      refine ⟨Link.consistent_step h.consistent (.write payload),
        Link.unused_step h.consistent h.unused (.write payload), fun client => ?_⟩
      refine (h.owed client).append ?_
      split_ifs
      · exact List.Sublist.refl _
      · exact List.nil_sublist _
    next => exact h
  | hub e =>
    cases e with
    | write data => exact h
    | _ => exact hhub _
  | lost => exact ⟨h.consistent, h.unused, h.owed⟩
  | receive c stack =>
    rw [step, receive]
    split
    · exact h
    · exact ⟨h.consistent, h.unused, h.owed⟩
  | client c e =>
    cases e with
    | evtHandler => exact h
    | _ => exact ⟨h.consistent, h.unused, h.owed⟩

/-- A hub with room for two clients. -/
def twoSlots : CentralShape := ⟨2, 168, Nat.succ_pos 167⟩

/-- Two clients are connected and subscribe, and two events are published: the first is sent to both
of them, the second to the one whose first write is through. -/
def twoClients : List (FanoutEvent twoSlots sampleFields) :=
  let connect (conn : ℕ) : List (FanoutEvent twoSlots sampleFields) :=
    [.hub (.scanFilterMatch 0 0 conn none), .hub (.connected conn 0 0 0 0 0),
      .hub (.securityChanged conn 0 0 0), .hub (.discoveryCompleted 0 0 0 0 none),
      .client conn (.subscribe (.ofString "h") conn)]
  connect 1 ++ connect 2 ++ [.publish (.ofString "h") (.ofString "1"),
    .hub (.sendWork fun _ => 0), .hub (.dataSent (0 : Fin 2)),
    .publish (.ofString "h") (.ofString "2"), .hub (.sendWork fun _ => 0)]

/-- A client receives two writes, if there are two, and hands over what is in its queue. -/
def receiveBoth (client : ℕ) : List (FanoutEvent twoSlots sampleFields) :=
  [.receive client PubSub.noEvent, .receive client PubSub.noEvent]
    ++ List.replicate 6 (.client client .work)

theorem view_boot (scanErr : ℤ) (evt : ℕ → ProtobufEvent F) (client : ℕ) :
    (boot S scanErr evt).view client = .boot (evt client) := by
  have hqueued : (Link.bleCentralReady S scanErr).queued client = [] := by
    refine Link.inSlots_of_not_tracked ?_ _
    rintro ⟨i, hi⟩
    exact Option.some_ne_none client hi.symm
  simp [view, boot, hqueued, PubSub.boot]

/-- Everything a client sees is in order. -/
structure InOrder (C : EventCodec F) (s : Fanout S F) : Prop extends s.Sound where
  clients : ∀ client, (s.view client).InOrder C

theorem inOrder_run (C : EventCodec F) (scanErr : ℤ) (evt : ℕ → ProtobufEvent F)
    (es : List (FanoutEvent S F))
    (h : Meets (step C) (fun _ e => Short e) (boot S scanErr evt) es) :
    (run (step C) (boot S scanErr evt) es).InOrder C := by
  refine invariant_run (fun s e hs hshort => ?_) ⟨sound_boot S scanErr evt, fun client => ?_⟩ h
  · refine ⟨sound_step hs.toSound e, fun client => ?_⟩
    have hcarries := (hs.clients client).carries
    obtain ⟨new, hadv⟩ := advances_view hs.consistent hs.unused hcarries e hshort
    exact (hs.clients client).advances hadv
  · rw [view_boot]
    exact ⟨PubSub.carries_boot _, List.nil_sublist _⟩

/-- **No two clients see two events in different orders**, if no two are published alike: what each
of them sees was published while it was ready, each event at most once and in the order of the hub,
whatever is lost and however the clients come and go. -/
theorem clients_agree (C : EventCodec F) (scanErr : ℤ) (evt : ℕ → ProtobufEvent F)
    (es : List (FanoutEvent S F))
    (h : Meets (step C) (fun _ e => Short e) (boot S scanErr evt) es) :
    (∀ client, ((run (step C) (boot S scanErr evt) es).seen client).Sublist
        (((run (step C) (boot S scanErr evt) es).owed client).map (Prod.map some some)) ∧
      ((run (step C) (boot S scanErr evt) es).owed client).Sublist
        (run (step C) (boot S scanErr evt) es).published) ∧
    ((run (step C) (boot S scanErr evt) es).published.Nodup → ∀ client client' a b,
      [a, b].Sublist ((run (step C) (boot S scanErr evt) es).seen client) →
        ¬ [b, a].Sublist ((run (step C) (boot S scanErr evt) es).seen client')) := by
  have hend := inOrder_run C scanErr evt es h
  generalize run (step C) (boot S scanErr evt) es = s at hend ⊢
  have hseen : ∀ client, (s.seen client).Sublist ((s.owed client).map (Prod.map some some)) :=
    fun client => (hend.clients client).seen_sublist
  have hall : ∀ client, (s.seen client).Sublist (s.published.map (Prod.map some some)) :=
    fun client => (hseen client).trans ((hend.owed client).map _)
  refine ⟨fun client => ⟨hseen client, hend.owed client⟩, fun hnodup client client' a b ha hb => ?_⟩
  have hinj : Function.Injective (Prod.map (some : CString → _) (some : CString → _)) :=
    (Option.some_injective _).prodMap (Option.some_injective _)
  exact not_sublist_swap (hnodup.map hinj) (ha.trans (hall client)) (hb.trans (hall client'))

/-- The second client misses the second event. -/
theorem clients_agree_one_missed :
    (fun s : Fanout twoSlots sampleFields =>
      ((s.seen 1).length, (s.seen 2).length) = (2, 1) ∧
      (∀ client, (s.seen client).Sublist ((s.owed client).map (Prod.map some some)) ∧
        (s.owed client).Sublist s.published) ∧
      (s.published.Nodup → ∀ client client' a b, [a, b].Sublist (s.seen client) →
        ¬ [b, a].Sublist (s.seen client')))
      (run (step PubSub.sampleCodec) (boot _ 0 fun _ => PubSub.noEvent)
        (twoClients ++ receiveBoth 1 ++ receiveBoth 2)) :=
  ⟨by decide +kernel, clients_agree PubSub.sampleCodec 0 _ _ (by
    simp only [twoClients, receiveBoth, List.replicate, List.cons_append, List.nil_append,
      meets_cons, meets_nil, Short, and_true, true_and]
    decide +kernel)⟩

end Fanout

/-! ## Without losses -/

/-- The hub with its clients; and for each client the calls of `ble_publish` that have gone through
while it was ready, and who was registered for each event it has taken out of its queue. -/
structure FanoutLog (S : CentralShape) (F : EventFields) where
  net : Fanout S F
  accepted : ℕ → List (CString × CString)
  registered : ℕ → List Registered

namespace Fanout

variable {S : CentralShape} {F : EventFields} {C : EventCodec F} {s : Fanout S F} {client : ℕ}

/-- The publication that `ble_publish` accepts for a client: while that is ready, and with room for
both strings. -/
def accepts (s : Fanout S F) (client : ℕ) : FanoutEvent S F → List (CString × CString)
  | .publish name data =>
    if s.hub.Ready client ∧ name.length + 1 < F.size ∧ data.length + 1 < F.dataSize then
      [(name, data)]
    else []
  | _ => []

/-- After `ble_central_ready`. -/
def bootLog (S : CentralShape) (scanErr : ℤ) (evt : ℕ → ProtobufEvent F) : FanoutLog S F :=
  ⟨boot S scanErr evt, fun _ => [], fun _ => []⟩

/-- One event, and the record of it. -/
def logStep (C : EventCodec F) (x : FanoutLog S F) (e : FanoutEvent S F) : FanoutLog S F where
  net := x.net.step C e
  accepted client := x.accepted client ++ x.net.accepts client e
  registered client := x.registered client
    ++ EventBytes.registeredFor (x.net.clients client) ((x.net.step C e).clients client)

theorem handedTo_clients {rs : List Registered}
    (h : List.Forall₂ EventBytes.HandedTo rs (s.clients client).handed) (e : FanoutEvent S F) :
    List.Forall₂ EventBytes.HandedTo
      (rs ++ EventBytes.registeredFor (s.clients client) ((s.step C e).clients client))
      ((s.step C e).clients client).handed := by
  have hsame : ∀ b : EventBytes F, b = s.clients client → List.Forall₂ EventBytes.HandedTo
      (rs ++ EventBytes.registeredFor (s.clients client) b) b.handed := by
    rintro _ rfl
    exact EventBytes.handedTo_of_kept h rfl le_rfl
  have hupdate : ∀ (c : ℕ) (b : EventBytes F), (c = client → List.Forall₂ EventBytes.HandedTo
      (rs ++ EventBytes.registeredFor (s.clients client) b) b.handed) →
      List.Forall₂ EventBytes.HandedTo
        (rs ++ EventBytes.registeredFor (s.clients client) (Function.update s.clients c b client))
        (Function.update s.clients c b client).handed := by
    intro c b hb
    by_cases hc : c = client
    · subst hc
      rw [Function.update_self]
      exact hb rfl
    · rw [Function.update_of_ne (Ne.symm hc)]
      exact hsame _ rfl
  cases e with
  | publish name data =>
    refine hsame _ ?_
    rw [step, publish]
    split <;> rfl
  | hub e => cases e <;> exact hsame _ rfl
  | lost => exact hsame _ rfl
  | receive c stack =>
    rw [step, receive]
    split
    · exact hsame _ rfl
    · refine hupdate c _ ?_
      rintro rfl
      exact EventBytes.handedTo_bleEvtHandler h _ stack
  | client c e =>
    cases e with
    | evtHandler => exact hsame _ rfl
    | subscribe | subscribeRaw =>
      refine hupdate c _ ?_
      rintro rfl
      exact EventBytes.handedTo_of_kept h rfl le_rfl
    | work =>
      refine hupdate c _ ?_
      rintro rfl
      exact EventBytes.handedTo_work h

/-- **What is accepted for a client is owed to it.** -/
theorem owed_step (e : FanoutEvent S F) (hok : Short e ∧ s.Lossless C client e) :
    (s.step C e).owed client = s.owed client ++ s.accepts client e := by
  cases e with
  | publish name data =>
    obtain ⟨⟨hname, hdata⟩, hlossless⟩ := hok
    have hnone : ¬ s.hub.Ready client → (s.publish C name data).owed client
        = s.owed client ++ s.accepts client (.publish name data) := by
      intro hr
      rw [accepts, if_neg fun h => hr h.1, publish]
      split
      · exact congrArg (_ ++ ·) (if_neg hr)
      · exact (List.append_nil _).symm
    by_cases hr : s.hub.Ready client
    · by_cases hfits : name.length + 1 < F.size ∧ data.length + 1 < F.dataSize
      · obtain ⟨event, hevent⟩ := exists_ok_of_fits hname hdata hfits
        obtain ⟨payload, hpayload, -⟩ := (hlossless hr).2 event hevent
        have hencode : C.encoded name data = some payload := by
          rw [EventCodec.encoded, hevent]
          exact hpayload
        simp only [step, publish, hencode, accepts, if_pos hr, if_pos (And.intro hr hfits)]
      · obtain ⟨err, herr⟩ := exists_error_of_not_fits hname hdata hfits
        have hencode : C.encoded name data = none := by rw [EventCodec.encoded, herr]
        rw [accepts, if_neg fun h => hfits h.2, List.append_nil, step, publish, hencode]
    · exact hnone hr
  | hub e => cases e <;> exact (List.append_nil _).symm
  | lost => exact (List.append_nil _).symm
  | receive c stack =>
    rw [step, receive]
    split <;> exact (List.append_nil _).symm
  | client c e => cases e <;> exact (List.append_nil _).symm

/-- Everything accepted for a client is somewhere, and what it has taken out it has handed over. -/
structure Arrives (C : EventCodec F) (client : ℕ) (x : FanoutLog S F) : Prop extends
    x.net.Sound where
  complete : (x.net.view client).Complete C
  accepted : x.net.owed client = x.accepted client
  registered : List.Forall₂ EventBytes.HandedTo (x.registered client)
    (x.net.clients client).handed

theorem arrives_step (x : FanoutLog S F) (e : FanoutEvent S F) (h : Arrives C client x)
    (hok : Short e ∧ x.net.Lossless C client e) : Arrives C client (logStep C x e) where
  toSound := sound_step h.toSound e
  complete := by
    obtain ⟨new, hadv⟩ := advances_view h.consistent h.unused h.complete.carries e hok.1
    exact h.complete.advances hadv hok.2
  accepted := (owed_step e hok).trans (congrArg (· ++ _) h.accepted)
  registered := handedTo_clients h.registered e

/-- **A client for which nothing is lost has called its handlers for all that `ble_publish` has
accepted while it was ready**, once nothing is under way to it and its queue is empty: for each
publication in turn, those that were registered when the client took it out of its queue. -/
theorem called_of_owed (C : EventCodec F) (scanErr : ℤ) (evt : ℕ → ProtobufEvent F) (client : ℕ)
    (es : List (FanoutEvent S F))
    (h : Meets (logStep C) (fun x e => Short e ∧ x.net.Lossless C client e)
      (bootLog S scanErr evt) es)
    (hair : (run (logStep C) (bootLog S scanErr evt) es).net.air client = [])
    (hqueued : (run (logStep C) (bootLog S scanErr evt) es).net.hub.queued client = [])
    (hqueue : ((run (logStep C) (bootLog S scanErr evt) es).net.clients client).eventQueue.items
      = []) :
    ((run (logStep C) (bootLog S scanErr evt) es).registered client).length
        = ((run (logStep C) (bootLog S scanErr evt) es).accepted client).length ∧
      ((run (logStep C) (bootLog S scanErr evt) es).net.clients client).called
        = (List.zipWith Registered.calls
            ((run (logStep C) (bootLog S scanErr evt) es).registered client)
            ((run (logStep C) (bootLog S scanErr evt) es).accepted client)).flatten := by
  have hboot : Arrives C client (bootLog S scanErr evt) := by
    refine ⟨sound_boot S scanErr evt, ?_, rfl, .nil⟩
    change ((boot S scanErr evt).view client).Complete C
    rw [view_boot]
    exact ⟨PubSub.carries_boot _, rfl⟩
  have hend := invariant_run arrives_step hboot h
  generalize run (logStep C) (bootLog S scanErr evt) es = x at hend hair hqueued hqueue ⊢
  have hall : (x.net.clients client).handed.map (fun call => call.evt.received.strings)
      = x.accepted client :=
    (hend.complete.handed_eq (by rw [underWay_view, hair, hqueued, List.append_nil])
      hqueue).trans hend.accepted
  refine ⟨?_, ?_⟩
  · rw [hend.registered.length_eq, ← hall, List.length_map]
  · rw [EventBytes.called_eq hend.registered hend.complete.carries.handed, hall]

/-- The first client misses nothing. -/
theorem called_of_owed_first :
    (fun x : FanoutLog twoSlots sampleFields =>
      (x.accepted 1).length = 2 ∧ (x.net.clients 1).called.length = 2 ∧
      (x.registered 1).length = (x.accepted 1).length ∧ (x.net.clients 1).called
        = (List.zipWith Registered.calls (x.registered 1) (x.accepted 1)).flatten)
      (run (logStep PubSub.sampleCodec) (bootLog _ 0 fun _ => PubSub.noEvent)
        (twoClients ++ receiveBoth 1)) := by
  refine ⟨by decide +kernel, by decide +kernel,
    called_of_owed PubSub.sampleCodec 0 _ 1 _ ?_ rfl rfl rfl⟩
  simp only [twoClients, receiveBoth, List.replicate, List.cons_append, List.nil_append,
    meets_cons, meets_nil, Short, Lossless, and_true, true_and]
  and_intros
  · decide
  · decide
  · refine fun _ => ⟨?_, PubSub.sampleCodec_encodes ?_ ?_⟩
    · decide +kernel
    · decide
    · decide
  · decide +kernel
  · decide
  · decide
  · refine fun _ => ⟨?_, PubSub.sampleCodec_encodes ?_ ?_⟩
    · decide +kernel
    · decide
    · decide
  all_goals decide +kernel

end Fanout

end Pyrinas
