import Pyrinas.Ble.PubSub

/-!
# Ble/Arrivals — without losses, all that is published reaches its handlers

An observer writes down the calls of `ble_publish` that go through, and who is registered on the hub
whenever it takes an event out of its queue.  When nothing gets lost and nothing is under way, the
two lists say which handlers have been called, and with what.

    accepted     ("a", "1")   ("b", "2")
    registered   raw, a       a            ─▸  raw ("a", "1"), a ("a", "1")
-/

open Machinery

namespace Pyrinas

/-- Who is registered when an event is taken out of `m_event_queue`. -/
structure Registered where
  raw : Option ℕ
  subscribers : List (BleSubscription ℕ)

/-- The calls that a publication asks for: one of the raw handler, and one of the subscriber with
its name, each with the two strings. -/
def Registered.calls (r : Registered) (call : CString × CString) :
    List (HandlerCall (Option CString × Option CString) ℕ ℕ) :=
  let seen := (some call.1, some call.2)
  let subscriber := entryFor BleSubscription.name r.subscribers (call.1.bytes ++ [0])
  (r.raw.map (HandlerCall.raw · seen)).toList
    ++ (subscriber.map fun b => HandlerCall.subscriber b.evtHandler seen).toList

/-! ## What the hub hands over -/

namespace EventBytes

variable {F : EventFields}

/-- The calls of the handlers, each with the C strings at the two pointers. -/
def called (hub : EventBytes F) : List (HandlerCall (Option CString × Option CString) ℕ ℕ) :=
  (hub.handed.flatMap HandedEvent.calls).map
    (HandlerCall.map fun evt => (evt.name.cString, evt.data.cString))

/-- Who is registered, if an event is taken out. -/
def registeredFor (hub hub' : EventBytes F) : List Registered :=
  if hub'.eventQueue.items.length < hub.eventQueue.items.length then
    [⟨hub.rawHandlerExt, hub.subscribeList.subscribers⟩]
  else []

/-- An event was handed to those that are registered. -/
structure HandedTo (r : Registered) (call : HandedEvent F) : Prop where
  raw : call.raw = r.raw
  subscriber : call.subscriber = (entryFor BleSubscription.name r.subscribers
    call.evt.received.name).map BleSubscription.evtHandler

variable {hub hub' : EventBytes F} {rs : List Registered}

/-- A step that takes nothing out. -/
theorem handedTo_of_kept (h : List.Forall₂ HandedTo rs hub.handed)
    (hhanded : hub'.handed = hub.handed)
    (hqueue : hub.eventQueue.items.length ≤ hub'.eventQueue.items.length) :
    List.Forall₂ HandedTo (rs ++ registeredFor hub hub') hub'.handed := by
  rwa [registeredFor, if_neg (not_lt.mpr hqueue), List.append_nil, hhanded]

theorem handedTo_bleEvtHandler (h : List.Forall₂ HandedTo rs hub.handed)
    (decoded : Option (EventMessage F)) (stack : ProtobufEvent F) :
    List.Forall₂ HandedTo (rs ++ registeredFor hub (hub.bleEvtHandler decoded stack))
      (hub.bleEvtHandler decoded stack).handed := by
  unfold bleEvtHandler
  split
  next => exact handedTo_of_kept h rfl le_rfl
  next m =>
    split
    next q hput =>
      refine handedTo_of_kept h rfl ?_
      rw [MessageQueue.items_put hput, List.length_append]
      exact Nat.le_add_right _ _
    next => exact handedTo_of_kept h rfl le_rfl

/-- **What the hub takes out it hands to those that are registered.** -/
theorem handedTo_work (h : List.Forall₂ HandedTo rs hub.handed) :
    List.Forall₂ HandedTo (rs ++ registeredFor hub hub.work) hub.work.handed := by
  unfold work
  split
  next =>
    split_ifs
    · exact handedTo_of_kept h rfl le_rfl
    · exact handedTo_of_kept h rfl le_rfl
  next => exact handedTo_of_kept h rfl le_rfl
  next =>
    split
    next evt q hget =>
      have hshorter : q.items.length < hub.eventQueue.items.length := by
        rw [MessageQueue.items_get hget]
        exact Nat.lt_succ_self _
      have htaken : HandedTo ⟨hub.rawHandlerExt, hub.subscribeList.subscribers⟩
          ⟨evt, hub.rawHandlerExt, hub.subscribeList.evtHandlerFor evt.name.received⟩ :=
        ⟨rfl, Subscriptions.evtHandlerFor_eq _ _⟩
      rw [registeredFor, dispatch, if_pos hshorter]
      exact List.rel_append h (.cons htaken .nil)
    next => exact handedTo_of_kept h rfl le_rfl
  next => exact handedTo_of_kept h rfl le_rfl

/-- A message is handed over in the calls it asks for. -/
theorem calls_of_handedTo {r : Registered} {call : HandedEvent F} (h : HandedTo r call)
    (hwhole : call.evt.received.Whole) :
    call.calls.map (HandlerCall.map fun evt => (evt.name.cString, evt.data.cString))
      = r.calls call.evt.received.strings := by
  obtain ⟨hname, hdata⟩ := hwhole.terminated
  have hown := HandedEvent.own_of_mem hname hdata
  have hstrings : (call.evt.name.cString, call.evt.data.cString)
      = (some call.evt.received.strings.1, some call.evt.received.strings.2) := by
    rw [hown.name, hown.data]
    rfl
  simp only [HandedEvent.calls, Registered.calls, h.raw, h.subscriber, ← hwhole.1, ← hstrings,
    List.map_append, Option.toList_map, List.map_map]
  rfl

/-- **The handlers are called with what is handed over**, message by message. -/
theorem called_eq (h : List.Forall₂ HandedTo rs hub.handed)
    (hwhole : ∀ call ∈ hub.handed, call.evt.received.Whole) : hub.called
      = (List.zipWith Registered.calls rs
          (hub.handed.map fun call => call.evt.received.strings)).flatten := by
  unfold called
  generalize hub.handed = handed at h hwhole
  induction h with
  | nil => rfl
  | cons hcall _ ih =>
    obtain ⟨hfirst, hrest⟩ := List.forall_mem_cons.mp hwhole
    rw [List.flatMap_cons, List.map_append, calls_of_handedTo hcall hfirst, ih hrest]
    rfl

end EventBytes

/-! ## What is accepted -/

section Accepted

variable {F : EventFields} {name data : CString}

/-- Strings with room for their terminators are published… -/
theorem exists_ok_of_fits (hname : name.length < 255) (hdata : data.length < 255)
    (h : name.length + 1 < F.size ∧ data.length + 1 < F.dataSize) :
    ∃ event, blePublish F name data = some (.ok event) := by
  have hname' : SubscribeList.nameLength name = name.length + 1 := Nat.mod_eq_of_lt (by omega)
  have hdata' : dataLength data = data.length + 1 := Nat.mod_eq_of_lt (by omega)
  obtain ⟨event, hevent, -⟩ := exists_blePublish (hname' ▸ h.1) (hdata' ▸ h.2)
  exact ⟨event, hevent⟩

/-- …and others of less than 255 characters are refused. -/
theorem exists_error_of_not_fits (hname : name.length < 255) (hdata : data.length < 255)
    (h : ¬ (name.length + 1 < F.size ∧ data.length + 1 < F.dataSize)) :
    ∃ err, blePublish F name data = some (.error err) := by
  have hname' : SubscribeList.nameLength name = name.length + 1 := Nat.mod_eq_of_lt (by omega)
  have hdata' : dataLength data = data.length + 1 := Nat.mod_eq_of_lt (by omega)
  by_cases hn : name.length + 1 < F.size
  · have hd : dataLength data ≥ F.dataSize := by
      rw [hdata']
      exact not_lt.mp fun hd => h ⟨hn, hd⟩
    exact ⟨.data, by rw [blePublish, if_neg (by omega), if_pos hd]⟩
  · exact ⟨.name, by rw [blePublish, if_pos (by omega)]⟩

end Accepted

/-- A client and the hub, the calls of `ble_publish` that have gone through, and who was registered
for each event that the hub has taken out of its queue. -/
structure PubSubLog (F : EventFields) where
  net : PubSub F
  accepted : List (CString × CString)
  registered : List Registered

namespace PubSub

variable {F : EventFields} {C : EventCodec F} {itemSize : ℕ} {s : PubSub F}

/-- The publication that `ble_publish` accepts: with a connection, and room for both strings. -/
def accepts (s : PubSub F) : PubSubEvent F → List (CString × CString)
  | .publish name data =>
    if s.client.currentConn ≠ none ∧ name.length + 1 < F.size ∧ data.length + 1 < F.dataSize then
      [(name, data)]
    else []
  | _ => []

/-- At boot. -/
def bootLog (evt : ProtobufEvent F) : PubSubLog F := ⟨boot evt, [], []⟩

/-- One event, and the record of it. -/
def logStep (C : EventCodec F) (itemSize : ℕ) (x : PubSubLog F) (e : PubSubEvent F) :
    PubSubLog F where
  net := x.net.step C itemSize e
  accepted := x.accepted ++ x.net.accepts e
  registered := x.registered ++ EventBytes.registeredFor x.net.hub (x.net.step C itemSize e).hub

theorem handedTo_step {rs : List Registered}
    (h : List.Forall₂ EventBytes.HandedTo rs s.hub.handed) (e : PubSubEvent F) :
    List.Forall₂ EventBytes.HandedTo
      (rs ++ EventBytes.registeredFor s.hub (s.step C itemSize e).hub)
      (s.step C itemSize e).hub.handed := by
  have hsame : ∀ hub : EventBytes F, hub = s.hub →
      List.Forall₂ EventBytes.HandedTo (rs ++ EventBytes.registeredFor s.hub hub) hub.handed := by
    rintro _ rfl
    exact EventBytes.handedTo_of_kept h rfl le_rfl
  cases e with
  | publish name data =>
    have hhub : (s.publish C itemSize name data).hub = s.hub := by
      rcases publish_cases C itemSize s name data with heq | ⟨evt, payload, -, -, heq⟩
      · rw [heq]
      · rw [heq]
    exact hsame _ hhub
  | put i =>
    refine hsame _ ?_
    simp only [step, put]
    split
    · rfl
    · split_ifs <;> rfl
  | receive stack =>
    simp only [step, receive]
    split
    · exact hsame _ rfl
    · exact EventBytes.handedTo_bleEvtHandler h _ stack
  | subscribe | subscribeRaw => exact EventBytes.handedTo_of_kept h rfl le_rfl
  | hubWork => exact EventBytes.handedTo_work h
  | connected | disconnected | work | sentCb | lost => exact hsame _ rfl

/-- A call that is accepted comes as far as the queue, if it is encoded and fits. -/
theorem calls_publish {name data : CString} (hname : name.length < 255) (hdata : data.length < 255)
    (hok : s.Lossless C itemSize (.publish name data)) :
    (s.publish C itemSize name data).published = s.published ∧
      (s.publish C itemSize name data).calls = s.calls ++ s.accepts (.publish name data) := by
  have hnone : ∀ t : PubSub F, t = s → s.accepts (.publish name data) = [] →
      t.published = s.published ∧ t.calls = s.calls ++ s.accepts (.publish name data) := by
    rintro _ rfl hempty
    rw [hempty, List.append_nil]
    exact ⟨rfl, rfl⟩
  by_cases hfits : name.length + 1 < F.size ∧ data.length + 1 < F.dataSize
  · obtain ⟨event, hevent⟩ := exists_ok_of_fits hname hdata hfits
    obtain ⟨payload, hpayload, hlong⟩ := hok event hevent
    have hencode : C.pbEncode event = some payload := hpayload
    by_cases hconn : s.client.currentConn = none
    · refine hnone _ ?_ (if_neg fun h => h.1 hconn)
      simp only [publish, hevent, hencode, Peripheral.write, if_pos hconn, lt_irrefl, if_false]
    · rw [accepts, if_pos ⟨hconn, hfits⟩]
      simp only [publish, hevent, hencode, Peripheral.write, if_neg hconn,
        if_neg (not_lt.mpr hlong), List.length_append, List.length_singleton, Nat.lt_succ_self,
        if_true, and_self]
  · obtain ⟨err, herr⟩ := exists_error_of_not_fits hname hdata hfits
    refine hnone _ ?_ (if_neg fun h => hfits h.2)
    simp only [publish, herr]

/-- **What is accepted is queued, or on its way there**: nothing overtakes it, and there is room. -/
theorem accepts_step (h : s.Carries C) (e : PubSubEvent F)
    (hok : Short e ∧ s.Lossless C itemSize e) :
    (s.step C itemSize e).published ++ (s.step C itemSize e).calls
      = s.published ++ s.calls ++ s.accepts e := by
  have hsame : ∀ t : PubSub F, t.published = s.published → t.calls = s.calls →
      t.published ++ t.calls = s.published ++ s.calls ++ [] := by
    intro t hpublished hcalls
    rw [hpublished, hcalls, List.append_nil]
  cases e with
  | publish name data =>
    obtain ⟨hpublished, hcalls⟩ := calls_publish hok.1.1 hok.1.2 hok.2
    rw [step, hpublished, hcalls, List.append_assoc]
  | put i =>
    obtain ⟨-, rfl, hroom⟩ := hok
    change (s.put 0).published ++ (s.put 0).calls = s.published ++ s.calls ++ []
    unfold put
    cases hcall : s.calls[0]? with
    | none => exact hsame s rfl rfl
    | some call =>
      obtain ⟨payload, hwrite, -⟩ := h.exists_write hcall
      obtain ⟨q, hput⟩ : ∃ q, s.client.eventQueue.put payload = some q := ⟨_, dif_pos hroom⟩
      have hlonger : s.client.eventQueue.items.length < q.items.length := by
        rw [MessageQueue.items_put hput, List.length_append]
        exact Nat.lt_succ_self _
      have hcalls : call :: s.calls.eraseIdx 0 = s.calls := by
        cases hs : s.calls <;> simp_all
      simp only [Peripheral.writePut, hwrite, hput, if_pos hlonger]
      rw [List.append_nil, List.append_assoc, List.singleton_append, hcalls]
  | work sendErr => exact hsame _ rfl rfl
  | receive stack =>
    simp only [step, receive]
    split
    · exact hsame _ rfl rfl
    · exact hsame _ rfl rfl
  | connected | disconnected | sentCb | lost | subscribe | subscribeRaw | hubWork =>
    exact hsame _ rfl rfl

/-- Everything accepted is somewhere, and what the hub has taken out it has handed over. -/
structure Whole (C : EventCodec F) (x : PubSubLog F) : Prop extends x.net.Complete C where
  accepted : x.net.published ++ x.net.calls = x.accepted
  registered : List.Forall₂ EventBytes.HandedTo x.registered x.net.hub.handed

theorem whole_step (x : PubSubLog F) (e : PubSubEvent F) (h : Whole C x)
    (hok : Short e ∧ x.net.Lossless C itemSize e) : Whole C (logStep C itemSize x e) where
  toComplete := complete_step x.net e h.toComplete hok
  accepted := by
    change _ = x.accepted ++ x.net.accepts e
    rw [← h.accepted]
    exact accepts_step h.carries e hok
  registered := handedTo_step h.registered e

/-- **Without losses the handlers have been called for all that `ble_publish` has accepted**, once
nothing is under way and the queue of the hub is empty: for each publication in turn, those that
were registered when the hub took it out of its queue. -/
theorem called_of_accepted (C : EventCodec F) (itemSize : ℕ) (evt : ProtobufEvent F)
    (es : List (PubSubEvent F))
    (h : Meets (logStep C itemSize) (fun x e => Short e ∧ x.net.Lossless C itemSize e)
      (bootLog evt) es)
    (hwrites : (run (logStep C itemSize) (bootLog evt) es).net.client.writes = [])
    (hway : (run (logStep C itemSize) (bootLog evt) es).net.underWay = [])
    (hqueue : (run (logStep C itemSize) (bootLog evt) es).net.hub.eventQueue.items = []) :
    (run (logStep C itemSize) (bootLog evt) es).registered.length
        = (run (logStep C itemSize) (bootLog evt) es).accepted.length ∧
      (run (logStep C itemSize) (bootLog evt) es).net.hub.called
        = (List.zipWith Registered.calls (run (logStep C itemSize) (bootLog evt) es).registered
            (run (logStep C itemSize) (bootLog evt) es).accepted).flatten := by
  have hboot : Whole C (bootLog evt) := ⟨⟨carries_boot evt, rfl⟩, rfl, .nil⟩
  have hend := invariant_run whole_step hboot h
  generalize run (logStep C itemSize) (bootLog evt) es = x at hend hwrites hway hqueue ⊢
  have hcalls : x.net.calls = [] := by
    have hforall := hend.carries.calls
    rw [hwrites] at hforall
    exact List.forall₂_nil_left_iff.mp hforall
  have hall : x.net.hub.handed.map (fun call => call.evt.received.strings) = x.accepted := by
    rw [← hend.accepted, hcalls, List.append_nil]
    exact hend.toComplete.handed_eq hway hqueue
  refine ⟨?_, ?_⟩
  · rw [hend.registered.length_eq, ← hall, List.length_map]
  · rw [EventBytes.called_eq hend.registered hend.carries.handed, hall]

/-- Short strings are encoded in a few bytes. -/
theorem sampleCodec_encodes {name data : CString} (hname : name.length < 20)
    (hdata : data.length < 20) (event : ProtobufEvent sampleFields)
    (h : blePublish sampleFields name data = some (.ok event)) :
    ∃ payload ∈ sampleCodec.pbEncode event, payload.length ≤ 168 := by
  obtain ⟨hfname, hfdata⟩ := holds_of_blePublish h (by omega) (by omega)
  have hn : event.received.name.length = name.length + 1 := by
    change event.name.received.length = _
    rw [hfname.received, List.length_append]
    rfl
  have hd : event.received.data.length = data.length + 1 := by
    change event.data.received.length = _
    rw [hfdata.received, List.length_append]
    rfl
  refine ⟨_, if_pos ⟨by omega, by omega⟩, ?_⟩
  simp only [List.length_cons, List.length_append, hn, hd]
  omega

/-- Both arrive, and the subscriber is called for both. -/
theorem called_of_accepted_two :
    (fun x : PubSubLog sampleFields => x.accepted.length = 2 ∧ x.net.hub.called.length = 2 ∧
      x.registered.length = x.accepted.length ∧
      x.net.hub.called = (List.zipWith Registered.calls x.registered x.accepted).flatten)
      (run (logStep sampleCodec 168) (bootLog noEvent)
        (twoSent ++ [.receive noEvent, .receive noEvent] ++ handOver)) := by
  refine ⟨by decide +kernel, by decide +kernel,
    called_of_accepted sampleCodec 168 noEvent _ ?_ rfl rfl rfl⟩
  simp only [twoSent, handOver, List.cons_append, List.nil_append, meets_cons, meets_nil, Short,
    Lossless, and_true, true_and]
  and_intros
  · decide
  · decide
  · refine sampleCodec_encodes ?_ ?_
    · decide
    · decide
  · decide +kernel
  · decide
  · decide
  · refine sampleCodec_encodes ?_ ?_
    · decide
    · decide
  · decide +kernel
  · decide +kernel
  · decide +kernel

end PubSub

end Pyrinas
