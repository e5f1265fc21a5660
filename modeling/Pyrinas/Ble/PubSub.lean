import Pyrinas.Ble.EventBytes
import Pyrinas.Ble.Peripheral

/-!
# Ble/PubSub — from `ble_publish` on a client to a subscriber on the hub

`ble_publish` builds an event, `ble_publish_raw` encodes it, and the peripheral queues it and sends
it as a notification; on the hub `ble_evt_handler` decodes and queues it, and `bt_send_work` hands
it to the subscriber.  On the way events get lost, where a queue is full, a send fails or the
connection goes.  But what arrives are the strings that were published, each at most once and in
the order they were queued.

    ble_publish ─▸ m_peripheral_event_queue ─▸ air ─▸ m_event_queue ─▸ subscriber
                     └ purged      └ not sent   └ lost    └ full
-/

open Machinery

namespace Pyrinas

/-- The generated code for `protobuf_event_t`: encoding may fail, what it has encoded it decodes
again, and out of no bytes it decodes no name. -/
structure EventCodec (F : EventFields) where
  pbEncode : ProtobufEvent F → Option Payload
  pbDecode : Payload → Option (EventMessage F)
  pbDecode_of_pbEncode : ∀ evt payload, pbEncode evt = some payload →
    pbDecode payload = some evt.received
  name_of_pbDecode_nil : ∀ m, pbDecode [] = some m → m.name = []

/-- The two strings of a message. -/
def EventMessage.strings {F : EventFields} (m : EventMessage F) : CString × CString :=
  (.ofBytes m.name, .ofBytes m.data)

/-- The message is these strings, each with its terminator and nothing behind that. -/
def EventMessage.Whole {F : EventFields} (m : EventMessage F) : Prop :=
  m.name = m.strings.1.bytes ++ [0] ∧ m.data = m.strings.2.bytes ++ [0]

theorem EventMessage.Whole.terminated {F : EventFields} {m : EventMessage F} (h : m.Whole) :
    0 ∈ m.name ∧ 0 ∈ m.data := by
  rw [h.1, h.2]
  exact ⟨List.mem_append_right _ List.mem_cons_self, List.mem_append_right _ List.mem_cons_self⟩

/-- A payload that `ble_publish` has made of a name and its data. -/
def EventCodec.Spells {F : EventFields} (C : EventCodec F) (payload : Payload)
    (call : CString × CString) : Prop :=
  ∃ m, C.pbDecode payload = some m ∧ m.strings = call ∧ m.Whole

/-- A client and the hub it is connected to.  `calls` are the publications on their way to the queue
of the client, as `client.writes` has their payloads; `published` are those that were queued, and
`air` the notifications that were sent and not yet received. -/
structure PubSub (F : EventFields) where
  client : Peripheral
  calls : List (CString × CString)
  published : List (CString × CString)
  air : List Payload
  hub : EventBytes F

/-- On the client: a call of `ble_publish`, one of them reaching `k_msgq_put`, what the connection
does, a step of the work queue, or `bt_sent_cb`.  Between the two: a notification that is lost, or
received.  On the hub: a subscription, or a step of the work queue. -/
inductive PubSubEvent (F : EventFields)
  | publish (name data : CString)
  | put (i : ℕ)
  | connected (conn err : ℕ)
  | disconnected
  | work (sendErr : ℤ)
  | sentCb
  | lost (i : ℕ)
  | receive (stack : ProtobufEvent F)
  | subscribe (name : CString) (handler : ℕ)
  | subscribeRaw (handler : Option ℕ)
  | hubWork

/-- The payload that `bt_send_work_handler` has taken out of the queue. -/
def PeripheralPc.sendingPayload : PeripheralPc → List Payload
  | .sending payload => [payload]
  | _ => []

namespace PubSub

variable {F : EventFields} (C : EventCodec F) (itemSize : ℕ)

/-- At boot, with any contents of the hub's `evt`. -/
def boot (evt : ProtobufEvent F) : PubSub F := ⟨.boot, [], [], [], .boot evt⟩

/-- `ble_publish` and `ble_publish_raw`, up to `k_msgq_put`. -/
def publish (s : PubSub F) (name data : CString) : PubSub F :=
  match blePublish F name data with
  | some (.ok event) =>
    match C.pbEncode event with
    | some payload =>
      let client := s.client.write itemSize payload
      if s.client.writes.length < client.writes.length then
        { s with client := client, calls := s.calls ++ [(name, data)] }
      else { s with client := client }
    | none => s
  | _ => s

/-- The end of `ble_peripheral_write`, for a call that has come this far. -/
def put (s : PubSub F) (i : ℕ) : PubSub F :=
  match s.calls[i]? with
  | none => s
  | some call =>
    let client := s.client.writePut i
    let s' := { s with client := client, calls := s.calls.eraseIdx i }
    if s.client.eventQueue.items.length < client.eventQueue.items.length then
      { s' with published := s.published ++ [call] }
    else s'

/-- `bt_send_work_handler` of the client: what it sends is in the air. -/
def work (s : PubSub F) (sendErr : ℤ) : PubSub F :=
  { s with
    client := s.client.work sendErr
    air := s.air ++ if sendErr = 0 then s.client.pc.sendingPayload else [] }

/-- A notification is received: `ble_data_received`, and `ble_evt_handler`. -/
def receive (s : PubSub F) (stack : ProtobufEvent F) : PubSub F :=
  match s.air with
  | [] => s
  | payload :: air =>
    { s with
      air := air
      hub := s.hub.bleEvtHandler (if payload = [] then none else C.pbDecode payload) stack }

/-- One event. -/
def step (s : PubSub F) : PubSubEvent F → PubSub F
  | .publish name data => s.publish C itemSize name data
  | .put i => s.put i
  | .connected conn err => { s with client := s.client.connected conn err }
  | .disconnected => { s with client := s.client.disconnected }
  | .work sendErr => s.work sendErr
  | .sentCb => { s with client := s.client.sentCb }
  | .lost i => { s with air := s.air.eraseIdx i }
  | .receive stack => s.receive C stack
  | .subscribe name handler => { s with hub := s.hub.step (.subscribe name handler) }
  | .subscribeRaw handler => { s with hub := s.hub.step (.subscribeRaw handler) }
  | .hubWork => { s with hub := s.hub.work }

/-- The payloads between the two queues, the oldest first. -/
def underWay (s : PubSub F) : List Payload :=
  s.air ++ s.client.pc.sendingPayload ++ s.client.eventQueue.items

/-- The strings that have been handed over, and those that are on their way. -/
def pipeline (s : PubSub F) : List (CString × CString) :=
  s.hub.handed.map (fun call => call.evt.received.strings)
    ++ s.hub.eventQueue.items.map (fun evt => evt.received.strings)
    ++ s.underWay.filterMap fun payload => (C.pbDecode payload).map EventMessage.strings

/-- What the hub has taken out of its queue, whether a handler was there or not: the C strings at
the two pointers. -/
def seen (s : PubSub F) : List (Option CString × Option CString) :=
  s.hub.handed.map fun call => (call.evt.name.cString, call.evt.data.cString)

/-- The strings are shorter than 255 characters. -/
def Short : PubSubEvent F → Prop
  | .publish name data => name.length < 255 ∧ data.length < 255
  | _ => True

/-- Nothing gets lost here: what is published is encoded and fits the queue, calls reach it in their
order and find room, and the connection, the sends, the air and the hub lose nothing. -/
def Lossless (s : PubSub F) : PubSubEvent F → Prop
  | .publish name data => ∀ event, blePublish F name data = some (.ok event) →
    ∃ payload ∈ C.pbEncode event, payload.length ≤ itemSize
  | .put i => i = 0 ∧ s.client.eventQueue.items.length < 20
  | .disconnected => s.client.eventQueue.items = []
  | .work sendErr => sendErr = 0
  | .lost _ => False
  | .receive _ => s.hub.eventQueue.items.length < 20
  | _ => True

/-- Everything that is under way has been published, and has its terminators. -/
structure Carries (s : PubSub F) : Prop where
  calls : List.Forall₂ C.Spells s.client.writes s.calls
  underWay : ∀ payload ∈ s.underWay, ∃ call, C.Spells payload call
  queued : ∀ evt ∈ s.hub.eventQueue.items, evt.received.Whole
  handed : ∀ call ∈ s.hub.handed, call.evt.received.Whole

end PubSub

/-! ## What is encoded -/

section Encoding

variable {F : EventFields} {name data : CString} {evt : ProtobufEvent F}

theorem PbBytes.Holds.received {n : ℕ} {f : PbBytes n} {s : CString} (h : f.Holds s) :
    f.received = s.bytes ++ [0] := by
  rw [PbBytes.received, h.size, h.bytes]

/-- Short strings are put into the event as they are. -/
theorem holds_of_blePublish (h : blePublish F name data = some (.ok evt))
    (hname : name.length < 255) (hdata : data.length < 255) :
    evt.name.Holds name ∧ evt.data.Holds data := by
  have hname' : SubscribeList.nameLength name = name.length + 1 := Nat.mod_eq_of_lt (by omega)
  have hdata' : dataLength data = data.length + 1 := Nat.mod_eq_of_lt (by omega)
  by_cases hn : SubscribeList.nameLength name ≥ F.size
  · rw [blePublish, if_pos hn] at h
    cases h
  by_cases hd : dataLength data ≥ F.dataSize
  · rw [blePublish, if_neg hn, if_pos hd] at h
    cases h
  obtain ⟨evt', hevt, hfname, hfdata⟩ := exists_blePublish (not_le.mp hn) (not_le.mp hd)
  obtain rfl : evt = evt' := by
    rw [hevt] at h
    cases h
    rfl
  exact ⟨hfname.holds hname', hfdata.holds hdata'⟩

/-- **What `ble_publish` sends says what was published.** -/
theorem EventCodec.spells (C : EventCodec F) (h : blePublish F name data = some (.ok evt))
    (hname : name.length < 255) (hdata : data.length < 255) {payload : Payload}
    (hencode : C.pbEncode evt = some payload) : C.Spells payload (name, data) := by
  obtain ⟨hfname, hfdata⟩ := holds_of_blePublish h hname hdata
  have hrname : evt.received.name = name.bytes ++ [0] := hfname.received
  have hrdata : evt.received.data = data.bytes ++ [0] := hfdata.received
  have hstrings : evt.received.strings = (name, data) := by
    rw [EventMessage.strings, hrname, hrdata, CString.ofBytes_terminated,
      CString.ofBytes_terminated]
  refine ⟨evt.received, C.pbDecode_of_pbEncode evt payload hencode, hstrings, ?_⟩
  rw [EventMessage.Whole, hstrings]
  exact ⟨hrname, hrdata⟩

/-- It is not empty. -/
theorem EventCodec.Spells.ne_nil {C : EventCodec F} {payload : Payload} {call : CString × CString}
    (h : C.Spells payload call) : payload ≠ [] := by
  rintro rfl
  obtain ⟨m, hdecode, -, hwhole⟩ := h
  have hzero := hwhole.terminated.1
  rw [C.name_of_pbDecode_nil m hdecode] at hzero
  exact List.not_mem_nil hzero

end Encoding

namespace PubSub

variable {F : EventFields} {C : EventCodec F} {itemSize : ℕ} {s : PubSub F}

/-! ## A step -/

/-- What a step may do to what is under way: `new` is published and goes to its end, and, unless
nothing may get lost, some of it is gone. -/
structure Advances (C : EventCodec F) (lossless : Prop) (s s' : PubSub F)
    (new : List (CString × CString)) : Prop where
  carries : s'.Carries C
  published : s'.published = s.published ++ new
  sublist : (s'.pipeline C).Sublist (s.pipeline C ++ new)
  all : lossless → s'.pipeline C = s.pipeline C ++ new

/-- What a list of payloads says. -/
theorem filterMap_of_spells {payloads : List Payload} {new : List (CString × CString)}
    (h : List.Forall₂ C.Spells payloads new) :
    payloads.filterMap (fun payload => (C.pbDecode payload).map EventMessage.strings) = new := by
  induction h with
  | nil => rfl
  | cons hspells _ ih =>
    obtain ⟨m, hdecode, hstrings, -⟩ := hspells
    rw [List.filterMap_cons, hdecode, Option.map_some, hstrings, ih]

/-- What is published goes to the end of what is under way, or is lost at once… -/
theorem Carries.advances_append {lossless : Prop} {s' : PubSub F} {payloads : List Payload}
    {new : List (CString × CString)} (h : s.Carries C)
    (hspells : List.Forall₂ C.Spells payloads new)
    (hcalls : List.Forall₂ C.Spells s'.client.writes s'.calls)
    (hpublished : s'.published = s.published ++ new) (hhanded : s'.hub.handed = s.hub.handed)
    (hqueue : s'.hub.eventQueue = s.hub.eventQueue)
    (hsub : s'.underWay.Sublist (s.underWay ++ payloads))
    (hall : lossless → s'.underWay = s.underWay ++ payloads) : Advances C lossless s s' new := by
  refine ⟨⟨hcalls, fun payload hp => ?_, ?_, ?_⟩, hpublished, ?_, fun hl => ?_⟩
  · rcases List.mem_append.mp (hsub.subset hp) with hold | hnew
    · exact h.underWay payload hold
    · obtain ⟨i, hi, rfl⟩ := List.mem_iff_getElem.mp hnew
      have hi' : i < new.length := hspells.length_eq ▸ hi
      exact ⟨new.get ⟨i, hi'⟩, hspells.get hi hi'⟩
  · rw [hqueue]
    exact h.queued
  · rw [hhanded]
    exact h.handed
  · rw [pipeline, pipeline, hhanded, hqueue, ← filterMap_of_spells hspells, List.append_assoc,
      List.append_assoc, List.append_assoc, ← List.filterMap_append]
    exact ((hsub.filterMap _).append_left _).append_left _
  · rw [pipeline, pipeline, hhanded, hqueue, hall hl, List.filterMap_append,
      filterMap_of_spells hspells, ← List.append_assoc]

/-- …and on the way to the hub nothing is added. -/
theorem Carries.advances {lossless : Prop} {s' : PubSub F} (h : s.Carries C)
    (hcalls : List.Forall₂ C.Spells s'.client.writes s'.calls)
    (hpublished : s'.published = s.published) (hhanded : s'.hub.handed = s.hub.handed)
    (hqueue : s'.hub.eventQueue = s.hub.eventQueue) (hsub : s'.underWay.Sublist s.underWay)
    (hall : lossless → s'.underWay = s.underWay) : Advances C lossless s s' [] := by
  refine h.advances_append .nil hcalls ?_ hhanded hqueue ?_ fun hl => ?_
  · rw [hpublished, List.append_nil]
  · rwa [List.append_nil]
  · rw [hall hl, List.append_nil]

theorem Carries.advances_self (h : s.Carries C) (lossless : Prop) : Advances C lossless s s [] :=
  h.advances h.calls rfl rfl rfl (List.Sublist.refl _) fun _ => rfl

/-- A call of `ble_publish` comes as far as the queue, or nowhere. -/
theorem publish_cases (C : EventCodec F) (itemSize : ℕ) (s : PubSub F) (name data : CString) :
    s.publish C itemSize name data = s ∨
      ∃ evt payload, blePublish F name data = some (.ok evt) ∧ C.pbEncode evt = some payload ∧
        s.publish C itemSize name data =
          { s with
            client := { s.client with writes := s.client.writes ++ [payload] }
            calls := s.calls ++ [(name, data)] } := by
  unfold publish
  split
  next evt hevt =>
    split
    next payload hpayload =>
      by_cases hrefused : s.client.currentConn = none ∨ payload.length > itemSize
      · have hwrite : s.client.write itemSize payload = s.client := by
          rw [Peripheral.write]
          rcases hrefused with hconn | hlong
          · exact if_pos hconn
          · rw [if_pos hlong, ite_self]
        rw [hwrite]
        exact .inl (if_neg (lt_irrefl _))
      · obtain ⟨hconn, hlong⟩ := not_or.mp hrefused
        refine .inr ⟨evt, payload, hevt, hpayload, ?_⟩
        rw [Peripheral.write, if_neg hconn, if_neg hlong]
        exact if_pos (by simp)
    next => exact .inl rfl
  next => exact .inl rfl

theorem advances_publish (h : s.Carries C) (lossless : Prop) {name data : CString}
    (hname : name.length < 255) (hdata : data.length < 255) :
    Advances C lossless s (s.publish C itemSize name data) [] := by
  rcases publish_cases C itemSize s name data with
    heq | ⟨evt, payload, hevt, hencode, heq⟩
  · rw [heq]
    exact h.advances_self lossless
  · rw [heq]
    have hnew : List.Forall₂ C.Spells [payload] [(name, data)] :=
      .cons (C.spells hevt hname hdata hencode) .nil
    exact h.advances (List.rel_append h.calls hnew) rfl rfl rfl (List.Sublist.refl _) fun _ => rfl

/-- A call and its payload. -/
theorem Carries.exists_write (h : s.Carries C) {i : ℕ} {call : CString × CString}
    (hcall : s.calls[i]? = some call) :
    ∃ payload, s.client.writes[i]? = some payload ∧ C.Spells payload call := by
  obtain ⟨hi, rfl⟩ := List.getElem?_eq_some_iff.mp hcall
  have hi' : i < s.client.writes.length := h.calls.length_eq ▸ hi
  exact ⟨s.client.writes[i], List.getElem?_eq_getElem hi', h.calls.get hi' hi⟩

theorem Carries.calls_eraseIdx (h : s.Carries C) (i : ℕ) :
    List.Forall₂ C.Spells (s.client.writes.eraseIdx i) (s.calls.eraseIdx i) := by
  rw [List.eraseIdx_eq_take_drop_succ, List.eraseIdx_eq_take_drop_succ]
  exact List.rel_append (List.forall₂_take i h.calls) (List.forall₂_drop (i + 1) h.calls)

/-- What the client queues goes to the end. -/
theorem advances_put (h : s.Carries C) (lossless : Prop) (i : ℕ) :
    ∃ new, Advances C lossless s (s.put i) new := by
  unfold put
  cases hcall : s.calls[i]? with
  | none => exact ⟨[], h.advances_self lossless⟩
  | some call =>
    obtain ⟨payload, hwrite, hspells⟩ := h.exists_write hcall
    cases hput : s.client.eventQueue.put payload with
    | none =>
      simp only [Peripheral.writePut, hwrite, hput, lt_irrefl, if_false]
      exact ⟨[], h.advances (h.calls_eraseIdx i) rfl rfl rfl (List.Sublist.refl _) fun _ => rfl⟩
    | some q =>
      have hitems := MessageQueue.items_put hput
      have hlonger : s.client.eventQueue.items.length < q.items.length := by
        rw [hitems, List.length_append]
        exact Nat.lt_succ_self _
      simp only [Peripheral.writePut, hwrite, hput, if_pos hlonger]
      set s' : PubSub F := { s with
        client := { s.client with
          writes := s.client.writes.eraseIdx i, eventQueue := q, pending := true }
        calls := s.calls.eraseIdx i
        published := s.published ++ [call] }
      have hway : s'.underWay = s.underWay ++ [payload] := by
        simp only [s', underWay, hitems, List.append_assoc]
      exact ⟨[call], h.advances_append (.cons hspells .nil) (h.calls_eraseIdx i) rfl rfl rfl
        (hway ▸ List.Sublist.refl _) fun _ => hway⟩

/-- A run of the work takes the oldest payload out of the queue and sends it. -/
theorem underWay_work (s : PubSub F) (sendErr : ℤ) :
    (s.work sendErr).underWay.Sublist s.underWay ∧
      (sendErr = 0 → (s.work sendErr).underWay = s.underWay) := by
  obtain ⟨client, calls, published, air, hub⟩ := s
  obtain ⟨conn, queue, pending, pc, writes, outstanding⟩ := client
  cases pc with
  | idle => cases pending <;> simp [work, underWay, Peripheral.work, PeripheralPc.sendingPayload]
  | testing =>
    cases conn <;> simp [work, underWay, Peripheral.work, PeripheralPc.sendingPayload]
  | getting =>
    cases hget : queue.get with
    | none => simp [work, underWay, Peripheral.work, PeripheralPc.sendingPayload, hget]
    | some got =>
      have hitems := MessageQueue.items_get hget
      simp [work, underWay, Peripheral.work, PeripheralPc.sendingPayload, hget, hitems]
  | sending payload =>
    by_cases herr : sendErr = 0
    · simp [work, underWay, Peripheral.work, PeripheralPc.sendingPayload, herr]
    · simp [work, underWay, Peripheral.work, PeripheralPc.sendingPayload, herr]

theorem writes_work (s : PubSub F) (sendErr : ℤ) :
    (s.work sendErr).client.writes = s.client.writes := by
  simp only [work, Peripheral.work]
  split
  · split_ifs <;> rfl
  · rfl
  · split <;> rfl
  · split_ifs <;> rfl

theorem advances_work (h : s.Carries C) (sendErr : ℤ) :
    Advances C (sendErr = 0) s (s.work sendErr) [] := by
  obtain ⟨hsub, hall⟩ := underWay_work s sendErr
  exact h.advances ((writes_work s sendErr).symm ▸ h.calls) rfl rfl rfl hsub hall

/-- A disconnection purges the queue. -/
theorem advances_disconnected (h : s.Carries C) :
    Advances C (s.client.eventQueue.items = []) s
      { s with client := s.client.disconnected } [] := by
  refine h.advances h.calls rfl rfl rfl ?_ fun hempty => ?_
  · exact (List.nil_sublist _).append_left _
  · simp [underWay, Peripheral.disconnected, MessageQueue.empty, hempty]

/-- **What the hub receives is queued behind the rest, or is lost.** -/
theorem advances_receive (h : s.Carries C) (stack : ProtobufEvent F) :
    Advances C (s.hub.eventQueue.items.length < 20) s (s.receive C stack) [] := by
  obtain ⟨client, calls, published, air, hub⟩ := s
  cases air with
  | nil => exact h.advances_self _
  | cons payload air =>
    obtain ⟨call, hspells⟩ := h.underWay payload List.mem_cons_self
    have hne := hspells.ne_nil
    obtain ⟨m, hdecode, hstrings, hwhole⟩ := hspells
    have hrest : ∀ p ∈ air ++ client.pc.sendingPayload ++ client.eventQueue.items,
        ∃ call, C.Spells p call := fun p hp => h.underWay p (List.mem_cons_of_mem _ hp)
    simp only [receive, if_neg hne, hdecode, EventBytes.bleEvtHandler]
    cases hput : hub.eventQueue.put (stack.pbDecode m) with
    | none =>
      refine ⟨⟨h.calls, hrest, h.queued, h.handed⟩, (List.append_nil _).symm, ?_, fun hroom => ?_⟩
      · rw [List.append_nil]
        refine (List.Sublist.filterMap _ ?_).append_left _
        exact List.sublist_cons_self _ _
      · rw [MessageQueue.put, dif_pos hroom] at hput
        cases hput
    | some q =>
      have hitems := MessageQueue.items_put hput
      have hpipeline : pipeline C ⟨client, calls, published, air,
          { hub with eventQueue := q, pending := true }⟩
          = pipeline C ⟨client, calls, published, payload :: air, hub⟩ := by
        simp [pipeline, underWay, hitems, hdecode, ProtobufEvent.received_pbDecode]
      refine ⟨⟨h.calls, hrest, ?_, h.handed⟩, (List.append_nil _).symm, ?_, fun _ => ?_⟩
      · rw [hitems]
        refine List.forall_mem_append.mpr ⟨h.queued, List.forall_mem_singleton.mpr ?_⟩
        rwa [ProtobufEvent.received_pbDecode]
      · rw [hpipeline, List.append_nil]
      · rw [hpipeline, List.append_nil]

/-- The work queue of the hub hands over what it takes out of the queue. -/
theorem advances_hubWork (h : s.Carries C) (lossless : Prop) :
    Advances C lossless s { s with hub := s.hub.work } [] := by
  have hsame : ∀ hub : EventBytes F, hub.handed = s.hub.handed →
      hub.eventQueue = s.hub.eventQueue → Advances C lossless s { s with hub := hub } [] :=
    fun hub hhanded hqueue =>
      h.advances h.calls rfl hhanded hqueue (List.Sublist.refl _) fun _ => rfl
  unfold EventBytes.work
  split
  · split_ifs
    · exact hsame _ rfl rfl
    · exact hsame _ rfl rfl
  · exact hsame _ rfl rfl
  · split
    next evt q hget =>
      have hitems := MessageQueue.items_get hget
      set hub := EventBytes.dispatch { s.hub with eventQueue := q, evt := evt, pc := .testing }
        with hhub
      have hpipeline : pipeline C { s with hub := hub } = pipeline C s := by
        simp [pipeline, underWay, EventBytes.dispatch, hitems, hhub]
      have hqueued : ∀ evt' ∈ evt :: q.items, evt'.received.Whole := hitems ▸ h.queued
      refine ⟨⟨h.calls, h.underWay, fun evt' he => hqueued evt' (List.mem_cons_of_mem _ he), ?_⟩,
        (List.append_nil _).symm, ?_, fun _ => ?_⟩
      · exact List.forall_mem_append.mpr
          ⟨h.handed, List.forall_mem_singleton.mpr (hqueued evt List.mem_cons_self)⟩
      · rw [hpipeline, List.append_nil]
      · rw [hpipeline, List.append_nil]
    next => exact hsame _ rfl rfl
  · exact hsame _ rfl rfl

/-- **A step**: nothing comes between two strings, and nothing overtakes. -/
theorem advances_step (itemSize : ℕ) (e : PubSubEvent F) (h : s.Carries C) (hshort : Short e) :
    ∃ new, Advances C (s.Lossless C itemSize e) s (s.step C itemSize e) new := by
  have hrefl := List.Sublist.refl s.underWay
  cases e with
  | publish name data => exact ⟨[], advances_publish h _ hshort.1 hshort.2⟩
  | put i => exact advances_put h _ i
  | connected conn err =>
    refine ⟨[], ?_⟩
    simp only [step, Peripheral.connected]
    split_ifs
    · exact h.advances h.calls rfl rfl rfl hrefl fun _ => rfl
    · exact h.advances h.calls rfl rfl rfl hrefl fun _ => rfl
  | disconnected => exact ⟨[], advances_disconnected h⟩
  | work sendErr => exact ⟨[], advances_work h sendErr⟩
  | sentCb =>
    refine ⟨[], ?_⟩
    simp only [step, Peripheral.sentCb]
    split_ifs
    · exact h.advances h.calls rfl rfl rfl hrefl fun _ => rfl
    · exact h.advances h.calls rfl rfl rfl hrefl fun _ => rfl
    · exact h.advances h.calls rfl rfl rfl hrefl fun _ => rfl
  | lost i =>
    have hsub := List.eraseIdx_sublist s.air i
    exact ⟨[], h.advances h.calls rfl rfl rfl ((hsub.append_right _).append_right _) False.elim⟩
  | receive stack => exact ⟨[], advances_receive h stack⟩
  | subscribe | subscribeRaw => exact ⟨[], h.advances h.calls rfl rfl rfl hrefl fun _ => rfl⟩
  | hubWork => exact ⟨[], advances_hubWork h _⟩

/-! ## A run -/

/-- Two fields of bytes, each with a tag and its length in front. -/
def sampleCodec : EventCodec sampleFields where
  pbEncode evt :=
    let m := evt.received
    if m.name.length < 128 ∧ m.data.length < 128 then
      some (10 :: UInt8.ofNat m.name.length :: (m.name
        ++ 18 :: UInt8.ofNat m.data.length :: m.data))
    else none
  pbDecode
    | _ :: n :: rest =>
      let name := rest.take n.toNat
      let data := rest.drop (n.toNat + 2)
      if h : name.length ≤ sampleFields.size ∧ data.length ≤ sampleFields.dataSize then
        some ⟨name, h.1, data, h.2⟩
      else none
    | _ => none
  pbDecode_of_pbEncode evt payload h := by
    generalize evt.received = m at h ⊢
    obtain ⟨name, name_le, data, data_le⟩ := m
    dsimp only at h
    split_ifs at h with hlength
    cases h
    have hn : (UInt8.ofNat name.length).toNat = name.length :=
      UInt8.toNat_ofNat_of_lt' (hlength.1.trans (by decide))
    have hdrop : (name ++ 18 :: UInt8.ofNat data.length :: data).drop (name.length + 2) = data := by
      rw [← List.drop_drop, List.drop_left]
      rfl
    simp [hn, hdrop, name_le, data_le]
  name_of_pbDecode_nil := by simp

/-- An event without contents. -/
def noEvent : ProtobufEvent sampleFields := ⟨⟨0, .fill _ 0⟩, ⟨0, .fill _ 0⟩⟩

/-- Two events are published and sent to a hub with a subscription. -/
def twoSent : List (PubSubEvent sampleFields) :=
  [.connected 1 0, .subscribe ⟨[104], by decide⟩ 7,
    .publish ⟨[104], by decide⟩ ⟨[49], by decide⟩, .put 0,
    .publish ⟨[104], by decide⟩ ⟨[50], by decide⟩, .put 0,
    .work 0, .work 0, .work 0, .work 0, .sentCb, .work 0, .work 0, .work 0, .work 0]

/-- The work queue of the hub takes what is in its queue. -/
def handOver : List (PubSubEvent sampleFields) :=
  [.hubWork, .hubWork, .hubWork, .hubWork, .hubWork, .hubWork]

theorem carries_boot (evt : ProtobufEvent F) : (boot evt).Carries C where
  calls := .nil
  underWay := fun _ h => absurd h List.not_mem_nil
  queued := fun _ h => absurd h List.not_mem_nil
  handed := fun _ h => absurd h List.not_mem_nil

/-- The handlers see the strings of the messages they get. -/
theorem Carries.seen_eq (h : s.Carries C) :
    s.seen = (s.hub.handed.map fun call => call.evt.received.strings).map (Prod.map some some) := by
  rw [seen, List.map_map]
  refine List.map_congr_left fun call hcall => ?_
  obtain ⟨hname, hdata⟩ := (h.handed call hcall).terminated
  have hown := HandedEvent.own_of_mem hname hdata
  rw [hown.name, hown.data]
  rfl

/-- What was published, with some of it lost. -/
structure InOrder (C : EventCodec F) (s : PubSub F) : Prop where
  carries : s.Carries C
  sublist : (s.pipeline C).Sublist s.published

/-- What was published, all of it. -/
structure Complete (C : EventCodec F) (s : PubSub F) : Prop where
  carries : s.Carries C
  eq : s.pipeline C = s.published

theorem InOrder.advances {lossless : Prop} {s' : PubSub F} {new : List (CString × CString)}
    (h : s.InOrder C) (hadv : Advances C lossless s s' new) : s'.InOrder C := by
  refine ⟨hadv.carries, ?_⟩
  rw [hadv.published]
  exact hadv.sublist.trans (h.sublist.append_right new)

theorem Complete.advances {lossless : Prop} {s' : PubSub F} {new : List (CString × CString)}
    (h : s.Complete C) (hadv : Advances C lossless s s' new) (hl : lossless) : s'.Complete C := by
  refine ⟨hadv.carries, ?_⟩
  rw [hadv.published, hadv.all hl, h.eq]

theorem inOrder_step (itemSize : ℕ) (s : PubSub F) (e : PubSubEvent F) (h : s.InOrder C)
    (hshort : Short e) :
    (s.step C itemSize e).InOrder C := by
  obtain ⟨new, hadv⟩ := advances_step itemSize e h.carries hshort
  exact h.advances hadv

theorem complete_step (s : PubSub F) (e : PubSubEvent F) (h : s.Complete C)
    (hok : Short e ∧ s.Lossless C itemSize e) : (s.step C itemSize e).Complete C := by
  obtain ⟨new, hadv⟩ := advances_step itemSize e h.carries hok.1
  exact h.advances hadv hok.2

theorem inOrder_run (C : EventCodec F) (itemSize : ℕ) (evt : ProtobufEvent F)
    (es : List (PubSubEvent F)) (h : Meets (step C itemSize) (fun _ e => Short e) (boot evt) es) :
    (run (step C itemSize) (boot evt) es).InOrder C :=
  invariant_run (inOrder_step itemSize) ⟨carries_boot evt, List.nil_sublist _⟩ h

theorem InOrder.seen_sublist (h : s.InOrder C) :
    s.seen.Sublist (s.published.map (Prod.map some some)) := by
  rw [h.carries.seen_eq]
  refine List.Sublist.map _ (List.Sublist.trans ?_ h.sublist)
  exact (List.sublist_append_left _ _).trans (List.sublist_append_left _ _)

theorem Complete.handed_eq (h : s.Complete C) (hway : s.underWay = [])
    (hqueue : s.hub.eventQueue.items = []) :
    s.hub.handed.map (fun call => call.evt.received.strings) = s.published := by
  have hpipeline := h.eq
  rwa [pipeline, hway, hqueue, List.map_nil, List.filterMap_nil, List.append_nil,
    List.append_nil] at hpipeline

/-- **The handlers on the hub see strings that were published, each at most once and in order**,
wherever packets are lost and queues overflow. -/
theorem seen_sublist_published (C : EventCodec F) (itemSize : ℕ) (evt : ProtobufEvent F)
    (es : List (PubSubEvent F)) (h : Meets (step C itemSize) (fun _ e => Short e) (boot evt) es) :
    (run (step C itemSize) (boot evt) es).seen.Sublist
      ((run (step C itemSize) (boot evt) es).published.map (Prod.map some some)) :=
  (inOrder_run C itemSize evt es h).seen_sublist

/-- The first of two is lost. -/
theorem seen_sublist_one_lost :
    (run (step sampleCodec 168) (boot noEvent)
      (twoSent ++ [.lost 0, .receive noEvent] ++ handOver)).seen.Sublist
      ((run (step sampleCodec 168) (boot noEvent)
        (twoSent ++ [.lost 0, .receive noEvent] ++ handOver)).published.map
          (Prod.map some some)) :=
  seen_sublist_published sampleCodec 168 noEvent _ (by
    simp [twoSent, handOver, Short, CString.length])

/-! ## Whom the hub calls -/

/-- A handler that is stored, or called, with a name may have this name. -/
structure Asked (may : List UInt8 → ℕ → Prop) (hub : EventBytes F) : Prop where
  stored : ∀ subscriber ∈ hub.subscribeList.subscribers, may subscriber.name subscriber.evtHandler
  handed : ∀ call ∈ hub.handed, ∀ handler, call.subscriber = some handler →
    may call.evt.received.name handler

variable {may : List UInt8 → ℕ → Prop} {hub : EventBytes F}

theorem Asked.subscribe (h : Asked may hub) {name : CString} {handler : ℕ}
    (hmay : may ((name.bytes ++ [0]).take (SubscribeList.nameLength name)) handler) :
    Asked may (hub.step (.subscribe name handler)) := by
  refine ⟨fun subscriber hmem => ?_, h.handed⟩
  rcases SubscribeList.eq_of_mem_bleSubscribe hmem with hold | rfl
  · exact h.stored subscriber hold
  · exact hmay

theorem Asked.bleEvtHandler (h : Asked may hub) (decoded : Option (EventMessage F))
    (stack : ProtobufEvent F) : Asked may (hub.bleEvtHandler decoded stack) := by
  unfold EventBytes.bleEvtHandler
  split
  · exact h
  · split <;> exact ⟨h.stored, h.handed⟩

theorem Asked.work (h : Asked may hub) : Asked may hub.work := by
  unfold EventBytes.work
  split
  · split_ifs
    · exact ⟨h.stored, h.handed⟩
    · exact h
  · exact ⟨h.stored, h.handed⟩
  · split
    next evt q _ =>
      refine ⟨h.stored, List.forall_mem_append.mpr
        ⟨h.handed, List.forall_mem_singleton.mpr fun handler hcalled => ?_⟩⟩
      obtain ⟨subscriber, hmem, hname, rfl⟩ := SubscribeList.exists_of_evtHandlerFor_eq hcalled
      have hstored := h.stored subscriber hmem
      rwa [hname] at hstored
    next => exact ⟨h.stored, h.handed⟩
  · exact ⟨h.stored, h.handed⟩

theorem asked_step (C : EventCodec F) (itemSize : ℕ) (s : PubSub F) (e : PubSubEvent F)
    (h : Asked may s.hub)
    (hmay : ∀ name handler, e = .subscribe name handler →
      may ((name.bytes ++ [0]).take (SubscribeList.nameLength name)) handler) :
    Asked may (s.step C itemSize e).hub := by
  cases e with
  | publish name data =>
    rcases publish_cases C itemSize s name data with heq | ⟨evt, payload, -, -, heq⟩
    · rw [step, heq]
      exact h
    · rw [step, heq]
      exact h
  | put i =>
    simp only [step, put]
    split
    · exact h
    · split_ifs <;> exact h
  | receive stack =>
    simp only [step, receive]
    split
    · exact h
    · exact h.bleEvtHandler _ stack
  | subscribe name handler => exact h.subscribe (hmay name handler rfl)
  | subscribeRaw => exact ⟨h.stored, h.handed⟩
  | hubWork => exact h.work
  | connected | disconnected | work | sentCb | lost => exact h

/-- A stored name that ends with a terminator is not cut. -/
theorem cString_of_stored {n : ℕ} {f : PbBytes n} {name : CString} (hzero : 0 ∈ f.received)
    (hstored : f.received = (name.bytes ++ [0]).take (SubscribeList.nameLength name)) :
    f.cString = some name := by
  have hwhole : f.received = name.bytes ++ [0] := by
    rw [hstored] at hzero ⊢
    by_contra hcut
    have hlt : SubscribeList.nameLength name ≤ name.bytes.length := by
      by_contra hgt
      refine hcut (List.take_of_length_le ?_)
      rw [List.length_append, List.length_singleton]
      omega
    rw [List.take_append_of_le_length hlt] at hzero
    exact name.noNul (List.mem_of_mem_take hzero)
  rw [PbBytes.cString_of_mem hzero, hwhole, CString.ofBytes_terminated]

/-- **A subscriber is called with nothing but what was published under a name it has
subscribed.** -/
theorem exists_subscribe_of_called (C : EventCodec F) (itemSize : ℕ) (evt : ProtobufEvent F)
    (es : List (PubSubEvent F)) (h : Meets (step C itemSize) (fun _ e => Short e) (boot evt) es) :
    ∀ call ∈ (run (step C itemSize) (boot evt) es).hub.handed, ∀ handler,
      call.subscriber = some handler → ∃ name data, .subscribe name handler ∈ es ∧
        (name, data) ∈ (run (step C itemSize) (boot evt) es).published ∧
        call.evt.name.cString = some name ∧ call.evt.data.cString = some data := by
  intro call hcall handler hsub
  have hend := inOrder_run C itemSize evt es h
  have hmeets : Meets (step C itemSize) (fun _ e => e ∈ es) (boot evt) es :=
    meets_of_forall_mem fun _ he => he
  let may (bytes : List UInt8) (handler : ℕ) : Prop := ∃ name, .subscribe name handler ∈ es ∧
    bytes = (name.bytes ++ [0]).take (SubscribeList.nameLength name)
  have hasked : Asked may (run (step C itemSize) (boot evt) es).hub := by
    refine invariant_run (fun s e hs he => asked_step C itemSize s e hs ?_) ?_ hmeets
    · rintro name handler rfl
      exact ⟨name, he, rfl⟩
    · exact ⟨fun _ hmem => absurd hmem List.not_mem_nil, fun _ hmem => absurd hmem List.not_mem_nil⟩
  obtain ⟨name, hmem, hstored⟩ := hasked.handed call hcall handler hsub
  obtain ⟨hname, hdata⟩ := (hend.carries.handed call hcall).terminated
  have hcname := cString_of_stored hname hstored
  have hcdata := PbBytes.cString_of_mem hdata
  refine ⟨name, _, hmem, ?_, hcname, hcdata⟩
  have hseen := hend.seen_sublist.subset (List.mem_map_of_mem hcall)
  obtain ⟨⟨name', data'⟩, hpub, heq⟩ := List.mem_map.mp hseen
  obtain ⟨hname', hdata'⟩ := Prod.mk.inj heq
  rw [hcname] at hname'
  rw [hcdata] at hdata'
  cases hname'
  cases hdata'
  exact hpub

/-- Both are handed to the subscriber. -/
theorem exists_subscribe_two_sent :
    ((run (step sampleCodec 168) (boot noEvent)
        (twoSent ++ [.receive noEvent, .receive noEvent] ++ handOver)).hub.handed.map
          HandedEvent.subscriber) = [some 7, some 7] ∧
    ∀ call ∈ (run (step sampleCodec 168) (boot noEvent)
        (twoSent ++ [.receive noEvent, .receive noEvent] ++ handOver)).hub.handed,
      ∀ handler, call.subscriber = some handler → ∃ name data,
        .subscribe name handler ∈ twoSent ++ [.receive noEvent, .receive noEvent] ++ handOver ∧
        (name, data) ∈ (run (step sampleCodec 168) (boot noEvent)
          (twoSent ++ [.receive noEvent, .receive noEvent] ++ handOver)).published ∧
        call.evt.name.cString = some name ∧ call.evt.data.cString = some data :=
  ⟨by decide +kernel, exists_subscribe_of_called sampleCodec 168 noEvent _ (by
    simp [twoSent, handOver, Short, CString.length])⟩

end PubSub

end Pyrinas
