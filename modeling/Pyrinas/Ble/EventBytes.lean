import Pyrinas.Ble.Dispatch
import Pyrinas.Ble.Lengths

/-!
# Ble/EventBytes — what a subscriber sees of the memory

`pb_decode` writes a message into a local variable that is not initialised; its bytes go through
`m_event_queue` into the static `evt`, and a subscriber gets pointers to the two `bytes` fields, as
C strings and without their sizes.  Behind a message without a terminator lies what was there.

    size 2 │ 'h' 'i' │ … stack …        reads  "hi" and on, as far as the first zero

The raw handler is taken to leave the event as it is.
-/

open Machinery

namespace Pyrinas

/-- What a message says, as long as it fits the fields. -/
structure EventMessage (F : EventFields) where
  name : List UInt8
  name_le : name.length ≤ F.size
  data : List UInt8
  data_le : data.length ≤ F.dataSize

/-- The bytes of a field that its size counts. -/
def PbBytes.received {n : ℕ} (f : PbBytes n) : List UInt8 := f.bytes.cells.take f.size

/-- The C string at `bytes`; `none` where it runs out of the field. -/
def PbBytes.cString {n : ℕ} (f : PbBytes n) : Option CString :=
  if 0 ∈ f.bytes.cells then some (.ofBytes f.bytes.cells) else none

namespace ProtobufEvent

variable {F : EventFields}

/-- `pb_decode` of a message into a structure with these contents: it sets the sizes and as many
bytes. -/
def pbDecode (evt : ProtobufEvent F) (m : EventMessage F) : ProtobufEvent F where
  name := ⟨m.name.length, evt.name.bytes.overwrite m.name m.name_le⟩
  data := ⟨m.data.length, evt.data.bytes.overwrite m.data m.data_le⟩

/-- The message that was received. -/
def received (evt : ProtobufEvent F) : EventMessage F where
  name := evt.name.received
  name_le := by simp [PbBytes.received]
  data := evt.data.received
  data_le := by simp [PbBytes.received]

theorem received_pbDecode (evt : ProtobufEvent F) (m : EventMessage F) :
    (evt.pbDecode m).received = m := by
  have hfront : ∀ (n : ℕ) (a : Area UInt8 n) (d : List UInt8) (h : d.length ≤ n),
      (a.overwrite d h).cells.take d.length = d := fun _ _ _ _ => List.take_left
  obtain ⟨name, name_le, data, data_le⟩ := m
  simp only [received, PbBytes.received, pbDecode, hfront]

end ProtobufEvent

/-- A call of the handlers: what `evt` holds, and the raw handler and the subscriber it is handed
to. -/
structure HandedEvent (F : EventFields) where
  evt : ProtobufEvent F
  raw : Option ℕ
  subscriber : Option ℕ

/-- The handlers that are called: the raw handler, if there is one, and the subscriber, if there is
one. -/
def HandedEvent.calls {F : EventFields} (call : HandedEvent F) :
    List (HandlerCall (ProtobufEvent F) ℕ ℕ) :=
  (call.raw.map (HandlerCall.raw · call.evt)).toList
    ++ (call.subscriber.map (HandlerCall.subscriber · call.evt)).toList

/-- The variables of `ble_m.c`, with the static `evt`. -/
structure EventBytes (F : EventFields) where
  subscribeList : SubscribeList ℕ
  rawHandlerExt : Option ℕ
  eventQueue : MessageQueue (ProtobufEvent F) 20
  evt : ProtobufEvent F
  pending : Bool
  pc : BtSendWorkPc
  handed : List (HandedEvent F)

/-- A packet, with what `pb_decode` makes of it (nothing, of no bytes) and what the stack holds; a
subscription; or the next step of the work queue. -/
inductive EventBytesEvent (F : EventFields)
  | evtHandler (decoded : Option (EventMessage F)) (stack : ProtobufEvent F)
  | subscribe (name : CString) (handler : ℕ)
  | subscribeRaw (handler : Option ℕ)
  | work

namespace EventBytes

variable {F : EventFields}

/-- At boot, with any contents of `evt`. -/
def boot (evt : ProtobufEvent F) : EventBytes F := ⟨.empty, none, .empty, evt, false, .idle, []⟩

/-- `ble_evt_handler` -/
def bleEvtHandler (s : EventBytes F) (decoded : Option (EventMessage F))
    (stack : ProtobufEvent F) : EventBytes F :=
  match decoded with
  | none => s
  | some m =>
    match s.eventQueue.put (stack.pbDecode m) with
    | some q => { s with eventQueue := q, pending := true }
    | none => { s with pending := true }

/-- The body of the loop, with the event in `evt`. -/
def dispatch (s : EventBytes F) : EventBytes F :=
  { s with handed := s.handed ++
      [⟨s.evt, s.rawHandlerExt, s.subscribeList.evtHandlerFor s.evt.name.received⟩] }

/-- The next step of the work queue, as in `BleDispatch.work`; `k_msgq_get` writes all of `evt`. -/
def work (s : EventBytes F) : EventBytes F :=
  match s.pc with
  | .idle => if s.pending then { s with pending := false, pc := .testing } else s
  | .testing => { s with pc := if s.eventQueue.items.length ≠ 0 then .getting else .returning }
  | .getting =>
    match s.eventQueue.get with
    | some (evt, q) => { s with eventQueue := q, evt := evt, pc := .testing }.dispatch
    | none => { s with pc := .testing }
  | .returning => { s with pc := .idle }

/-- One event. -/
def step (s : EventBytes F) : EventBytesEvent F → EventBytes F
  | .evtHandler decoded stack => s.bleEvtHandler decoded stack
  | .subscribe name handler =>
    { s with subscribeList := s.subscribeList.bleSubscribe F.toNameField name handler }
  | .subscribeRaw handler => { s with rawHandlerExt := handler }
  | .work => s.work

end EventBytes

/-! ## What should be seen -/

/-- The two strings stay in their fields, and are what was received up to the first zero. -/
structure HandedEvent.Own {F : EventFields} (call : HandedEvent F) : Prop where
  name : call.evt.name.cString = some (.ofBytes call.evt.name.received)
  data : call.evt.data.cString = some (.ofBytes call.evt.data.received)

/-- Whoever is called for a message sees its own bytes, whatever `evt` and the stack held and
whatever happened before. -/
def OwnBytes {F : EventFields} (m : EventMessage F) : Prop :=
  ∀ (evt : ProtobufEvent F) (es : List (EventBytesEvent F)),
    ∀ call ∈ (run EventBytes.step (EventBytes.boot evt) es).handed,
      call.subscriber ≠ none → call.evt.received = m → call.Own

/-- The name has a zero that is not its last byte, so no subscription has it; or the name and the
data have their terminators. -/
def EventMessage.Terminated {F : EventFields} (m : EventMessage F) : Prop :=
  0 ∈ m.name.dropLast ∨ 0 ∈ m.name ∧ 0 ∈ m.data

/-! ## Strings in a field -/

/-- What was received ends in the field… -/
theorem PbBytes.cString_of_mem {n : ℕ} {f : PbBytes n} (h : 0 ∈ f.received) :
    f.cString = some (.ofBytes f.received) := by
  have hcells : f.bytes.cells = f.received ++ f.bytes.cells.drop f.size :=
    (List.take_append_drop _ _).symm
  have hmem : 0 ∈ f.bytes.cells := List.mem_of_mem_take h
  rw [cString, if_pos hmem, hcells, CString.ofBytes_append h]

/-- …and with other bytes than zero behind it, only so. -/
theorem PbBytes.cString_overwrite {n size : ℕ} {d : List UInt8} (hd : d.length ≤ n)
    (h : 0 ∉ d) : (⟨size, (Area.fill n 1).overwrite d hd⟩ : PbBytes n).cString = none := by
  refine if_neg fun hmem => ?_
  rcases List.mem_append.mp hmem with hfront | hrest
  · exact h hfront
  · have hone := List.eq_of_mem_replicate (List.mem_of_mem_drop hrest)
    exact absurd hone (by decide)

theorem HandedEvent.own_of_mem {F : EventFields} {call : HandedEvent F}
    (hname : 0 ∈ call.evt.received.name) (hdata : 0 ∈ call.evt.received.data) : call.Own :=
  ⟨PbBytes.cString_of_mem hname, PbBytes.cString_of_mem hdata⟩

/-- Two calls for one message see the same, whatever the memory held before either. -/
theorem HandedEvent.Own.same {F : EventFields} {call call' : HandedEvent F} (h : call.Own)
    (h' : call'.Own) (hm : call.evt.received = call'.evt.received) :
    call.evt.name.cString = call'.evt.name.cString ∧
      call.evt.data.cString = call'.evt.data.cString := by
  have hname : call.evt.name.received = call'.evt.name.received := congrArg EventMessage.name hm
  have hdata : call.evt.data.received = call'.evt.data.received := congrArg EventMessage.data hm
  rw [h.name, h'.name, h.data, h'.data, hname, hdata]
  exact ⟨rfl, rfl⟩

/-! ## Which names are subscribed -/

namespace SubscribeList

variable {H : Type*} {N : NameField} {l : SubscribeList H}

theorem eq_of_mem_bleSubscribe {name : CString} {handler : H} {subscriber : BleSubscription H}
    (h : subscriber ∈ (l.bleSubscribe N name handler).subscribers) :
    subscriber ∈ l.subscribers ∨
      subscriber = ⟨handler, (name.bytes ++ [0]).take (nameLength name)⟩ := by
  unfold bleSubscribe at h
  split_ifs at h
  · exact .inl h
  · dsimp only at h
    split at h
    · exact List.mem_or_eq_of_mem_set h
    · exact (List.mem_append.mp h).imp_right List.mem_singleton.mp
  · exact .inl h

theorem mem_bleSubscribe {name : CString} {handler : H} {subscriber : BleSubscription H}
    (h : subscriber ∈ (l.bleSubscribe N name handler).subscribers) :
    subscriber ∈ l.subscribers ∨
      subscriber.name = (name.bytes ++ [0]).take (nameLength name) :=
  (eq_of_mem_bleSubscribe h).imp_right (congrArg BleSubscription.name)

/-- A zero can only be the last byte of what is stored. -/
theorem zero_notMem_dropLast (name : CString) (length : ℕ) :
    0 ∉ ((name.bytes ++ [0]).take length).dropLast := by
  rcases le_or_gt length name.bytes.length with hle | hgt
  · rw [List.take_append_of_le_length hle]
    exact fun h => name.noNul (List.mem_of_mem_take (List.dropLast_subset _ h))
  · rw [List.take_of_length_le (by rw [List.length_append]; exact hgt), List.dropLast_concat]
    exact name.noNul

/-- A handler is found under a name that is stored. -/
theorem exists_of_evtHandlerFor {eventName : List UInt8} (h : l.evtHandlerFor eventName ≠ none) :
    ∃ subscriber ∈ l.subscribers, subscriber.name = eventName := by
  rw [Subscriptions.evtHandlerFor_eq] at h
  have hmem : eventName ∈ l.subscribers.map BleSubscription.name := by
    by_contra hnone
    exact h (by rw [entryFor_eq_none_iff.mpr hnone]; rfl)
  exact List.mem_map.mp hmem

/-- …and is the one stored with it. -/
theorem exists_of_evtHandlerFor_eq {eventName : List UInt8} {handler : H}
    (h : l.evtHandlerFor eventName = some handler) :
    ∃ subscriber ∈ l.subscribers,
      subscriber.name = eventName ∧ subscriber.evtHandler = handler := by
  rw [Subscriptions.evtHandlerFor_eq, Option.map_eq_some_iff] at h
  obtain ⟨subscriber, hfound, hhandler⟩ := h
  obtain ⟨i, hi, hget⟩ := Option.bind_eq_some_iff.mp hfound
  obtain ⟨hlt, hkey, -⟩ := List.findIdx?_eq_some_iff_getElem.mp hi
  obtain ⟨_, rfl⟩ := List.getElem?_eq_some_iff.mp hget
  exact ⟨_, List.getElem_mem hlt, of_decide_eq_true hkey, hhandler⟩

/-- **Every other name can be subscribed**, without a terminator by one that is cut. -/
theorem exists_name {eventName : List UInt8} (hsize : eventName.length ≤ N.size)
    (h : 0 ∉ eventName.dropLast) : ∃ name : CString, nameLength name ≤ N.size ∧
      (name.bytes ++ [0]).take (nameLength name) = eventName := by
  have hN := N.size_le
  by_cases hzero : 0 ∈ eventName
  · have hne : eventName ≠ [] := List.ne_nil_of_mem hzero
    have hlast : eventName.dropLast ++ [0] = eventName := by
      rw [← List.dropLast_append_getLast hne, List.mem_append, List.mem_singleton] at hzero
      conv_rhs => rw [← List.dropLast_append_getLast hne, ← hzero.resolve_left h]
    have hlength := congrArg List.length hlast
    rw [List.length_append, List.length_singleton] at hlength
    have hn : nameLength ⟨eventName.dropLast, h⟩ = eventName.length := by
      rw [nameLength, CString.length, hlength]
      exact Nat.mod_eq_of_lt (by omega)
    refine ⟨⟨eventName.dropLast, h⟩, hn.trans_le hsize, ?_⟩
    rw [hn, hlast, List.take_length]
  · have hlong : 0 ∉ eventName ++ List.replicate 255 1 := by
      rw [List.mem_append, List.mem_replicate]
      exact not_or.mpr ⟨hzero, fun h => absurd h.2 (by decide)⟩
    have hn : nameLength ⟨eventName ++ List.replicate 255 1, hlong⟩ = eventName.length := by
      rw [nameLength, CString.length, List.length_append, List.length_replicate]
      omega
    refine ⟨⟨_, hlong⟩, hn.trans_le hsize, ?_⟩
    rw [hn, List.append_assoc, List.take_left]

end SubscribeList

namespace EventBytes

variable {F : EventFields} {s : EventBytes F} {m : EventMessage F}

/-! ## A step -/

/-- A stored name, and one that a subscriber was called for, has a zero at most at its end. -/
structure Sound (s : EventBytes F) : Prop where
  stored : ∀ subscriber ∈ s.subscribeList.subscribers, 0 ∉ subscriber.name.dropLast
  handed : ∀ call ∈ s.handed, call.subscriber ≠ none → 0 ∉ call.evt.received.name.dropLast

theorem sound_boot (evt : ProtobufEvent F) : Sound (boot evt) :=
  ⟨fun _ h => absurd h List.not_mem_nil, fun _ h => absurd h List.not_mem_nil⟩

theorem Sound.bleEvtHandler (h : Sound s) (decoded : Option (EventMessage F))
    (stack : ProtobufEvent F) : Sound (s.bleEvtHandler decoded stack) := by
  unfold EventBytes.bleEvtHandler
  split
  · exact h
  · split <;> exact ⟨h.stored, h.handed⟩

theorem Sound.dispatch (h : Sound s) : Sound s.dispatch := by
  refine ⟨h.stored, List.forall_mem_append.mpr
    ⟨h.handed, List.forall_mem_singleton.mpr fun hsub => ?_⟩⟩
  obtain ⟨subscriber, hmem, hname⟩ := SubscribeList.exists_of_evtHandlerFor hsub
  have hstored := h.stored subscriber hmem
  rwa [hname] at hstored

theorem Sound.work (h : Sound s) : Sound s.work := by
  unfold EventBytes.work
  split
  · split_ifs
    · exact ⟨h.stored, h.handed⟩
    · exact h
  · exact ⟨h.stored, h.handed⟩
  · split
    next evt q _ =>
      have hgot : Sound { s with eventQueue := q, evt := evt, pc := .testing } :=
        ⟨h.stored, h.handed⟩
      exact hgot.dispatch
    next => exact ⟨h.stored, h.handed⟩
  · exact ⟨h.stored, h.handed⟩

theorem sound_step (s : EventBytes F) (e : EventBytesEvent F) (h : Sound s) : Sound (s.step e) := by
  cases e with
  | evtHandler decoded stack => exact h.bleEvtHandler decoded stack
  | subscribe name handler =>
    refine ⟨fun subscriber hmem => ?_, h.handed⟩
    rcases SubscribeList.mem_bleSubscribe hmem with hold | hnew
    · exact h.stored subscriber hold
    · rw [hnew]
      exact SubscribeList.zero_notMem_dropLast name _
  | subscribeRaw => exact ⟨h.stored, h.handed⟩
  | work => exact h.work

/-! ## The events of `Ble/Dispatch`

It knows an event by its message, and here there is memory behind each. -/

/-- The codec whose events are the messages. -/
abbrev eventCodec (pbDecode : List UInt8 → Option (EventMessage F)) : BleCodec where
  Event := EventMessage F
  name := EventMessage.name
  pbDecode := pbDecode

/-- The same state but for the memory. -/
structure Forgets {pbDecode : List UInt8 → Option (EventMessage F)} (s : EventBytes F)
    (d : BleDispatch (eventCodec pbDecode) ℕ ℕ) : Prop where
  subscribeList : d.subscribeList = s.subscribeList
  rawHandlerExt : d.rawHandlerExt = s.rawHandlerExt
  eventQueue : d.eventQueue = s.eventQueue.map ProtobufEvent.received
  pending : d.pending = s.pending
  pc : d.pc = s.pc
  calls : d.calls
    = (s.handed.flatMap HandedEvent.calls).map (HandlerCall.map ProtobufEvent.received)

variable {pbDecode : List UInt8 → Option (EventMessage F)}
  {d : BleDispatch (eventCodec pbDecode) ℕ ℕ}

/-- The event, with what the stack holds. -/
def withStack (pbDecode : List UInt8 → Option (EventMessage F)) (stack : ProtobufEvent F) :
    BleDispatchEvent ℕ ℕ → EventBytesEvent F
  | .evtHandler data =>
    .evtHandler (data.bind fun data => if data = [] then none else pbDecode data) stack
  | .subscribe name handler => .subscribe name handler
  | .subscribeRaw handler => .subscribeRaw handler
  | .work => .work

theorem Forgets.putEvent (h : Forgets s d) (m : EventMessage F) (stack : ProtobufEvent F) :
    Forgets (s.bleEvtHandler (some m) stack) (d.putEvent m) := by
  have hput := MessageQueue.put_map ProtobufEvent.received s.eventQueue (stack.pbDecode m)
  rw [← h.eventQueue, ProtobufEvent.received_pbDecode] at hput
  simp only [EventBytes.bleEvtHandler, BleDispatch.putEvent, hput]
  cases s.eventQueue.put (stack.pbDecode m) with
  | none => exact { h with pending := rfl }
  | some q => exact { h with eventQueue := rfl, pending := rfl }

theorem Forgets.bleEvtHandler (h : Forgets s d) (data : List UInt8) (stack : ProtobufEvent F) :
    Forgets (s.bleEvtHandler (if data = [] then none else pbDecode data) stack)
      (d.bleEvtHandler data) := by
  have hdecode : (eventCodec pbDecode).pbDecode data = pbDecode data := rfl
  unfold BleDispatch.bleEvtHandler
  rw [hdecode]
  split_ifs
  · exact h
  · cases pbDecode data with
    | none => exact h
    | some m => exact h.putEvent m stack

theorem Forgets.work (h : Forgets s d) : Forgets s.work d.work := by
  unfold EventBytes.work BleDispatch.work
  cases hpc : s.pc with
  | idle =>
    simp only [h.pc.trans hpc, h.pending]
    split_ifs
    · exact { h with pending := rfl, pc := rfl }
    · exact h
  | testing =>
    have hlength : d.eventQueue.items.length = s.eventQueue.items.length := by
      rw [h.eventQueue]
      exact List.length_map _
    simp only [h.pc.trans hpc, hlength]
    exact { h with pc := rfl }
  | getting =>
    have hget := MessageQueue.get_map ProtobufEvent.received s.eventQueue
    rw [← h.eventQueue] at hget
    simp only [h.pc.trans hpc, hget]
    cases s.eventQueue.get with
    | none => exact { h with pc := rfl }
    | some got =>
      refine { h with eventQueue := rfl, pc := rfl, calls := ?_ }
      simp only [EventBytes.dispatch, BleDispatch.dispatch, BleDispatch.callsFor, HandedEvent.calls,
        h.calls, h.subscribeList, h.rawHandlerExt, List.flatMap_append, List.flatMap_singleton,
        List.map_append, Option.toList_map, List.map_map]
      rfl
  | returning =>
    simp only [h.pc.trans hpc]
    exact { h with pc := rfl }

theorem forgets_step (h : Forgets s d) (stack : ProtobufEvent F) (e : BleDispatchEvent ℕ ℕ) :
    Forgets (s.step (withStack pbDecode stack e)) (d.step F.toNameField e) := by
  cases e with
  | evtHandler data =>
    cases data with
    | none => exact h
    | some data => exact h.bleEvtHandler data stack
  | subscribe name handler =>
    refine { h with subscribeList := ?_ }
    simp only [BleDispatch.step, h.subscribeList]
    rfl
  | subscribeRaw => exact { h with rawHandlerExt := rfl }
  | work => exact h.work

/-- **The handlers are called as in `Ble/Dispatch`**, whatever the memory holds. -/
theorem forgets_run (pbDecode : List UInt8 → Option (EventMessage F)) (evt : ProtobufEvent F)
    (es : List (ProtobufEvent F × BleDispatchEvent ℕ ℕ)) :
    Forgets (run step (boot evt) (es.map fun e => withStack pbDecode e.1 e.2))
      (run (BleDispatch.step F.toNameField) (.boot : BleDispatch (eventCodec pbDecode) ℕ ℕ)
        (es.map Prod.snd)) := by
  have hboot : Forgets (boot evt) (.boot : BleDispatch (eventCodec pbDecode) ℕ ℕ) :=
    ⟨rfl, rfl, rfl, rfl, rfl, rfl⟩
  exact simulation_run (R := Forgets) (fun _ _ e h => forgets_step h e.1 e.2) hboot es

/-! ## The exact condition -/

/-- Memory without zeros. -/
def ones (F : EventFields) : ProtobufEvent F := ⟨⟨0, .fill _ 1⟩, ⟨0, .fill _ 1⟩⟩

/-- One subscription, and one packet with the stack full of ones. -/
def oneEvent (name : CString) (m : EventMessage F) : List (EventBytesEvent F) :=
  [.subscribe name 0, .evtHandler (some m) (ones F), .work, .work, .work]

/-- Its subscriber is called. -/
theorem handed_oneEvent (evt : ProtobufEvent F) {name : CString}
    (hsize : SubscribeList.nameLength name ≤ F.size)
    (hname : (name.bytes ++ [0]).take (SubscribeList.nameLength name) = m.name) :
    (run step (boot evt) (oneEvent name m)).handed
      = [⟨(ones F).pbDecode m, none, some 0⟩] := by
  have hfound : (SubscribeList.empty.bleSubscribe F.toNameField name 0).evtHandlerFor m.name
      = some 0 := by
    rw [Subscriptions.evtHandlerFor_eq, SubscribeList.subscribers_bleSubscribe_empty hsize, hname]
    simp
  have hreceived : ((ones F).pbDecode m).name.received = m.name :=
    congrArg EventMessage.name ((ones F).received_pbDecode m)
  have hrun : (run step (boot evt) (oneEvent name m)).handed
      = [⟨(ones F).pbDecode m, none,
          (SubscribeList.empty.bleSubscribe F.toNameField name 0).evtHandlerFor
            ((ones F).pbDecode m).name.received⟩] := rfl
  rw [hrun, hreceived, hfound]

/-- What runs out of a field is seen by a subscriber that the name finds. -/
theorem terminated_of_ownBytes (h : OwnBytes m) : m.Terminated := by
  refine or_iff_not_imp_left.mpr fun hlast => ?_
  obtain ⟨name, hsize, hname⟩ := SubscribeList.exists_name (N := F.toNameField) m.name_le hlast
  have hown : HandedEvent.Own ⟨(ones F).pbDecode m, none, some 0⟩ :=
    h (ones F) (oneEvent name m) _ (by rw [handed_oneEvent _ hsize hname]; exact List.mem_cons_self)
      (Option.some_ne_none _) ((ones F).received_pbDecode m)
  constructor
  · by_contra hzero
    exact Option.some_ne_none _ (hown.name.symm.trans (PbBytes.cString_overwrite m.name_le hzero))
  · by_contra hzero
    exact Option.some_ne_none _ (hown.data.symm.trans (PbBytes.cString_overwrite m.data_le hzero))

/-- **A message's subscriber sees nothing but the message exactly when it is terminated**, or has a
name that nobody can subscribe. -/
theorem ownBytes_iff_terminated (m : EventMessage F) : OwnBytes m ↔ m.Terminated := by
  refine ⟨terminated_of_ownBytes, ?_⟩
  rintro (hname | ⟨hname, hdata⟩) evt es call hcall hsub rfl
  · have hsound := invariant_run_all sound_step (sound_boot evt) es
    exact absurd hname (hsound.handed call hcall hsub)
  · exact HandedEvent.own_of_mem hname hdata

/-- The data fills its field and leaves no room for a terminator. -/
def sampleMessage : EventMessage sampleFields :=
  ⟨[104, 0], by decide, List.replicate 128 49, List.length_replicate.le⟩

theorem not_ownBytes_full_data : ¬ OwnBytes sampleMessage := by
  intro h
  have hown := h (ones sampleFields) (oneEvent ⟨[104], by decide⟩ sampleMessage) _
    (by rw [handed_oneEvent _ (by decide) rfl]; exact List.mem_cons_self)
    (Option.some_ne_none _) ((ones sampleFields).received_pbDecode sampleMessage)
  have hnul : 0 ∉ sampleMessage.data := fun hmem =>
    absurd (List.eq_of_mem_replicate hmem) (by decide)
  exact Option.some_ne_none _
    (hown.data.symm.trans (PbBytes.cString_overwrite sampleMessage.data_le hnul))

end EventBytes

end Pyrinas
