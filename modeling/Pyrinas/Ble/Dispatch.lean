import Pyrinas.Ble.Subscriptions
import Pyrinas.Machinery.MessageQueue

/-!
# Ble/Dispatch — from a received packet to the handlers of `ble_m.c`

`ble_evt_handler` decodes a packet, puts the event into `m_event_queue` and submits `bt_send_work`,
whose handler takes events out until it finds the queue empty.  A packet may come at any time, also
between that last look and the end of the handler; then the work item is pending again.

    packet ─▸ decode ─▸ put, submit ─▸ m_event_queue ─▸ get ─▸ raw handler, subscriber
-/

open Machinery

namespace Pyrinas

/-- What the generated code for `protobuf_event_t` does: a name, and decoding. -/
structure BleCodec where
  Event : Type
  name : Event → List UInt8
  pbDecode : List UInt8 → Option Event

/-- Where `bt_send_work_handler` is: not running, before the test of its loop, behind it, or past
the loop. -/
inductive BtSendWorkPc
  | idle
  | testing
  | getting
  | returning
  deriving DecidableEq

/-- A call of the raw handler or of a subscriber, with the event it is handed. -/
inductive HandlerCall (E R H : Type*)
  | raw (handler : R) (evt : E)
  | subscriber (handler : H) (evt : E)

/-- The call, with the event as `f` sees it. -/
def HandlerCall.map {E E' R H : Type*} (f : E → E') : HandlerCall E R H → HandlerCall E' R H
  | .raw handler evt => .raw handler (f evt)
  | .subscriber handler evt => .subscriber handler (f evt)

/-- The variables of `ble_m.c`; `pending` belongs to `bt_send_work`, and `calls` are the calls of
the handlers. -/
structure BleDispatch (C : BleCodec) (R H : Type*) where
  subscribeList : SubscribeList H
  rawHandlerExt : Option R
  eventQueue : MessageQueue C.Event 20
  pending : Bool
  pc : BtSendWorkPc
  calls : List (HandlerCall C.Event R H)

/-- A packet (none for `NULL`), a subscription, or the next step of the work queue. -/
inductive BleDispatchEvent (R H : Type*)
  | evtHandler (data : Option (List UInt8))
  | subscribe (name : CString) (handler : H)
  | subscribeRaw (handler : Option R)
  | work

namespace BleDispatch

variable {C : BleCodec} {N : NameField} {R H : Type*}

/-- At boot. -/
def boot : BleDispatch C R H := ⟨.empty, none, .empty, false, .idle, []⟩

/-- Queue an event: one that does not fit is lost, and the work is submitted in any case. -/
def putEvent (s : BleDispatch C R H) (evt : C.Event) : BleDispatch C R H :=
  match s.eventQueue.put evt with
  | some q => { s with eventQueue := q, pending := true }
  | none => { s with pending := true }

/-- `ble_evt_handler` -/
def bleEvtHandler (s : BleDispatch C R H) (data : List UInt8) : BleDispatch C R H :=
  if data = [] then s
  else
    match C.pbDecode data with
    | some evt => s.putEvent evt
    | none => s

/-- The handlers that the body of the loop calls for an event: the raw handler, if there is one,
and the subscriber that `subscriber_search` finds. -/
def callsFor (s : BleDispatch C R H) (evt : C.Event) : List (HandlerCall C.Event R H) :=
  (s.rawHandlerExt.map (HandlerCall.raw · evt)).toList
    ++ ((s.subscribeList.evtHandlerFor (C.name evt)).map (HandlerCall.subscriber · evt)).toList

/-- The body of the loop, for an event from the queue. -/
def dispatch (s : BleDispatch C R H) (evt : C.Event) : BleDispatch C R H :=
  { s with calls := s.calls ++ s.callsFor evt }

/-- The next step of the work queue: it clears the flag and calls `bt_send_work_handler`, which
tests the queue, handles an event, or returns. -/
def work (s : BleDispatch C R H) : BleDispatch C R H :=
  match s.pc with
  | .idle => if s.pending then { s with pending := false, pc := .testing } else s
  | .testing => { s with pc := if s.eventQueue.items.length ≠ 0 then .getting else .returning }
  | .getting =>
    match s.eventQueue.get with
    | some (evt, q) => { s with eventQueue := q, pc := .testing }.dispatch evt
    | none => { s with pc := .testing }
  | .returning => { s with pc := .idle }

/-- One event. -/
def step (N : NameField) (s : BleDispatch C R H) : BleDispatchEvent R H → BleDispatch C R H
  | .evtHandler data => data.elim s s.bleEvtHandler
  | .subscribe name handler =>
    { s with subscribeList := s.subscribeList.bleSubscribe N name handler }
  | .subscribeRaw handler => { s with rawHandlerExt := handler }
  | .work => s.work

end BleDispatch

/-! ## What should be called

An observer at the queue writes down what went in and what came out, and with each event that came
out the handlers that were registered when it did. -/

/-- An event that left the queue, with the raw handler and the subscriptions there were. -/
structure TakenEvent (C : BleCodec) (R H : Type*) where
  evt : C.Event
  raw : Option R
  subscribers : List (BleSubscription H)

/-- The calls it asks for: one of the raw handler, and one of the subscription with its name. -/
def TakenEvent.calls {C : BleCodec} {R H : Type*} (t : TakenEvent C R H) :
    List (HandlerCall C.Event R H) :=
  let subscriber := entryFor BleSubscription.name t.subscribers (C.name t.evt)
  (t.raw.map (HandlerCall.raw · t.evt)).toList
    ++ (subscriber.map fun b => HandlerCall.subscriber b.evtHandler t.evt).toList

/-- The variables, the events that were accepted, and those that were taken out. -/
structure DispatchLog (C : BleCodec) (R H : Type*) where
  ble : BleDispatch C R H
  accepted : List C.Event
  taken : List (TakenEvent C R H)

namespace BleDispatch

variable {C : BleCodec} {N : NameField} {R H : Type*}

/-- The event that a packet adds to the queue: the one it decodes to, while there is room. -/
def accepts (s : BleDispatch C R H) : BleDispatchEvent R H → List C.Event
  | .evtHandler (some data) =>
    if data ≠ [] ∧ s.eventQueue.items.length < 20 then (C.pbDecode data).toList else []
  | _ => []

/-- The events at the head of the queue that are gone afterwards. -/
def takes (N : NameField) (s : BleDispatch C R H) (e : BleDispatchEvent R H) :
    List (TakenEvent C R H) :=
  let gone := s.eventQueue.items.length - (s.step N e).eventQueue.items.length
  (s.eventQueue.items.take gone).map (⟨·, s.rawHandlerExt, s.subscribeList.subscribers⟩)

/-- At boot. -/
def bootLog : DispatchLog C R H := ⟨boot, [], []⟩

/-- One event, and the record of it. -/
def logStep (N : NameField) (x : DispatchLog C R H) (e : BleDispatchEvent R H) :
    DispatchLog C R H where
  ble := x.ble.step N e
  accepted := x.accepted ++ x.ble.accepts e
  taken := x.taken ++ x.ble.takes N e

/-- While there are events in the queue, the work is pending or its handler has yet to test the
queue. -/
def NoneLeft (s : BleDispatch C R H) : Prop :=
  s.eventQueue.items ≠ [] → s.pending ∨ s.pc = .testing ∨ s.pc = .getting

/-- What was taken out, and then what is queued, is what was accepted; the handlers were called for
everything that was taken out, in its order, and for nothing else; and none is left behind. -/
structure Accounted (x : DispatchLog C R H) : Prop where
  order : x.taken.map TakenEvent.evt ++ x.ble.eventQueue.items = x.accepted
  handed : x.ble.calls = x.taken.flatMap TakenEvent.calls
  noneLeft : x.ble.NoneLeft

/-! ## A step -/

/-- What an event does to the queue and the calls: it takes nothing out and calls nobody… -/
structure Adds (s s' : BleDispatch C R H) (evts : List C.Event) : Prop where
  items : s'.eventQueue.items = s.eventQueue.items ++ evts
  calls : s'.calls = s.calls

/-- …or it takes the first event out and calls the handlers for it. -/
structure Takes (s s' : BleDispatch C R H) (evt : C.Event) : Prop where
  items : s.eventQueue.items = evt :: s'.eventQueue.items
  calls : s'.calls = s.calls ++ s.callsFor evt

theorem adds_putEvent (s : BleDispatch C R H) (evt : C.Event) :
    Adds s (s.putEvent evt) (if s.eventQueue.items.length < 20 then [evt] else []) := by
  unfold putEvent
  cases hput : s.eventQueue.put evt with
  | some q =>
    have hroom : s.eventQueue.items.length < 20 := MessageQueue.room_of_put hput
    rw [if_pos hroom]
    exact ⟨MessageQueue.items_put hput, rfl⟩
  | none =>
    have hfull : ¬ s.eventQueue.items.length < 20 := MessageQueue.full_of_put hput
    rw [if_neg hfull]
    exact ⟨(List.append_nil _).symm, rfl⟩

theorem adds_bleEvtHandler (s : BleDispatch C R H) (data : List UInt8) :
    Adds s (s.bleEvtHandler data) (s.accepts (.evtHandler (some data))) := by
  unfold bleEvtHandler accepts
  by_cases hdata : data = []
  · simp only [hdata, ne_eq, not_true_eq_false, false_and, if_false, if_true]
    exact ⟨(List.append_nil _).symm, rfl⟩
  · simp only [hdata, ne_eq, not_false_eq_true, true_and, if_false]
    cases C.pbDecode data with
    | none =>
      simp only [Option.toList_none, ite_self]
      exact ⟨(List.append_nil _).symm, rfl⟩
    | some evt => exact adds_putEvent s evt

/-- **A step of the handler** calls for the event it takes out, or takes none out. -/
theorem adds_or_takes_work (s : BleDispatch C R H) :
    Adds s s.work [] ∨ ∃ evt, Takes s s.work evt := by
  unfold work
  split
  next =>
    split_ifs
    · exact .inl ⟨(List.append_nil _).symm, rfl⟩
    · exact .inl ⟨(List.append_nil _).symm, rfl⟩
  next => exact .inl ⟨(List.append_nil _).symm, rfl⟩
  next =>
    split
    next evt q hget => exact .inr ⟨evt, MessageQueue.items_get hget, rfl⟩
    next => exact .inl ⟨(List.append_nil _).symm, rfl⟩
  next => exact .inl ⟨(List.append_nil _).symm, rfl⟩

theorem adds_or_takes (N : NameField) (s : BleDispatch C R H) (e : BleDispatchEvent R H) :
    Adds s (s.step N e) (s.accepts e) ∨ s.accepts e = [] ∧ ∃ evt, Takes s (s.step N e) evt := by
  cases e with
  | evtHandler data =>
    cases data with
    | none => exact .inl ⟨(List.append_nil _).symm, rfl⟩
    | some data => exact .inl (adds_bleEvtHandler s data)
  | subscribe => exact .inl ⟨(List.append_nil _).symm, rfl⟩
  | subscribeRaw => exact .inl ⟨(List.append_nil _).symm, rfl⟩
  | work => exact (adds_or_takes_work s).imp_right fun h => ⟨rfl, h⟩

/-- The search finds the subscription with the name. -/
theorem calls_taken (s : BleDispatch C R H) (evt : C.Event) :
    TakenEvent.calls (C := C) ⟨evt, s.rawHandlerExt, s.subscribeList.subscribers⟩
      = s.callsFor evt := by
  unfold TakenEvent.calls callsFor
  rw [Subscriptions.evtHandlerFor_eq, Option.map_map]
  rfl

/-- **A step of the handler leaves none behind.** -/
theorem NoneLeft.work {s : BleDispatch C R H} (h : s.NoneLeft) : s.work.NoneLeft := by
  unfold BleDispatch.work
  split
  next =>
    split_ifs
    · exact fun _ => .inr (.inl rfl)
    · exact h
  next => exact fun hne => .inr (.inr (if_pos (List.length_pos_iff.mpr hne).ne'))
  next =>
    split
    next => exact fun _ => .inr (.inl rfl)
    next => exact fun _ => .inr (.inl rfl)
  next hpc =>
    -- past the loop only a packet can have filled the queue, and it has submitted the work
    intro hne
    rcases h hne with hpend | htest | hget
    · exact .inl hpend
    · simp [hpc] at htest
    · simp [hpc] at hget

theorem NoneLeft.bleEvtHandler {s : BleDispatch C R H} (h : s.NoneLeft) (data : List UInt8) :
    (s.bleEvtHandler data).NoneLeft := by
  unfold BleDispatch.bleEvtHandler BleDispatch.putEvent
  split_ifs
  · exact h
  · split
    next =>
      split
      next => exact fun _ => .inl rfl
      next => exact fun _ => .inl rfl
    next => exact h

theorem NoneLeft.step {s : BleDispatch C R H} (h : s.NoneLeft) (e : BleDispatchEvent R H) :
    (s.step N e).NoneLeft := by
  cases e with
  | evtHandler data =>
    cases data with
    | none => exact h
    | some data => exact h.bleEvtHandler data
  | subscribe => exact h
  | subscribeRaw => exact h
  | work => exact h.work

theorem accounted_boot : Accounted (bootLog : DispatchLog C R H) :=
  ⟨rfl, rfl, fun h => absurd rfl h⟩

/-- **A step passes events on in order**, to the handlers there are. -/
theorem accounted_step (x : DispatchLog C R H) (e : BleDispatchEvent R H) (h : Accounted x) :
    Accounted (logStep N x e) := by
  have hleft : (logStep N x e).ble.NoneLeft := h.noneLeft.step e
  rcases adds_or_takes N x.ble e with hadds | ⟨haccepts, evt, htakes⟩
  · have hnone : x.ble.takes N e = [] := by simp [takes, hadds.items]
    refine ⟨?_, ?_, hleft⟩
    · simp only [logStep, hnone, List.append_nil, hadds.items, ← h.order, List.append_assoc]
    · simp only [logStep, hnone, List.append_nil, hadds.calls, h.handed]
  · have hone : x.ble.takes N e
        = [⟨evt, x.ble.rawHandlerExt, x.ble.subscribeList.subscribers⟩] := by
      simp [takes, htakes.items]
    refine ⟨?_, ?_, hleft⟩
    · simp only [logStep, hone, haccepts, List.append_nil, ← h.order, htakes.items,
        List.map_append, List.append_assoc]
      rfl
    · simp only [logStep, hone, htakes.calls, h.handed, List.flatMap_append, List.flatMap_singleton,
        calls_taken]

/-- **Events are handed to their handlers exactly once, in order, and none is left waiting**,
whatever the order of packets, subscriptions and steps of the work queue. -/
theorem always_accounted (N : NameField) (es : List (BleDispatchEvent R H)) :
    Always (logStep N) Accounted (bootLog : DispatchLog C R H) es :=
  fun qs _ => invariant_run_all (fun x e h => accounted_step x e h) accounted_boot qs

end BleDispatch

end Pyrinas
