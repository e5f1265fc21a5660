import Pyrinas.Machinery.CString
import Pyrinas.Machinery.KeyedTable
import Pyrinas.Machinery.Run

/-!
# Ble/Subscriptions — the subscription table of `ble_m.c`

A subscription is found by its name; an event is handed to the one found.  The table stands for a
map of limited capacity from names to handlers, with one exception: `ble_subscribe` looks at the
count before it looks for the name, so a full table keeps the handlers it has.

    ble_subscribe:  name fits? ─▸ count < 12? ─▸ search ─▸ replace or append
-/

open Machinery

namespace Pyrinas

/-- `BLE_SETTINGS_MAX_SUBSCRIPTIONS` -/
def bleSettingsMaxSubscriptions : ℕ := 12

/-- The size of `bytes` in `protobuf_event_t_name_t`, which is part of a structure that is copied
into `BLE_INCOMING_PROTOBUF_SIZE` bytes. -/
structure NameField where
  size : ℕ
  size_le : size ≤ 168

/-- `ble_subscription_handler_t`; the name is as long as its size field says. -/
structure BleSubscription (H : Type*) where
  evtHandler : H
  name : List UInt8

/-- `ble_subscription_list_t`: the entries below `count`. -/
structure SubscribeList (H : Type*) where
  subscribers : List (BleSubscription H)
  count_le : subscribers.length ≤ bleSettingsMaxSubscriptions

namespace SubscribeList

variable {H : Type*}

/-- The static table at boot. -/
def empty : SubscribeList H := ⟨[], Nat.zero_le _⟩

def count (l : SubscribeList H) : ℕ := l.subscribers.length

/-- `subscriber_search`: sizes and bytes are compared. -/
def subscriberSearch (l : SubscribeList H) (eventName : List UInt8) : Option ℕ :=
  searchKey BleSubscription.name l.subscribers eventName

/-- The handler that `bt_send_work_handler` calls for an event. -/
def evtHandlerFor (l : SubscribeList H) (eventName : List UInt8) : Option H :=
  (l.subscriberSearch eventName).bind fun index =>
    l.subscribers[index]?.map BleSubscription.evtHandler

/-- `subscribers[index] = subscriber` -/
def replace (l : SubscribeList H) (index : ℕ) (subscriber : BleSubscription H) :
    SubscribeList H where
  subscribers := l.subscribers.set index subscriber
  count_le := by rw [List.length_set]; exact l.count_le

/-- `subscribers[count] = subscriber`, and one more. -/
def append (l : SubscribeList H) (subscriber : BleSubscription H)
    (h : l.count < bleSettingsMaxSubscriptions) : SubscribeList H where
  subscribers := l.subscribers ++ [subscriber]
  count_le := by rw [List.length_append]; exact h

/-- What is compared with the field: `strlen(name) + 1` in a `uint8_t`. -/
def nameLength (name : CString) : ℕ := (name.length + 1) % 2 ^ 8

/-- `ble_subscribe` -/
def bleSubscribe (N : NameField) (l : SubscribeList H) (name : CString) (handler : H) :
    SubscribeList H :=
  if nameLength name > N.size then l
  else if h : l.count < bleSettingsMaxSubscriptions then
    let subscriber := ⟨handler, (name.bytes ++ [0]).take (nameLength name)⟩
    match l.subscriberSearch subscriber.name with
    | some index => l.replace index subscriber
    | none => l.append subscriber h
  else l

end SubscribeList

/-- A name that fits the field with its terminator. -/
structure FittingName (N : NameField) where
  name : CString
  fits : name.length + 1 ≤ N.size

/-- The bytes of the field: with the terminator. -/
def FittingName.bytes {N : NameField} (n : FittingName N) : List UInt8 := n.name.bytes ++ [0]

/-- The table, and the map it should be. -/
structure Subscriptions (H : Type*) where
  table : SubscribeList H
  map : Finmap fun _ : List UInt8 => H

namespace Subscriptions

variable {N : NameField} {H : Type*}

/-- At boot nobody has subscribed. -/
def boot : Subscriptions H := ⟨.empty, ∅⟩

/-- `ble_subscribe(name, handler)`, and what it should do. -/
def step (x : Subscriptions H) (call : FittingName N × H) : Subscriptions H where
  table := x.table.bleSubscribe N call.1.name call.2
  map := insertWithin bleSettingsMaxSubscriptions call.1.bytes call.2 x.map

/-- The names are distinct, there are as many as in the map, and an event goes to the handler the
map has for its name. -/
structure Refines (x : Subscriptions H) : Prop where
  distinct : (x.table.subscribers.map BleSubscription.name).Nodup
  count : x.table.count = x.map.keys.card
  handler : ∀ eventName, x.table.evtHandlerFor eventName = x.map.lookup eventName

/-- While the table is full, a name that is in it is subscribed with the handler it has. -/
def SameWhenFull (x : Subscriptions H) (call : FittingName N × H) : Prop :=
  x.table.count = bleSettingsMaxSubscriptions →
    ∀ handler, x.table.evtHandlerFor call.1.bytes = some handler → handler = call.2

/-! ## The table as a map -/

theorem evtHandlerFor_eq (l : SubscribeList H) (eventName : List UInt8) :
    l.evtHandlerFor eventName
      = (entryFor BleSubscription.name l.subscribers eventName).map BleSubscription.evtHandler := by
  rw [SubscribeList.evtHandlerFor, entryFor, Option.map_bind]
  rfl

/-- A name that fits is not truncated. -/
theorem nameLength_of_fits (n : FittingName N) :
    SubscribeList.nameLength n.name = n.name.length + 1 := by
  have hfits := n.fits
  have hsize := N.size_le
  exact Nat.mod_eq_of_lt (by omega)

/-- A full table refuses… -/
theorem bleSubscribe_full {l : SubscribeList H} (h : l.count = bleSettingsMaxSubscriptions)
    (name : CString) (handler : H) : l.bleSubscribe N name handler = l := by
  unfold SubscribeList.bleSubscribe
  rw [dif_neg (by omega)]
  split_ifs <;> rfl

/-- …and another one replaces or appends. -/
theorem bleSubscribe_room {l : SubscribeList H} (h : l.count < bleSettingsMaxSubscriptions)
    (n : FittingName N) (handler : H) : (l.bleSubscribe N n.name handler).subscribers
      = upsert BleSubscription.name l.subscribers ⟨handler, n.bytes⟩ := by
  have hbytes : (n.name.bytes ++ [0]).take (SubscribeList.nameLength n.name) = n.bytes := by
    rw [nameLength_of_fits]
    exact List.take_of_length_le (by simp [CString.length])
  have hfits : ¬ SubscribeList.nameLength n.name > N.size := by
    rw [nameLength_of_fits]
    exact not_lt.mpr n.fits
  simp only [SubscribeList.bleSubscribe, if_neg hfits, dif_pos h, hbytes, upsert,
    SubscribeList.subscriberSearch]
  split <;> simp_all [SubscribeList.replace, SubscribeList.append]

/-- The table stands for the map. -/
def Sound (x : Subscriptions H) : Prop :=
  Represents BleSubscription.name BleSubscription.evtHandler x.table.subscribers x.map

theorem sound_boot : Sound (boot : Subscriptions H) := Represents.nil

theorem Sound.refines {x : Subscriptions H} (h : Sound x) : Refines x := by
  refine ⟨h.distinct, h.card_keys.symm, ?_⟩
  intro eventName
  rw [evtHandlerFor_eq]
  exact h.lookup eventName

/-! ## The exact condition -/

/-- **With room in the table the call is an insert.** -/
theorem sound_step_room {x : Subscriptions H} (h : Sound x)
    (hroom : x.table.count < bleSettingsMaxSubscriptions) (call : FittingName N × H) :
    Sound (step x call) := by
  have hcard : x.map.keys.card < bleSettingsMaxSubscriptions := by rwa [h.card_keys]
  simp only [Sound, step, insertWithin, if_pos (Or.inr hcard), bleSubscribe_room hroom]
  exact h.upsert _

/-- **A full table changes nothing**, and neither does a map without the name. -/
theorem step_full {x : Subscriptions H} (h : Sound x)
    (hfull : x.table.count = bleSettingsMaxSubscriptions) (call : FittingName N × H) :
    (step x call).table = x.table ∧ (step x call).map =
      if call.1.bytes ∈ x.map then x.map.insert call.1.bytes call.2 else x.map := by
  have hcard : ¬ x.map.keys.card < bleSettingsMaxSubscriptions := by
    rw [h.card_keys]
    exact not_lt.mpr hfull.ge
  exact ⟨bleSubscribe_full hfull _ _, by simp only [step, insertWithin, hcard, or_false]⟩

theorem sound_step (x : Subscriptions H) (call : FittingName N × H) (h : Sound x)
    (hok : SameWhenFull x call) : Sound (step x call) := by
  rcases x.table.count_le.lt_or_eq with hroom | hfull
  · exact sound_step_room h hroom call
  · obtain ⟨htable, hmap⟩ := step_full h hfull call
    rw [Sound, htable, hmap]
    split_ifs with hmem
    · refine ⟨h.distinct, ?_⟩
      intro eventName
      by_cases heq : eventName = call.1.bytes
      · -- the handler that is kept is the one that is put
        subst heq
        obtain ⟨handler, hsome⟩ := Finmap.mem_iff.mp hmem
        have hkept : x.table.evtHandlerFor call.1.bytes = some handler :=
          (h.refines.handler _).trans hsome
        rw [Finmap.lookup_insert, h.lookup, hsome, hok hfull handler hkept]
      · rw [Finmap.lookup_insert_of_ne _ heq]
        exact h.lookup eventName
    · exact h

/-- A handler that is not replaced. -/
theorem not_refines_step {x : Subscriptions H} {call : FittingName N × H} (h : Sound x)
    (hbad : ¬ SameWhenFull x call) : ¬ Refines (step x call) := by
  simp only [SameWhenFull, not_forall] at hbad
  obtain ⟨hfull, handler, hsome, hne⟩ := hbad
  obtain ⟨htable, hmap⟩ := step_full h hfull call
  have hlookup := (h.refines.handler _).symm.trans hsome
  intro hrefines
  have hkept := hrefines.handler call.1.bytes
  rw [htable, hsome, hmap, if_pos (Finmap.mem_of_lookup_eq_some hlookup),
    Finmap.lookup_insert] at hkept
  exact hne (Option.some.inj hkept)

/-- **The table is a last-writer-wins map exactly while no handler is changed when it is full.** -/
theorem refines_iff_sameWhenFull (calls : List (FittingName N × H)) :
    Always step Refines (boot : Subscriptions H) calls ↔
      Meets step SameWhenFull (boot : Subscriptions H) calls :=
  always_iff_meets sound_step (fun _ => Sound.refines) (fun _ _ => not_refines_step) sound_boot
    calls

/-- A name field of 16 bytes. -/
def sampleField : NameField := ⟨16, by decide⟩

/-- The names of one letter. -/
def letter (i : Fin 26) : FittingName sampleField where
  name := ⟨[97 + UInt8.ofNat i], by revert i; decide⟩
  fits := by decide +revert

/-- Twelve names, and a new handler for the first of them. -/
theorem not_refines_thirteenth_call :
    ¬ Always step Refines (boot : Subscriptions ℕ)
      (((List.range 12).map fun i => (letter (Fin.ofNat 26 i), 0)) ++ [(letter 0, 1)]) := by
  intro h
  have hlast := h.last.handler [97, 0]
  revert hlast
  decide +kernel

end Subscriptions

end Pyrinas
