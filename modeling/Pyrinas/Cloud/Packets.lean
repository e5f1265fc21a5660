import Pyrinas.Cloud.Sessions
import Pyrinas.Machinery.Outstanding

/-!
# Cloud/Packets — the packets of QoS 1, and where their identifiers come from

Every packet of QoS 1 gets the low half of a random number as its identifier, whatever packets wait
for their acknowledgement.  `on_connect_fn` passes two packets, so it is two events: others may come
between.  Every event passes the packets it draws for, in the order it draws.

    sys_rand32_get ──low 16 bits──▸ message_id ─▸ unacknowledged ─▸ PUBACK, SUBACK
-/

open Machinery

namespace Pyrinas

/-- What a packet of QoS 1 is for. -/
inductive PacketKind
  | publish
  | subscribe (topic : List UInt8)
  deriving DecidableEq

/-- A packet of QoS 1. -/
structure Packet where
  kind : PacketKind
  id : UInt16
  deriving DecidableEq

/-- The packet that a call passes to the MQTT library. -/
def CloudCall.packet : CloudCall → Option Packet
  | .mqttSubscribe topic messageId => some ⟨.subscribe topic, messageId⟩
  | .mqttPublish _ _ messageId => some ⟨.publish, messageId⟩
  | .fotaDownloadStart _ _ => none

/-- The functions the application publishes with, with the random numbers they draw and what
encoding the telemetry answers: `pyrinas_cloud_publish`, `pyrinas_cloud_publish_telemetry_evt` and
`pyrinas_cloud_publish_evt`, which is the two one after the other. -/
inductive AppPublish
  | publish (rand : UInt32)
  | telemetryEvt (encodeErr : ℕ) (rand : UInt32)
  | evt (rand : UInt32) (encodeErr : ℕ) (telemetryRand : UInt32)

/-- One random number for each `data_publish`. -/
def AppPublish.rands : AppPublish → List UInt32
  | publish rand => [rand]
  | telemetryEvt encodeErr rand => if encodeErr ≠ 0 then [] else [rand]
  | evt rand encodeErr telemetryRand => rand :: (telemetryEvt encodeErr telemetryRand).rands

/-- A step of the client, the two halves of `on_connect_fn`, a call of the application, each with
what the MQTT library answers to the packets it is passed, or a PUBACK. -/
inductive PacketEvent
  | client (e : CloudEvent) (errs : List ℤ)
  | onConnectPublish (rand : UInt32) (errs : List ℤ)
  | onConnectSubscribe (subRand : UInt32) (errs : List ℤ)
  | application (call : AppPublish) (errs : List ℤ)
  | puback (result : ℤ) (messageId : UInt16)

namespace PacketEvent

/-- What the library answers to the packets. -/
def errs : PacketEvent → List ℤ
  | client _ errs | onConnectPublish _ errs | onConnectSubscribe _ errs | application _ errs => errs
  | puback _ _ => []

/-- The packets that are acknowledged. -/
def acknowledges : PacketEvent → Packet → Bool
  | client (.suback result messageId) _, p =>
    result = 0 && p.id = messageId && p.kind ≠ .publish
  | puback result messageId, p => result = 0 && p.id = messageId && p.kind = .publish
  | _, _ => false

end PacketEvent

/-- The client, whether `on_connect_fn` has published and not yet subscribed, and the packets. -/
structure Packets where
  cloud : Cloud
  connecting : Bool
  packets : Outstanding Packet

/-- The library refuses an identifier of 0, or answers an error. -/
def answered : List Packet → List ℤ → List (Packet × Bool)
  | [], _ => []
  | p :: ps, errs => (p, p.id ≠ 0 && errs.headD 0 = 0) :: answered ps errs.tail

namespace Cloud

/-- `on_connect_fn` publishes… -/
def onConnectPublish (B : CloudBuild) (s : Cloud) (rand : UInt32) : Cloud :=
  { s with onConnectWork := false }.publishTelemetry B true rand

/-- …and subscribes. -/
def onConnectSubscribe (B : CloudBuild) (s : Cloud) (subRand : UInt32) : Cloud :=
  if s.otaState = .ready then
    { s with otaSubMessageId := subRand.toUInt16 }.subscribe B.otaSubTopic subRand.toUInt16
  else s

end Cloud

namespace Packets

variable (B : CloudBuild)

/-- At boot. -/
def start : Packets := ⟨.boot, false, ⟨[], []⟩⟩

/-- The client after an event. -/
def cloudAfter (x : Packets) : PacketEvent → Cloud
  | .client e _ => x.cloud.step B e
  | .onConnectPublish rand _ =>
    if x.cloud.status = .running ∧ x.cloud.onConnectWork then x.cloud.onConnectPublish B rand
    else x.cloud
  | .onConnectSubscribe subRand _ =>
    if x.cloud.status = .running ∧ x.connecting then x.cloud.onConnectSubscribe B subRand
    else x.cloud
  | .application _ _ | .puback _ _ => x.cloud

/-- Whether `on_connect_fn` is to subscribe after an event. -/
def connectingAfter (x : Packets) : PacketEvent → Bool
  | .onConnectPublish _ _ =>
    x.connecting || (x.cloud.status = .running && x.cloud.onConnectWork)
  | .onConnectSubscribe _ _ => x.connecting && x.cloud.status ≠ .running
  | _ => x.connecting

/-- The packets an event passes to the library. -/
def passed (x : Packets) : PacketEvent → List Packet
  | .application call _ =>
    if x.cloud.status = .running ∧ x.cloud.cloudState = .connected then
      call.rands.map fun rand => ⟨.publish, rand.toUInt16⟩
    else []
  | e => (Sessions.newCalls x.cloud (x.cloudAfter B e)).filterMap CloudCall.packet

/-- One event. -/
def step (x : Packets) (e : PacketEvent) : Packets where
  cloud := x.cloudAfter B e
  connecting := x.connectingAfter e
  packets := (x.packets.answer e.acknowledges).passAll (answered (x.passed B e) e.errs)

end Packets

/-! ## The random numbers -/

/-- A random number that becomes the identifier of a packet. -/
structure Draw where
  kind : PacketKind
  rand : UInt32

/-- The packet it goes into. -/
def Draw.packet (d : Draw) : Packet := ⟨d.kind, d.rand.toUInt16⟩

namespace Cloud

/-- The random number of `data_publish`, if it publishes. -/
def publishDraws (s : Cloud) (rand : UInt32) : List Draw :=
  if s.cloudState = .connected then [⟨.publish, rand⟩] else []

/-- The random number of the OTA subscription, if it is made. -/
def subscribeDraws (B : CloudBuild) (s : Cloud) (subRand : UInt32) : List Draw :=
  if s.otaState = .ready then [⟨.subscribe B.otaSubTopic, subRand⟩] else []

/-- The random numbers of `on_connect_fn`. -/
def onConnectDraws (B : CloudBuild) (s : Cloud) (rand subRand : UInt32) : List Draw :=
  s.publishDraws rand ++ s.subscribeDraws B subRand

/-- The random number of `publish_evt_handler`: an OTA message without an update leads to the
application subscription. -/
def otaMessageDraws (B : CloudBuild) (s : Cloud) (data : List UInt8) (stack : DecodeStack)
    (rand : UInt32) : List Draw :=
  match decodeOtaData B.qcbor stack data s.otaData with
  | none => []
  | some (err, otaData) =>
    if isNewer B err otaData = false ∧ s.otaState = .ready then
      [⟨.subscribe B.applicationSubTopic, rand⟩]
    else []

/-- The random numbers that a running client makes identifiers of. -/
def draws (B : CloudBuild) (s : Cloud) (e : CloudEvent) : List Draw :=
  match e with
  | .publishTelemetryWork rand => if s.publishTelemetryWork then s.publishDraws rand else []
  | .otaRequestWork rand => if s.otaRequestWork then s.publishDraws rand else []
  | .otaDoneWork rand => if s.otaDoneWork then s.publishDraws rand else []
  | .onConnectWork rand subRand => if s.onConnectWork then s.onConnectDraws B rand subRand else []
  | e =>
    match s.otaDelivery B e with
    | none => []
    | some (data, stack, rand) => s.otaMessageDraws B data stack rand

/-! ## A step passes what it draws -/

/-- Between two states of the client a row of packets was passed. -/
def Passes (s s' : Cloud) (ps : List Packet) : Prop :=
  ∃ l, s'.calls = s.calls ++ l ∧ l.filterMap CloudCall.packet = ps

section Passes

variable {B : CloudBuild} {s s' : Cloud}

theorem passes_of_calls (h : s'.calls = s.calls) : Passes s s' [] :=
  ⟨[], by rw [h, List.append_nil], rfl⟩

theorem Passes.eq {ps : List Packet} (h : Passes s s' ps) :
    (Sessions.newCalls s s').filterMap CloudCall.packet = ps := by
  obtain ⟨l, hl, hps⟩ := h
  rw [Sessions.newCalls_of_append hl, hps]

theorem passes_dataPublish {t : Cloud} (topic : List UInt8) (payload : CloudPayload)
    (rand : UInt32) (hc : t.calls = s.calls) (hs : t.cloudState = s.cloudState) :
    Passes s (t.dataPublish topic payload rand) ((s.publishDraws rand).map Draw.packet) := by
  unfold publishDraws dataPublish
  rw [hs, hc]
  split
  · exact ⟨_, rfl, rfl⟩
  · exact passes_of_calls rfl

/-- Packets passed one after the other. -/
theorem Passes.trans {t : Cloud} {ps qs : List Packet} (h : Passes s t ps) (h' : Passes t s' qs) :
    Passes s s' (ps ++ qs) := by
  obtain ⟨l, hl, hps⟩ := h
  obtain ⟨l', hl', hqs⟩ := h'
  exact ⟨l ++ l', by rw [hl', hl, List.append_assoc], by rw [List.filterMap_append, hps, hqs]⟩

theorem passes_onConnectPublish (rand : UInt32) :
    Passes s (s.onConnectPublish B rand) ((s.publishDraws rand).map Draw.packet) :=
  passes_dataPublish _ _ rand rfl rfl

theorem passes_onConnectSubscribe (subRand : UInt32) :
    Passes s (s.onConnectSubscribe B subRand) ((s.subscribeDraws B subRand).map Draw.packet) := by
  unfold onConnectSubscribe subscribeDraws
  split
  · exact ⟨_, rfl, rfl⟩
  · exact passes_of_calls rfl

/-- `on_connect_fn` publishes, and then subscribes. -/
theorem onConnectFn_eq (rand subRand : UInt32) :
    { s with onConnectWork := false }.onConnectFn B rand subRand =
      (s.onConnectPublish B rand).onConnectSubscribe B subRand := rfl

theorem passes_onConnectFn (rand subRand : UInt32) :
    Passes s ({ s with onConnectWork := false }.onConnectFn B rand subRand)
      ((s.onConnectDraws B rand subRand).map Draw.packet) := by
  rw [onConnectFn_eq, onConnectDraws, List.map_append]
  exact (passes_onConnectPublish rand).trans (passes_onConnectSubscribe subRand)

theorem passes_otaMessage (data : List UInt8) (stack : DecodeStack) (rand : UInt32) :
    Passes s (s.otaMessage B data stack rand)
      ((s.otaMessageDraws B data stack rand).map Draw.packet) := by
  cases hdec : decodeOtaData B.qcbor stack data s.otaData with
  | none =>
    simp only [otaMessage, otaMessageDraws, hdec]
    exact passes_of_calls rfl
  | some r =>
    simp only [otaMessage, otaMessageDraws, hdec]
    by_cases hnew : isNewer B r.1 r.2
    · simp only [hnew, if_true, Bool.true_eq_false, false_and, if_false]
      exact passes_of_calls rfl
    · by_cases hready : s.otaState = .ready
      · simp only [hnew, hready, if_true, and_self, if_false, Bool.false_eq_true]
        exact ⟨_, rfl, rfl⟩
      · simp only [hnew, hready, and_false, if_false, Bool.false_eq_true]
        exact passes_of_calls rfl

theorem passes_fotaStartFn {t : Cloud} (start : CString → CString → ℤ) (hc : t.calls = s.calls) :
    Passes s (t.fotaStartFn start) [] := by
  unfold fotaStartFn fotaStartResult
  split
  next => exact passes_of_calls hc
  next host file _ =>
    have hcalls := congrArg (· ++ [CloudCall.fotaDownloadStart host file]) hc
    dsimp only
    split <;> exact ⟨_, hcalls, rfl⟩

/-- **A running client passes the packets it draws identifiers for.** -/
theorem passes_step (hrun : s.status = .running) (e : CloudEvent) :
    Passes s (s.step B e) ((s.draws B e).map Draw.packet) := by
  rw [step_of_running hrun]
  cases e with
  | publish topic data readErr stack rand =>
    cases hd : s.otaDelivery B (.publish topic data readErr stack rand) with
    | none =>
      rw [handle, publishEvt_of_otaDelivery hrun hd]
      simp only [draws, hd]
      exact passes_of_calls rfl
    | some m =>
      rw [← step_of_running hrun, (step_of_otaDelivery hd).2]
      simp only [draws, hd]
      exact passes_otaMessage _ _ _
  | onConnectWork rand subRand =>
    simp only [handle, draws]
    split
    · exact passes_onConnectFn rand subRand
    · exact passes_of_calls rfl
  | publishTelemetryWork rand | otaRequestWork rand | otaDoneWork rand =>
    simp only [handle, draws]
    split
    · exact passes_dataPublish _ _ rand rfl rfl
    · exact passes_of_calls rfl
  | fotaWork start =>
    simp only [handle, draws]
    split
    · exact passes_fotaStartFn start rfl
    · exact passes_of_calls rfl
  | connect initErr connErr =>
    simp only [handle, draws, connect]
    split_ifs <;> exact passes_of_calls rfl
  | reconnectWork initErr connErr =>
    simp only [handle, draws, reconnectWorkFn, connect]
    split_ifs <;> exact passes_of_calls rfl
  | connack result =>
    simp only [handle, draws, connackEvt]
    split_ifs <;> exact passes_of_calls rfl
  | suback result messageId =>
    simp only [handle, draws, subackEvt]
    split_ifs <;> exact passes_of_calls rfl
  | otaCheckSubscribedWork =>
    simp only [handle, draws, otaCheckSubscribedWorkFn]
    split_ifs <;> exact passes_of_calls rfl
  | fotaEvt id =>
    simp only [handle, draws]
    split
    · cases id <;> exact passes_of_calls rfl
    · exact passes_of_calls rfl
  | telemetryCheck | otaRebootWork =>
    simp only [handle, draws]
    split <;> exact passes_of_calls rfl
  | disconnect => exact passes_of_calls rfl

end Passes

/-- Publishes only, or the OTA subscription behind them, or the application subscription. -/
def DrawRow (B : CloudBuild) (ds : List Draw) : Prop :=
  (∀ d ∈ ds, d.kind = .publish) ∨
    (∃ ps subRand, ds = ps ++ [⟨.subscribe B.otaSubTopic, subRand⟩] ∧
      ∀ d ∈ ps, d.kind = .publish) ∨
    ∃ rand, ds = [⟨.subscribe B.applicationSubTopic, rand⟩]

section DrawRow

variable {B : CloudBuild} {s : Cloud}

theorem drawRow_nil : DrawRow B [] := .inl fun _ hd => absurd hd List.not_mem_nil

theorem kind_publishDraws (rand : UInt32) : ∀ d ∈ s.publishDraws rand, d.kind = .publish := by
  intro d hd
  unfold publishDraws at hd
  split at hd
  · rw [List.mem_singleton.mp hd]
  · exact absurd hd List.not_mem_nil

theorem drawRow_subscribeDraws {ps : List Draw} (hps : ∀ d ∈ ps, d.kind = .publish)
    (subRand : UInt32) : DrawRow B (ps ++ s.subscribeDraws B subRand) := by
  unfold subscribeDraws
  split
  · exact .inr (.inl ⟨ps, subRand, rfl, hps⟩)
  · exact .inl (by rwa [List.append_nil])

theorem drawRow_otaMessageDraws (data : List UInt8) (stack : DecodeStack) (rand : UInt32) :
    DrawRow B (s.otaMessageDraws B data stack rand) := by
  unfold otaMessageDraws
  split
  · exact drawRow_nil
  · split
    · exact .inr (.inr ⟨rand, rfl⟩)
    · exact drawRow_nil

theorem drawRow_draws (e : CloudEvent) : DrawRow B (s.draws B e) := by
  have hmessage : DrawRow B (match s.otaDelivery B e with
      | none => []
      | some (data, stack, rand) => s.otaMessageDraws B data stack rand) := by
    split
    · exact drawRow_nil
    · exact drawRow_otaMessageDraws _ _ _
  cases e with
  | publishTelemetryWork rand | otaRequestWork rand | otaDoneWork rand =>
    simp only [draws]
    split
    · exact .inl (kind_publishDraws rand)
    · exact drawRow_nil
  | onConnectWork rand subRand =>
    simp only [draws]
    split
    · exact drawRow_subscribeDraws (kind_publishDraws rand) subRand
    · exact drawRow_nil
  | _ => exact hmessage

end DrawRow

end Cloud

/-! ## What an event draws for -/

/-- The id of a subscription is that of its packet. -/
theorem Sessions.subscribedTo_eq (topic : List UInt8) (calls : List CloudCall) :
    subscribedTo topic calls = (calls.filterMap CloudCall.packet).findSome? fun p =>
      if p.kind = .subscribe topic then some p.id else none := by
  induction calls with
  | nil => rfl
  | cons call calls ih =>
    cases call with
    | mqttSubscribe t messageId =>
      by_cases ht : t = topic
      · simp [subscribedTo, CloudCall.packet, ht]
      · simpa [subscribedTo, CloudCall.packet, ht] using ih
    | mqttPublish t payload messageId => simpa [subscribedTo, CloudCall.packet] using ih
    | fotaDownloadStart host file =>
      simpa [subscribedTo, CloudCall.packet, List.filterMap_cons] using ih

@[simp] theorem Draw.packet_kind (d : Draw) : d.packet.kind = d.kind := rfl

@[simp] theorem Draw.packet_id_toNat (d : Draw) : d.packet.id.toNat = d.rand.toNat % 65536 :=
  UInt32.toNat_toUInt16 _

theorem answered_append (ps qs : List Packet) (errs : List ℤ) :
    answered (ps ++ qs) errs = answered ps errs ++ answered qs (errs.drop ps.length) := by
  induction ps generalizing errs with
  | nil => rfl
  | cons p ps ih => simp only [List.cons_append, answered, ih, List.length_cons, List.drop_tail]

namespace Packets

/-- The random numbers that an event makes identifiers of. -/
def draws (B : CloudBuild) (x : Packets) : PacketEvent → List Draw
  | .client e _ => if x.cloud.status = .running then x.cloud.draws B e else []
  | .onConnectPublish rand _ =>
    if x.cloud.status = .running ∧ x.cloud.onConnectWork then x.cloud.publishDraws rand else []
  | .onConnectSubscribe subRand _ =>
    if x.cloud.status = .running ∧ x.connecting then x.cloud.subscribeDraws B subRand else []
  | .application call _ =>
    if x.cloud.status = .running ∧ x.cloud.cloudState = .connected then
      call.rands.map fun rand => ⟨.publish, rand⟩
    else []
  | .puback _ _ => []

variable {B : CloudBuild} {x : Packets} {e : PacketEvent}

/-- An event passes the packets it draws for. -/
theorem passed_eq_draws : x.passed B e = (x.draws B e).map Draw.packet := by
  cases e with
  | client e errs =>
    by_cases hrun : x.cloud.status = .running
    · simp only [passed, cloudAfter, draws, hrun, if_true]
      exact (Cloud.passes_step hrun e).eq
    · simp only [passed, cloudAfter, draws, hrun, if_false, Cloud.step_of_not_running hrun]
      exact (Cloud.passes_of_calls rfl).eq
  | onConnectPublish rand errs =>
    simp only [passed, cloudAfter, draws]
    split
    · exact (Cloud.passes_onConnectPublish rand).eq
    · exact (Cloud.passes_of_calls rfl).eq
  | onConnectSubscribe subRand errs =>
    simp only [passed, cloudAfter, draws]
    split
    · exact (Cloud.passes_onConnectSubscribe subRand).eq
    · exact (Cloud.passes_of_calls rfl).eq
  | application call errs =>
    simp only [passed, draws]
    split
    · rw [List.map_map]
      rfl
    · rfl
  | puback result messageId => exact (Cloud.passes_of_calls rfl).eq

/-- The application publishes only. -/
theorem kind_application (call : AppPublish) (errs : List ℤ) :
    ∀ d ∈ x.draws B (.application call errs), d.kind = .publish := by
  intro d hd
  simp only [draws] at hd
  split at hd
  · obtain ⟨rand, -, rfl⟩ := List.mem_map.mp hd
    rfl
  · exact absurd hd List.not_mem_nil

theorem drawRow_draws (x : Packets) (e : PacketEvent) : Cloud.DrawRow B (x.draws B e) := by
  cases e with
  | client e errs =>
    simp only [draws]
    split
    · exact Cloud.drawRow_draws e
    · exact Cloud.drawRow_nil
  | onConnectPublish rand errs =>
    simp only [draws]
    split
    · exact .inl (Cloud.kind_publishDraws rand)
    · exact Cloud.drawRow_nil
  | onConnectSubscribe subRand errs =>
    simp only [draws]
    split
    · have hnone : ∀ d ∈ ([] : List Draw), d.kind = .publish := by simp
      exact Cloud.drawRow_subscribeDraws hnone subRand
    · exact Cloud.drawRow_nil
  | application call errs => exact .inl (kind_application call errs)
  | puback result messageId => exact Cloud.drawRow_nil

/-- The OTA subscription is made under the id that is kept. -/
theorem subIdKept_cloudAfter (x : Packets) (e : PacketEvent) :
    Sessions.SubIdKept B x.cloud (x.cloudAfter B e) := by
  cases e with
  | client e errs => exact Sessions.subIdKept_step x.cloud e
  | onConnectPublish rand errs =>
    simp only [cloudAfter]
    split
    · exact Sessions.subIdKept_dataPublish _ _ rand rfl rfl
    · exact Sessions.subIdKept_of_calls rfl rfl
  | onConnectSubscribe subRand errs =>
    simp only [cloudAfter, Cloud.onConnectSubscribe]
    split_ifs
    · rw [Sessions.SubIdKept, Sessions.newCalls_of_append rfl]
      simp [Sessions.subscribedTo, Cloud.subscribe]
    · exact Sessions.subIdKept_of_calls rfl rfl
    · exact Sessions.subIdKept_of_calls rfl rfl
  | application call errs | puback result messageId => exact Sessions.subIdKept_of_calls rfl rfl

/-- Publishes subscribe to nothing. -/
theorem subscribes_publishes {ds : List Draw} (hds : ∀ d ∈ ds, d.kind = .publish)
    (topic : List UInt8) :
    (ds.map Draw.packet).findSome? (fun p =>
      if p.kind = .subscribe topic then some p.id else none) = none := by
  rw [List.findSome?_eq_none_iff]
  intro p hp
  obtain ⟨d, hd, rfl⟩ := List.mem_map.mp hp
  rw [Draw.packet_kind, hds d hd]
  exact if_neg (by simp)

theorem otaSubMessageId_cloudAfter (x : Packets) (e : PacketEvent) :
    (x.cloudAfter B e).otaSubMessageId = (((x.draws B e).map Draw.packet).findSome? fun p =>
      if p.kind = .subscribe B.otaSubTopic then some p.id else none).getD
        x.cloud.otaSubMessageId := by
  have hkept := subIdKept_cloudAfter (B := B) x e
  rw [Sessions.SubIdKept, Sessions.subscribedTo_eq] at hkept
  rw [← passed_eq_draws]
  cases e with
  | application call errs =>
    rw [passed_eq_draws, subscribes_publishes (kind_application call errs)]
    rfl
  | _ =>
    simp only [passed]
    split at hkept
    next id hid => rw [hid]; exact hkept
    next hnone => rw [hnone]; exact hkept

/-- **What an event does to the remembered identifier**: it draws for publishes only and leaves it
alone, or it is that of the OTA subscription it draws for, or the event draws for the application
subscription and leaves it alone. -/
theorem draws_cases (x : Packets) (e : PacketEvent) :
    ((∀ d ∈ x.draws B e, d.kind = .publish) ∧
        (x.cloudAfter B e).otaSubMessageId = x.cloud.otaSubMessageId) ∨
      (∃ ds subRand, x.draws B e = ds ++ [⟨.subscribe B.otaSubTopic, subRand⟩] ∧
        (∀ d ∈ ds, d.kind = .publish) ∧
        (x.cloudAfter B e).otaSubMessageId = subRand.toUInt16) ∨
      ∃ rand, x.draws B e = [⟨.subscribe B.applicationSubTopic, rand⟩] ∧
        (x.cloudAfter B e).otaSubMessageId = x.cloud.otaSubMessageId := by
  rcases drawRow_draws (B := B) x e with hds | ⟨ds, subRand, heq, hds⟩ | ⟨rand, heq⟩
  · refine .inl ⟨hds, ?_⟩
    rw [otaSubMessageId_cloudAfter, subscribes_publishes hds, Option.getD_none]
  · refine .inr (.inl ⟨ds, subRand, heq, hds, ?_⟩)
    rw [otaSubMessageId_cloudAfter, heq, List.map_append, List.findSome?_append,
      subscribes_publishes hds]
    simp [Draw.packet]
  · refine .inr (.inr ⟨rand, heq, ?_⟩)
    rw [otaSubMessageId_cloudAfter, heq]
    simp [Draw.packet, Sessions.applicationSubTopic_ne_otaSubTopic]

theorem answer_of_acknowledges {packets : Outstanding Packet}
    (h : e.acknowledges = fun _ => false) : packets.answer e.acknowledges = packets := by
  rw [h, Outstanding.answer_none]

/-- No event both draws and acknowledges. -/
theorem draws_eq_nil_or (x : Packets) (e : PacketEvent) :
    x.draws B e = [] ∨ x.packets.answer e.acknowledges = x.packets := by
  cases e with
  | client e errs =>
    cases e with
    | suback result messageId => exact .inl (by simp [draws, Cloud.draws, Cloud.otaDelivery])
    | _ => exact .inr (answer_of_acknowledges rfl)
  | onConnectPublish rand errs | onConnectSubscribe subRand errs | application call errs =>
    exact .inr (answer_of_acknowledges rfl)
  | puback result messageId => exact .inl rfl

/-- **`on_connect_fn` at one go is its two halves.** -/
theorem step_onConnectWork (rand subRand : UInt32) (errs : List ℤ)
    (hrun : x.cloud.status = .running) (hwork : x.cloud.onConnectWork)
    (hconn : x.connecting = false) :
    x.step B (.client (.onConnectWork rand subRand) errs) =
      (x.step B (.onConnectPublish rand errs)).step B
        (.onConnectSubscribe subRand (errs.drop (x.cloud.publishDraws rand).length)) := by
  have hpublish : x.step B (.onConnectPublish rand errs) =
      ⟨x.cloud.onConnectPublish B rand, true,
        x.packets.passAll (answered ((x.cloud.publishDraws rand).map Draw.packet) errs)⟩ := by
    rw [step, passed_eq_draws, draws, cloudAfter, if_pos ⟨hrun, hwork⟩, if_pos ⟨hrun, hwork⟩,
      answer_of_acknowledges rfl]
    simp [connectingAfter, hrun, hwork, PacketEvent.errs]
  have hcloud : x.cloudAfter B (.client (.onConnectWork rand subRand) errs) =
      (x.cloud.onConnectPublish B rand).onConnectSubscribe B subRand := by
    rw [cloudAfter, Cloud.step_of_running hrun, Cloud.handle, if_pos hwork, Cloud.onConnectFn_eq]
  have hdraws : x.draws B (.client (.onConnectWork rand subRand) errs) =
      x.cloud.publishDraws rand ++ x.cloud.subscribeDraws B subRand := by
    rw [draws, if_pos hrun, Cloud.draws, if_pos hwork, Cloud.onConnectDraws]
  have hrun' : (x.cloud.onConnectPublish B rand).status = .running := hrun
  rw [hpublish, step, passed_eq_draws, hdraws, hcloud, List.map_append, answered_append,
    Outstanding.passAll_append, answer_of_acknowledges rfl, List.length_map]
  rw [step, passed_eq_draws, draws, cloudAfter, if_pos ⟨hrun', rfl⟩, if_pos ⟨hrun', rfl⟩,
    answer_of_acknowledges rfl]
  simp [connectingAfter, hrun', hconn, PacketEvent.errs]
  rfl

end Packets

end Pyrinas
