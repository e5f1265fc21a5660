import Pyrinas.Cloud.Cbor
import Pyrinas.Cloud.Telemetry

/-!
# Cloud/Commands — every OTA command is accounted for

The client publishes two commands on `ota_pub_topic`: a check when its OTA subscription is
confirmed, done when an answer settles the check.  Each has a work item, which holds one request at
most and publishes nothing while the client is disconnected; and when `mqtt_publish` refuses a
command, that is only logged.  So requests get lost, but no command is published that nobody asked
for, and none is published twice.

    SUBACK ──────────────────▸ ota_request_work ─▸ {0: 0}     asked = published + due + lost
    OTA message, no update ──▸ ota_done_work ────▸ {0: 1}
-/

open Machinery

namespace Pyrinas

/-- `enum pyrinas_cloud_ota_cmd_type` -/
inductive OtaCmdType
  | check
  | done
  deriving DecidableEq

def OtaCmdType.toNat : OtaCmdType → ℕ
  | check => 0
  | done => 1

/-- `encode_ota_request` -/
def encodeOtaRequest (E : QcborEncode) (cmdType : OtaCmdType) (dataLen : ℕ) :
    Except ℕ (List UInt8) :=
  let ec := E.openMap (E.init dataLen)
  let ec := E.addUInt64ToMapN ec 0 (UInt64.ofNat cmdType.toNat)
  E.finishGetSize (E.closeMap ec)

/-- What `publish_ota_check` and `publish_ota_done` publish of their `buf`: `size` bytes, which is 0
if the request cannot be encoded. -/
def otaRequest (E : QcborEncode) (cmdType : OtaCmdType) : List UInt8 :=
  match encodeOtaRequest E cmdType 10 with
  | .ok out => out
  | .error _ => []

/-- How the server reads a request. -/
def readRequest (payload : List UInt8) : Option OtaCmdType :=
  match Cbor.decode payload with
  | some (.map [(.unsigned 0, .unsigned 0)], []) => some .check
  | some (.map [(.unsigned 0, .unsigned 1)], []) => some .done
  | _ => none

/-- **A request is read as what was asked for.** -/
theorem readRequest_otaRequest {E : QcborEncode} (hE : E.Lawful) (cmdType : OtaCmdType) :
    readRequest (otaRequest E cmdType) = some cmdType := by
  let values : List (Int64 × MapValue) := [(0, .uInt64 (UInt64.ofNat cmdType.toNat))]
  have hfits : (mapItem values).encode.length ≤ 10 := by
    cases cmdType <;> decide +kernel
  have hcount : values.length < 2 ^ 15 := Nat.one_lt_two_pow (Nat.succ_ne_zero 14)
  have hencode : encodeOtaRequest E cmdType 10 = .ok (mapItem values).encode :=
    hE.shortest hcount (by decide) hfits
  rw [otaRequest, hencode]
  cases cmdType <;> decide +kernel

/-- The request among what is published. -/
def CloudPayload.request (E : QcborEncode) : CloudPayload → Option (List UInt8)
  | otaCheck => some (otaRequest E .check)
  | otaDone => some (otaRequest E .done)
  | telemetry _ => none

/-- What a call passes to `mqtt_publish` for `ota_pub_topic`; `some none` is nothing that the server
can read. -/
def CloudCall.command (B : CloudBuild) : CloudCall → Option (Option OtaCmdType)
  | .mqttPublish topic payload _ =>
    if topic = B.otaPubTopic then some ((payload.request B.qcborEncode).bind readRequest) else none
  | _ => none

namespace Cloud

variable (B : CloudBuild)

/-- What has been passed to `mqtt_publish` so far. -/
def commands (s : Cloud) : List (Option OtaCmdType) := s.calls.filterMap (CloudCall.command B)

/-- The work item of a command is pending. -/
def commandDue (s : Cloud) : OtaCmdType → Bool
  | .check => s.otaRequestWork
  | .done => s.otaDoneWork

/-- The command that an event asks for: a check, for the SUBACK of the OTA subscription before any
answer; done, for an answer that is no update or cannot be decoded, while no update is on its way.
-/
def asks (s : Cloud) : CloudEvent → Option OtaCmdType
  | .suback result messageId =>
    if s.status = .running ∧ result = 0 ∧ s.otaSubMessageId = messageId ∧
      s.initialOtaCheck = false then some .check else none
  | e => do
    let (data, stack, _) ← s.otaDelivery B e
    let (err, otaData) ← decodeOtaData B.qcbor stack data s.otaData
    if isNewer B err otaData = false ∧ s.otaState = .ready then some .done else none

/-- The command whose turn it is. -/
def turn (s : Cloud) : CloudEvent → Option OtaCmdType
  | .otaRequestWork _ => if s.status = .running ∧ s.otaRequestWork then some .check else none
  | .otaDoneWork _ => if s.status = .running ∧ s.otaDoneWork then some .done else none
  | _ => none

end Cloud

/-- An event, with what `mqtt_publish` answers if the client publishes there. -/
structure CommandEvent where
  cloud : CloudEvent
  publishErr : ℤ

namespace Cloud

variable (B : CloudBuild)

/-- An event loses a request: one is due already; or at its turn the client is disconnected, or
`mqtt_publish` refuses it. -/
def Loses (s : Cloud) (e : CommandEvent) (c : OtaCmdType) : Prop :=
  (s.asks B e.cloud = some c ∧ s.commandDue c) ∨
    (s.turn e.cloud = some c ∧ (s.cloudState = .disconnected ∨ e.publishErr ≠ 0))

instance (s : Cloud) (e : CommandEvent) (c : OtaCmdType) : Decidable (s.Loses B e c) :=
  inferInstanceAs (Decidable (_ ∨ _))

end Cloud

/-- The client, what `mqtt_publish` has accepted for `ota_pub_topic`, and how often each command was
asked for and lost. -/
structure Commands where
  cloud : Cloud
  published : List (Option OtaCmdType)
  asked : OtaCmdType → ℕ
  lost : OtaCmdType → ℕ

namespace Commands

/-- At boot. -/
def start : Commands := ⟨.boot, [], fun _ => 0, fun _ => 0⟩

/-- What an event passes to `mqtt_publish`. -/
def passed (B : CloudBuild) (s : Cloud) (e : CloudEvent) : List (Option OtaCmdType) :=
  ((s.step B e).commands B).drop (s.commands B).length

/-- One event. -/
def step (B : CloudBuild) (x : Commands) (e : CommandEvent) : Commands where
  cloud := x.cloud.step B e.cloud
  published := x.published ++ if e.publishErr = 0 then passed B x.cloud e.cloud else []
  asked c := x.asked c + if x.cloud.asks B e.cloud = some c then 1 else 0
  lost c := x.lost c + if x.cloud.Loses B e c then 1 else 0

end Commands

namespace Cloud

variable {B : CloudBuild} {s s' : Cloud} {e : CloudEvent} {c : OtaCmdType}

/-! ## What is passed on -/

theorem telemetryPubTopic_ne_otaPubTopic (B : CloudBuild) :
    B.telemetryPubTopic ≠ B.otaPubTopic := by
  unfold CloudBuild.telemetryPubTopic CloudBuild.otaPubTopic CloudBuild.topic
  intro h
  have hsuffix := List.append_cancel_left h
  revert hsuffix
  decide

/-- A command is passed on while the client is connected. -/
theorem commands_dataPublish (payload : CloudPayload) (rand : UInt32) :
    (s.dataPublish B.otaPubTopic payload rand).commands B = s.commands B ++
      if s.cloudState = .connected then [(payload.request B.qcborEncode).bind readRequest]
      else [] := by
  unfold dataPublish commands
  dsimp only
  split_ifs
  · simp [CloudCall.command]
  · rw [List.append_nil]

/-- Telemetry is not. -/
theorem commands_publishTelemetry (hasVersion : Bool) (rand : UInt32) :
    (s.publishTelemetry B hasVersion rand).commands B = s.commands B := by
  unfold publishTelemetry dataPublish commands
  dsimp only
  split_ifs
  · simp [CloudCall.command, telemetryPubTopic_ne_otaPubTopic]
  · rfl

theorem commands_subscribe (topic : List UInt8) (messageId : UInt16) :
    (s.subscribe topic messageId).commands B = s.commands B := by
  simp [subscribe, commands, CloudCall.command]

theorem commands_fotaStartFn (start : CString → CString → ℤ) :
    (s.fotaStartFn start).commands B = s.commands B := by
  unfold fotaStartFn fotaStartResult
  split
  · rfl
  · dsimp only
    split <;> simp [commands, setOtaState, otaStateCallback, fotaDownloadStart, CloudCall.command]

theorem work_fotaStartFn (start : CString → CString → ℤ) :
    (s.fotaStartFn start).otaRequestWork = s.otaRequestWork ∧
      (s.fotaStartFn start).otaDoneWork = s.otaDoneWork := by
  unfold fotaStartFn fotaStartResult
  split
  · exact ⟨rfl, rfl⟩
  · dsimp only
    split <;> exact ⟨rfl, rfl⟩

/-! ## What a step does to the commands -/

/-- A step passes a command on, and leaves others due. -/
structure Tells (B : CloudBuild) (s : Cloud) (now asked : Option OtaCmdType) (s' : Cloud) :
    Prop where
  commands : s'.commands B = s.commands B ++
    if s.cloudState = .connected then (now.map some).toList else []
  due (c : OtaCmdType) :
    s'.commandDue c = (s.commandDue c && decide (now ≠ some c) || decide (asked = some c))

/-- A step that leaves the commands alone. -/
theorem tells_none (hcommands : s'.commands B = s.commands B)
    (hrequest : s'.otaRequestWork = s.otaRequestWork) (hdone : s'.otaDoneWork = s.otaDoneWork) :
    Tells B s none none s' where
  commands := by simp [hcommands]
  due c := by cases c <;> simp [commandDue, hrequest, hdone]

/-- A step that makes a command due. -/
theorem tells_asked (hcommands : s'.commands B = s.commands B)
    (hdue : ∀ d, s'.commandDue d = (s.commandDue d || decide (c = d))) :
    Tells B s none (some c) s' where
  commands := by simp [hcommands]
  due d := by simp [hdue]

theorem asks_of_otaDelivery {data : List UInt8} {stack : DecodeStack} {rand : UInt32}
    (hd : s.otaDelivery B e = some (data, stack, rand)) :
    s.asks B e = (decodeOtaData B.qcbor stack data s.otaData).bind fun r =>
      if isNewer B r.1 r.2 = false ∧ s.otaState = .ready then some .done else none := by
  cases e with
  | publish topic data' readErr stack' rand' => simp [asks, hd]
  | _ => simp [otaDelivery] at hd

/-- **An answer that settles the check asks for done.** -/
theorem tells_otaMessage {data : List UInt8} {stack : DecodeStack} {rand : UInt32}
    (hd : s.otaDelivery B e = some (data, stack, rand)) :
    Tells B s none (s.asks B e) (s.otaMessage B data stack rand) := by
  rw [asks_of_otaDelivery hd]
  unfold otaMessage
  dsimp only
  split
  next hdec =>
    rw [hdec]
    exact tells_none rfl rfl rfl
  next err otaData hdec =>
    rw [hdec, Option.bind_some]
    by_cases hnew : isNewer B err otaData = true
    · rw [if_pos hnew, if_neg (by simp [hnew])]
      exact tells_none rfl rfl rfl
    · rw [if_neg hnew]
      by_cases hready : s.otaState = .ready
      · rw [if_pos hready, if_pos ⟨Bool.eq_false_iff.mpr hnew, hready⟩]
        refine tells_asked (commands_subscribe _ _) fun d => ?_
        cases d <;> simp [commandDue, otaStateCallback, subscribe]
      · rw [if_neg hready, if_neg fun h => hready h.2]
        exact tells_none rfl rfl rfl

/-- **…and a SUBACK before any answer for a check.** -/
theorem tells_subackEvt (hrun : s.status = .running) (result : ℤ) (messageId : UInt16) :
    Tells B s none (s.asks B (.suback result messageId)) (s.subackEvt result messageId) := by
  simp only [asks, hrun, true_and, subackEvt]
  by_cases hresult : result = 0
  · rw [if_neg (not_not.mpr hresult)]
    by_cases hsub : s.otaSubMessageId = messageId ∧ s.initialOtaCheck = false
    · rw [if_pos hsub, if_pos ⟨hresult, hsub⟩]
      refine tells_asked rfl fun d => ?_
      cases d <;> simp [commandDue]
    · rw [if_neg hsub, if_neg fun h => hsub h.2]
      exact tells_none rfl rfl rfl
  · rw [if_pos hresult, if_neg fun h => hresult h.1]
    exact tells_none rfl rfl rfl

/-- **A command is passed on at its turn**, while the client is connected. -/
theorem tells_turn (hE : B.qcborEncode.Lawful) {t : Cloud} {payload : CloudPayload} (rand : UInt32)
    (hpayload : payload.request B.qcborEncode = some (otaRequest B.qcborEncode c))
    (hcalls : t.calls = s.calls) (hlink : t.cloudState = s.cloudState)
    (hdue : ∀ d, t.commandDue d = (s.commandDue d && decide (c ≠ d))) :
    Tells B s (some c) none (t.dataPublish B.otaPubTopic payload rand) where
  commands := by
    rw [commands_dataPublish, hlink, hpayload, Option.bind_some, readRequest_otaRequest hE,
      Cloud.commands, hcalls]
    rfl
  due d := by
    have hsame : (t.dataPublish B.otaPubTopic payload rand).commandDue d = t.commandDue d := by
      cases d <;> rfl
    simp [hsame, hdue]

/-- **What a step does to the commands.** -/
theorem tells_step (hE : B.qcborEncode.Lawful) (s : Cloud) (e : CloudEvent) :
    Tells B s (s.turn e) (s.asks B e) (s.step B e) := by
  by_cases hrun : s.status = .running
  · rw [step_of_running hrun]
    cases e with
    | publish topic data readErr stack rand =>
      cases hd : s.otaDelivery B (.publish topic data readErr stack rand) with
      | none =>
        rw [handle, publishEvt_of_otaDelivery hrun hd, asks, hd]
        · exact tells_none rfl rfl rfl
        · simp
      | some m =>
        rw [← step_of_running hrun, (step_of_otaDelivery hd).2]
        exact tells_otaMessage hd
    | suback result messageId => exact tells_subackEvt hrun result messageId
    | otaRequestWork rand =>
      have hturn : s.turn (.otaRequestWork rand) = if s.otaRequestWork then some .check else none :=
        by simp only [turn, hrun, true_and]
      rw [handle, hturn]
      split
      · have hpayload : CloudPayload.otaCheck.request B.qcborEncode
            = some (otaRequest B.qcborEncode .check) := rfl
        refine tells_turn hE rand hpayload rfl rfl fun d => ?_
        cases d <;> simp [commandDue]
      · exact tells_none rfl rfl rfl
    | otaDoneWork rand =>
      have hturn : s.turn (.otaDoneWork rand) = if s.otaDoneWork then some .done else none := by
        simp only [turn, hrun, true_and]
      rw [handle, hturn]
      split
      · have hpayload : CloudPayload.otaDone.request B.qcborEncode
            = some (otaRequest B.qcborEncode .done) := rfl
        refine tells_turn hE rand hpayload rfl rfl fun d => ?_
        cases d <;> simp [commandDue]
      · exact tells_none rfl rfl rfl
    | connect initErr connErr =>
      simp only [handle, connect]
      split_ifs <;> exact tells_none rfl rfl rfl
    | reconnectWork initErr connErr =>
      simp only [handle, reconnectWorkFn, connect]
      split_ifs <;> exact tells_none rfl rfl rfl
    | connack result =>
      simp only [handle, connackEvt]
      split_ifs <;> exact tells_none rfl rfl rfl
    | disconnect => exact tells_none rfl rfl rfl
    | telemetryCheck =>
      simp only [handle]
      split <;> exact tells_none rfl rfl rfl
    | publishTelemetryWork rand =>
      simp only [handle]
      split
      · exact tells_none (commands_publishTelemetry false rand) rfl rfl
      · exact tells_none rfl rfl rfl
    | onConnectWork rand subRand =>
      simp only [handle, onConnectFn]
      split_ifs
      · refine tells_none ?_ rfl rfl
        exact (commands_subscribe _ _).trans (commands_publishTelemetry true rand)
      · exact tells_none (commands_publishTelemetry true rand) rfl rfl
      · exact tells_none rfl rfl rfl
    | otaCheckSubscribedWork =>
      simp only [handle, otaCheckSubscribedWorkFn]
      split_ifs <;> exact tells_none rfl rfl rfl
    | fotaWork start =>
      simp only [handle]
      split
      · have hkept := work_fotaStartFn (s := { s with fotaWork := false }) start
        exact tells_none (commands_fotaStartFn start) hkept.1 hkept.2
      · exact tells_none rfl rfl rfl
    | otaRebootWork =>
      simp only [handle]
      split <;> exact tells_none rfl rfl rfl
    | fotaEvt id =>
      simp only [handle]
      split
      · cases id <;> exact tells_none rfl rfl rfl
      · exact tells_none rfl rfl rfl
  · have hasks : s.asks B e = none := by
      cases e <;> simp [asks, otaDelivery, hrun]
    have hturn : s.turn e = none := by
      cases e <;> simp [turn, hrun]
    rw [step_of_not_running hrun, hasks, hturn]
    exact tells_none rfl rfl rfl

/-- Only a command that is due has its turn. -/
theorem commandDue_of_turn (h : s.turn e = some c) : s.commandDue c = true := by
  cases e <;> simp only [turn, Option.ite_none_right_eq_some, reduceCtorEq] at h
  all_goals
    obtain ⟨⟨-, hdue⟩, hc⟩ := h
    obtain rfl := Option.some.inj hc
    exact hdue

/-- …and not at an event that asks for one. -/
theorem turn_of_asks (h : s.asks B e = some c) : s.turn e = none := by
  cases e <;> simp [asks, otaDelivery] at h <;> rfl

end Cloud

namespace Commands

/-- The server can read all that was published, and each command that was asked for has been
published, is due, or was lost. -/
structure Accounted (B : CloudBuild) (x : Commands) : Prop where
  readable : none ∉ x.published
  count (c : OtaCmdType) :
    x.published.count (some c) + (x.cloud.commandDue c).toNat + x.lost c = x.asked c

theorem accounted_start (B : CloudBuild) : Accounted B start where
  readable := List.not_mem_nil
  count c := by cases c <;> rfl

variable {B : CloudBuild}

/-- An event passes on the command whose turn it is. -/
theorem passed_eq (hE : B.qcborEncode.Lawful) (s : Cloud) (e : CloudEvent) : passed B s e
    = if s.cloudState = .connected then ((s.turn e).map some).toList else [] := by
  rw [passed, (Cloud.tells_step hE s e).commands, List.drop_left]

theorem accounted_step (hE : B.qcborEncode.Lawful) (x : Commands) (e : CommandEvent)
    (h : Accounted B x) : Accounted B (x.step B e) := by
  have hdue := (Cloud.tells_step hE x.cloud e.cloud).due
  refine ⟨?_, fun c => ?_⟩
  · rw [step, passed_eq hE, List.mem_append, not_or]
    refine ⟨h.readable, ?_⟩
    split_ifs <;> simp
  have hbefore := h.count c
  simp only [step, passed_eq hE, hdue, List.count_append]
  by_cases hasks : x.cloud.asks B e.cloud = some c
  · have hturn := Cloud.turn_of_asks hasks
    have hloses : x.cloud.Loses B e c ↔ x.cloud.commandDue c = true := by
      simp [Cloud.Loses, hasks, hturn]
    by_cases hc : x.cloud.commandDue c = true
    · simp [hasks, hturn, hloses, hc] at hbefore ⊢
      omega
    · simp [hasks, hturn, hloses, hc] at hbefore ⊢
      omega
  · by_cases hturn : x.cloud.turn e.cloud = some c
    · have hc := Cloud.commandDue_of_turn hturn
      have hloses : x.cloud.Loses B e c
          ↔ x.cloud.cloudState = .disconnected ∨ e.publishErr ≠ 0 := by
        simp [Cloud.Loses, hasks, hturn]
      by_cases herr : e.publishErr = 0
      · cases hlink : x.cloud.cloudState with
        | connected =>
          simp [hasks, hturn, hloses, hc, hlink, herr] at hbefore ⊢
          omega
        | disconnected =>
          simp [hasks, hturn, hloses, hc, hlink, herr] at hbefore ⊢
          omega
      · simp [hasks, hturn, hloses, hc, herr] at hbefore ⊢
        omega
    · have hloses : ¬ x.cloud.Loses B e c := by
        simp [Cloud.Loses, hasks, hturn]
      have hsilent : ((x.cloud.turn e.cloud).map some).toList.count (some c) = 0 :=
        List.count_eq_zero.mpr fun hmem => hturn (by simpa using hmem)
      split_ifs <;> simp [hasks, hturn, hsilent, hbefore]

/-- **Every OTA command is accounted for**: whatever happens, all that is published on the OTA topic
the server can read, and a command has been published as often as it was asked for, but for the one
that is due and for those lost. -/
theorem commands_accounted (B : CloudBuild) (hE : B.qcborEncode.Lawful) (es : List CommandEvent) :
    none ∉ (run (step B) start es).published ∧ ∀ c,
      (run (step B) start es).published.count (some c)
        + ((run (step B) start es).cloud.commandDue c).toNat
        + (run (step B) start es).lost c = (run (step B) start es).asked c :=
  have haccounted := invariant_run_all (accounted_step hE) (accounted_start B) es
  ⟨haccounted.readable, haccounted.count⟩

/-- Two checks are asked for, in two sessions; `mqtt_publish` accepts the first of them and refuses
the second. -/
def twoChecks : List CommandEvent :=
  let session (id : UInt32) (publishErr : ℤ) : List CommandEvent :=
    [⟨.connect 0 0, 0⟩, ⟨.connack 0, 0⟩, ⟨.onConnectWork 1 id, 0⟩, ⟨.suback 0 id.toUInt16, 0⟩,
      ⟨.otaRequestWork 3, publishErr⟩, ⟨.disconnect, 0⟩]
  session 7 0 ++ session 8 (-22)

theorem commands_accounted_twoChecks :
    (fun x : Commands => (x.asked .check, x.lost .check) = (2, 1) ∧ none ∉ x.published ∧ ∀ c,
      x.published.count (some c) + (x.cloud.commandDue c).toNat + x.lost c = x.asked c)
      (run (step sampleBuild) start twoChecks) :=
  ⟨by decide +kernel, commands_accounted sampleBuild lawful_cborWriter twoChecks⟩

end Commands

end Pyrinas
