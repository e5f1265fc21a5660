import Pyrinas.Cloud.Encoding
import Pyrinas.Cloud.Manifest
import Pyrinas.Cloud.Registry
import Pyrinas.Errno
import Pyrinas.Machinery.Run
import Pyrinas.Machinery.Semaphore

/-!
# Cloud/State — the cloud client as a state machine

The module variables of `pyrinas_cloud.c`, its work items, and the two callbacks `main.c` gives it.
Every handler and every work function is one step; a work item runs only while it is pending, and
submitting it again changes nothing.  What the libraries answer comes with the event.

    CONNACK ─▸ on_connect_work ─▸ SUBACK ─▸ ota_request_work ─▸ OTA message ─▸ fota_work ─▸ done
-/

open Machinery

namespace Pyrinas

/-- What a build fixes: `pyrinas_version`, the imei, `CONFIG_ASSERT`,
`CONFIG_PYRINAS_CLOUD_MQTT_PAYLOAD_BUFFER_SIZE`, and the two halves of the CBOR library. -/
structure CloudBuild where
  pyrinasVersion : OtaVersion
  imei : List UInt8
  payloadBufferSize : ℕ
  assert : Bool
  qcbor : Qcbor
  qcborEncode : QcborEncode

namespace CloudBuild

/-- A topic under the imei: `"%.*s"` and a suffix. -/
def topic (B : CloudBuild) (suffix : String) : List UInt8 :=
  (CString.ofBytes (B.imei.take imeiLen)).bytes ++ (CString.ofString suffix).bytes

def otaPubTopic (B : CloudBuild) : List UInt8 := B.topic "/ota/pub"

def otaSubTopic (B : CloudBuild) : List UInt8 := B.topic "/ota/sub"

def telemetryPubTopic (B : CloudBuild) : List UInt8 := B.topic "/tel/pub"

def applicationSubTopic (B : CloudBuild) : List UInt8 :=
  Pyrinas.applicationSubTopic B.imei (CString.ofString "+")

end CloudBuild

/-- `enum pryinas_cloud_state` -/
inductive CloudState
  | disconnected
  | connected
  deriving DecidableEq

/-- `enum pyrinas_cloud_ota_state` -/
inductive OtaState
  | ready
  | started
  | downloading
  | done
  | error
  | reboot
  | rebooting
  deriving DecidableEq

/-- The device runs, has been rebooted, or has accessed memory that is not its own. -/
inductive CloudStatus
  | running
  | rebooted
  | faulted
  deriving DecidableEq

/-- What is published: `ota_cmd_type_check`, `ota_cmd_type_done`, or telemetry. -/
inductive CloudPayload
  | otaCheck
  | otaDone
  | telemetry (hasVersion : Bool)
  deriving DecidableEq

/-- The calls into the libraries that others can see. -/
inductive CloudCall
  | mqttSubscribe (topic : List UInt8) (messageId : UInt16)
  | mqttPublish (topic : List UInt8) (payload : CloudPayload) (messageId : UInt16)
  | fotaDownloadStart (host file : CString)
  deriving DecidableEq

/-- The cloud client.  `fotaBusy` is the state of the download library; `calls` records the calls
made so far. -/
structure Cloud where
  cloudState : CloudState
  otaState : OtaState
  initialOtaCheck : Bool
  otaSubMessageId : UInt16
  otaData : OtaData
  telemetryTimer : Bool
  publishTelemetryWork : Bool
  otaRequestWork : Bool
  otaDoneWork : Bool
  onConnectWork : Bool
  otaCheckSubscribedWork : Bool
  fotaWork : Bool
  otaRebootWork : Bool
  reconnectWork : Bool
  pyrinasCloudThreadSem : Semaphore 1
  mainThreadProceedSem : Semaphore 1
  fotaBusy : Bool
  status : CloudStatus
  calls : List CloudCall

/-- `enum fota_download_evt_id` -/
inductive FotaEvtId
  | error
  | finished
  | other
  deriving DecidableEq

/-- What happens to the client: calls of the application, packets, work items that run, and what the
libraries answer to each. -/
inductive CloudEvent
  | connect (initErr connErr : ℕ)
  | connack (result : ℤ)
  | disconnect
  | publish (topic data : List UInt8) (readErr : ℤ) (stack : DecodeStack) (rand : UInt32)
  | suback (result : ℤ) (messageId : UInt16)
  | telemetryCheck
  | publishTelemetryWork (rand : UInt32)
  | otaRequestWork (rand : UInt32)
  | otaDoneWork (rand : UInt32)
  | onConnectWork (rand subRand : UInt32)
  | otaCheckSubscribedWork
  | fotaWork (start : CString → CString → ℤ)
  | otaRebootWork
  | reconnectWork (initErr connErr : ℕ)
  | fotaEvt (id : FotaEvtId)

namespace Cloud

/-- The static state at boot, after `pyrinas_cloud_init`. -/
def boot : Cloud where
  cloudState := .disconnected
  otaState := .ready
  initialOtaCheck := false
  otaSubMessageId := 0
  otaData := .zero
  telemetryTimer := false
  publishTelemetryWork := false
  otaRequestWork := false
  otaDoneWork := false
  onConnectWork := false
  otaCheckSubscribedWork := false
  fotaWork := false
  otaRebootWork := false
  reconnectWork := false
  pyrinasCloudThreadSem := .zero 1
  mainThreadProceedSem := .zero 1
  fotaBusy := false
  status := .running
  calls := []

/-! ## The callbacks of `main.c` -/

/-- `cloud_state_callback`: a disconnected client is reconnected later. -/
def cloudStateCallback (s : Cloud) : Cloud :=
  { s with reconnectWork := s.reconnectWork || s.cloudState = .disconnected }

/-- `pyrinas_cloud_ota_evt_handler`: `main` goes on when the OTA check is over. -/
def otaStateCallback (s : Cloud) : Cloud :=
  { s with mainThreadProceedSem :=
      if s.otaState = .ready then s.mainThreadProceedSem.give else s.mainThreadProceedSem }

/-- Set `cloud_state_s`, and tell the application. -/
def setCloudState (s : Cloud) (state : CloudState) : Cloud :=
  { s with cloudState := state }.cloudStateCallback

/-- Set `ota_state_s`, and tell the application. -/
def setOtaState (s : Cloud) (state : OtaState) : Cloud :=
  { s with otaState := state }.otaStateCallback

/-! ## Publishing and subscribing -/

/-- `data_publish`: nothing is sent while disconnected (`-ENETDOWN`); the callers only log that. -/
def dataPublish (s : Cloud) (topic : List UInt8) (payload : CloudPayload) (rand : UInt32) : Cloud :=
  { s with calls := if s.cloudState = .connected
      then s.calls ++ [.mqttPublish topic payload rand.toUInt16] else s.calls }

/-- `subscribe` -/
def subscribe (s : Cloud) (topic : List UInt8) (messageId : UInt16) : Cloud :=
  { s with calls := s.calls ++ [.mqttSubscribe topic messageId] }

/-- `publish_telemetry` -/
def publishTelemetry (B : CloudBuild) (s : Cloud) (hasVersion : Bool) (rand : UInt32) : Cloud :=
  s.dataPublish B.telemetryPubTopic (.telemetry hasVersion) rand

/-! ## The work functions -/

/-- `on_connect_fn`: telemetry, and the OTA subscription unless an upgrade is on its way. -/
def onConnectFn (B : CloudBuild) (s : Cloud) (rand subRand : UInt32) : Cloud :=
  let s := s.publishTelemetry B true rand
  if s.otaState = .ready then
    let s := { s with otaSubMessageId := subRand.toUInt16 }
    s.subscribe B.otaSubTopic s.otaSubMessageId
  else s

/-- `ota_check_subscribed_work_fn`: a failed assertion resets the device. -/
def otaCheckSubscribedWorkFn (B : CloudBuild) (s : Cloud) : Cloud :=
  if B.assert ∧ s.initialOtaCheck = false then { s with status := .rebooted } else s

/-- `fota_download_start`: refused while a download is in progress. -/
def fotaDownloadStart (s : Cloud) (host file : CString) (start : CString → CString → ℤ) :
    ℤ × Cloud :=
  let err := if s.fotaBusy then -eAlready else start host file
  (err, { s with
    fotaBusy := s.fotaBusy || err = 0, calls := s.calls ++ [.fotaDownloadStart host file] })

/-- What `fota_start_fn` does with the answer: an error reboots. -/
def fotaStartResult (s : Cloud) (err : ℤ) : Cloud :=
  if err ≠ 0 then { s.setOtaState .error with status := .rebooted } else s.setOtaState .downloading

/-- `fota_start_fn` -/
def fotaStartFn (s : Cloud) (start : CString → CString → ℤ) : Cloud :=
  match s.otaData.url with
  | none => { s with status := .faulted }
  | some (host, file) =>
    let (err, s) := s.fotaDownloadStart host file start
    s.fotaStartResult err

/-- `pyrinas_cloud_connect`; `client_init` and `mqtt_connect` return 0 or a negated error number. -/
def connect (s : Cloud) (initErr connErr : ℕ) : ℤ × Cloud :=
  if s.cloudState = .connected then (-eInProgress, s)
  else if initErr ≠ 0 then (-initErr, s)
  else if connErr ≠ 0 then (-connErr, s)
  else
    let s := s.setCloudState .connected
    (0, { s with pyrinasCloudThreadSem := s.pyrinasCloudThreadSem.give })

/-- `reconnect_work_fn`: it compares with `EINPROGRESS`, where `pyrinas_cloud_connect` returns
`-EINPROGRESS`. -/
def reconnectWorkFn (s : Cloud) (initErr connErr : ℕ) : Cloud :=
  let (err, s) := s.connect initErr connErr
  if err ≠ 0 ∧ err ≠ eInProgress then { s with reconnectWork := true } else s

/-! ## The event handlers -/

/-- `publish_get_payload`, with what reading the payload answers if it fits. -/
def publishGetPayload (B : CloudBuild) (data : List UInt8) (readErr : ℤ) : ℤ :=
  if data.length > B.payloadBufferSize then -eMsgSize else readErr

/-- Whether a message, decoded into `ota_data`, is an update: `ver_comp` is 1. -/
def isNewer (B : CloudBuild) (err : ℕ) (otaData : OtaData) : Bool :=
  err = 0 && verComp B.pyrinasVersion otaData.version = 1

/-- `publish_evt_handler` for a message on `ota_sub_topic`. -/
def otaMessage (B : CloudBuild) (s : Cloud) (data : List UInt8) (stack : DecodeStack)
    (rand : UInt32) : Cloud :=
  let s := { s with initialOtaCheck := true }
  match decodeOtaData B.qcbor stack data s.otaData with
  | none => { s with status := .faulted }
  | some (err, otaData) =>
    let s := { s with otaData := otaData }
    if isNewer B err otaData then { s.setOtaState .started with fotaWork := true }
    else if s.otaState = .ready then
      let s := { s with otaDoneWork := true }
      (s.subscribe B.applicationSubTopic rand.toUInt16).otaStateCallback
    else s

/-- `MQTT_EVT_PUBLISH`.  `topic` is the receive buffer from the topic on, of which `strncmp` looks
at as much as `ota_sub_topic` is long.  Messages for the application do not concern the client. -/
def publishEvt (B : CloudBuild) (s : Cloud) (topic data : List UInt8) (readErr : ℤ)
    (stack : DecodeStack) (rand : UInt32) : Cloud :=
  if 0 ≤ publishGetPayload B data readErr ∧ B.otaSubTopic <+: topic then
    s.otaMessage B data stack rand
  else s

/-- `MQTT_EVT_CONNACK` -/
def connackEvt (s : Cloud) (result : ℤ) : Cloud :=
  if result ≠ 0 then s.setCloudState .disconnected
  else { s with onConnectWork := true, telemetryTimer := true }

/-- `MQTT_EVT_DISCONNECT` -/
def disconnectEvt (s : Cloud) : Cloud :=
  { s with telemetryTimer := false }.setCloudState .disconnected

/-- `MQTT_EVT_SUBACK` -/
def subackEvt (s : Cloud) (result : ℤ) (messageId : UInt16) : Cloud :=
  if result ≠ 0 then s
  else if s.otaSubMessageId = messageId ∧ s.initialOtaCheck = false then
    { s with otaRequestWork := true, otaCheckSubscribedWork := true }
  else s

/-- `fota_evt`, while a download is in progress. -/
def fotaEvt (s : Cloud) : FotaEvtId → Cloud
  | .error => { s.setOtaState .error with otaRebootWork := true, fotaBusy := false }
  | .finished => { s.setOtaState .done with otaRebootWork := true, fotaBusy := false }
  | .other => s

/-! ## One step -/

/-- One event, on a running device. -/
def handle (B : CloudBuild) (s : Cloud) : CloudEvent → Cloud
  | .connect initErr connErr => (s.connect initErr connErr).2
  | .connack result => s.connackEvt result
  | .disconnect => s.disconnectEvt
  | .publish topic data readErr stack rand => s.publishEvt B topic data readErr stack rand
  | .suback result messageId => s.subackEvt result messageId
  | .telemetryCheck => if s.telemetryTimer then { s with publishTelemetryWork := true } else s
  | .publishTelemetryWork rand => if s.publishTelemetryWork then
      { s with publishTelemetryWork := false }.publishTelemetry B false rand else s
  | .otaRequestWork rand => if s.otaRequestWork then
      { s with otaRequestWork := false }.dataPublish B.otaPubTopic .otaCheck rand else s
  | .otaDoneWork rand => if s.otaDoneWork then
      { s with otaDoneWork := false }.dataPublish B.otaPubTopic .otaDone rand else s
  | .onConnectWork rand subRand => if s.onConnectWork then
      { s with onConnectWork := false }.onConnectFn B rand subRand else s
  | .otaCheckSubscribedWork => if s.otaCheckSubscribedWork then
      { s with otaCheckSubscribedWork := false }.otaCheckSubscribedWorkFn B else s
  | .fotaWork start => if s.fotaWork then { s with fotaWork := false }.fotaStartFn start else s
  | .otaRebootWork => if s.otaRebootWork then
      { s with otaRebootWork := false, status := .rebooted } else s
  | .reconnectWork initErr connErr => if s.reconnectWork then
      { s with reconnectWork := false }.reconnectWorkFn initErr connErr else s
  | .fotaEvt id => if s.fotaBusy then s.fotaEvt id else s

/-- One event; a device that does not run any more stays as it is. -/
def step (B : CloudBuild) (s : Cloud) (e : CloudEvent) : Cloud :=
  if s.status = .running then s.handle B e else s

theorem step_of_running {B : CloudBuild} {s : Cloud} (h : s.status = .running) (e : CloudEvent) :
    s.step B e = s.handle B e := if_pos h

theorem step_of_not_running {B : CloudBuild} {s : Cloud} (h : s.status ≠ .running)
    (e : CloudEvent) : s.step B e = s := if_neg h

end Cloud

end Pyrinas
