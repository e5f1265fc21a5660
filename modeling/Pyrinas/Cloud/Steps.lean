import Pyrinas.Cloud.State

/-!
# Cloud/Steps — what a step of the client can do

Three kinds of events matter for an upgrade: an OTA message, a run of `fota_work`, and the rest,
which leaves it alone but for the end of a download.  For the link there are two: a connect that
succeeds, and whatever ends the connection.
-/

open Machinery

namespace Pyrinas

namespace Cloud

/-- The downloads started so far. -/
def downloads (s : Cloud) : List (CString × CString) :=
  s.calls.filterMap fun
    | .fotaDownloadStart host file => some (host, file)
    | _ => none

@[simp] theorem downloads_dataPublish (s : Cloud) (topic : List UInt8) (payload : CloudPayload)
    (rand : UInt32) : (s.dataPublish topic payload rand).downloads = s.downloads := by
  unfold dataPublish downloads
  dsimp only
  split_ifs <;> simp

@[simp] theorem downloads_subscribe (s : Cloud) (topic : List UInt8) (messageId : UInt16) :
    (s.subscribe topic messageId).downloads = s.downloads := by
  simp [subscribe, downloads]

theorem downloads_fotaDownloadStart (s : Cloud) (host file : CString)
    (start : CString → CString → ℤ) :
    (s.fotaDownloadStart host file start).2.downloads = s.downloads ++ [(host, file)] := by
  simp [fotaDownloadStart, downloads]

/-- The OTA message that an event brings to `publish_evt_handler`, with the stack it is decoded on
and a random number. -/
def otaDelivery (B : CloudBuild) (s : Cloud) :
    CloudEvent → Option (List UInt8 × DecodeStack × UInt32)
  | .publish topic data readErr stack rand =>
    if s.status = .running ∧ 0 ≤ publishGetPayload B data readErr ∧ B.otaSubTopic <+: topic then
      some (data, stack, rand)
    else none
  | _ => none

/-- An event neither brings an OTA message nor runs `fota_work`. -/
def Unrelated (B : CloudBuild) (s : Cloud) (e : CloudEvent) : Prop :=
  s.otaDelivery B e = none ∧ ∀ start, e ≠ .fotaWork start

/-- What a step can do: nothing, or the work of one handler; a work item runs only while it is
pending, and FOTA events come only during a download. -/
inductive CanStep (B : CloudBuild) (s : Cloud) : CloudEvent → Cloud → Prop
  | idle (e : CloudEvent) : CanStep B s e s
  | connect (initErr connErr : ℕ) :
    CanStep B s (.connect initErr connErr) (s.connect initErr connErr).2
  | connack (result : ℤ) : CanStep B s (.connack result) (s.connackEvt result)
  | disconnect : CanStep B s .disconnect s.disconnectEvt
  | otaMessage {e : CloudEvent} {data : List UInt8} {stack : DecodeStack} {rand : UInt32}
    (h : s.otaDelivery B e = some (data, stack, rand)) :
    CanStep B s e (s.otaMessage B data stack rand)
  | suback (result : ℤ) (messageId : UInt16) :
    CanStep B s (.suback result messageId) (s.subackEvt result messageId)
  | telemetryCheck (h : s.telemetryTimer) :
    CanStep B s .telemetryCheck { s with publishTelemetryWork := true }
  | publishTelemetryWork (rand : UInt32) (h : s.publishTelemetryWork) :
    CanStep B s (.publishTelemetryWork rand)
      ({ s with publishTelemetryWork := false }.publishTelemetry B false rand)
  | otaRequestWork (rand : UInt32) (h : s.otaRequestWork) :
    CanStep B s (.otaRequestWork rand)
      ({ s with otaRequestWork := false }.dataPublish B.otaPubTopic .otaCheck rand)
  | otaDoneWork (rand : UInt32) (h : s.otaDoneWork) :
    CanStep B s (.otaDoneWork rand)
      ({ s with otaDoneWork := false }.dataPublish B.otaPubTopic .otaDone rand)
  | onConnectWork (rand subRand : UInt32) (h : s.onConnectWork) :
    CanStep B s (.onConnectWork rand subRand)
      ({ s with onConnectWork := false }.onConnectFn B rand subRand)
  | otaCheckSubscribedWork (h : s.otaCheckSubscribedWork) :
    CanStep B s .otaCheckSubscribedWork
      ({ s with otaCheckSubscribedWork := false }.otaCheckSubscribedWorkFn B)
  | fotaWork (start : CString → CString → ℤ) (h : s.fotaWork) :
    CanStep B s (.fotaWork start) ({ s with fotaWork := false }.fotaStartFn start)
  | otaRebootWork (h : s.otaRebootWork) :
    CanStep B s .otaRebootWork { s with otaRebootWork := false, status := .rebooted }
  | reconnectWork (initErr connErr : ℕ) (h : s.reconnectWork) :
    CanStep B s (.reconnectWork initErr connErr)
      ({ s with reconnectWork := false }.reconnectWorkFn initErr connErr)
  | fotaEvt (id : FotaEvtId) (h : s.fotaBusy) : CanStep B s (.fotaEvt id) (s.fotaEvt id)

section Frame

variable {B : CloudBuild} {s : Cloud} {e : CloudEvent}

/-- A device that has stopped does not run again. -/
theorem running_of_step (h : (s.step B e).status = .running) : s.status = .running := by
  by_contra hrun
  rw [step_of_not_running hrun] at h
  exact hrun h

/-- **An OTA message is handled by `otaMessage`.** -/
theorem step_of_otaDelivery {data : List UInt8} {stack : DecodeStack} {rand : UInt32}
    (h : s.otaDelivery B e = some (data, stack, rand)) :
    s.status = .running ∧ s.step B e = s.otaMessage B data stack rand := by
  cases e with
  | publish topic data' readErr stack' rand' =>
    simp only [otaDelivery, Option.ite_none_right_eq_some, Option.some.injEq, Prod.mk.injEq] at h
    obtain ⟨⟨hrun, hif⟩, rfl, rfl, rfl⟩ := h
    exact ⟨hrun, by rw [step_of_running hrun, handle, publishEvt, if_pos hif]⟩
  | _ => simp [otaDelivery] at h

/-- A message that is not one for OTA does nothing. -/
theorem publishEvt_of_otaDelivery {topic data : List UInt8} {readErr : ℤ} {stack : DecodeStack}
    {rand : UInt32} (hrun : s.status = .running)
    (h : s.otaDelivery B (.publish topic data readErr stack rand) = none) :
    s.publishEvt B topic data readErr stack rand = s := by
  refine if_neg fun hif => ?_
  simp [otaDelivery, hrun, hif] at h

/-- An event brings an OTA message, runs `fota_work`, or does neither. -/
theorem event_cases (B : CloudBuild) (s : Cloud) (e : CloudEvent) :
    (∃ data stack rand, s.otaDelivery B e = some (data, stack, rand)) ∨
      (∃ start, e = .fotaWork start) ∨ Unrelated B s e := by
  cases hd : s.otaDelivery B e with
  | some m => exact .inl ⟨m.1, m.2.1, m.2.2, rfl⟩
  | none =>
    by_cases hf : ∃ start, e = .fotaWork start
    · exact .inr (.inl hf)
    · exact .inr (.inr ⟨hd, not_exists.mp hf⟩)

/-- **A step does what it can do.** -/
theorem canStep (B : CloudBuild) (s : Cloud) (e : CloudEvent) : CanStep B s e (s.step B e) := by
  by_cases hrun : s.status = .running
  · rw [step_of_running hrun]
    cases e with
    | connect initErr connErr => exact .connect initErr connErr
    | connack result => exact .connack result
    | disconnect => exact .disconnect
    | publish topic data readErr stack rand =>
      cases hd : s.otaDelivery B (.publish topic data readErr stack rand) with
      | none =>
        rw [handle, publishEvt_of_otaDelivery hrun hd]
        exact .idle _
      | some m =>
        rw [← step_of_running hrun, (step_of_otaDelivery hd).2]
        exact .otaMessage hd
    | suback result messageId => exact .suback result messageId
    | _ =>
      simp only [handle]
      split
      next h =>
        constructor
        exact h
      next => exact .idle _
  · rw [step_of_not_running hrun]
    exact .idle e

/-- The upgrade is untouched between two states: `ota_data`, the pending `fota_work`, and what was
started; and unless a download in progress has ended, so is `ota_state_s`. -/
structure Untouched (s s' : Cloud) : Prop where
  otaData : s'.otaData = s.otaData
  fotaWork : s'.fotaWork = s.fotaWork
  downloads : s'.downloads = s.downloads
  initialOtaCheck : s'.initialOtaCheck = s.initialOtaCheck
  status : s'.status = .faulted → s.status = .faulted
  otaState : (s'.otaState = s.otaState ∧ s'.fotaBusy = s.fotaBusy) ∨
    (s.fotaBusy ∧ s'.fotaBusy = false ∧ (s'.otaState = .error ∨ s'.otaState = .done))

theorem untouched_of_calls {s s' : Cloud} (hd : s'.otaData = s.otaData)
    (hw : s'.fotaWork = s.fotaWork) (hdl : s'.downloads = s.downloads)
    (hc : s'.initialOtaCheck = s.initialOtaCheck) (hs : s'.status = .faulted → s.status = .faulted)
    (ho : s'.otaState = s.otaState) (hb : s'.fotaBusy = s.fotaBusy) : Untouched s s' :=
  ⟨hd, hw, hdl, hc, hs, .inl ⟨ho, hb⟩⟩

theorem untouched_refl (s : Cloud) : Untouched s s :=
  untouched_of_calls rfl rfl rfl rfl id rfl rfl

theorem untouched_fotaEvt (hb : s.fotaBusy) (id : FotaEvtId) : Untouched s (s.fotaEvt id) := by
  cases id with
  | error => exact ⟨rfl, rfl, rfl, rfl, fun h => h, .inr ⟨hb, rfl, .inl rfl⟩⟩
  | finished => exact ⟨rfl, rfl, rfl, rfl, fun h => h, .inr ⟨hb, rfl, .inr rfl⟩⟩
  | other => exact untouched_refl s

/-- **What is neither an OTA message nor `fota_work` leaves the upgrade alone.** -/
theorem step_unrelated (h : Unrelated B s e) : Untouched s (s.step B e) := by
  have hstep := canStep B s e
  generalize s.step B e = s' at hstep ⊢
  cases hstep with
  | idle => exact untouched_refl s
  | otaMessage hd => simp [h.1] at hd
  | fotaWork start => exact absurd rfl (h.2 start)
  | fotaEvt id hb => exact untouched_fotaEvt hb id
  | connect initErr connErr =>
    simp only [connect]
    split_ifs <;> exact untouched_of_calls rfl rfl rfl rfl id rfl rfl
  | reconnectWork initErr connErr =>
    simp only [reconnectWorkFn, connect]
    split_ifs <;> exact untouched_of_calls rfl rfl rfl rfl id rfl rfl
  | connack result =>
    simp only [connackEvt]
    split_ifs <;> exact untouched_of_calls rfl rfl rfl rfl id rfl rfl
  | suback result messageId =>
    simp only [subackEvt]
    split_ifs <;> exact untouched_of_calls rfl rfl rfl rfl id rfl rfl
  | disconnect | telemetryCheck => exact untouched_of_calls rfl rfl rfl rfl id rfl rfl
  | publishTelemetryWork | otaRequestWork | otaDoneWork =>
    exact untouched_of_calls rfl rfl (downloads_dataPublish _ _ _ _) rfl id rfl rfl
  | onConnectWork rand subRand =>
    simp only [onConnectFn]
    split_ifs
    · exact untouched_of_calls rfl rfl
        ((downloads_subscribe _ _ _).trans (downloads_dataPublish _ _ _ _)) rfl id rfl rfl
    · exact untouched_of_calls rfl rfl (downloads_dataPublish _ _ _ _) rfl id rfl rfl
  | otaCheckSubscribedWork =>
    simp only [otaCheckSubscribedWorkFn]
    split_ifs
    · exact untouched_of_calls rfl rfl rfl rfl (by simp) rfl rfl
    · exact untouched_of_calls rfl rfl rfl rfl id rfl rfl
  | otaRebootWork => exact untouched_of_calls rfl rfl rfl rfl (by simp) rfl rfl

/-- **…and does not look at `ota_data`.** -/
theorem step_otaData (h : Unrelated B s e) (d : OtaData) :
    { s with otaData := d }.step B e = { s.step B e with otaData := d } := by
  by_cases hrun : s.status = .running
  · rw [step_of_running hrun, step_of_running (s := { s with otaData := d }) hrun]
    cases e with
    | publish topic data readErr stack rand =>
      rw [handle, handle, publishEvt_of_otaDelivery hrun h.1,
        publishEvt_of_otaDelivery (s := { s with otaData := d }) hrun h.1]
    | fotaWork start => exact absurd rfl (h.2 start)
    | connect initErr connErr =>
      simp only [handle, connect]
      split_ifs <;> rfl
    | reconnectWork initErr connErr =>
      simp only [handle, reconnectWorkFn, connect]
      split_ifs <;> rfl
    | fotaEvt id =>
      simp only [handle]
      split_ifs
      · cases id <;> rfl
      · rfl
    | disconnect => rfl
    | onConnectWork rand subRand =>
      simp only [handle, onConnectFn, publishTelemetry, dataPublish]
      split_ifs <;> rfl
    | _ =>
      simp only [handle, connackEvt, subackEvt, otaCheckSubscribedWorkFn]
      split_ifs <;> rfl
  · rw [step_of_not_running hrun, step_of_not_running (s := { s with otaData := d }) hrun]

/-- A `fota_work` that is not pending does not run. -/
theorem step_fotaWork_idle (h : ¬ (s.status = .running ∧ s.fotaWork))
    (start : CString → CString → ℤ) : s.step B (.fotaWork start) = s := by
  by_cases hrun : s.status = .running
  · rw [step_of_running hrun, handle, if_neg fun hw => h ⟨hrun, hw⟩]
  · exact step_of_not_running hrun _

/-- **A pending `fota_work` starts one download**, of what the C strings in `ota_data` spell. -/
theorem step_fotaWork {host file : CString} (hrun : s.status = .running) (hw : s.fotaWork)
    (hurl : s.otaData.url = some (host, file)) (start : CString → CString → ℤ) :
    (s.step B (.fotaWork start)).otaData = s.otaData ∧
      (s.step B (.fotaWork start)).fotaWork = false ∧
      (s.step B (.fotaWork start)).downloads = s.downloads ++ [(host, file)] ∧
      (s.step B (.fotaWork start)).status ≠ .faulted := by
  rw [step_of_running hrun, handle, if_pos hw, fotaStartFn]
  simp only [hurl, fotaStartResult]
  split
  · exact ⟨rfl, rfl, downloads_fotaDownloadStart _ _ _ start, by simp⟩
  · refine ⟨rfl, rfl, downloads_fotaDownloadStart _ _ _ start, fun h => ?_⟩
    exact absurd (hrun.symm.trans h) (by simp)

/-- Without a terminator in the structure it reads on, into memory that is not its own. -/
theorem step_fotaWork_fault (hrun : s.status = .running) (hw : s.fotaWork)
    (hurl : s.otaData.url = none) (start : CString → CString → ℤ) :
    s.step B (.fotaWork start) = { s with fotaWork := false, status := .faulted } := by
  rw [step_of_running hrun, handle, if_pos hw, fotaStartFn]
  simp only [hurl]

/-- A download that is accepted. -/
theorem step_fotaWork_accepted {host file : CString} (hrun : s.status = .running) (hw : s.fotaWork)
    (hurl : s.otaData.url = some (host, file)) (hidle : s.fotaBusy = false)
    {start : CString → CString → ℤ} (h0 : start host file = 0) :
    (s.step B (.fotaWork start)).otaState = .downloading ∧
      (s.step B (.fotaWork start)).fotaBusy ∧
      (s.step B (.fotaWork start)).status = .running ∧
      (s.step B (.fotaWork start)).initialOtaCheck = s.initialOtaCheck := by
  rw [step_of_running hrun, handle, if_pos hw, fotaStartFn]
  simp [hurl, fotaStartResult, fotaDownloadStart, hidle, h0, setOtaState, otaStateCallback, hrun]

/-- A download that is refused reboots the device. -/
theorem step_fotaWork_refused {host file : CString} (hrun : s.status = .running) (hw : s.fotaWork)
    (hurl : s.otaData.url = some (host, file)) {start : CString → CString → ℤ}
    (h0 : s.fotaBusy ∨ start host file ≠ 0) :
    (s.step B (.fotaWork start)).otaState = .error ∧
      (s.step B (.fotaWork start)).fotaBusy = s.fotaBusy ∧
      (s.step B (.fotaWork start)).status = .rebooted ∧
      (s.step B (.fotaWork start)).initialOtaCheck = s.initialOtaCheck := by
  rw [step_of_running hrun, handle, if_pos hw, fotaStartFn]
  have hdown : -eAlready ≠ 0 := by decide
  by_cases hb : s.fotaBusy
  · simp [hurl, fotaStartResult, fotaDownloadStart, hb, hdown, setOtaState, otaStateCallback]
  · have hne : start host file ≠ 0 := h0.resolve_left hb
    simp [hurl, fotaStartResult, fotaDownloadStart, hb, hne, setOtaState, otaStateCallback]

/-- `fota_work` looks at nothing of `ota_data` but the C strings. -/
theorem step_fotaWork_otaData {d : OtaData} (h : d.url = s.otaData.url)
    (start : CString → CString → ℤ) : { s with otaData := d }.step B (.fotaWork start)
      = { s.step B (.fotaWork start) with otaData := d } := by
  by_cases hrun : s.status = .running
  · rw [step_of_running hrun, step_of_running (s := { s with otaData := d }) hrun]
    simp only [handle, fotaStartFn, h]
    split_ifs
    · cases s.otaData.url with
      | none => rfl
      | some url =>
        simp only [fotaStartResult, fotaDownloadStart]
        split_ifs <;> rfl
    · rfl
  · rw [step_of_not_running hrun, step_of_not_running (s := { s with otaData := d }) hrun]

/-- **During an upgrade an OTA message only writes `ota_data`**, unless it is newer and the upgrade
has got further than its start. -/
theorem otaMessage_during_upgrade {data : List UInt8} {stack : DecodeStack} {err : ℕ} {d : OtaData}
    (h : decodeOtaData B.qcbor stack data s.otaData = some (err, d)) (rand : UInt32)
    (hcheck : s.initialOtaCheck = true) (hready : s.otaState ≠ .ready)
    (hnew : isNewer B err d → s.otaState = .started ∧ s.fotaWork = true) :
    s.otaMessage B data stack rand = { s with otaData := d } := by
  simp only [otaMessage, h]
  cases s
  dsimp only at hcheck hready hnew ⊢
  subst hcheck
  split_ifs with hn
  · obtain ⟨rfl, rfl⟩ := hnew hn
    simp [setOtaState, otaStateCallback]
  · rfl

/-- **What an OTA message does to a client**, if it is decoded inside `ota_data`. -/
theorem otaMessage_of_decode {data : List UInt8} {stack : DecodeStack} {err : ℕ} {d : OtaData}
    (h : decodeOtaData B.qcbor stack data s.otaData = some (err, d)) (rand : UInt32) :
    (s.otaMessage B data stack rand).otaData = d ∧
      (s.otaMessage B data stack rand).fotaWork = (s.fotaWork || isNewer B err d) ∧
      (s.otaMessage B data stack rand).downloads = s.downloads ∧
      (s.otaMessage B data stack rand).status = s.status ∧
      (s.otaMessage B data stack rand).otaState
        = (if isNewer B err d then .started else s.otaState) ∧
      (s.otaMessage B data stack rand).fotaBusy = s.fotaBusy ∧
      (s.otaMessage B data stack rand).initialOtaCheck = true := by
  simp only [otaMessage, h]
  split_ifs with hnew
  · exact ⟨rfl, by simp [hnew], rfl, rfl, rfl, rfl, rfl⟩
  · refine ⟨rfl, by simp [hnew, otaStateCallback, subscribe], ?_, rfl, rfl, rfl, rfl⟩
    exact downloads_subscribe _ _ _
  · exact ⟨rfl, by simp [hnew], rfl, rfl, rfl, rfl, rfl⟩

/-- A message that is copied out of its field. -/
theorem otaMessage_fault {data : List UInt8} {stack : DecodeStack}
    (h : decodeOtaData B.qcbor stack data s.otaData = none) (rand : UInt32) :
    s.otaMessage B data stack rand = { s with initialOtaCheck := true, status := .faulted } := by
  simp only [otaMessage, h]

/-! ## The link -/

/-- What may become of the link: a connection is new, with the semaphore given, or was there before;
and a disconnected client keeps being reconnected. -/
def LinkStep (s s' : Cloud) : Prop :=
  (s'.cloudState = .connected → s'.pyrinasCloudThreadSem.count ≠ 0 ∨
    (s.cloudState = .connected ∧ s'.pyrinasCloudThreadSem = s.pyrinasCloudThreadSem)) ∧
  ((s.cloudState = .disconnected → s.reconnectWork) →
    s'.cloudState = .disconnected → s'.reconnectWork)

theorem linkStep_of_same {s s' : Cloud} (hc : s'.cloudState = s.cloudState)
    (hs : s'.pyrinasCloudThreadSem = s.pyrinasCloudThreadSem)
    (hr : s'.reconnectWork = s.reconnectWork) : LinkStep s s' :=
  ⟨fun h => .inr ⟨hc ▸ h, hs⟩, fun h hd => hr ▸ h (hc ▸ hd)⟩

theorem linkStep_setCloudState (s t : Cloud) : LinkStep s (t.setCloudState .disconnected) :=
  ⟨by simp [setCloudState, cloudStateCallback], by simp [setCloudState, cloudStateCallback]⟩

/-- **A connect fails and changes nothing, or succeeds and gives the semaphore.** -/
theorem connect_cases (s : Cloud) (initErr connErr : ℕ) :
    (∃ err : ℤ, err < 0 ∧ s.connect initErr connErr = (err, s)) ∨
      (s.connect initErr connErr).1 = 0 ∧
        (s.connect initErr connErr).2.cloudState = .connected ∧
        (s.connect initErr connErr).2.pyrinasCloudThreadSem.count ≠ 0 := by
  unfold connect
  split_ifs with hc hi hn
  · exact .inl ⟨_, by decide, rfl⟩
  · exact .inl ⟨_, by omega, rfl⟩
  · exact .inl ⟨_, by omega, rfl⟩
  · exact .inr ⟨rfl, rfl, by simp [setCloudState, cloudStateCallback]⟩

/-- A connection with the semaphore given. -/
theorem linkStep_of_given {s s' : Cloud} (hc : s'.cloudState = .connected)
    (hs : s'.pyrinasCloudThreadSem.count ≠ 0) : LinkStep s s' :=
  ⟨fun _ => .inl hs, fun _ hd => by simp [hc] at hd⟩

theorem linkStep_connect (s : Cloud) (initErr connErr : ℕ) :
    LinkStep s (s.connect initErr connErr).2 := by
  rcases s.connect_cases initErr connErr with ⟨err, -, heq⟩ | ⟨-, hc, hs⟩
  · rw [heq]
    exact linkStep_of_same rfl rfl rfl
  · exact linkStep_of_given hc hs

/-- **Reconnecting goes on until it has succeeded.** -/
theorem linkStep_reconnectWorkFn (s : Cloud) (initErr connErr : ℕ) :
    LinkStep s ({ s with reconnectWork := false }.reconnectWorkFn initErr connErr) := by
  rcases { s with reconnectWork := false }.connect_cases initErr connErr with
    ⟨err, hneg, heq⟩ | ⟨h0, hc, hs⟩
  · have hagain : err ≠ 0 ∧ err ≠ eInProgress := ⟨by omega, by unfold eInProgress; omega⟩
    simp only [reconnectWorkFn, heq, if_pos hagain]
    exact ⟨fun h => .inr ⟨h, rfl⟩, fun _ _ => rfl⟩
  · simp only [reconnectWorkFn, h0, ne_eq, not_true_eq_false, false_and, if_false]
    exact linkStep_of_given hc hs

theorem linkStep_otaMessage (s : Cloud) (data : List UInt8) (stack : DecodeStack) (rand : UInt32) :
    LinkStep s (s.otaMessage B data stack rand) := by
  unfold otaMessage
  dsimp only
  split
  · exact linkStep_of_same rfl rfl rfl
  · split_ifs <;> exact linkStep_of_same rfl rfl rfl

theorem linkStep_fotaStartFn (s : Cloud) (start : CString → CString → ℤ) :
    LinkStep s ({ s with fotaWork := false }.fotaStartFn start) := by
  unfold fotaStartFn fotaStartResult
  split
  · exact linkStep_of_same rfl rfl rfl
  · dsimp only
    split <;> exact linkStep_of_same rfl rfl rfl

theorem linkStep_connackEvt (s : Cloud) (result : ℤ) : LinkStep s (s.connackEvt result) := by
  unfold connackEvt
  split_ifs
  · exact linkStep_setCloudState s s
  · exact linkStep_of_same rfl rfl rfl

/-- **What a step does to the link.** -/
theorem link_step : LinkStep s (s.step B e) := by
  have hstep := canStep B s e
  generalize s.step B e = s' at hstep ⊢
  cases hstep with
  | connect initErr connErr => exact linkStep_connect s initErr connErr
  | reconnectWork initErr connErr => exact linkStep_reconnectWorkFn s initErr connErr
  | connack result => exact linkStep_connackEvt s result
  | disconnect => exact linkStep_setCloudState s _
  | otaMessage => exact linkStep_otaMessage s _ _ _
  | fotaWork start => exact linkStep_fotaStartFn s start
  | suback result messageId =>
    simp only [subackEvt]
    split_ifs <;> exact linkStep_of_same rfl rfl rfl
  | onConnectWork rand subRand =>
    simp only [onConnectFn]
    split_ifs <;> exact linkStep_of_same rfl rfl rfl
  | otaCheckSubscribedWork =>
    simp only [otaCheckSubscribedWorkFn]
    split_ifs <;> exact linkStep_of_same rfl rfl rfl
  | fotaEvt id => cases id <;> exact linkStep_of_same rfl rfl rfl
  | idle | telemetryCheck | publishTelemetryWork | otaRequestWork | otaDoneWork | otaRebootWork =>
    exact linkStep_of_same rfl rfl rfl

end Frame

end Cloud

end Pyrinas
