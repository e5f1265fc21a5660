import Pyrinas.Cloud.Cbor
import Pyrinas.Cloud.Steps

/-!
# Cloud/Progress — an upgrade ends in a reset, and a lost link is made again

What an upgrade waits for stays pending until it comes: `fota_work`, the end of the download, and
the reboot.  So does the next attempt to connect while the link is down, whichever attempts fail.

    newer manifest ─▸ fota_work ─▸ downloading ─▸ error or finished ─▸ ota_reboot_work ─▸ reset
    disconnected ─▸ reconnect_work ─▸ fails ─▸ reconnect_work ─▸ ⋯ ─▸ connected
-/

open Machinery

namespace Pyrinas

namespace Cloud

variable {B : CloudBuild} {s : Cloud} {e : CloudEvent}

/-! ## An upgrade -/

/-- The device does not run any more. -/
def Stopped (s : Cloud) : Prop := s.status ≠ .running

/-- The device is about to reboot, or has been reset. -/
def RebootDue (s : Cloud) : Prop := s.otaRebootWork ∨ s.Stopped

/-- A download is in progress, or has ended. -/
def DownloadDue (s : Cloud) : Prop := s.fotaBusy ∨ s.RebootDue

/-- A download is about to start, or has started. -/
def UpgradeDue (s : Cloud) : Prop := s.fotaWork ∨ s.DownloadDue

/-- An upgrade, and the events that it waits for. -/
inductive Upgrading : List CloudEvent → Cloud → Prop
  | starts {s : Cloud} (h : s.UpgradeDue) (start : CString → CString → ℤ) {id : FotaEvtId}
    (hid : id ≠ .other) : Upgrading [.fotaWork start, .fotaEvt id, .otaRebootWork] s
  | downloads {s : Cloud} (h : s.DownloadDue) {id : FotaEvtId} (hid : id ≠ .other) :
    Upgrading [.fotaEvt id, .otaRebootWork] s
  | reboots {s : Cloud} (h : s.RebootDue) : Upgrading [.otaRebootWork] s
  | ended {s : Cloud} (h : s.Stopped) : Upgrading [] s

theorem stopped_step (h : s.Stopped) (e : CloudEvent) : (s.step B e).Stopped :=
  fun hrun => h (running_of_step hrun)

/-- A run of `fota_work` starts a download, or the device is reset. -/
theorem downloadDue_fotaStartFn (start : CString → CString → ℤ) :
    (s.fotaStartFn start).DownloadDue := by
  unfold fotaStartFn
  split
  · exact .inr (.inr (by simp [Stopped]))
  next host file _ =>
    simp only [fotaStartResult]
    split
    · exact .inr (.inr (by simp [Stopped]))
    next herr =>
      refine .inl ?_
      simp only [fotaDownloadStart] at herr
      simp [fotaDownloadStart, setOtaState, otaStateCallback, not_not.mp herr]

/-- The end of a download reboots the device. -/
theorem rebootDue_fotaEvt {id : FotaEvtId} (hid : id ≠ .other) : (s.fotaEvt id).RebootDue := by
  cases id with
  | error | finished => exact .inl rfl
  | other => exact absurd rfl hid

/-- **What an upgrade waits for stays pending, or comes.** -/
theorem waits_step (s : Cloud) (e : CloudEvent) :
    (s.fotaWork → (s.step B e).UpgradeDue) ∧ (s.fotaBusy → (s.step B e).DownloadDue) ∧
      (s.otaRebootWork → (s.step B e).RebootDue) := by
  have hstep := canStep B s e
  generalize s.step B e = s' at hstep ⊢
  cases hstep with
  | idle | disconnect | telemetryCheck | publishTelemetryWork | otaRequestWork | otaDoneWork =>
    exact ⟨.inl, .inl, .inl⟩
  | otaMessage =>
    unfold otaMessage
    dsimp only
    split
    · exact ⟨.inl, .inl, .inl⟩
    · split_ifs
      · exact ⟨fun _ => .inl rfl, .inl, .inl⟩
      · exact ⟨.inl, .inl, .inl⟩
      · exact ⟨.inl, .inl, .inl⟩
  | fotaWork start =>
    have hdue := downloadDue_fotaStartFn (s := { s with fotaWork := false }) start
    refine ⟨fun _ => .inr hdue, fun _ => hdue, fun hreboot => .inl ?_⟩
    unfold fotaStartFn
    split
    · exact hreboot
    · simp only [fotaStartResult]
      split <;> exact hreboot
  | fotaEvt id =>
    cases id with
    | error | finished => exact ⟨.inl, fun _ => .inr (.inl rfl), fun _ => .inl rfl⟩
    | other => exact ⟨.inl, .inl, .inl⟩
  | otaRebootWork => exact ⟨.inl, .inl, fun _ => .inr (by simp [Stopped])⟩
  | onConnectWork rand subRand =>
    simp only [onConnectFn]
    split_ifs <;> exact ⟨.inl, .inl, .inl⟩
  | connect initErr connErr =>
    simp only [connect]
    split_ifs <;> exact ⟨.inl, .inl, .inl⟩
  | reconnectWork initErr connErr =>
    simp only [reconnectWorkFn, connect]
    split_ifs <;> exact ⟨.inl, .inl, .inl⟩
  | connack result =>
    simp only [connackEvt]
    split_ifs <;> exact ⟨.inl, .inl, .inl⟩
  | suback result messageId =>
    simp only [subackEvt]
    split_ifs <;> exact ⟨.inl, .inl, .inl⟩
  | otaCheckSubscribedWork =>
    simp only [otaCheckSubscribedWorkFn]
    split_ifs <;> exact ⟨.inl, .inl, .inl⟩

theorem rebootDue_step (h : s.RebootDue) (e : CloudEvent) : (s.step B e).RebootDue := by
  rcases h with hreboot | hstop
  · exact (waits_step s e).2.2 hreboot
  · exact .inr (stopped_step hstop e)

theorem downloadDue_step (h : s.DownloadDue) (e : CloudEvent) : (s.step B e).DownloadDue := by
  rcases h with hbusy | hreboot
  · exact (waits_step s e).2.1 hbusy
  · exact .inr (rebootDue_step hreboot e)

theorem upgradeDue_step (h : s.UpgradeDue) (e : CloudEvent) : (s.step B e).UpgradeDue := by
  rcases h with hwork | hdownload
  · exact (waits_step s e).1 hwork
  · exact .inr (downloadDue_step hdownload e)

/-- Other events let an upgrade wait on… -/
theorem upgrading_step (ks : List CloudEvent) (s : Cloud) (e : CloudEvent) (h : Upgrading ks s) :
    Upgrading ks (s.step B e) := by
  cases h with
  | starts h start hid => exact .starts (upgradeDue_step h e) start hid
  | downloads h hid => exact .downloads (downloadDue_step h e) hid
  | reboots h => exact .reboots (rebootDue_step h e)
  | ended h => exact .ended (stopped_step h e)

/-- …and the event that it waits for takes it on. -/
theorem upgrading_go (k : CloudEvent) (ks : List CloudEvent) (s : Cloud)
    (h : Upgrading (k :: ks) s) : Upgrading ks (s.step B k) := by
  by_cases hrun : s.status = .running
  · cases h with
    | starts h start hid =>
      refine .downloads ?_ hid
      rcases h with hwork | hdownload
      · rw [step_of_running hrun, handle, if_pos hwork]
        exact downloadDue_fotaStartFn start
      · exact downloadDue_step hdownload _
    | downloads h hid =>
      refine .reboots ?_
      rcases h with hbusy | hreboot
      · rw [step_of_running hrun, handle, if_pos hbusy]
        exact rebootDue_fotaEvt hid
      · exact rebootDue_step hreboot _
    | reboots h =>
      refine .ended ?_
      rw [step_of_running hrun, handle, if_pos (h.resolve_right fun hstop => hstop hrun)]
      simp [Stopped]
  · have hstop : (s.step B k).Stopped := stopped_step hrun k
    cases h with
    | starts h start hid => exact .downloads (.inr (.inr hstop)) hid
    | downloads h hid => exact .reboots (.inr hstop)
    | reboots h => exact .ended hstop

/-- **Every accepted upgrade ends in a reset**: after a newer manifest the device has stopped once
`fota_work`, the end of a download and `ota_reboot_work` have come, in this order and with any other
events between them. -/
theorem stopped_of_newer {data : List UInt8} {stack : DecodeStack} {rand : UInt32} {err : ℕ}
    {otaData : OtaData} (hd : s.otaDelivery B e = some (data, stack, rand))
    (hdec : decodeOtaData B.qcbor stack data s.otaData = some (err, otaData))
    (hnew : isNewer B err otaData) {es : List CloudEvent} {start : CString → CString → ℤ}
    {id : FotaEvtId} (hid : id ≠ .other)
    (hes : [.fotaWork start, .fotaEvt id, .otaRebootWork].Sublist es) :
    (run (step B) s (e :: es)).Stopped := by
  have hwork : (s.step B e).fotaWork = true := by
    rw [(step_of_otaDelivery hd).2]
    simp only [otaMessage, hdec, if_pos hnew]
  have hend : Upgrading [] (run (step B) (s.step B e) es) :=
    progress_run upgrading_step upgrading_go hes (.starts (.inl hwork) start hid)
  cases hend with
  | ended h => exact h

/-- The image of a newer manifest is downloaded while the link is lost. -/
theorem stopped_of_newer_lost :
    (run (step sampleBuild) .boot (otaMessageOf (manifestBytes 2 [97] [102]) ::
      [.fotaWork fun _ _ => 0, .disconnect, .fotaEvt .finished, .otaRebootWork])).Stopped := by
  have hboot : (decodeOtaData cborReader ⟨0, none, none⟩ (manifestBytes 2 [97] [102]) .zero).any
      fun r => isNewer sampleBuild r.1 r.2 := by decide +kernel
  obtain ⟨r, hdec, hnew⟩ := (Option.any_eq_true _ _).mp hboot
  have hes : [CloudEvent.fotaWork fun _ _ => 0, .fotaEvt .finished, .otaRebootWork].Sublist
      [.fotaWork fun _ _ => 0, .disconnect, .fotaEvt .finished, .otaRebootWork] :=
    ((List.Sublist.refl _).cons _).cons_cons _
  exact stopped_of_newer rfl hdec hnew (by decide) hes

/-! ## The link -/

/-- A link that is down is about to be made again. -/
def Recovers (s : Cloud) : Prop := s.cloudState = .disconnected → s.reconnectWork = true

theorem recovers_setCloudState (state : CloudState) : (s.setCloudState state).Recovers := by
  intro h
  simp only [setCloudState, cloudStateCallback] at h ⊢
  simp [h]

theorem recovers_connect (h : s.Recovers) (initErr connErr : ℕ) :
    (s.connect initErr connErr).2.Recovers := by
  unfold connect
  split_ifs
  · exact h
  · exact h
  · exact h
  · exact recovers_setCloudState .connected

/-- A run of `reconnect_work_fn` connects, or schedules another. -/
theorem recovers_reconnectWorkFn (initErr connErr : ℕ) :
    (s.reconnectWorkFn initErr connErr).Recovers := by
  have hconnects : (s.connect initErr connErr).1 = 0 ∨
      (s.connect initErr connErr).1 = eInProgress →
        (s.connect initErr connErr).2.Recovers := by
    unfold connect
    split_ifs with hc hinit hconn
    · exact fun h => by simp only [eInProgress] at h; omega
    · exact fun h => by simp only [eInProgress] at h; omega
    · exact fun h => by simp only [eInProgress] at h; omega
    · exact fun _ => recovers_setCloudState .connected
  unfold reconnectWorkFn
  dsimp only
  split
  · exact fun _ => rfl
  next herr =>
    rw [not_and_or, not_not, not_not] at herr
    exact hconnects herr

/-- **The next attempt stays pending while the link is down.** -/
theorem recovers_step (s : Cloud) (e : CloudEvent) (h : s.Recovers) : (s.step B e).Recovers := by
  have hstep := canStep B s e
  generalize s.step B e = s' at hstep ⊢
  cases hstep with
  | idle | telemetryCheck | otaRebootWork => exact h
  | publishTelemetryWork | otaRequestWork | otaDoneWork => exact h
  | connect initErr connErr => exact recovers_connect h initErr connErr
  | connack result =>
    unfold connackEvt
    split
    · exact recovers_setCloudState .disconnected
    · exact h
  | disconnect => exact recovers_setCloudState .disconnected
  | otaMessage =>
    unfold otaMessage
    dsimp only
    split
    · exact h
    · split_ifs <;> exact h
  | suback result messageId =>
    unfold subackEvt
    split_ifs <;> exact h
  | onConnectWork rand subRand =>
    unfold onConnectFn
    dsimp only
    split_ifs <;> exact h
  | otaCheckSubscribedWork =>
    unfold otaCheckSubscribedWorkFn
    split_ifs <;> exact h
  | fotaWork start =>
    unfold fotaStartFn
    split
    · exact h
    · simp only [fotaStartResult]
      split <;> exact h
  | reconnectWork initErr connErr => exact recovers_reconnectWorkFn initErr connErr
  | fotaEvt id => cases id <;> exact h

/-- An attempt that nothing fails in connects. -/
theorem cloudState_connect_zero (s : Cloud) : (s.connect 0 0).2.cloudState = .connected := by
  by_cases hc : s.cloudState = .connected
  · rw [connect, if_pos hc]
    exact hc
  · rw [connect, if_neg hc]
    rfl

/-- …and it is made when it is due. -/
theorem connected_reconnectWork (hrun : s.status = .running) (h : s.Recovers) :
    (s.step B (.reconnectWork 0 0)).cloudState = .connected := by
  rw [step_of_running hrun, handle]
  split
  next =>
    simp only [reconnectWorkFn]
    split <;> exact cloudState_connect_zero { s with reconnectWork := false }
  next hidle =>
    cases hc : s.cloudState with
    | connected => rfl
    | disconnected => exact absurd (h hc) hidle

/-- **A lost link is made again**: a client that has been connected has the next attempt pending
whenever it is not, whatever happens and whichever attempts fail; and the first in which nothing
fails connects it. -/
theorem reconnects (hup : s.cloudState = .connected) (es : List CloudEvent)
    (hrun : (run (step B) s es).status = .running) :
    ((run (step B) s es).cloudState = .disconnected → (run (step B) s es).reconnectWork = true) ∧
      (run (step B) s (es ++ [.reconnectWork 0 0])).cloudState = .connected := by
  have hstart : s.Recovers := fun hdown => by
    rw [hup] at hdown
    cases hdown
  have hrecovers : (run (step B) s es).Recovers := invariant_run_all recovers_step hstart es
  rw [run_append, run_cons, run_nil]
  exact ⟨hrecovers, connected_reconnectWork hrun hrecovers⟩

/-- The link is lost, and the first attempt fails. -/
theorem reconnects_second :
    ((run (step sampleBuild) (run (step sampleBuild) .boot [.connect 0 0])
        [.disconnect, .reconnectWork 0 111]).cloudState = .disconnected →
      (run (step sampleBuild) (run (step sampleBuild) .boot [.connect 0 0])
        [.disconnect, .reconnectWork 0 111]).reconnectWork = true) ∧
      (run (step sampleBuild) (run (step sampleBuild) .boot [.connect 0 0])
        ([.disconnect, .reconnectWork 0 111] ++ [.reconnectWork 0 0])).cloudState = .connected :=
  reconnects rfl _ rfl

end Cloud

end Pyrinas
