import Pyrinas.Cloud.Cbor
import Pyrinas.Cloud.Steps

/-!
# Cloud/Lockout — an accepted upgrade keeps the application from starting

`main` waits for `main_thread_proceed_sem` before it calls `setup`, and the semaphore is given only
while `ota_state_s` is ready.  Nothing sets it back to ready, so once a newer manifest has been
taken the client neither gives the semaphore nor queues `ota_done_work` nor subscribes to anything,
until the device is rebooted.

    ready ──newer manifest──▸ started ─▸ downloading ─▸ done        ready is not reached again
-/

open Machinery

namespace Pyrinas

/-- The client, and whether `main` has called `setup`. -/
structure Device where
  cloud : Cloud
  setup : Bool

/-- A step of the client, or `main` gets the semaphore. -/
inductive DeviceEvent
  | cloud (e : CloudEvent)
  | proceed

namespace Device

/-- `k_sem_take(&main_thread_proceed_sem, K_FOREVER)`, and `setup` after it. -/
def proceed (d : Device) : Device :=
  if d.cloud.status = .running ∧ d.setup = false ∧ d.cloud.mainThreadProceedSem.count ≠ 0 then
    { d with
      cloud.mainThreadProceedSem := d.cloud.mainThreadProceedSem.take
      setup := true }
  else d

/-- One event. -/
def step (B : CloudBuild) (d : Device) : DeviceEvent → Device
  | .cloud e => { d with cloud := d.cloud.step B e }
  | .proceed => d.proceed

end Device

namespace Cloud

/-- Between two states of the client nothing let the application start: `ota_done_work` was not
queued, nothing was subscribed to, and `main_thread_proceed_sem` was not given. -/
structure Quiet (s s' : Cloud) : Prop where
  otaDoneWork : s'.otaDoneWork → s.otaDoneWork
  calls : ∃ l, s'.calls = s.calls ++ l ∧ ∀ topic messageId, .mqttSubscribe topic messageId ∉ l
  proceed : s'.mainThreadProceedSem.count ≤ s.mainThreadProceedSem.count

namespace Quiet

variable {s s' s'' : Cloud}

theorem of_calls {l : List CloudCall} (hd : s'.otaDoneWork → s.otaDoneWork)
    (hc : s'.calls = s.calls ++ l) (hl : ∀ topic messageId, .mqttSubscribe topic messageId ∉ l)
    (hp : s'.mainThreadProceedSem = s.mainThreadProceedSem) : Quiet s s' :=
  ⟨hd, ⟨l, hc, hl⟩, by rw [hp]⟩

/-- Nothing that counts has changed. -/
theorem of_same (hd : s'.otaDoneWork = s.otaDoneWork) (hc : s'.calls = s.calls)
    (hp : s'.mainThreadProceedSem = s.mainThreadProceedSem) : Quiet s s' :=
  of_calls (l := []) (by rw [hd]; exact id) (by rw [hc, List.append_nil]) (by simp) hp

theorem refl (s : Cloud) : Quiet s s := of_same rfl rfl rfl

theorem trans (h : Quiet s s') (h' : Quiet s' s'') : Quiet s s'' := by
  obtain ⟨l, hl, hsub⟩ := h.calls
  obtain ⟨l', hl', hsub'⟩ := h'.calls
  refine ⟨h.otaDoneWork ∘ h'.otaDoneWork, ⟨l ++ l', ?_, ?_⟩, h'.proceed.trans h.proceed⟩
  · rw [hl', hl, List.append_assoc]
  · intro topic messageId hmem
    rcases List.mem_append.mp hmem with hm | hm
    · exact hsub topic messageId hm
    · exact hsub' topic messageId hm

/-- Publishing is no subscription. -/
theorem dataPublish {t : Cloud} (topic : List UInt8) (payload : CloudPayload) (rand : UInt32)
    (hd : t.otaDoneWork → s.otaDoneWork) (hc : t.calls = s.calls)
    (hp : t.mainThreadProceedSem = s.mainThreadProceedSem) :
    Quiet s (t.dataPublish topic payload rand) := by
  by_cases hconn : t.cloudState = .connected
  · have hcalls : (t.dataPublish topic payload rand).calls
        = s.calls ++ [.mqttPublish topic payload rand.toUInt16] := by
      simp only [Cloud.dataPublish, if_pos hconn, hc]
    exact of_calls hd hcalls (by simp) hp
  · have hcalls : (t.dataPublish topic payload rand).calls = s.calls ++ [] := by
      simp only [Cloud.dataPublish, if_neg hconn, hc, List.append_nil]
    exact of_calls hd hcalls (by simp) hp

end Quiet

/-! ## A step of the client -/

/-- The OTA state has left ready, and nothing let the application start on the way from `s`. -/
def LockedSince (s s' : Cloud) : Prop := s'.otaState ≠ .ready ∧ Quiet s s'

section Step

variable {B : CloudBuild} {s : Cloud}

/-- Nothing that counts is changed after it. -/
theorem LockedSince.of_same {t t' : Cloud} (h : LockedSince s t) (ho : t'.otaState = t.otaState)
    (hd : t'.otaDoneWork = t.otaDoneWork) (hc : t'.calls = t.calls)
    (hp : t'.mainThreadProceedSem = t.mainThreadProceedSem) : LockedSince s t' :=
  ⟨ho ▸ h.1, h.2.trans (Quiet.of_same hd hc hp)⟩

/-- A state other than ready is told to `main`, which does not go on. -/
theorem lockedSince_setOtaState {t : Cloud} (state : OtaState) (hstate : state ≠ .ready)
    (h : Quiet s t) : LockedSince s (t.setOtaState state) := by
  refine ⟨hstate, h.trans (Quiet.of_same rfl rfl ?_)⟩
  simp [setOtaState, otaStateCallback, hstate]

theorem lockedSince_otaMessage (h : s.otaState ≠ .ready) (data : List UInt8) (stack : DecodeStack)
    (rand : UInt32) : LockedSince s (s.otaMessage B data stack rand) := by
  unfold otaMessage
  dsimp only
  split
  · exact ⟨h, Quiet.of_same rfl rfl rfl⟩
  · split_ifs
    · exact (lockedSince_setOtaState .started (by decide)
        (Quiet.of_same rfl rfl rfl)).of_same rfl rfl rfl rfl
    · exact ⟨h, Quiet.of_same rfl rfl rfl⟩

theorem lockedSince_fotaStartResult {t : Cloud} (h : Quiet s t) (err : ℤ) :
    LockedSince s (t.fotaStartResult err) := by
  unfold fotaStartResult
  split
  · exact (lockedSince_setOtaState .error (by decide) h).of_same rfl rfl rfl rfl
  · exact lockedSince_setOtaState .downloading (by decide) h

theorem lockedSince_fotaStartFn {t : Cloud} (h : t.otaState ≠ .ready) (hq : Quiet s t)
    (start : CString → CString → ℤ) : LockedSince s (t.fotaStartFn start) := by
  unfold fotaStartFn
  split
  · exact ⟨h, hq.trans (Quiet.of_same rfl rfl rfl)⟩
  next host file _ =>
    refine lockedSince_fotaStartResult (hq.trans ?_) _
    exact Quiet.of_calls id rfl (l := [.fotaDownloadStart host file]) (by simp) rfl

theorem lockedSince_fotaEvt (h : s.otaState ≠ .ready) (id : FotaEvtId) :
    LockedSince s (s.fotaEvt id) := by
  cases id with
  | error =>
    exact (lockedSince_setOtaState .error (by decide) (Quiet.refl s)).of_same
      rfl rfl rfl rfl
  | finished =>
    exact (lockedSince_setOtaState .done (by decide) (Quiet.refl s)).of_same
      rfl rfl rfl rfl
  | other => exact ⟨h, Quiet.refl s⟩

/-- **Once the OTA state is not ready, a step leaves it so and lets nothing start.** -/
theorem lockedSince_step (h : s.otaState ≠ .ready) (e : CloudEvent) :
    LockedSince s (s.step B e) := by
  have hstep := canStep B s e
  generalize s.step B e = s' at hstep ⊢
  cases hstep with
  | idle | disconnect | telemetryCheck | otaRebootWork => exact ⟨h, Quiet.of_same rfl rfl rfl⟩
  | otaMessage => exact lockedSince_otaMessage h _ _ _
  | fotaWork start =>
    have hq : Quiet s { s with fotaWork := false } := Quiet.of_same rfl rfl rfl
    exact lockedSince_fotaStartFn (t := { s with fotaWork := false }) h hq start
  | fotaEvt id => exact lockedSince_fotaEvt h id
  | publishTelemetryWork rand => exact ⟨h, Quiet.dataPublish _ _ rand id rfl rfl⟩
  | otaRequestWork rand => exact ⟨h, Quiet.dataPublish _ _ rand id rfl rfl⟩
  | otaDoneWork rand =>
    exact ⟨h, Quiet.dataPublish _ _ rand (fun hd => absurd hd (by simp)) rfl rfl⟩
  | onConnectWork rand subRand =>
    simp only [onConnectFn]
    split
    next hready => exact absurd hready h
    next => exact ⟨h, Quiet.dataPublish _ _ rand id rfl rfl⟩
  | connect initErr connErr =>
    simp only [connect]
    split_ifs <;> exact ⟨h, Quiet.of_same rfl rfl rfl⟩
  | reconnectWork initErr connErr =>
    simp only [reconnectWorkFn, connect]
    split_ifs <;> exact ⟨h, Quiet.of_same rfl rfl rfl⟩
  | connack result =>
    simp only [connackEvt]
    split_ifs <;> exact ⟨h, Quiet.of_same rfl rfl rfl⟩
  | suback result messageId =>
    simp only [subackEvt]
    split_ifs <;> exact ⟨h, Quiet.of_same rfl rfl rfl⟩
  | otaCheckSubscribedWork =>
    simp only [otaCheckSubscribedWorkFn]
    split_ifs <;> exact ⟨h, Quiet.of_same rfl rfl rfl⟩

/-- **A newer manifest is processed.** -/
theorem lockedSince_newer {e : CloudEvent} {data : List UInt8} {stack : DecodeStack}
    {rand : UInt32} {err : ℕ} {d : OtaData} (hd : s.otaDelivery B e = some (data, stack, rand))
    (hdec : decodeOtaData B.qcbor stack data s.otaData = some (err, d))
    (hnew : isNewer B err d) : LockedSince s (s.step B e) := by
  rw [(step_of_otaDelivery hd).2]
  simp only [otaMessage, hdec, if_pos hnew]
  exact (lockedSince_setOtaState .started (by decide)
    (Quiet.of_same rfl rfl rfl)).of_same rfl rfl rfl rfl

end Step

end Cloud

namespace Device

/-! ## Runs of the device -/

variable {B : CloudBuild}

/-- Whatever happens to a device whose OTA state is not ready. -/
structure Locked (d d' : Device) : Prop where
  since : d.cloud.LockedSince d'.cloud
  setup : d.setup = false → d.cloud.mainThreadProceedSem.count = 0 → d'.setup = false

theorem Locked.trans {d d' d'' : Device} (h : Locked d d') (h' : Locked d' d'') : Locked d d'' := by
  refine ⟨⟨h'.since.1, h.since.2.trans h'.since.2⟩, ?_⟩
  intro hsetup hcount
  have hzero : d'.cloud.mainThreadProceedSem.count = 0 :=
    Nat.le_zero.mp (hcount ▸ h.since.2.proceed)
  exact h'.setup (h.setup hsetup hcount) hzero

theorem locked_of_cloud {d : Device} {s : Cloud} (h : d.cloud.LockedSince s) :
    Locked d { d with cloud := s } := ⟨h, fun hsetup _ => hsetup⟩

theorem locked_step (d : Device) (e : DeviceEvent) (h : d.cloud.otaState ≠ .ready) :
    Locked d (d.step B e) := by
  cases e with
  | cloud e => exact locked_of_cloud (Cloud.lockedSince_step h e)
  | proceed =>
    simp only [step, proceed]
    split
    next hgo =>
      have hle : d.cloud.mainThreadProceedSem.take.count ≤ d.cloud.mainThreadProceedSem.count :=
        Nat.sub_le _ 1
      exact ⟨⟨h, id, ⟨[], by simp, by simp⟩, hle⟩, fun _ hcount => absurd hcount hgo.2.2⟩
    next => exact locked_of_cloud ⟨h, Cloud.Quiet.refl _⟩

/-- **…and so it is along a run.** -/
theorem locked_run (d : Device) (es : List DeviceEvent) (h : d.cloud.otaState ≠ .ready) :
    Locked d (run (step B) d es) := by
  induction es generalizing d with
  | nil => exact locked_of_cloud ⟨h, Cloud.Quiet.refl _⟩
  | cons e es ih =>
    have hstep := locked_step (B := B) d e h
    exact hstep.trans (ih _ hstep.since.1)

/-- **An accepted upgrade locks out the application start**: `ota_state_s` never returns to ready
once it has left it; and after a newer manifest has been processed, at any two later points of any
run, nothing let the application start in between, nor did `main` if it had not been let to. -/
theorem upgrade_locks_out (B : CloudBuild) :
    (∀ (d : Device) (es : List DeviceEvent), d.cloud.otaState ≠ .ready →
      (run (step B) d es).cloud.otaState ≠ .ready) ∧
    ∀ (d : Device) (e : CloudEvent) (data : List UInt8) (stack : DecodeStack) (rand : UInt32)
      (err : ℕ) (otaData : OtaData), d.cloud.otaDelivery B e = some (data, stack, rand) →
      decodeOtaData B.qcbor stack data d.cloud.otaData = some (err, otaData) →
      Cloud.isNewer B err otaData →
      Locked d (d.step B (.cloud e)) ∧
      ∀ es fs,
        Locked (run (step B) d (.cloud e :: es)) (run (step B) d (.cloud e :: es ++ fs)) := by
  refine ⟨fun d es h => (locked_run d es h).since.1, ?_⟩
  intro d e data stack rand err otaData hd hdec hnew
  have hlocked := locked_of_cloud (Cloud.lockedSince_newer hd hdec hnew)
  refine ⟨hlocked, ?_⟩
  intro es fs
  rw [run_append]
  exact locked_run _ fs (locked_run _ es hlocked.since.1).since.1

/-- A newer manifest comes before the device has said that it is done, then the link is lost and
made again, and `main` waits. -/
theorem upgrade_locks_out_boot :
    (run (step sampleBuild) ⟨.boot, false⟩ (.cloud (otaMessageOf (manifestBytes 2 [97] [102])) ::
      [] ++ [.cloud .disconnect, .cloud (.reconnectWork 0 0), .cloud (.connack 0),
        .cloud (.onConnectWork 1 2), .proceed])).setup = false := by
  have hboot : (decodeOtaData cborReader ⟨0, none, none⟩ (manifestBytes 2 [97] [102]) .zero).any
      fun r => Cloud.isNewer sampleBuild r.1 r.2 := by decide +kernel
  obtain ⟨r, hdec, hnew⟩ := (Option.any_eq_true _ _).mp hboot
  have hlocked := (upgrade_locks_out sampleBuild).2 ⟨.boot, false⟩
    (otaMessageOf (manifestBytes 2 [97] [102])) _ ⟨0, none, none⟩ 0 r.1 r.2 rfl hdec hnew
  exact (hlocked.1.trans (hlocked.2 [] _)).setup rfl rfl

end Device

end Pyrinas
