import Pyrinas.Cloud.Lockout
import Pyrinas.Cloud.Packets

/-!
# Cloud/Startup — what lets the application start

`main` waits for the server to settle the OTA check: a message that is no update, or cannot be
decoded, while no update is on its way.  Nothing else gives `main_thread_proceed_sem`.  Without an
answer the check resets the device; so a device that has been checked lets the application start,
or upgrades.

    OTA message, no update ─▸ SUBSCRIBE app/sub ─▸ main_thread_proceed_sem ─▸ main ─▸ setup
-/

open Machinery

namespace Pyrinas

namespace Cloud

/-- The event settles the OTA check: the server has answered, and there is nothing to upgrade to. -/
def Settles (B : CloudBuild) (s : Cloud) (e : CloudEvent) : Prop :=
  ∃ data stack rand err otaData, s.otaDelivery B e = some (data, stack, rand) ∧
    decodeOtaData B.qcbor stack data s.otaData = some (err, otaData) ∧
    isNewer B err otaData = false ∧ s.otaState = .ready

variable {B : CloudBuild} {s : Cloud} {e : CloudEvent}

/-- **An event that settles the check** subscribes for the application, and lets `main` go on. -/
theorem step_of_settles (h : s.Settles B e) :
    (s.step B e).mainThreadProceedSem = s.mainThreadProceedSem.give ∧
      ∃ messageId, .mqttSubscribe B.applicationSubTopic messageId ∈ (s.step B e).calls := by
  obtain ⟨data, stack, rand, err, otaData, hd, hdec, hold, hready⟩ := h
  rw [(step_of_otaDelivery hd).2]
  simp only [otaMessage, hdec, hold, Bool.false_eq_true, if_false, hready, if_true, subscribe,
    otaStateCallback]
  exact ⟨trivial, rand.toUInt16, List.mem_append_right _ (List.mem_singleton.mpr rfl)⟩

theorem sem_fotaStartFn (start : CString → CString → ℤ) :
    (s.fotaStartFn start).mainThreadProceedSem = s.mainThreadProceedSem := by
  unfold fotaStartFn fotaStartResult
  split
  · rfl
  · dsimp only
    split <;> simp [setOtaState, otaStateCallback, fotaDownloadStart]

/-- **Nothing else lets `main` go on.** -/
theorem sem_step (h : ¬ s.Settles B e) :
    (s.step B e).mainThreadProceedSem = s.mainThreadProceedSem := by
  have hstep := canStep B s e
  generalize s.step B e = s' at hstep ⊢
  cases hstep with
  | otaMessage hd =>
    unfold otaMessage
    dsimp only
    split
    · rfl
    next err otaData hdec =>
      split_ifs with hnew hready
      · simp [setOtaState, otaStateCallback]
      · exact absurd ⟨_, _, _, err, otaData, hd, hdec, Bool.eq_false_iff.mpr hnew, hready⟩ h
      · rfl
  | fotaWork start => exact sem_fotaStartFn start
  | fotaEvt id => cases id <;> simp [fotaEvt, setOtaState, otaStateCallback]
  | onConnectWork rand subRand =>
    simp only [onConnectFn]
    split_ifs <;> rfl
  | connect initErr connErr =>
    simp only [connect]
    split_ifs <;> rfl
  | reconnectWork initErr connErr =>
    simp only [reconnectWorkFn, connect]
    split_ifs <;> rfl
  | connack result =>
    simp only [connackEvt]
    split_ifs <;> rfl
  | suback result messageId =>
    simp only [subackEvt]
    split_ifs <;> rfl
  | otaCheckSubscribedWork =>
    simp only [otaCheckSubscribedWorkFn]
    split_ifs <;> rfl
  | _ => rfl

/-- The check has been answered when an OTA message has come. -/
theorem initialOtaCheck_step :
    (s.step B e).initialOtaCheck = (s.initialOtaCheck || (s.otaDelivery B e).isSome) := by
  rcases event_cases B s e with ⟨data, stack, rand, hd⟩ | ⟨start, rfl⟩ | hunrelated
  · rw [(step_of_otaDelivery hd).2, hd, Option.isSome_some, Bool.or_true]
    unfold otaMessage
    dsimp only
    split
    · rfl
    · split_ifs <;> rfl
  · have hnone : s.otaDelivery B (.fotaWork start) = none := rfl
    rw [hnone, Option.isSome_none, Bool.or_false]
    by_cases hw : s.status = .running ∧ s.fotaWork
    · rw [step_of_running hw.1, handle, if_pos hw.2, fotaStartFn]
      split
      · rfl
      · simp only [fotaStartResult]
        split <;> rfl
    · rw [step_fotaWork_idle hw]
  · rw [(step_unrelated hunrelated).initialOtaCheck, hunrelated.1, Option.isSome_none,
      Bool.or_false]

/-- An OTA message that settles nothing faults, or an upgrade is on its way. -/
theorem step_of_not_settles {data : List UInt8} {stack : DecodeStack} {rand : UInt32}
    (hd : s.otaDelivery B e = some (data, stack, rand)) (h : ¬ s.Settles B e)
    (hrun : (s.step B e).status = .running) : (s.step B e).otaState ≠ .ready := by
  rw [(step_of_otaDelivery hd).2] at hrun ⊢
  unfold otaMessage at hrun ⊢
  dsimp only at hrun ⊢
  split at hrun
  · cases hrun
  next err otaData hdec =>
    split_ifs with hnew hready
    · simp [setOtaState, otaStateCallback]
    · exact absurd ⟨_, _, _, err, otaData, hd, hdec, Bool.eq_false_iff.mpr hnew, hready⟩ h
    · exact hready

end Cloud

namespace Device

/-- At boot. -/
def boot : Device := ⟨.boot, false⟩

/-- `main` has been let go on. -/
def Proceeds (d : Device) : Prop := d.setup = true ∨ d.cloud.mainThreadProceedSem.count ≠ 0

variable {B : CloudBuild}

/-- `main` goes on when it can. -/
theorem proceed_eq (d : Device) : d.proceed.Proceeds ↔ d.Proceeds := by
  unfold proceed
  split
  next h => exact ⟨fun _ => .inr h.2.2, fun _ => .inl rfl⟩
  next => exact Iff.rfl

/-- **`main` is let go on by an event that settles the check.** -/
theorem proceeds_step (d : Device) (e : DeviceEvent) :
    (d.step B e).Proceeds ↔ d.Proceeds ∨ ∃ e', e = .cloud e' ∧ d.cloud.Settles B e' := by
  cases e with
  | proceed => simp [step, proceed_eq]
  | cloud e =>
    by_cases h : d.cloud.Settles B e
    · refine iff_of_true (.inr ?_) (.inr ⟨e, rfl, h⟩)
      have hsem : (d.step B (.cloud e)).cloud.mainThreadProceedSem = _ :=
        (Cloud.step_of_settles h).1
      rw [hsem, Semaphore.count_give_one]
      exact one_ne_zero
    · have hsem := Cloud.sem_step h
      have hnone : ¬ ∃ e', DeviceEvent.cloud e = .cloud e' ∧ d.cloud.Settles B e' := by
        rintro ⟨e', heq, hs⟩
        obtain rfl := DeviceEvent.cloud.inj heq
        exact h hs
      rw [or_iff_left hnone]
      exact or_congr_right (by rw [step, hsem])

/-- It then calls `setup`, on a device that runs. -/
theorem setup_step (d : Device) (e : DeviceEvent) :
    (d.step B e).setup = true ↔ d.setup = true ∨
      (e = .proceed ∧ d.cloud.status = .running ∧ d.Proceeds) := by
  cases e with
  | cloud e => simp [step]
  | proceed =>
    simp only [step, proceed, Proceeds]
    cases hsetup : d.setup <;> split <;> simp_all

/-- Nothing that was called is forgotten. -/
theorem calls_step (d : Device) (e : DeviceEvent) : ∃ l, (d.step B e).cloud.calls
    = d.cloud.calls ++ l := by
  cases e with
  | proceed =>
    simp only [step, proceed]
    split <;> exact ⟨[], (List.append_nil _).symm⟩
  | cloud e =>
    by_cases hrun : d.cloud.status = .running
    · obtain ⟨l, hl, -⟩ := Cloud.passes_step (B := B) hrun e
      exact ⟨l, hl⟩
    · exact ⟨[], by rw [step, Cloud.step_of_not_running hrun, List.append_nil]⟩

/-- `main` is not let go on before the client has subscribed for the application. -/
def Subscribed (B : CloudBuild) (d : Device) : Prop :=
  d.Proceeds → ∃ messageId, .mqttSubscribe B.applicationSubTopic messageId ∈ d.cloud.calls

theorem subscribed_step (d : Device) (e : DeviceEvent) (h : Subscribed B d) :
    Subscribed B (d.step B e) := by
  intro hp
  rcases (proceeds_step d e).mp hp with hp | ⟨e, rfl, hs⟩
  · obtain ⟨messageId, hmem⟩ := h hp
    obtain ⟨l, hl⟩ := calls_step (B := B) d e
    exact ⟨messageId, hl ▸ List.mem_append_left l hmem⟩
  · exact (Cloud.step_of_settles hs).2

theorem not_proceeds_boot : ¬ boot.Proceeds := by
  rintro (h | h)
  · cases h
  · exact h rfl

/-- **The application is started exactly when `main` goes on after the check is settled**, and not
before the client has subscribed for it. -/
theorem setup_iff (B : CloudBuild) (es : List DeviceEvent) :
    ((run (step B) boot es).setup = true ↔ ∃ qs e rs ts,
      es = qs ++ .cloud e :: rs ++ .proceed :: ts ∧
      (run (step B) boot qs).cloud.Settles B e ∧
      (run (step B) boot (qs ++ .cloud e :: rs)).cloud.status = .running) ∧
    ((run (step B) boot es).setup = true →
      ∃ messageId, .mqttSubscribe B.applicationSubTopic messageId
        ∈ (run (step B) boot es).cloud.calls) := by
  have hproceeds := latch_run (proceeds_step (B := B)) boot
  have hcalled := latch_run (P := fun d => d.setup = true) (setup_step (B := B)) boot es
  refine ⟨?_, fun hsetup => ?_⟩
  · have hfalse : ¬ boot.setup = true := Bool.false_ne_true
    rw [hcalled, or_iff_right hfalse]
    constructor
    · rintro ⟨qs, _, ts, rfl, rfl, hrun, hp⟩
      obtain ⟨qs, _, rs, rfl, e, rfl, hs⟩ :=
        ((hproceeds qs).mp hp).resolve_left not_proceeds_boot
      exact ⟨qs, e, rs, ts, rfl, hs, hrun⟩
    · rintro ⟨qs, e, rs, ts, rfl, hs, hrun⟩
      exact ⟨_, _, ts, rfl, rfl, hrun, (hproceeds _).mpr (.inr ⟨qs, _, rs, rfl, e, rfl, hs⟩)⟩
  · have hboot : Subscribed B boot := fun hp => absurd hp not_proceeds_boot
    exact invariant_run_all subscribed_step hboot es (.inl hsetup)

/-! ## No device waits for ever -/

/-- A check that was answered is settled, or an upgrade is on its way. -/
def Answered (d : Device) : Prop :=
  d.cloud.status = .running → d.cloud.initialOtaCheck = true →
    d.cloud.otaState ≠ .ready ∨ d.Proceeds

theorem answered_step (d : Device) (e : DeviceEvent) (h : d.Answered) :
    (d.step B e).Answered := by
  cases e with
  | proceed =>
    have hcloud : d.proceed.cloud.status = d.cloud.status ∧
        d.proceed.cloud.initialOtaCheck = d.cloud.initialOtaCheck ∧
        d.proceed.cloud.otaState = d.cloud.otaState := by
      unfold proceed
      split <;> exact ⟨rfl, rfl, rfl⟩
    obtain ⟨hstatus, hcheck, hstate⟩ := hcloud
    rw [Answered, step, hstatus, hcheck, hstate, proceed_eq]
    exact h
  | cloud e =>
    intro hrun hcheck
    by_cases hready : d.cloud.otaState = .ready
    · by_cases hs : d.cloud.Settles B e
      · exact .inr ((proceeds_step d _).mpr (.inr ⟨e, rfl, hs⟩))
      · cases hd : d.cloud.otaDelivery B e with
        | some m => exact .inl (Cloud.step_of_not_settles hd hs hrun)
        | none =>
          have hbefore : d.cloud.initialOtaCheck = true := by
            have hsame := Cloud.initialOtaCheck_step (B := B) (s := d.cloud) (e := e)
            rw [hd, Option.isSome_none, Bool.or_false] at hsame
            exact hsame ▸ hcheck
          have hp := (h (Cloud.running_of_step hrun) hbefore).resolve_left fun hne => hne hready
          exact .inr ((proceeds_step d _).mpr (.inl hp))
    · exact .inl (Cloud.lockedSince_step hready e).1

/-- A device that still runs has had an answer. -/
def Checked (d : Device) : Prop := d.cloud.status = .running → d.cloud.initialOtaCheck = true

theorem checked_step (d : Device) (e : DeviceEvent) (h : d.Checked) : (d.step B e).Checked := by
  cases e with
  | proceed =>
    simp only [step, proceed]
    split <;> exact h
  | cloud e =>
    intro hrun
    have hbefore : d.cloud.initialOtaCheck = true := h (Cloud.running_of_step hrun)
    have hsame := Cloud.initialOtaCheck_step (B := B) (s := d.cloud) (e := e)
    rwa [hbefore, Bool.true_or] at hsame

/-- The check resets a device that has had no answer. -/
theorem checked_otaCheckSubscribedWork (hassert : B.assert = true) {d : Device}
    (hdue : d.cloud.otaCheckSubscribedWork = true) :
    (d.step B (.cloud .otaCheckSubscribedWork)).Checked := by
  intro hrun
  have hbefore : d.cloud.status = .running := Cloud.running_of_step hrun
  by_cases hcheck : d.cloud.initialOtaCheck = true
  · have hsame := Cloud.initialOtaCheck_step (B := B) (s := d.cloud)
      (e := .otaCheckSubscribedWork)
    rwa [hcheck, Bool.true_or] at hsame
  · simp [step, Cloud.step_of_running hbefore, Cloud.handle, hdue, Cloud.otaCheckSubscribedWorkFn,
      hassert, Bool.eq_false_iff.mpr hcheck] at hrun

/-- **A device that has been checked, and runs, lets the application start or upgrades.** -/
theorem proceeds_of_checked (hassert : B.assert = true) (qs rs : List DeviceEvent)
    (hdue : (run (step B) boot qs).cloud.otaCheckSubscribedWork = true)
    (hrun : (run (step B) boot (qs ++ .cloud .otaCheckSubscribedWork :: rs)).cloud.status
      = .running) :
    (run (step B) boot (qs ++ .cloud .otaCheckSubscribedWork :: rs)).Proceeds ∨
      (run (step B) boot (qs ++ .cloud .otaCheckSubscribedWork :: rs)).cloud.otaState
        ≠ .ready := by
  have hboot : boot.Answered := fun _ h => by cases h
  have hanswered := invariant_run_all (answered_step (B := B)) hboot
    (qs ++ .cloud .otaCheckSubscribedWork :: rs)
  have hchecked : (run (step B) boot (qs ++ .cloud .otaCheckSubscribedWork :: rs)).Checked := by
    rw [run_append, run_cons]
    exact invariant_run_all checked_step (checked_otaCheckSubscribedWork hassert hdue) rs
  exact (hanswered hrun (hchecked hrun)).symm

/-- The manifest of the version that runs is answered in time. -/
theorem proceeds_of_checked_settled :
    (run (step sampleBuild) boot ([.cloud (.suback 0 0), .cloud (otaMessageOf
      (manifestBytes 1 [97] [102]))] ++ .cloud .otaCheckSubscribedWork :: [.proceed])).Proceeds ∨
      (run (step sampleBuild) boot ([.cloud (.suback 0 0), .cloud (otaMessageOf
        (manifestBytes 1 [97] [102]))]
          ++ .cloud .otaCheckSubscribedWork :: [.proceed])).cloud.otaState ≠ .ready :=
  proceeds_of_checked rfl _ _ (by decide +kernel) (by decide +kernel)

end Device

end Pyrinas
