import Pyrinas.Cloud.Decoded

/-!
# Cloud/Redelivery — when further OTA messages leave an upgrade alone

The broker may deliver a message again at any time.  `publish_evt_handler` decides by the version
alone: a manifest that is newer than the running version starts the upgrade, also if the upgrade is
already downloading or done.  Next to the client runs the same client without the OTA messages that
arrive while an upgrade is started, downloading or done.

    actual    approve ─▸ started ─▸ downloading ─ redelivery ─▸ started ─▸ start refused ─▸ error
    without   approve ─▸ started ─▸ downloading ──────────────────────────────────────────▸ done
-/

open Machinery

namespace Pyrinas

/-- The states of an upgrade under way. -/
def OtaState.inUpgrade : OtaState → Bool
  | .started | .downloading | .done => true
  | _ => false

/-- The client, and the client without the extra OTA messages; whether one of those has moved
`ota_state_s` back to started; how many downloads were started for the upgrade; and whether the two
clients have reached `ota_state_error`. -/
structure Redelivery where
  actual : Cloud
  without : Cloud
  movedBack : Bool
  starts : ℕ
  actualError : Bool
  withoutError : Bool

namespace Redelivery

variable (B : CloudBuild)

/-- Both clients at boot. -/
def start : Redelivery := ⟨.boot, .boot, false, 0, false, false⟩

/-- An event brings an OTA message while an upgrade is under way. -/
def isExtra (s : Cloud) (e : CloudEvent) : Bool :=
  (s.otaDelivery B e).isSome && s.otaState.inUpgrade

/-- An event starts another upgrade. -/
def startsUpgrade (s : Cloud) (e : CloudEvent) : Bool :=
  (s.otaDelivery B e).isSome && !s.otaState.inUpgrade && (s.step B e).otaState = .started

/-- One event, which the second client does not get if it is extra. -/
def step (x : Redelivery) (e : CloudEvent) : Redelivery :=
  let actual := x.actual.step B e
  let without := if isExtra B x.actual e then x.without else x.without.step B e
  { actual := actual
    without := without
    movedBack := x.movedBack ||
      (isExtra B x.actual e && x.actual.otaState ≠ .started && actual.otaState = .started)
    starts := if startsUpgrade B x.actual e then 0
      else x.starts + (actual.downloads.length - x.actual.downloads.length)
    actualError := x.actualError || actual.otaState = .error
    withoutError := x.withoutError || without.otaState = .error }

/-- Without the extra messages the upgrade has failed. -/
def Broken (x : Redelivery) : Prop := x.withoutError = true ∨ x.without.status = .faulted

/-- No extra message moved the state back to started; there was one download for the upgrade; and an
error, a reboot or a fault there would also have been without the extra messages. -/
def Idempotent (x : Redelivery) : Prop :=
  x.movedBack = false ∧ x.starts ≤ 1 ∧ (x.actualError → Broken x) ∧
    (x.actual.status = .rebooted → x.without.status = .rebooted ∨ Broken x) ∧
    (x.actual.status = .faulted → Broken x)

/-- An extra message is not newer than the running version once the download has started; the texts
it stores can be read and fit; and before the download has started, `host` and `file` read with them
over the texts that are there as the approved manifest left them. -/
def Harmless (x : Redelivery) (e : CloudEvent) : Prop :=
  ∀ data stack rand, x.actual.otaDelivery B e = some (data, stack, rand) →
    x.actual.otaState.inUpgrade →
      (x.actual.otaState ≠ .started → ∀ err d,
        decodeOtaData B.qcbor stack data x.actual.otaData = some (err, d) →
          Cloud.isNewer B err d = false) ∧
      (¬ Broken x → (∀ w ∈ otaWrites B.qcbor stack data, w.CanWrite) ∧
        (x.actual.otaState = .started → ∀ url, x.without.otaData.url = some url →
          x.actual.otaData.ReadsAs (otaWrites B.qcbor stack data) url))

/-! ## The upgrade of the client itself -/

/-- `fota_work` is pending exactly in the state started, with no download started yet; and a
download is in progress only in the state downloading. -/
structure UpgradeSound (x : Redelivery) : Prop where
  movedBack : x.movedBack = false
  starts : x.starts ≤ 1
  state : x.actual.otaState ≠ .reboot ∧ x.actual.otaState ≠ .rebooting
  error : x.actual.otaState = .error → x.actualError
  busy : x.actual.fotaBusy → x.actual.otaState = .downloading
  pending : x.actual.status = .running → (x.actual.fotaWork ↔ x.actual.otaState = .started)
  fresh : x.actual.status = .running → x.actual.otaState = .started → x.starts = 0
  check : x.actual.otaState ≠ .ready → x.actual.initialOtaCheck

/-- Outside the state downloading no download is in progress. -/
theorem UpgradeSound.idle {x : Redelivery} (h : UpgradeSound x)
    (hs : x.actual.otaState ≠ .downloading) : x.actual.fotaBusy = false := by
  by_contra hb
  exact hs (h.busy (by simpa using hb))

theorem upgradeSound_start : UpgradeSound start := by
  constructor <;> decide

variable {B}

@[simp] theorem actual_step (x : Redelivery) (e : CloudEvent) :
    (x.step B e).actual = x.actual.step B e := rfl

/-- An event that is no OTA message is not extra, and starts no upgrade. -/
theorem isExtra_of_none {s : Cloud} {e : CloudEvent} (h : s.otaDelivery B e = none) :
    isExtra B s e = false ∧ startsUpgrade B s e = false := by
  simp [isExtra, startsUpgrade, h]

/-- Without an upgrade that starts, the downloads of a step are counted. -/
theorem starts_of_not_startsUpgrade {x : Redelivery} {e : CloudEvent}
    (h : startsUpgrade B x.actual e = false) : (x.step B e).starts
      = x.starts + ((x.actual.step B e).downloads.length - x.actual.downloads.length) := by
  simp [step, h]

theorem movedBack_of_not_extra {x : Redelivery} {e : CloudEvent}
    (h : isExtra B x.actual e = false) : (x.step B e).movedBack = x.movedBack := by
  simp [step, h]

theorem actualError_of_error {x : Redelivery} {e : CloudEvent}
    (h : (x.actual.step B e).otaState = .error) : (x.step B e).actualError := by
  simp [step, h]

/-- An event that starts no upgrade and does not touch the state. -/
theorem upgradeSound_of_same {x : Redelivery} {e : CloudEvent} (h : UpgradeSound x)
    (hstate : (x.actual.step B e).otaState = x.actual.otaState)
    (hbusy : (x.actual.step B e).fotaBusy = x.actual.fotaBusy)
    (hdl : (x.actual.step B e).downloads = x.actual.downloads)
    (hwork : (x.actual.step B e).status = .running →
      (x.actual.step B e).fotaWork = x.actual.fotaWork)
    (hcheck : x.actual.initialOtaCheck → (x.actual.step B e).initialOtaCheck) :
    UpgradeSound (x.step B e) := by
  have hmoved : (x.step B e).movedBack = false := by
    simp +contextual [step, h.movedBack, hstate]
  have hup : startsUpgrade B x.actual e = false := by
    by_cases hs : x.actual.otaState = .started
      <;> simp [startsUpgrade, hstate, hs, OtaState.inUpgrade]
  have hstarts : (x.step B e).starts = x.starts := by
    rw [starts_of_not_startsUpgrade hup, hdl, Nat.sub_self, Nat.add_zero]
  refine ⟨hmoved, hstarts ▸ h.starts, ?_, actualError_of_error, ?_, ?_, ?_, ?_⟩
    <;> rw [actual_step, hstate]
  · exact h.state
  · rw [hbusy]
    exact h.busy
  · intro hrun
    rw [hwork hrun]
    exact h.pending (Cloud.running_of_step hrun)
  · rw [hstarts]
    exact fun hrun => h.fresh (Cloud.running_of_step hrun)
  · exact fun hne => hcheck (h.check hne)

/-- Events that are neither OTA messages nor `fota_work` may only end the download. -/
theorem upgradeSound_unrelated {x : Redelivery} {e : CloudEvent} (h : UpgradeSound x)
    (hu : Cloud.Unrelated B x.actual e) : UpgradeSound (x.step B e) := by
  obtain ⟨hextra, hup⟩ := isExtra_of_none hu.1
  have u := Cloud.step_unrelated hu
  rcases u.otaState with ⟨hstate, hbusy⟩ | ⟨hb, hbusy, hend⟩
  · exact upgradeSound_of_same h hstate hbusy u.downloads (fun _ => u.fotaWork)
      (u.initialOtaCheck.trans ·)
  · -- the download has ended
    have hdl := h.busy hb
    have hcheck := h.check (by simp [hdl])
    have hne : (x.actual.step B e).otaState ≠ .started := by
      rcases hend with hs | hs <;> simp [hs]
    have hstarts : (x.step B e).starts = x.starts := by
      rw [starts_of_not_startsUpgrade hup, u.downloads, Nat.sub_self, Nat.add_zero]
    have hmoved : (x.step B e).movedBack = false :=
      (movedBack_of_not_extra hextra).trans h.movedBack
    refine ⟨hmoved, hstarts ▸ h.starts, ?_, actualError_of_error, ?_, ?_, ?_, ?_⟩
      <;> rw [actual_step]
    · rcases hend with hs | hs <;> simp [hs]
    · simp [hbusy]
    · intro hrun
      have hiff := h.pending (Cloud.running_of_step hrun)
      simp [u.fotaWork, hne, hiff, hdl]
    · exact fun _ hs => absurd hs hne
    · exact fun _ => u.initialOtaCheck.trans hcheck

/-- **`fota_work` starts the one download of the upgrade.** -/
theorem upgradeSound_fotaWork {x : Redelivery} (h : UpgradeSound x)
    (start : CString → CString → ℤ) : UpgradeSound (x.step B (.fotaWork start)) := by
  have hnone : x.actual.otaDelivery B (.fotaWork start) = none := rfl
  obtain ⟨hextra, hup⟩ := isExtra_of_none hnone
  have hcount := starts_of_not_startsUpgrade hup
  have hmoved : (x.step B (.fotaWork start)).movedBack = false :=
    (movedBack_of_not_extra hextra).trans h.movedBack
  by_cases hgo : x.actual.status = .running ∧ x.actual.fotaWork
  · obtain ⟨hrun, hw⟩ := hgo
    have hs := (h.pending hrun).mp hw
    have hcheck := h.check (by simp [hs])
    have hidle := h.idle (by simp [hs])
    cases hurl : x.actual.otaData.url with
    | none =>
      have hfault := Cloud.step_fotaWork_fault (B := B) hrun hw hurl start
      refine upgradeSound_of_same h ?_ ?_ ?_ (fun hrun' => ?_) ?_ <;> rw [hfault]
      · rfl
      · simp [hfault] at hrun'
      · exact id
    | some url =>
      obtain ⟨host, file⟩ := url
      obtain ⟨-, hdone, hdl, -⟩ := Cloud.step_fotaWork (B := B) hrun hw hurl start
      have hstarts : (x.step B (.fotaWork start)).starts = 1 := by
        simp [hcount, hdl, h.fresh hrun hs]
      by_cases h0 : start host file = 0
      · obtain ⟨hstate, hbusy, hst, hc⟩ :=
          Cloud.step_fotaWork_accepted (B := B) hrun hw hurl hidle h0
        refine ⟨hmoved, hstarts.le, ?_, actualError_of_error, ?_, ?_, ?_, ?_⟩
          <;> simp [hstate, hdone, hc, hcheck]
      · obtain ⟨hstate, hbusy, hst, hc⟩ :=
          Cloud.step_fotaWork_refused (B := B) hrun hw hurl (.inr h0)
        refine ⟨hmoved, hstarts.le, ?_, actualError_of_error, ?_, ?_, ?_, ?_⟩
          <;> simp [hstate, hbusy, hst, hc, hcheck, hidle]
  · have hsame := Cloud.step_fotaWork_idle (B := B) hgo start
    refine upgradeSound_of_same h ?_ ?_ ?_ (fun _ => ?_) ?_ <;> rw [hsame]
    exact id

/-- **An OTA message during an upgrade changes nothing about it**, unless it is newer and the
download has started; otherwise a newer one starts an upgrade. -/
theorem upgradeSound_otaMessage {x : Redelivery} {e : CloudEvent} {data : List UInt8}
    {stack : DecodeStack} {rand : UInt32} (h : UpgradeSound x)
    (hd : x.actual.otaDelivery B e = some (data, stack, rand))
    (hold : x.actual.otaState.inUpgrade → x.actual.otaState ≠ .started → ∀ err d,
      decodeOtaData B.qcbor stack data x.actual.otaData = some (err, d) →
        Cloud.isNewer B err d = false) : UpgradeSound (x.step B e) := by
  obtain ⟨hrun, hstep⟩ := Cloud.step_of_otaDelivery hd
  cases hdec : decodeOtaData B.qcbor stack data x.actual.otaData with
  | none =>
    have hfault := Cloud.otaMessage_fault hdec rand
    refine upgradeSound_of_same h ?_ ?_ ?_ (fun _ => ?_) (fun _ => ?_) <;> rw [hstep, hfault]
    rfl
  | some r =>
    obtain ⟨err, d⟩ := r
    obtain ⟨-, hwork, hdl, -, hstate, hbusy, hcheck⟩ := Cloud.otaMessage_of_decode hdec rand
    rw [← hstep] at hwork hdl hstate hbusy hcheck
    by_cases hnew : Cloud.isNewer B err d
    · rw [if_pos hnew] at hstate
      by_cases hin : x.actual.otaState.inUpgrade
      · have hs : x.actual.otaState = .started := by
          by_contra hne
          simp [hold hin hne err d hdec] at hnew
        exact upgradeSound_of_same h (hstate.trans hs.symm) hbusy hdl
          (fun _ => by simp [hwork, hnew, (h.pending hrun).mpr hs]) (fun _ => hcheck)
      · -- a new upgrade
        have hextra : isExtra B x.actual e = false := by simp [isExtra, hin]
        have hup : startsUpgrade B x.actual e = true := by
          simp [startsUpgrade, hd, hin, hstate]
        have hstarts : (x.step B e).starts = 0 := by simp [step, hup]
        have hidle : x.actual.fotaBusy = false := by
          refine h.idle ?_
          intro hs
          simp [hs, OtaState.inUpgrade] at hin
        refine ⟨(movedBack_of_not_extra hextra).trans h.movedBack, by simp [hstarts], ?_,
          actualError_of_error, ?_, ?_, ?_, ?_⟩
          <;> simp [hstate, hbusy, hidle, hwork, hnew, hstarts, hcheck]
    · rw [if_neg hnew] at hstate
      exact upgradeSound_of_same h hstate hbusy hdl (fun _ => by simp [hwork, hnew])
        (fun _ => hcheck)

/-- **What an event does to the upgrade.** -/
theorem upgradeSound_step {x : Redelivery} {e : CloudEvent} (h : UpgradeSound x)
    (hok : Harmless B x e) : UpgradeSound (x.step B e) := by
  rcases Cloud.event_cases B x.actual e with ⟨data, stack, rand, hd⟩ | ⟨start, rfl⟩ | hu
  · exact upgradeSound_otaMessage h hd fun hin => (hok data stack rand hd hin).1
  · exact upgradeSound_fotaWork h start
  · exact upgradeSound_unrelated h hu

/-! ## The upgrade without the extra messages -/

/-- The clients agree on all but `ota_data`, and there on everything that can still matter: all of
it while ready, and in the state started the C strings of the approved manifest. -/
structure Agree (x : Redelivery) : Prop where
  without : x.without = { x.actual with otaData := x.without.otaData }
  ready : x.actual.otaState = .ready → x.without.otaData = x.actual.otaData
  started : x.actual.otaState = .started →
    ∀ url, x.without.otaData.url = some url → x.actual.otaData.url = some url
  error : x.withoutError = x.actualError

theorem Agree.same {x : Redelivery} (h : Agree x) : x.without.otaState = x.actual.otaState ∧
    x.without.status = x.actual.status ∧ x.without.fotaWork = x.actual.fotaWork ∧
    x.without.fotaBusy = x.actual.fotaBusy := by
  rw [h.without]
  exact ⟨rfl, rfl, rfl, rfl⟩

theorem withoutError_step (x : Redelivery) (e : CloudEvent) : (x.step B e).withoutError
    = (x.withoutError || decide ((x.step B e).without.otaState = .error)) := rfl

/-- The second client gets what is not extra. -/
theorem without_of_not_extra {x : Redelivery} {e : CloudEvent}
    (h : isExtra B x.actual e = false) : (x.step B e).without = x.without.step B e := by
  simp [step, h]

theorem without_of_extra {x : Redelivery} {e : CloudEvent} (h : isExtra B x.actual e = true) :
    (x.step B e).without = x.without := by
  simp [step, h]

/-- Steps that bring both clients into the same state agree on its errors. -/
theorem agree_error {x : Redelivery} {e : CloudEvent} (h : Agree x)
    (hsame : (x.step B e).without.otaState = (x.actual.step B e).otaState) :
    (x.step B e).withoutError = (x.step B e).actualError := by
  rw [withoutError_step, h.error, hsame]
  rfl

/-- A failure lasts. -/
theorem broken_step {x : Redelivery} (h : Broken x) (e : CloudEvent) : Broken (x.step B e) := by
  rcases h with herr | hfault
  · exact .inl (by simp [step, herr])
  · refine .inr ?_
    cases hx : isExtra B x.actual e with
    | true => rw [without_of_extra hx, hfault]
    | false =>
      rw [without_of_not_extra hx, Cloud.step_of_not_running (by simp [hfault]), hfault]

/-- Events that are neither OTA messages nor `fota_work` treat both clients alike. -/
theorem agree_unrelated {x : Redelivery} {e : CloudEvent} (h : Agree x)
    (hu : Cloud.Unrelated B x.actual e) : Agree (x.step B e) := by
  have hwithout : (x.step B e).without
      = { x.actual.step B e with otaData := x.without.otaData } := by
    rw [without_of_not_extra (isExtra_of_none hu.1).1, h.without, Cloud.step_otaData hu]
  have u := Cloud.step_unrelated hu
  -- no such event leads to ready or started
  have hback : (x.actual.step B e).otaState = .ready ∨ (x.actual.step B e).otaState = .started →
      (x.actual.step B e).otaState = x.actual.otaState := by
    rcases u.otaState with ⟨hs, -⟩ | ⟨-, -, hs | hs⟩ <;> simp [hs]
  refine ⟨by rw [hwithout, actual_step], ?_, ?_, agree_error h (by rw [hwithout])⟩
  · intro hs
    rw [hwithout, actual_step, u.otaData]
    exact h.ready ((hback (.inl hs)).symm.trans hs)
  · intro hs
    rw [hwithout, actual_step, u.otaData]
    exact h.started ((hback (.inr hs)).symm.trans hs)

/-- **`fota_work` does the same for both**, unless it fails without the extra messages. -/
theorem agree_fotaWork {x : Redelivery} (hu : UpgradeSound x) (h : Agree x)
    (start : CString → CString → ℤ) :
    Broken (x.step B (.fotaWork start)) ∨ Agree (x.step B (.fotaWork start)) := by
  have hextra : isExtra B x.actual (.fotaWork start) = false := (isExtra_of_none rfl).1
  obtain ⟨hstate, hstatus, hwork, -⟩ := h.same
  by_cases hgo : x.actual.status = .running ∧ x.actual.fotaWork
  · obtain ⟨hrun, hw⟩ := hgo
    have hs := (hu.pending hrun).mp hw
    cases hurl : x.without.otaData.url with
    | none =>
      refine .inl (.inr ?_)
      rw [without_of_not_extra hextra,
        Cloud.step_fotaWork_fault (hstatus.trans hrun) (hwork.trans hw) hurl]
    | some url =>
      have hactual := h.started hs url hurl
      have hwithout : (x.step B (.fotaWork start)).without
          = { x.actual.step B (.fotaWork start) with otaData := x.without.otaData } := by
        rw [without_of_not_extra hextra, h.without]
        exact Cloud.step_fotaWork_otaData (hurl.trans hactual.symm) start
      have hlater : (x.actual.step B (.fotaWork start)).otaState = .downloading ∨
          (x.actual.step B (.fotaWork start)).otaState = .error := by
        by_cases h0 : x.actual.fotaBusy = false ∧ start url.1 url.2 = 0
        · exact .inl (Cloud.step_fotaWork_accepted hrun hw hactual h0.1 h0.2).1
        · refine .inr (Cloud.step_fotaWork_refused hrun hw hactual ?_).1
          by_contra hor
          simp only [not_or, Bool.not_eq_true, not_not] at hor
          exact h0 hor
      refine .inr ⟨by rw [hwithout, actual_step], ?_, ?_, agree_error h (by rw [hwithout])⟩
      all_goals
        intro hr
        rw [actual_step] at hr
        rcases hlater with hl | hl <;> simp [hl] at hr
  · have hactual : (x.step B (.fotaWork start)).actual = x.actual :=
      Cloud.step_fotaWork_idle hgo start
    have hwithout : (x.step B (.fotaWork start)).without = x.without := by
      rw [without_of_not_extra hextra]
      refine Cloud.step_fotaWork_idle ?_ start
      rwa [hstatus, hwork]
    refine .inr ⟨?_, ?_, ?_, agree_error h ?_⟩
    · rw [hwithout, hactual]
      exact h.without
    · rw [hwithout, hactual]
      exact h.ready
    · rw [hwithout, hactual]
      exact h.started
    · rw [hwithout, ← actual_step, hactual, hstate]

/-- **An OTA message that is extra writes at most `ota_data`.** -/
theorem agree_extra {x : Redelivery} {e : CloudEvent} {data : List UInt8} {stack : DecodeStack}
    {rand : UInt32} (hu : UpgradeSound x) (h : Agree x) (hbroken : ¬ Broken x)
    (hd : x.actual.otaDelivery B e = some (data, stack, rand))
    (hin : x.actual.otaState.inUpgrade) (hok : Harmless B x e) : Agree (x.step B e) := by
  obtain ⟨hrun, hstep⟩ := Cloud.step_of_otaDelivery hd
  obtain ⟨hold, hinside⟩ := hok data stack rand hd hin
  obtain ⟨hfits, hreads⟩ := hinside hbroken
  obtain ⟨⟨err, d⟩, hdec⟩ := exists_decode_iff.mpr hfits
  have hready : x.actual.otaState ≠ .ready := by
    intro hr
    simp [hr, OtaState.inUpgrade] at hin
  have hwithout : (x.step B e).without = x.without := without_of_extra (by simp [isExtra, hd, hin])
  have hactual : x.actual.step B e = { x.actual with otaData := d } := by
    rw [hstep]
    refine Cloud.otaMessage_during_upgrade hdec rand (hu.check hready) hready ?_
    intro hnew
    have hs : x.actual.otaState = .started := by
      by_contra hne
      simp [hold hne err d hdec] at hnew
    exact ⟨hs, (hu.pending hrun).mpr hs⟩
  refine ⟨?_, ?_, ?_, agree_error h ?_⟩
  · rw [hwithout, actual_step, hactual]
    exact h.without
  · rw [actual_step, hactual]
    exact fun hr => absurd hr hready
  · rw [hwithout, actual_step, hactual]
    exact fun hs url hurl => (url_of_decode hdec url).mpr (hreads hs url hurl)
  · rw [hwithout, hactual, h.same.1]

/-- While no upgrade is under way, both clients get the same. -/
theorem agree_first {x : Redelivery} {e : CloudEvent} (hu : UpgradeSound x) (h : Agree x)
    (hbroken : ¬ Broken x) (hout : x.actual.otaState.inUpgrade = false) : Agree (x.step B e) := by
  have hextra : isExtra B x.actual e = false := by simp [isExtra, hout]
  have hready : x.actual.otaState = .ready := by
    cases hs : x.actual.otaState with
    | ready => rfl
    | started | downloading | done => simp [hs, OtaState.inUpgrade] at hout
    | reboot => exact absurd hs hu.state.1
    | rebooting => exact absurd hs hu.state.2
    | error => exact absurd (.inl (h.error.trans (hu.error hs))) hbroken
  have hsame : x.without = x.actual := by rw [h.without, h.ready hready]
  have hwithout : (x.step B e).without = (x.step B e).actual := by
    rw [without_of_not_extra hextra, hsame, actual_step]
  exact ⟨by rw [hwithout], fun _ => by rw [hwithout], fun _ _ => by rw [hwithout]; exact id,
    agree_error h (by rw [hwithout, actual_step])⟩

/-! ## The exact condition -/

/-- The upgrade is sound, and without the extra messages it has become the same, or failed. -/
def Sound (x : Redelivery) : Prop := UpgradeSound x ∧ (Broken x ∨ Agree x)

theorem sound_start : Sound start :=
  ⟨upgradeSound_start, .inr ⟨rfl, fun _ => rfl, fun _ _ => id, rfl⟩⟩

theorem Sound.idempotent {x : Redelivery} (h : Sound x) : Idempotent x := by
  obtain ⟨hu, hbroken | ha⟩ := h
  · exact ⟨hu.movedBack, hu.starts, fun _ => hbroken, fun _ => .inr hbroken, fun _ => hbroken⟩
  · refine ⟨hu.movedBack, hu.starts, fun he => .inl (ha.error.trans he), fun hs => .inl ?_,
      fun hs => .inr ?_⟩
    · exact ha.same.2.1.trans hs
    · exact ha.same.2.1.trans hs

theorem sound_step (x : Redelivery) (e : CloudEvent) (h : Sound x) (hok : Harmless B x e) :
    Sound (x.step B e) := by
  refine ⟨upgradeSound_step h.1 hok, ?_⟩
  by_cases hbroken : Broken x
  · exact .inl (broken_step hbroken e)
  obtain ⟨hu, ha⟩ := h
  have ha := ha.resolve_left hbroken
  rcases Cloud.event_cases B x.actual e with ⟨data, stack, rand, hd⟩ | ⟨start, rfl⟩ | hun
  · cases hin : x.actual.otaState.inUpgrade with
    | true => exact .inr (agree_extra hu ha hbroken hd hin hok)
    | false => exact .inr (agree_first hu ha hbroken hin)
  · exact agree_fotaWork hu ha start
  · exact .inr (agree_unrelated ha hun)

/-- A newer manifest during the download starts the upgrade again. -/
theorem movedBack_of_newer {x : Redelivery} {e : CloudEvent} {data : List UInt8}
    {stack : DecodeStack} {rand : UInt32} {err : ℕ} {d : OtaData}
    (hd : x.actual.otaDelivery B e = some (data, stack, rand))
    (hin : x.actual.otaState.inUpgrade) (hs : x.actual.otaState ≠ .started)
    (hdec : decodeOtaData B.qcbor stack data x.actual.otaData = some (err, d))
    (hnew : Cloud.isNewer B err d) : (x.step B e).movedBack = true := by
  obtain ⟨-, hstep⟩ := Cloud.step_of_otaDelivery hd
  obtain ⟨-, -, -, -, hstate, -⟩ := Cloud.otaMessage_of_decode hdec rand
  rw [← hstep, if_pos hnew] at hstate
  simp [step, isExtra, hd, hin, hs, hstate]

/-- An extra message changes nothing without the extra messages. -/
theorem not_broken_of_extra {x : Redelivery} {e : CloudEvent} (ha : Agree x) (hbroken : ¬ Broken x)
    (hd : (x.actual.otaDelivery B e).isSome) (hin : x.actual.otaState.inUpgrade) :
    (x.step B e).without = x.without ∧ (x.step B e).withoutError = false := by
  have hwithout : (x.step B e).without = x.without := without_of_extra (by simp [isExtra, hd, hin])
  refine ⟨hwithout, ?_⟩
  have hne : x.actual.otaState ≠ .error := by
    intro hs
    simp [hs, OtaState.inUpgrade] at hin
  have herr : x.withoutError = false := by
    by_contra herr
    exact hbroken (.inl (by simpa using herr))
  simp [withoutError_step, hwithout, ha.same.1, herr, hne]

/-- **An approved manifest whose C strings were overwritten is downloaded without the extra
messages, and refused with them**, if the server has that image only. -/
theorem not_always_of_other_url {x : Redelivery} {host file : CString}
    {start : CString → CString → ℤ} (hrun : x.actual.status = .running) (hw : x.actual.fotaWork)
    (hidle : x.without.fotaBusy = false) (hrun' : x.without.status = .running)
    (hw' : x.without.fotaWork) (herr : x.withoutError = false)
    (hurl : x.without.otaData.url = some (host, file))
    (hother : x.actual.otaData.url ≠ some (host, file)) (h0 : start host file = 0)
    (hmissing : ∀ other, other ≠ (host, file) → start other.1 other.2 ≠ 0) :
    ¬ Always (step B) Idempotent x [.fotaWork start] := by
  intro hall
  obtain ⟨-, -, herror, -, hfault⟩ := hall.last
  rw [run_cons, run_nil] at herror hfault
  have hextra : isExtra B x.actual (.fotaWork start) = false := (isExtra_of_none rfl).1
  obtain ⟨hstate, -, hst, -⟩ := Cloud.step_fotaWork_accepted (B := B) hrun' hw' hurl hidle h0
  rw [← without_of_not_extra hextra] at hstate hst
  have hbroken : ¬ Broken (x.step B (.fotaWork start)) := by
    rintro (h | h)
    · simp [withoutError_step, herr, hstate] at h
    · simp [hst] at h
  cases hactual : x.actual.otaData.url with
  | none =>
    refine hbroken (hfault ?_)
    rw [actual_step, Cloud.step_fotaWork_fault hrun hw hactual]
  | some other =>
    have hne : other ≠ (host, file) := fun h => hother (hactual.trans (congrArg some h))
    exact hbroken (herror (actualError_of_error
      (Cloud.step_fotaWork_refused hrun hw hactual (.inr (hmissing other hne))).1))

/-- **An extra message that is not harmless harms**, at once or when `fota_work` runs. -/
theorem exists_run_of_not_harmless {x : Redelivery} {e : CloudEvent} (h : Sound x)
    (hbad : ¬ Harmless B x e) : ∃ rs, Meets (step B) (Harmless B) (x.step B e) rs ∧
      ¬ Always (step B) Idempotent (x.step B e) rs := by
  simp only [Harmless, not_forall] at hbad
  obtain ⟨data, stack, rand, hd, hin, hbad⟩ := hbad
  obtain ⟨hrun, hstep⟩ := Cloud.step_of_otaDelivery hd
  by_cases hold : x.actual.otaState ≠ .started → ∀ err d,
      decodeOtaData B.qcbor stack data x.actual.otaData = some (err, d) →
        Cloud.isNewer B err d = false
  · obtain ⟨hbroken, hinside⟩ := Classical.not_imp.mp fun hinside => hbad ⟨hold, hinside⟩
    have ha := h.2.resolve_left hbroken
    have hsome : (x.actual.otaDelivery B e).isSome := by simp [hd]
    obtain ⟨hwithout, herr⟩ := not_broken_of_extra ha hbroken hsome hin
    obtain ⟨hstate, hstatus, hwork, hbusy⟩ := ha.same
    cases hdec : decodeOtaData B.qcbor stack data x.actual.otaData with
    | none =>
      refine ⟨[], meets_nil, ?_⟩
      intro hall
      obtain ⟨-, -, -, -, hfault⟩ := hall.head
      rcases hfault (by rw [actual_step, hstep, Cloud.otaMessage_fault hdec]) with hb | hb
      · simp [herr] at hb
      · exact hbroken (.inr (hwithout ▸ hb))
    | some r =>
      obtain ⟨err, d⟩ := r
      have hother : x.actual.otaState = .started ∧
          ∃ url, x.without.otaData.url = some url ∧ d.url ≠ some url := by
        by_contra hnone
        refine hinside ⟨exists_decode_iff.mp ⟨_, hdec⟩, fun hs url hurl => ?_⟩
        by_contra hne
        exact hnone ⟨hs, url, hurl, fun heq => hne ((url_of_decode hdec url).mp heq)⟩
      obtain ⟨hs, ⟨host, file⟩, hurl, hne⟩ := hother
      have hw := (h.1.pending hrun).mpr hs
      have hidle : x.without.fotaBusy = false := hbusy.trans (h.1.idle (by simp [hs]))
      obtain ⟨hdata, hwork', -, hst, -⟩ := Cloud.otaMessage_of_decode hdec rand
      rw [← hstep] at hdata hwork' hst
      refine ⟨[.fotaWork fun h f => if (h, f) = (host, file) then 0 else 1],
        meets_cons.mpr ⟨fun _ _ _ h => by simp [Cloud.otaDelivery] at h, meets_nil⟩,
        not_always_of_other_url ?_ ?_ ?_ ?_ ?_ herr ?_ ?_ (if_pos rfl) fun _ hne' => ?_⟩
      · exact hst.trans hrun
      · rw [actual_step, hwork', hw, Bool.true_or]
      · rwa [hwithout]
      · rw [hwithout, hstatus, hrun]
      · rw [hwithout, hwork, hw]
      · rwa [hwithout]
      · rwa [actual_step, hdata]
      · rw [if_neg hne']
        exact one_ne_zero
  · simp only [Classical.not_imp, not_forall, Bool.not_eq_false] at hold
    obtain ⟨hs, err, d, hdec, hnew⟩ := hold
    have hmoved := movedBack_of_newer hd hin hs hdec hnew
    exact ⟨[], meets_nil, fun hall => by simp [hall.head.1] at hmoved⟩

/-- **OTA messages are idempotent exactly while the extra ones are harmless.** -/
theorem idempotent_iff_harmless (es : List CloudEvent) :
    Robust (step B) (Harmless B) Idempotent start es ↔ Meets (step B) (Harmless B) start es :=
  robust_iff_meets (I := Sound) sound_step (fun _ h => h.idempotent)
    (fun _ _ h hbad => exists_run_of_not_harmless h hbad) sound_start es

/-- Version 2 of `a/f` is delivered again while it downloads. -/
theorem not_idempotent_during_download :
    ¬ Always (step sampleBuild) Idempotent start
      [otaMessageOf (manifestBytes 2 [97] [102]), .fotaWork fun _ _ => 0,
        otaMessageOf (manifestBytes 2 [97] [102])] := by
  intro h
  have hmoved := h.last.1
  revert hmoved
  decide +kernel

end Redelivery

end Pyrinas
