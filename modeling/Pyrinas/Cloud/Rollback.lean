import Pyrinas.Cloud.Cbor
import Pyrinas.Cloud.Steps
import Pyrinas.Cloud.VersionOrder

/-!
# Cloud/Rollback — no manifest starts a downgrade

The loop of `ver_comp` compares the four numbers of two versions lexicographically, and the hashes
only count when all four agree.  So what starts an upgrade is never smaller than what runs, and the
versions along any chain of upgrades never fall.

    v₀ ──manifest v₁──▸ v₁ ──manifest v₂──▸ v₂ ── ⋯        v₀ ≤ v₁ ≤ v₂ ≤ ⋯
-/

open Machinery

namespace Pyrinas

namespace Cloud

/-! ## What starts an upgrade -/

/-- An event sets `ota_state_s` to started, whatever it was. -/
def Starts (B : CloudBuild) (s : Cloud) (e : CloudEvent) : Prop :=
  ∀ state, ({ s with otaState := state }.step B e).otaState = .started

/-- A device running `v` gets a manifest for `w` and starts the upgrade. -/
def Upgrades (v w : OtaVersion) : Prop :=
  ∃ (B : CloudBuild) (s : Cloud) (e : CloudEvent) (data : List UInt8) (stack : DecodeStack)
    (rand : UInt32) (err : ℕ) (d : OtaData), B.pyrinasVersion = v ∧
    s.otaDelivery B e = some (data, stack, rand) ∧
    decodeOtaData B.qcbor stack data s.otaData = some (err, d) ∧ d.version = w ∧ Starts B s e

section Message

variable {B : CloudBuild} {s : Cloud} {e : CloudEvent} {data : List UInt8} {stack : DecodeStack}
  {rand : UInt32} {err : ℕ} {d : OtaData}

/-- A message is delivered whatever the OTA state. -/
theorem otaDelivery_otaState (h : s.otaDelivery B e = some (data, stack, rand)) (state : OtaState) :
    { s with otaState := state }.otaDelivery B e = some (data, stack, rand) := by
  cases e <;> exact h

/-- **A manifest that is not newer leaves the upgrade as it is.** -/
theorem step_of_not_newer (h : s.otaDelivery B e = some (data, stack, rand))
    (hold : ∀ err d, decodeOtaData B.qcbor stack data s.otaData = some (err, d) →
      isNewer B err d = false) :
    (s.step B e).otaState = s.otaState ∧ (s.step B e).fotaWork = s.fotaWork := by
  rw [(step_of_otaDelivery h).2]
  cases hdec : decodeOtaData B.qcbor stack data s.otaData with
  | none =>
    rw [otaMessage_fault hdec]
    exact ⟨rfl, rfl⟩
  | some r =>
    obtain ⟨-, hwork, -, -, hstate, -⟩ := otaMessage_of_decode hdec rand
    simp only [hold r.1 r.2 hdec, Bool.or_false, Bool.false_eq_true, if_false] at hwork hstate
    exact ⟨hstate, hwork⟩

/-- …and starts none. -/
theorem not_starts_of_not_newer (h : s.otaDelivery B e = some (data, stack, rand))
    (hold : ∀ err d, decodeOtaData B.qcbor stack data s.otaData = some (err, d) →
      isNewer B err d = false) : ¬ Starts B s e := by
  intro hstarts
  have hkept := (step_of_not_newer (otaDelivery_otaState h .ready) hold).1
  have hready : OtaState.ready = .started := hkept.symm.trans (hstarts .ready)
  exact absurd hready (by decide)

/-- **What starts an upgrade is newer.** -/
theorem isNewer_of_starts (h : s.otaDelivery B e = some (data, stack, rand))
    (hdec : decodeOtaData B.qcbor stack data s.otaData = some (err, d)) (hstarts : Starts B s e) :
    isNewer B err d = true := by
  by_contra hnew
  refine not_starts_of_not_newer h ?_ hstarts
  intro err' d' hdec'
  obtain ⟨rfl, rfl⟩ := Prod.mk.inj (Option.some.inj (hdec.symm.trans hdec'))
  exact Bool.eq_false_iff.mpr hnew

/-- **What is newer starts an upgrade.** -/
theorem starts_of_isNewer (h : s.otaDelivery B e = some (data, stack, rand))
    (hdec : decodeOtaData B.qcbor stack data s.otaData = some (err, d))
    (hnew : isNewer B err d = true) : Starts B s e := by
  intro state
  have hdec' : decodeOtaData B.qcbor stack data { s with otaState := state }.otaData
      = some (err, d) := hdec
  rw [(step_of_otaDelivery (otaDelivery_otaState h state)).2,
    (otaMessage_of_decode hdec' rand).2.2.2.2.1, if_pos hnew]

/-- **Only an OTA message that sets `ota_state_s` brings it to started.** -/
theorem starts_of_step (hbefore : s.otaState ≠ .started)
    (hafter : (s.step B e).otaState = .started) :
    ∃ data stack rand, s.otaDelivery B e = some (data, stack, rand) ∧ Starts B s e := by
  rcases event_cases B s e with ⟨data, stack, rand, hd⟩ | ⟨start, rfl⟩ | hun
  · cases hdec : decodeOtaData B.qcbor stack data s.otaData with
    | none =>
      rw [(step_of_otaDelivery hd).2, otaMessage_fault hdec] at hafter
      exact absurd hafter hbefore
    | some r =>
      obtain ⟨-, -, -, -, hstate, -⟩ := otaMessage_of_decode hdec rand
      rw [(step_of_otaDelivery hd).2, hstate] at hafter
      split at hafter
      next hnew => exact ⟨data, stack, rand, hd, starts_of_isNewer hd hdec hnew⟩
      next => exact absurd hafter hbefore
  · by_cases hw : s.status = .running ∧ s.fotaWork
    · rw [step_of_running hw.1, handle, if_pos hw.2] at hafter
      revert hafter
      simp only [fotaStartFn, fotaStartResult]
      split
      · exact fun hafter => absurd hafter hbefore
      · split <;> simp [setOtaState, otaStateCallback]
    · rw [step_fotaWork_idle hw] at hafter
      exact absurd hafter hbefore
  · rcases (step_unrelated hun).otaState with ⟨hsame, -⟩ | ⟨-, -, herr | hdone⟩
    · exact absurd (hsame.symm.trans hafter) hbefore
    · simp [herr] at hafter
    · simp [hdone] at hafter

/-- **What is smaller than the running version, or the same, is not newer.** -/
theorem not_isNewer (hold : err ≠ 0 ∨ d.version = B.pyrinasVersion ∨
    d.version.quadruple < B.pyrinasVersion.quadruple) : isNewer B err d = false := by
  rcases hold with herr | heq | hlt
  · simp [isNewer, herr]
  · simp [isNewer, heq, verComp_self]
  · simp [isNewer, verComp_of_gt hlt]

end Message

/-! ## Chains of upgrades -/

theorem quadruple_le_of_upgrades {v w : OtaVersion} (h : Upgrades v w) :
    v.quadruple ≤ w.quadruple := by
  obtain ⟨B, s, e, data, stack, rand, err, d, rfl, hd, hdec, rfl, hstarts⟩ := h
  have hnew := isNewer_of_starts hd hdec hstarts
  simp only [isNewer, Bool.and_eq_true, decide_eq_true_eq] at hnew
  exact quadruple_le_of_verComp hnew.2

/-- **No rollback**: along every chain of upgrades the versions never fall; a manifest that is not
decoded, or is for the running version or for a smaller one, starts no upgrade in any state; and
nothing but a manifest that is decoded starts one. -/
theorem no_rollback :
    (∀ versions : List OtaVersion, versions.IsChain Upgrades →
      versions.Pairwise fun v w => v.quadruple ≤ w.quadruple) ∧
    (∀ (B : CloudBuild) (s : Cloud) (e : CloudEvent) (data : List UInt8) (stack : DecodeStack)
      (rand : UInt32), s.otaDelivery B e = some (data, stack, rand) →
      (∀ err d, decodeOtaData B.qcbor stack data s.otaData = some (err, d) →
        err ≠ 0 ∨ d.version = B.pyrinasVersion ∨
          d.version.quadruple < B.pyrinasVersion.quadruple) →
      ¬ Starts B s e ∧ (s.step B e).otaState = s.otaState ∧
        (s.step B e).fotaWork = s.fotaWork) ∧
    ∀ (B : CloudBuild) (s : Cloud) (e : CloudEvent), s.otaState ≠ .started →
      (s.step B e).otaState = .started →
      ∃ data stack rand, s.otaDelivery B e = some (data, stack, rand) ∧ Starts B s e := by
  refine ⟨?_, ?_, fun B s e => starts_of_step⟩
  · intro versions hchain
    exact (hchain.imp fun v w => quadruple_le_of_upgrades).pairwise
  · intro B s e data stack rand hd hold
    have hnew : ∀ err d, decodeOtaData B.qcbor stack data s.otaData = some (err, d) →
        isNewer B err d = false := fun err d hdec => not_isNewer (hold err d hdec)
    exact ⟨not_starts_of_not_newer hd hnew, step_of_not_newer hd hnew⟩

/-- A device takes a manifest that is newer. -/
theorem upgrades_of_isNewer {B : CloudBuild} {s : Cloud} {e : CloudEvent} {data : List UInt8}
    {stack : DecodeStack} {rand : UInt32} (hd : s.otaDelivery B e = some (data, stack, rand))
    {r : ℕ × OtaData} (hdec : decodeOtaData B.qcbor stack data s.otaData = some r)
    (hnew : isNewer B r.1 r.2 = true) : Upgrades B.pyrinasVersion r.2.version :=
  ⟨B, s, e, data, stack, rand, r.1, r.2, rfl, hd, hdec, rfl, starts_of_isNewer hd hdec hnew⟩

/-- What a manifest for `major`.0.0-0 is decoded into. -/
def decodedManifest (major : UInt8) : Option (ℕ × OtaData) :=
  decodeOtaData cborReader ⟨0, none, none⟩ (manifestBytes major [97] [102]) .zero

/-- Its version. -/
def manifestVersion (major : UInt8) : OtaVersion :=
  ((decodedManifest major).map fun r => r.2.version).getD .zero

/-- A build that runs it. -/
def manifestBuild (major : UInt8) : CloudBuild :=
  { sampleBuild with pyrinasVersion := manifestVersion major }

theorem otaDelivery_manifest (running major : UInt8) :
    boot.otaDelivery (manifestBuild running) (otaMessageOf (manifestBytes major [97] [102]))
      = some (manifestBytes major [97] [102], ⟨0, none, none⟩, 0) := rfl

theorem upgrades_manifestVersion {running major : UInt8}
    (h : (decodedManifest major).any fun r => isNewer (manifestBuild running) r.1 r.2) :
    Upgrades (manifestVersion running) (manifestVersion major) := by
  obtain ⟨r, hdec, hnew⟩ := (Option.any_eq_true _ _).mp h
  have hversion : manifestVersion major = r.2.version := by
    simp only [manifestVersion, hdec, Option.map_some, Option.getD_some]
  rw [hversion]
  exact upgrades_of_isNewer (otaDelivery_manifest running major) hdec hnew

/-- From 1.0.0-0 over 2.0.0-0 to 7.0.0-0, and not back to 1.0.0-0. -/
theorem no_rollback_manifests :
    ([1, 2, 7].map manifestVersion).Pairwise (fun v w => v.quadruple ≤ w.quadruple) ∧
    ¬ Starts (manifestBuild 7) .boot (otaMessageOf (manifestBytes 1 [97] [102])) := by
  have h12 : Upgrades (manifestVersion 1) (manifestVersion 2) :=
    upgrades_manifestVersion (by decide +kernel)
  have h27 : Upgrades (manifestVersion 2) (manifestVersion 7) :=
    upgrades_manifestVersion (by decide +kernel)
  have hold : (decodedManifest 1).all fun r =>
      r.2.version.quadruple < (manifestVersion 7).quadruple := by decide +kernel
  refine ⟨no_rollback.1 _ (by simp [h12, h27]),
    (no_rollback.2.1 _ _ _ _ _ _ (otaDelivery_manifest 7 1) ?_).1⟩
  intro err d hdec
  have hlt := (Option.all_eq_true _ _).mp hold (err, d) hdec
  exact .inr (.inr (of_decide_eq_true hlt))

/-! ## Back and forth -/

/-- **Two versions are each newer than the other exactly when they differ in the hash alone.**  All
others `ver_comp` orders consistently, and a device that has gone from one to the other does not go
back. -/
theorem newer_oneWay (v w : OtaVersion) :
    (verComp v w = 0 ↔ v = w) ∧
    (verComp w v = -verComp v w ↔ ¬ (v.quadruple = w.quadruple ∧ v.hash ≠ w.hash)) ∧
    (EachNewer v w ↔ v.quadruple = w.quadruple ∧ v.hash ≠ w.hash) ∧
    (Upgrades v w ∧ Upgrades w v → v.quadruple = w.quadruple) := by
  refine ⟨verComp_eq_zero_iff, ?_, eachNewer_iff, ?_⟩
  · rw [verComp_swap_iff, eachNewer_iff]
  · rintro ⟨hvw, hwv⟩
    exact le_antisymm (quadruple_le_of_upgrades hvw) (quadruple_le_of_upgrades hwv)

/-- Two builds of 0.0.0-0. -/
theorem not_newer_oneWay_hash : ¬ ∀ v w : OtaVersion,
    (verComp v w = 0 ↔ v = w) ∧ verComp w v = -verComp v w := by
  intro h
  have hswap := (h .zero { OtaVersion.zero with hash := fun _ => 1 }).2
  revert hswap
  decide

end Cloud

end Pyrinas
