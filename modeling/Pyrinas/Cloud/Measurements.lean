import Pyrinas.Cloud.Cbor
import Pyrinas.Cloud.Telemetry

/-!
# Cloud/Measurements — when telemetry depends on the measurements alone

Both callers of the encoder start from a structure on the stack and fill in what they have measured.
A flag that a caller neither sets nor clears keeps what the stack held, and the encoder follows it.

                              has_version   has_rsrp   has_central_rssi   has_peripheral_rssi
    publish_telemetry         written       written    left alone         left alone
    …publish_telemetry_evt    left alone    left alone set if negative    set if negative
-/

open Machinery

namespace Pyrinas

/-- `RSRP_THRESHOLD` -/
def rsrpThreshold : UInt8 := 97

/-- What `pyrinas_event_t` says about the two ends of the link. -/
structure TelemetryEvent where
  centralRssi : ℤ
  peripheralRssi : ℤ
  peripheralAddr : Fin 6 → UInt8

/-- The telemetry that is published: for the hub, with the signal that was read, or for an event. -/
inductive TelemetryCall
  | hub (hasVersion : Bool) (rsrp : UInt8)
  | event (evt : TelemetryEvent)

/-- What `publish_telemetry` writes into its structure. -/
def fillHub (v : OtaVersion) (hasVersion : Bool) (rsrp : UInt8) (data : TelemetryData) :
    TelemetryData :=
  let data := if rsrp ≤ rsrpThreshold then { data with hasRsrp := true, rsrp := rsrp }
    else { data with hasRsrp := false }
  let data := { data with hasVersion := hasVersion }
  if hasVersion then { data with version := getVersionString v data.version } else data

/-- What `pyrinas_cloud_publish_telemetry_evt` writes into its structure. -/
def fillEvent (evt : TelemetryEvent) (data : TelemetryData) : TelemetryData :=
  let data := if evt.centralRssi < 0 then
    { data with hasCentralRssi := true, centralRssi := Int8.ofInt evt.centralRssi } else data
  if evt.peripheralRssi < 0 then
    { data with hasPeripheralRssi := true, peripheralRssi := Int8.ofInt evt.peripheralRssi }
  else data

/-- The topic of a peripheral: its address, printed with `"%02x%02x%02x%02x%02x%02x"`. -/
def peripheralTopic (evt : TelemetryEvent) : List UInt8 :=
  (List.ofFn evt.peripheralAddr).flatMap hexByte ++ (CString.ofString "/tel/pub").bytes

/-- `publish_telemetry`, as far as `data_publish`: the topic and the payload, or the error of the
encoder. -/
def publishTelemetry (B : CloudBuild) (hasVersion : Bool) (rsrp : UInt8) (data : TelemetryData) :
    Option (Except ℕ (List UInt8 × List UInt8)) :=
  (encodeTelemetryData B.qcborEncode (fillHub B.pyrinasVersion hasVersion rsrp data) 64).map
    (·.map (B.telemetryPubTopic, ·))

/-- `pyrinas_cloud_publish_telemetry_evt`, likewise. -/
def pyrinasCloudPublishTelemetryEvt (E : QcborEncode) (evt : TelemetryEvent)
    (data : TelemetryData) : Option (Except ℕ (List UInt8 × List UInt8)) :=
  (encodeTelemetryData E (fillEvent evt data) 64).map (·.map (peripheralTopic evt, ·))

namespace TelemetryCall

/-- What was requested or measured: the version on request, a signal up to the threshold, and an
RSSI that is negative. -/
def measured : TelemetryCall → TelemetryType → Bool
  | hub hasVersion _, .version => hasVersion
  | hub _ rsrp, .rsrp => rsrp ≤ rsrpThreshold
  | hub _ _, _ => false
  | event evt, .rssiCentral => evt.centralRssi < 0
  | event evt, .rssiPeripheral => evt.peripheralRssi < 0
  | event _, _ => false

/-- The flags that are neither set nor cleared. -/
def leavesAlone : TelemetryCall → TelemetryType → Bool
  | hub _ _, t => t = .rssiCentral ∨ t = .rssiPeripheral
  | event evt, t => !(event evt).measured t

/-- The structure after the measurements were filled in. -/
def fill (v : OtaVersion) : TelemetryCall → TelemetryData → TelemetryData
  | hub hasVersion rsrp => fillHub v hasVersion rsrp
  | event evt => fillEvent evt

def topic (B : CloudBuild) : TelemetryCall → List UInt8
  | hub _ _ => B.telemetryPubTopic
  | event evt => peripheralTopic evt

/-- The value of what was measured. -/
def measurement (v : OtaVersion) : TelemetryCall → TelemetryType → Cbor
  | _, .version => .text (v.format.take 23)
  | hub _ rsrp, _ => .unsigned rsrp.toNat
  | event evt, .rssiCentral => .int (Int8.ofInt evt.centralRssi).toInt
  | event evt, _ => .int (Int8.ofInt evt.peripheralRssi).toInt

end TelemetryCall

/-- What is published, on a stack that holds `data`. -/
def TelemetryCall.publish (B : CloudBuild) (call : TelemetryCall) (data : TelemetryData) :
    Option (Except ℕ (List UInt8 × List UInt8)) :=
  match call with
  | hub hasVersion rsrp => publishTelemetry B hasVersion rsrp data
  | event evt => pyrinasCloudPublishTelemetryEvt B.qcborEncode evt data

/-- The flags that the call leaves alone are clear. -/
def StartsClear (call : TelemetryCall) (data : TelemetryData) : Prop :=
  ∀ t, call.leavesAlone t → data.flag t = false

/-- On two stacks the same is published, with a key for each measurement and no others. -/
def OnlyMeasurements (B : CloudBuild) (call : TelemetryCall) (data data' : TelemetryData) : Prop :=
  ∃ payload entries, call.publish B data = some (.ok (call.topic B, payload)) ∧
    call.publish B data' = some (.ok (call.topic B, payload)) ∧
    Cbor.decode payload = some (.map entries, []) ∧
    ∀ t : TelemetryType, (∃ value, (t.key, value) ∈ entries) ↔ call.measured t

/-! ## What the callers fill in -/

variable {B : CloudBuild} {v : OtaVersion} {call : TelemetryCall} {data data' : TelemetryData}

/-- Something is published exactly when the structure can be encoded. -/
theorem publish_eq_ok_iff {payload : List UInt8} :
    call.publish B data = some (.ok (call.topic B, payload)) ↔
      encodeTelemetryData B.qcborEncode (call.fill B.pyrinasVersion data) 64
        = some (.ok payload) := by
  have hpublish : call.publish B data = (encodeTelemetryData B.qcborEncode
      (call.fill B.pyrinasVersion data) 64).map (·.map (call.topic B, ·)) := by
    cases call <;> rfl
  rw [hpublish]
  rcases encodeTelemetryData B.qcborEncode (call.fill B.pyrinasVersion data) 64 with
    _ | _ | bytes <;> simp [Except.map]

theorem measured_of_leavesAlone {t : TelemetryType} (h : call.leavesAlone t) :
    call.measured t = false := by
  cases call with
  | hub hasVersion rsrp => cases t <;> simp_all [TelemetryCall.leavesAlone, TelemetryCall.measured]
  | event evt => simpa [TelemetryCall.leavesAlone] using h

/-- **A flag is what was measured**, unless it is left alone. -/
theorem flag_fill (t : TelemetryType) : (call.fill v data).flag t
    = if call.leavesAlone t then data.flag t else call.measured t := by
  cases call with
  | hub hasVersion rsrp =>
    simp only [TelemetryCall.fill, fillHub]
    split_ifs <;> cases t <;>
      simp_all [TelemetryCall.leavesAlone, TelemetryCall.measured, TelemetryData.flag]
  | event evt =>
    simp only [TelemetryCall.fill, fillEvent]
    split_ifs <;> cases t <;>
      simp_all [TelemetryCall.leavesAlone, TelemetryCall.measured, TelemetryData.flag]

/-- On a stack that is clear the flags are what was measured. -/
theorem flag_fill_of_clear (h : StartsClear call data) (t : TelemetryType) :
    (call.fill v data).flag t = call.measured t := by
  rw [flag_fill]
  split_ifs with hleft
  · rw [h t hleft, measured_of_leavesAlone hleft]
  · rfl

/-- **The hub's version is printed into the structure.** -/
theorem versionString_fillHub (v : OtaVersion) (data : TelemetryData) (rsrp : UInt8) :
    ∃ text : CString, (fillHub v true rsrp data).versionString = some text ∧
      text.bytes = v.format.take 23 := by
  have hzero : 0 ∈ (getVersionString v data.version).cells :=
    zero_mem_snprintf data.version v.format (by decide)
  have hversion : (fillHub v true rsrp data).version = getVersionString v data.version := by
    simp only [fillHub]
    split_ifs <;> rfl
  refine ⟨_, versionString_of_mem (hversion ▸ hzero), ?_⟩
  rw [hversion]
  exact versionField_eq v data.version

/-- **A measurement is in its field.** -/
theorem value_fill {t : TelemetryType} (ht : call.measured t) (htype : t ≠ .version)
    (text : List UInt8) : (call.fill v data).value text t = call.measurement v t := by
  cases call with
  | hub hasVersion rsrp =>
    simp only [TelemetryCall.fill, fillHub]
    cases t <;> split_ifs <;>
      simp_all [TelemetryCall.measured, TelemetryData.value, TelemetryCall.measurement]
  | event evt =>
    simp only [TelemetryCall.fill, fillEvent]
    cases t <;> split_ifs <;>
      simp_all [TelemetryCall.measured, TelemetryData.value, TelemetryCall.measurement]

/-- The version, if there is one, is the hub's. -/
theorem exists_text_of_clear (h : StartsClear call data) : ∃ text : CString,
    text.bytes.length < 30 ∧
    ((call.fill v data).hasVersion → (call.fill v data).versionString = some text ∧
      text.bytes = v.format.take 23) := by
  by_cases hv : (call.fill v data).hasVersion
  · have hmeasured : call.measured .version := (flag_fill_of_clear h .version).symm.trans hv
    cases call with
    | hub hasVersion rsrp =>
      obtain rfl : hasVersion = true := hmeasured
      obtain ⟨text, hstring, htext⟩ := versionString_fillHub v data rsrp
      exact ⟨text, length_lt_of_versionString hstring, fun _ => ⟨hstring, htext⟩⟩
    | event evt => simp [TelemetryCall.measured] at hmeasured
  · exact ⟨.ofBytes [], by decide, fun hv' => absurd hv' hv⟩

/-- What the measurements are encoded as. -/
def TelemetryCall.entries (v : OtaVersion) (call : TelemetryCall) : List (Cbor × Cbor) :=
  (TelemetryType.all.filter call.measured).map fun t => (t.key, call.measurement v t)

/-- **From a clear stack the measurements are published.** -/
theorem publish_of_clear (hE : B.qcborEncode.Lawful) (h : StartsClear call data) :
    call.publish B data
        = some (.ok (call.topic B, Cbor.encode (.map (call.entries B.pyrinasVersion)))) ∧
      Cbor.decode (Cbor.encode (.map (call.entries B.pyrinasVersion)))
        = some (.map (call.entries B.pyrinasVersion), []) := by
  obtain ⟨text, hlen, hversion⟩ := exists_text_of_clear (v := B.pyrinasVersion) h
  have hentries : (call.fill B.pyrinasVersion data).entries text.bytes
      = call.entries B.pyrinasVersion := by
    have hflag : (call.fill B.pyrinasVersion data).flag = call.measured :=
      funext (flag_fill_of_clear h)
    rw [TelemetryData.entries, TelemetryData.types, TelemetryCall.entries, hflag]
    refine List.map_congr_left fun t ht => ?_
    have hmeasured : call.measured t := (List.mem_filter.mp ht).2
    by_cases htype : t = .version
    · subst htype
      have htext := (hversion ((flag_fill_of_clear h .version).trans hmeasured)).2
      simp [TelemetryData.value, TelemetryCall.measurement, htext]
    · rw [value_fill hmeasured htype]
  rw [publish_eq_ok_iff, ← hentries]
  exact encode_entries hE hlen fun hv => (hversion hv).1

/-! ## The exact condition -/

/-- **Telemetry depends on the measurements alone exactly when the flags that the caller leaves
alone are clear on both stacks.** -/
theorem onlyMeasurements_iff_startsClear (B : CloudBuild) (hE : B.qcborEncode.Lawful)
    (call : TelemetryCall) (data data' : TelemetryData) :
    OnlyMeasurements B call data data' ↔ StartsClear call data ∧ StartsClear call data' := by
  constructor
  · rintro ⟨payload, entries, hpub, hpub', hdecode, hkeys⟩
    have hclear : ∀ d, call.publish B d = some (.ok (call.topic B, payload)) →
        StartsClear call d := by
      intro d hd t ht
      have hflag := exists_mem_iff_flag hE (publish_eq_ok_iff.mp hd) hdecode t
      rw [hkeys t, flag_fill, if_pos ht, measured_of_leavesAlone ht] at hflag
      simpa using hflag.symm
    exact ⟨hclear data hpub, hclear data' hpub'⟩
  · rintro ⟨h, h'⟩
    obtain ⟨hpub, hdecode⟩ := publish_of_clear hE h
    refine ⟨_, _, hpub, (publish_of_clear hE h').1, hdecode, fun t => ?_⟩
    have hkey := exists_mem_iff_flag hE (publish_eq_ok_iff.mp hpub) hdecode t
    rw [hkey, flag_fill_of_clear h]

/-- `publish_telemetry` on two stacks that have nothing in common but the two flags. -/
theorem onlyMeasurements_clear : OnlyMeasurements sampleBuild (.hub true 50)
    ⟨false, Area.fill 24 0, false, 0, false, 0, false, 0⟩
    ⟨true, Area.fill 24 7, true, 97, false, -60, false, -70⟩ := by
  refine (onlyMeasurements_iff_startsClear sampleBuild lawful_cborWriter _ _ _).mpr ⟨?_, ?_⟩
  all_goals
    intro t ht
    cases t <;> first | rfl | cases ht

/-- `publish_telemetry` on two stacks, of which one holds a set `has_central_rssi`. -/
theorem not_onlyMeasurements_stack : ¬ ∀ data data' : TelemetryData,
    OnlyMeasurements sampleBuild (.hub false 50) data data' := by
  intro h
  obtain ⟨payload, entries, -, hpub, hdecode, hkeys⟩ := h
    ⟨false, Area.fill 24 0, false, 0, false, 0, false, 0⟩
    ⟨false, Area.fill 24 0, false, 0, true, -60, false, 0⟩
  have hkey :=
    exists_mem_iff_flag lawful_cborWriter (publish_eq_ok_iff.mp hpub) hdecode .rssiCentral
  rw [hkeys] at hkey
  exact absurd (hkey.mpr rfl) (by decide)

end Pyrinas
