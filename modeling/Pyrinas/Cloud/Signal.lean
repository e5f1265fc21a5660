import Pyrinas.Cloud.Measurements
import Pyrinas.Machinery.Run

/-!
# Cloud/Signal — the signal strength, from the modem to the payload

The modem reports its RSRP whenever it changes, and 255 when it does not know.  `cellular.c` keeps
the last value that is one, and `publish_telemetry` asks for it when it is due.

    modem ──reports──▸ modem_rsrp_handler ─▸ rsrp ──cellular_get_signal_strength──▸ telemetry
-/

open Machinery

namespace Pyrinas

/-- `modem_rsrp_handler`: what `rsrp` is after a report. -/
def modemRsrpHandler (rsrp rsrpValue : UInt8) : UInt8 :=
  if rsrpValue > rsrpThreshold then rsrp else rsrpValue

/-- `cellular_get_signal_strength`, after the reports since boot. -/
def cellularGetSignalStrength (reports : List UInt8) : UInt8 := run modemRsrpHandler 0xff reports

/-- The last report that is a strength. -/
def lastStrength (reports : List UInt8) : Option UInt8 :=
  (reports.filter fun r => r ≤ rsrpThreshold).getLast?

/-- **The signal strength is the last that was reported**, or none. -/
theorem cellularGetSignalStrength_eq (reports : List UInt8) :
    cellularGetSignalStrength reports = (lastStrength reports).getD 0xff := by
  induction reports using List.reverseRecOn with
  | nil => rfl
  | append_singleton reports r ih =>
    rw [cellularGetSignalStrength, run_append, run_cons, run_nil, modemRsrpHandler, lastStrength,
      List.filter_append]
    split
    next hgt =>
      have hnone : List.filter (fun r => decide (r ≤ rsrpThreshold)) [r] = [] := by
        simpa using hgt
      rw [hnone, List.append_nil]
      exact ih
    next hgt =>
      have hsome : List.filter (fun r => decide (r ≤ rsrpThreshold)) [r] = [r] := by
        simpa using hgt
      rw [hsome, List.getLast?_concat, Option.getD_some]

/-- It is up to the threshold exactly when one was reported. -/
theorem strength_le_iff (reports : List UInt8) {r : UInt8} :
    lastStrength reports = some r ↔
      cellularGetSignalStrength reports ≤ rsrpThreshold ∧
        r = cellularGetSignalStrength reports := by
  rw [cellularGetSignalStrength_eq]
  cases hlast : lastStrength reports with
  | none =>
    refine iff_of_false (by simp) fun h => absurd h.1 ?_
    rw [Option.getD_none]
    decide
  | some q =>
    have hmem : q ∈ reports.filter fun r => r ≤ rsrpThreshold := List.mem_of_getLast? hlast
    have hle : q ≤ rsrpThreshold := of_decide_eq_true (List.mem_filter.mp hmem).2
    rw [Option.getD_some, Option.some.injEq]
    exact ⟨fun h => ⟨hle, h.symm⟩, fun h => h.2.symm⟩

/-- What the hub fills in can be encoded, and its version is its own. -/
theorem exists_text_fillHub (v : OtaVersion) (hasVersion : Bool) (rsrp : UInt8)
    (data : TelemetryData) : ∃ text : CString, text.bytes.length < 30 ∧
      ((fillHub v hasVersion rsrp data).hasVersion →
        (fillHub v hasVersion rsrp data).versionString = some text) ∧
      (hasVersion → text.bytes = v.format.take 23) := by
  have hflag : (fillHub v hasVersion rsrp data).hasVersion = hasVersion :=
    @flag_fill v (.hub hasVersion rsrp) data .version
  cases hasVersion with
  | false => exact ⟨.ofBytes [], by decide, fun h => absurd (hflag ▸ h) (by decide),
      fun h => absurd h (by decide)⟩
  | true =>
    obtain ⟨text, hstring, htext⟩ := versionString_fillHub v data rsrp
    exact ⟨text, length_lt_of_versionString hstring, fun _ => hstring, fun _ => htext⟩

/-- **The hub publishes the last strength that its modem has reported**, and when it is asked to the
text of its version, cut to 23 characters, whatever the stack held: what it sends is one map, with
these values under their keys. -/
theorem telemetry_of_reports (B : CloudBuild) (hE : B.qcborEncode.Lawful) (hasVersion : Bool)
    (reports : List UInt8) (data : TelemetryData) :
    ∃ payload entries, publishTelemetry B hasVersion (cellularGetSignalStrength reports) data
        = some (.ok (B.telemetryPubTopic, payload)) ∧
      Cbor.decode payload = some (.map entries, []) ∧
      (∀ value, (TelemetryType.rsrp.key, value) ∈ entries ↔
        ∃ r, lastStrength reports = some r ∧ value = .unsigned r.toNat) ∧
      ∀ value, (TelemetryType.version.key, value) ∈ entries ↔
        hasVersion ∧ value = .text (B.pyrinasVersion.format.take 23) := by
  obtain ⟨text, hlen, hversion, htext⟩ :=
    exists_text_fillHub B.pyrinasVersion hasVersion (cellularGetSignalStrength reports) data
  obtain ⟨hencode, hdecode⟩ := encode_entries hE hlen hversion
  have hflag : ∀ t, (fillHub B.pyrinasVersion hasVersion (cellularGetSignalStrength reports)
      data).flag t = _ :=
    @flag_fill B.pyrinasVersion (.hub hasVersion (cellularGetSignalStrength reports)) data
  refine ⟨_, _, ?_, hdecode, fun value => ?_, fun value => ?_⟩
  · rw [publishTelemetry, hencode]
    rfl
  · have hvalue : ∀ r, lastStrength reports = some r →
        (fillHub B.pyrinasVersion hasVersion (cellularGetSignalStrength reports) data).value
          text.bytes .rsrp = .unsigned r.toNat := by
      intro r hr
      obtain ⟨hle, rfl⟩ := (strength_le_iff reports).mp hr
      exact @value_fill _ (.hub hasVersion _) _ .rsrp (decide_eq_true hle) (by simp) text.bytes
    rw [mem_entries, hflag]
    constructor
    · rintro ⟨hmeasured, hv⟩
      have hle := of_decide_eq_true hmeasured
      have hlast := (strength_le_iff reports).mpr ⟨hle, rfl⟩
      exact ⟨_, hlast, hv.trans (hvalue _ hlast)⟩
    · rintro ⟨r, hlast, hv⟩
      exact ⟨decide_eq_true ((strength_le_iff reports).mp hlast).1, hv.trans (hvalue r hlast).symm⟩
  · rw [mem_entries, hflag]
    refine and_congr_right fun hmeasured => ?_
    have hasked : hasVersion = true := hmeasured
    rw [TelemetryData.value, htext hasked]

/-- Three reports, of which the last is no strength. -/
theorem telemetry_of_reports_three : ∃ payload entries,
    publishTelemetry sampleBuild true (cellularGetSignalStrength [40, 55, 255]) sampleTelemetry
        = some (.ok (sampleBuild.telemetryPubTopic, payload)) ∧
      Cbor.decode payload = some (.map entries, []) ∧
      (TelemetryType.rsrp.key, .unsigned 55) ∈ entries := by
  obtain ⟨payload, entries, hpublish, hdecode, hrsrp, -⟩ :=
    telemetry_of_reports sampleBuild lawful_cborWriter true [40, 55, 255] sampleTelemetry
  exact ⟨payload, entries, hpublish, hdecode, (hrsrp _).mpr ⟨55, rfl, rfl⟩⟩

end Pyrinas
