import Pyrinas.Cloud.State
import Pyrinas.Cloud.VersionString
import Pyrinas.Machinery.Cbor

/-!
# Cloud/Telemetry — the telemetry map, and what it depends on

`encode_telemetry_data` writes a map with one entry for each flag that is set.  It always fits the
64 bytes of its callers, and decodes to the values it was given.  Its callers fill different parts
of a structure on the stack: what they leave alone is encoded all the same.

    publish_telemetry        has_version , has_rsrp        set or cleared
    …publish_telemetry_evt   has_central_rssi , has_peripheral_rssi        set, never cleared
-/

open Machinery

namespace Pyrinas

/-- `enum pyrinas_cloud_telemetry_type` -/
inductive TelemetryType
  | version
  | rsrp
  | rssiCentral
  | rssiPeripheral
  deriving DecidableEq

namespace TelemetryType

/-- The types, in the order of the encoder. -/
def all : List TelemetryType := [version, rsrp, rssiCentral, rssiPeripheral]

def toNat : TelemetryType → ℕ
  | version => 0
  | rsrp => 1
  | rssiCentral => 2
  | rssiPeripheral => 3

/-- The label of a type. -/
def label (t : TelemetryType) : Int64 := Int64.ofNat t.toNat

/-- The key of a type. -/
def key (t : TelemetryType) : Cbor := .unsigned t.toNat

theorem mem_all (t : TelemetryType) : t ∈ all := by
  cases t <;> simp [all]

theorem nodup_all : all.Nodup := by decide

theorem key_injective : Function.Injective key := by
  intro t u h
  have hnat := Cbor.unsigned.inj h
  revert hnat
  cases t <;> cases u <;> simp [toNat]

theorem int_label (t : TelemetryType) : Cbor.int t.label.toInt = t.key := by
  cases t <;> rfl

end TelemetryType

/-- `struct pyrinas_cloud_telemetry_data` -/
structure TelemetryData where
  hasVersion : Bool
  version : Area UInt8 24
  hasRsrp : Bool
  rsrp : UInt8
  hasCentralRssi : Bool
  centralRssi : Int8
  hasPeripheralRssi : Bool
  peripheralRssi : Int8

namespace TelemetryData

/-- What lies in memory behind `version`. -/
def behindVersion (d : TelemetryData) : List UInt8 :=
  [if d.hasRsrp then 1 else 0, d.rsrp, if d.hasCentralRssi then 1 else 0, d.centralRssi.toUInt8,
    if d.hasPeripheralRssi then 1 else 0, d.peripheralRssi.toUInt8]

/-- The C string `version`; none if it does not end inside the structure. -/
def versionString (d : TelemetryData) : Option CString :=
  if 0 ∈ d.version.cells ++ d.behindVersion then
    some (CString.ofBytes (d.version.cells ++ d.behindVersion))
  else none

/-- The flag of a type. -/
def flag (d : TelemetryData) : TelemetryType → Bool
  | .version => d.hasVersion
  | .rsrp => d.hasRsrp
  | .rssiCentral => d.hasCentralRssi
  | .rssiPeripheral => d.hasPeripheralRssi

/-- What is added for a type, with the string of the version. -/
def added (d : TelemetryData) (text : CString) : TelemetryType → MapValue
  | .version => .szString text
  | .rsrp => .uInt64 d.rsrp.toUInt64
  | .rssiCentral => .int64 d.centralRssi.toInt64
  | .rssiPeripheral => .int64 d.peripheralRssi.toInt64

/-- The value of a type, with the text of the version. -/
def value (d : TelemetryData) (text : List UInt8) : TelemetryType → Cbor
  | .version => .text text
  | .rsrp => .unsigned d.rsrp.toNat
  | .rssiCentral => .int d.centralRssi.toInt
  | .rssiPeripheral => .int d.peripheralRssi.toInt

end TelemetryData

/-! ## The encoder -/

section Encoder

variable (E : QcborEncode)

/-- The version, if it is there: `QCBOREncode_AddSZStringToMapN` reads up to the terminator. -/
def addVersion (d : TelemetryData) (ec : E.Context) : Option E.Context :=
  if d.hasVersion then
    d.versionString.map (E.addSZStringToMapN ec TelemetryType.version.label)
  else some ec

/-- `encode_telemetry_data`; none where it reads on behind the structure. -/
def encodeTelemetryData (d : TelemetryData) (dataLen : ℕ) : Option (Except ℕ (List UInt8)) := do
  let ec ← addVersion E d (E.openMap (E.init dataLen))
  let ec := if d.hasRsrp then
    E.addUInt64ToMapN ec TelemetryType.rsrp.label d.rsrp.toUInt64 else ec
  let ec := if d.hasCentralRssi then
    E.addInt64ToMapN ec TelemetryType.rssiCentral.label d.centralRssi.toInt64 else ec
  let ec := if d.hasPeripheralRssi then
    E.addInt64ToMapN ec TelemetryType.rssiPeripheral.label d.peripheralRssi.toInt64 else ec
  some (E.finishGetSize (E.closeMap ec))

end Encoder

/-! ## What is encoded -/

namespace TelemetryData

/-- The types whose flag is set. -/
def types (d : TelemetryData) : List TelemetryType := TelemetryType.all.filter d.flag

/-- What the encoder adds to its map. -/
def values (d : TelemetryData) (text : CString) : List (Int64 × MapValue) :=
  d.types.map fun t => (t.label, d.added text t)

/-- The entries of the types whose flag is set. -/
def entries (d : TelemetryData) (text : List UInt8) : List (Cbor × Cbor) :=
  d.types.map fun t => (t.key, d.value text t)

theorem item_added (d : TelemetryData) (text : CString) (t : TelemetryType) :
    (d.added text t).item = d.value text.bytes t := by
  cases t <;> simp [added, value, MapValue.item]

theorem mapItem_values (d : TelemetryData) (text : CString) :
    mapItem (d.values text) = .map (d.entries text.bytes) := by
  simp only [mapItem, values, entries, List.map_map, Function.comp_def, TelemetryType.int_label,
    item_added]

theorem length_types_le (d : TelemetryData) : d.types.length ≤ 4 := List.length_filter_le _ _

end TelemetryData

section Encode

variable {E : QcborEncode} {d : TelemetryData} {text : CString}

/-- What is added, one after the other. -/
theorem values_eq (d : TelemetryData) (text : CString) : d.values text
    = (((if d.hasVersion then [(TelemetryType.version.label, MapValue.szString text)] else []) ++
      if d.hasRsrp then [(TelemetryType.rsrp.label, MapValue.uInt64 d.rsrp.toUInt64)] else []) ++
      if d.hasCentralRssi then
        [(TelemetryType.rssiCentral.label, MapValue.int64 d.centralRssi.toInt64)] else []) ++
      if d.hasPeripheralRssi then
        [(TelemetryType.rssiPeripheral.label, MapValue.int64 d.peripheralRssi.toInt64)]
      else [] := by
  rcases d with ⟨_ | _, version, _ | _, rsrp, _ | _, central, _ | _, peripheral⟩ <;> rfl

/-- **The encoder adds the values** of the flags that are set, and nothing else. -/
theorem encodeTelemetryData_eq_encodeMap (htext : d.hasVersion → d.versionString = some text)
    (n : ℕ) : encodeTelemetryData E d n = some (E.encodeMap n (d.values text)) := by
  have hversion : ∀ ec, addVersion E d ec = some
      (if d.hasVersion then E.add ec (TelemetryType.version.label, .szString text) else ec) := by
    intro ec
    rw [addVersion]
    split_ifs with hv
    · rw [htext hv]
      rfl
    · rfl
  rw [QcborEncode.encodeMap, values_eq]
  simp only [List.foldl_append, QcborEncode.foldl_add_ite, encodeTelemetryData, hversion,
    Option.bind_eq_bind, Option.bind_some]
  rfl

/-- **What comes out is the map of the entries**, if it fits. -/
theorem encodeTelemetryData_eq (hE : E.Lawful) (htext : d.hasVersion → d.versionString = some text)
    {n : ℕ} (hn : n < 2 ^ 32) : encodeTelemetryData E d n = some
      (if (Cbor.encode (.map (d.entries text.bytes))).length ≤ n then
        .ok (Cbor.encode (.map (d.entries text.bytes)))
      else .error QcborEncode.bufferTooSmall) := by
  have hcount : (d.values text).length < 2 ^ 15 := by
    have hlen := d.length_types_le
    rw [TelemetryData.values, List.length_map]
    omega
  rw [encodeTelemetryData_eq_encodeMap htext, hE.encodeMap_eq hcount hn,
    TelemetryData.mapItem_values]

/-! ## It fits, and can be read back -/

theorem mem_entries {t : TelemetryType} {value : Cbor} :
    (t.key, value) ∈ d.entries text.bytes ↔ d.flag t ∧ value = d.value text.bytes t := by
  simp only [TelemetryData.entries, TelemetryData.types, List.mem_map, List.mem_filter,
    Prod.mk.injEq]
  constructor
  · rintro ⟨u, ⟨-, hu⟩, hkey, rfl⟩
    obtain rfl := TelemetryType.key_injective hkey
    exact ⟨hu, rfl⟩
  · rintro ⟨ht, rfl⟩
    exact ⟨t, ⟨t.mem_all, ht⟩, rfl, rfl⟩

/-- The string in the structure is shorter than the memory it lies in. -/
theorem length_lt_of_versionString (h : d.versionString = some text) : text.bytes.length < 30 := by
  simp only [TelemetryData.versionString, Option.ite_none_right_eq_some] at h
  obtain ⟨hzero, heq⟩ := h
  obtain rfl := Option.some.inj heq
  have hlen : (d.version.cells ++ d.behindVersion).length = 30 := by
    simp [TelemetryData.behindVersion]
  exact hlen ▸ CString.length_ofBytes_lt hzero

theorem valid_value (htext : text.bytes.length < 30) (t : TelemetryType) :
    Cbor.Valid (d.value text.bytes t) := by
  cases t with
  | version => exact .text (by omega)
  | rsrp => exact .unsigned (by have := d.rsrp.toNat_lt; omega)
  | rssiCentral =>
    have hlo := d.centralRssi.le_toInt
    have hhi := d.centralRssi.toInt_lt
    exact Cbor.valid_int (by omega) (by omega)
  | rssiPeripheral =>
    have hlo := d.peripheralRssi.le_toInt
    have hhi := d.peripheralRssi.toInt_lt
    exact Cbor.valid_int (by omega) (by omega)

theorem length_entries_le : (d.entries text.bytes).length ≤ 4 := by
  rw [TelemetryData.entries, List.length_map]
  exact d.length_types_le

theorem valid_entries (htext : text.bytes.length < 30) :
    Cbor.Valid (.map (d.entries text.bytes)) := by
  have hlen : (d.entries text.bytes).length ≤ 4 := length_entries_le
  refine .map (by omega) (fun e he => ?_) (fun e he => ?_)
  all_goals
    obtain ⟨t, -, rfl⟩ := List.mem_map.mp he
  · exact .unsigned (by cases t <;> decide)
  · exact valid_value htext t

/-- How many bytes an entry takes at most. -/
def maxSize : TelemetryType → ℕ
  | .version => 32
  | _ => 3

theorem length_encode_value_le (htext : text.bytes.length < 30) (t : TelemetryType) :
    (Cbor.encode (d.value text.bytes t)).length + 1 ≤ maxSize t := by
  cases t with
  | version =>
    have hhead : (Cbor.head 3 text.bytes.length).length ≤ 2 := Cbor.length_head_le_two (by omega)
    simp only [TelemetryData.value, Cbor.encode, List.length_append, maxSize]
    omega
  | rsrp => exact Nat.succ_le_succ (Cbor.length_head_le_two d.rsrp.toNat_lt)
  | rssiCentral =>
    have hlo := d.centralRssi.le_toInt
    have hhi := d.centralRssi.toInt_lt
    exact Nat.succ_le_succ (Cbor.length_encode_int_le_two (by omega) (by omega))
  | rssiPeripheral =>
    have hlo := d.peripheralRssi.le_toInt
    have hhi := d.peripheralRssi.toInt_lt
    exact Nat.succ_le_succ (Cbor.length_encode_int_le_two (by omega) (by omega))

/-- **The map takes at most 42 bytes.** -/
theorem length_encode_entries_le (htext : text.bytes.length < 30) :
    (Cbor.encode (.map (d.entries text.bytes))).length ≤ 42 := by
  have hlen : (d.entries text.bytes).length ≤ 4 := length_entries_le
  have hhead : (Cbor.head 5 (d.entries text.bytes).length).length = 1 :=
    Cbor.length_head_of_lt (by omega)
  have hentry : ∀ t : TelemetryType,
      (Cbor.encodeEntry (t.key, d.value text.bytes t)).length ≤ maxSize t := by
    intro t
    have hkey : (Cbor.encode t.key).length = 1 := Cbor.length_head_of_lt (by cases t <;> decide)
    have hvalue := length_encode_value_le (d := d) htext t
    simp only [Cbor.encodeEntry, List.length_append, hkey]
    omega
  have hsub : (d.entries text.bytes).Sublist
      (TelemetryType.all.map fun t => (t.key, d.value text.bytes t)) := List.filter_sublist.map _
  have hall := (hsub.flatMap Cbor.encodeEntry).length_le
  have hversion := hentry .version
  have hrsrp := hentry .rsrp
  have hcentral := hentry .rssiCentral
  have hperipheral := hentry .rssiPeripheral
  simp only [TelemetryType.all, List.map_cons, List.map_nil, List.flatMap_cons, List.flatMap_nil,
    List.length_append, List.length_nil] at hall
  simp only [maxSize] at hversion hrsrp hcentral hperipheral
  rw [Cbor.encode, Cbor.encodeEntries_eq, List.length_append, hhead]
  omega

/-- What could be encoded had a version that ends, if it had one. -/
theorem exists_text_of_encode {n : ℕ} {r : Except ℕ (List UInt8)}
    (h : encodeTelemetryData E d n = some r) :
    ∃ text : CString, text.bytes.length < 30 ∧ (d.hasVersion → d.versionString = some text) := by
  by_cases hv : d.hasVersion
  · cases hs : d.versionString with
    | some text => exact ⟨text, length_lt_of_versionString hs, fun _ => rfl⟩
    | none => simp [encodeTelemetryData, addVersion, hv, hs] at h
  · exact ⟨.ofBytes [], by decide, fun hv' => absurd hv' hv⟩

/-- With a version that ends, the entries are written, and can be read back. -/
theorem encode_entries (hE : E.Lawful) (htext : text.bytes.length < 30)
    (hversion : d.hasVersion → d.versionString = some text) :
    encodeTelemetryData E d 64 = some (.ok (Cbor.encode (.map (d.entries text.bytes)))) ∧
      Cbor.decode (Cbor.encode (.map (d.entries text.bytes)))
        = some (.map (d.entries text.bytes), []) := by
  have hread := Cbor.decode_encode (valid_entries (d := d) htext) []
  rw [List.append_nil] at hread
  refine ⟨?_, hread⟩
  rw [encodeTelemetryData_eq hE hversion (by decide),
    if_pos ((length_encode_entries_le htext).trans (by decide))]

/-- **The keys are those of the flags that are set.** -/
theorem exists_mem_iff_flag (hE : E.Lawful) {bytes : List UInt8} {entries : List (Cbor × Cbor)}
    (h : encodeTelemetryData E d 64 = some (.ok bytes))
    (hdecode : Cbor.decode bytes = some (.map entries, [])) (t : TelemetryType) :
    (∃ value, (t.key, value) ∈ entries) ↔ d.flag t := by
  obtain ⟨text, htext, hversion⟩ := exists_text_of_encode h
  obtain ⟨hencode, hread⟩ := encode_entries hE htext hversion
  obtain rfl := Except.ok.inj (Option.some.inj (h.symm.trans hencode))
  obtain rfl := Cbor.map.inj (Prod.mk.inj (Option.some.inj (hdecode.symm.trans hread))).1
  simp [mem_entries]

/-- A string that ends inside the field. -/
theorem versionString_of_mem (h : 0 ∈ d.version.cells) :
    d.versionString = some (CString.ofBytes d.version.cells) := by
  rw [TelemetryData.versionString, if_pos (List.mem_append_left _ h), CString.ofBytes_append h]

/-- **Telemetry is encoded faithfully, and fits**: with a terminated version and any flags, what is
written into 64 bytes is one map, with a key for each flag that is set and no others, and under each
key the value of its field. -/
theorem telemetry_faithful (hE : E.Lawful) (d : TelemetryData) (h : 0 ∈ d.version.cells) :
    ∃ bytes entries, encodeTelemetryData E d 64 = some (.ok bytes) ∧
      Cbor.decode bytes = some (.map entries, []) ∧
      (entries.map Prod.fst).Nodup ∧ (∀ e ∈ entries, ∃ t : TelemetryType, e.1 = t.key) ∧
      ∀ (t : TelemetryType) (value : Cbor), (t.key, value) ∈ entries ↔
        d.flag t ∧ value = d.value (CString.ofBytes d.version.cells).bytes t := by
  have hstring := versionString_of_mem h
  have htext := length_lt_of_versionString hstring
  obtain ⟨hencode, hread⟩ := encode_entries hE htext fun _ => hstring
  refine ⟨_, _, hencode, hread, ?_, ?_, fun t value => mem_entries⟩
  · rw [TelemetryData.entries, List.map_map]
    exact (TelemetryType.nodup_all.filter _).map TelemetryType.key_injective
  · intro e he
    obtain ⟨t, -, rfl⟩ := List.mem_map.mp he
    exact ⟨t, rfl⟩

end Encode

/-- The version 1.0.10-3, the strongest signal, and the least and the greatest RSSI. -/
def sampleTelemetry : TelemetryData where
  hasVersion := true
  version := ⟨(CString.ofString "1.0.10-3-").bytes ++ List.replicate 15 0, by decide⟩
  hasRsrp := true
  rsrp := 97
  hasCentralRssi := true
  centralRssi := -128
  hasPeripheralRssi := true
  peripheralRssi := 127

theorem telemetry_faithful_sample : ∃ bytes entries,
    encodeTelemetryData cborWriter sampleTelemetry 64 = some (.ok bytes) ∧
      Cbor.decode bytes = some (.map entries, []) ∧
      (TelemetryType.version.key, .text (CString.ofString "1.0.10-3-").bytes) ∈ entries := by
  have hterminated : 0 ∈ sampleTelemetry.version.cells := by decide +kernel
  obtain ⟨bytes, entries, hencode, hdecode, -, -, hmem⟩ :=
    telemetry_faithful lawful_cborWriter sampleTelemetry hterminated
  refine ⟨bytes, entries, hencode, hdecode, (hmem .version _).mpr ⟨rfl, ?_⟩⟩
  have hbytes : (CString.ofBytes sampleTelemetry.version.cells).bytes
      = (CString.ofString "1.0.10-3-").bytes := by decide +kernel
  rw [TelemetryData.value, hbytes]

end Pyrinas
