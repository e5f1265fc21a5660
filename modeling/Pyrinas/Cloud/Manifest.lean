import Mathlib.Data.List.FinRange
import Mathlib.Logic.Function.Basic
import Pyrinas.Cloud.Version
import Pyrinas.Machinery.Area
import Pyrinas.Machinery.CString

/-!
# Cloud/Manifest — `decode_ota_data`

The decoder writes into `ota_data` field by field while it reads, and looks for errors only between
the fields.  The CBOR library is a parameter: a getter may leave its output unset, and then the
caller goes on with what its local held before.

    init ─▸ map ─▸ version ─▸ host ─▸ file ─▸ force ─▸ finish        error: straight to finish
-/

open Machinery

namespace Pyrinas

/-- The functions of the CBOR library the decoder calls, each on the decoder's context; `none` is
an output that is left unset. -/
structure Qcbor where
  Context : Type
  init : List UInt8 → Context
  enterMap : Context → Context
  getError : Context → ℕ
  enterMapFromMapN : Context → ℤ → Context
  getUInt64ConvertAllInMapN : Context → ℤ → Option UInt64 × Context
  enterArrayFromMapN : Context → ℤ → Context
  getUInt64 : Context → Option UInt64 × Context
  exitArray : Context → Context
  getTextStringInMapN : Context → ℤ → Option (List UInt8) × Context
  getBoolInMapN : Context → ℤ → Option Bool × Context
  exitMap : Context → Context
  finish : Context → ℕ

/-- `pyrinas_cloud_ota_version_pos_t` -/
def majorPos : ℤ := 0
def minorPos : ℤ := 1
def patchPos : ℤ := 2
def commitPos : ℤ := 3
def hashPos : ℤ := 4

/-- `pyrinas_cloud_ota_data_pos_t` -/
def versionPos : ℤ := 0
def hostPos : ℤ := 1
def filePos : ℤ := 2
def forcePos : ℤ := 3

/-- `struct pyrinas_cloud_ota_data` -/
structure OtaData where
  version : OtaVersion
  host : Area UInt8 128
  file : Area UInt8 128
  force : Bool
  deriving DecidableEq

namespace OtaData

/-- The static `ota_data` at boot. -/
def zero : OtaData := ⟨.zero, Area.fill 128 0, Area.fill 128 0, false⟩

/-- What lies in memory from `file` on. -/
def fileMemory (d : OtaData) : List UInt8 := d.file.cells ++ [if d.force then 1 else 0]

/-- What lies in memory from `host` on. -/
def hostMemory (d : OtaData) : List UInt8 := d.host.cells ++ d.fileMemory

/-- The C strings `host` and `file`; none if one of them does not end inside the structure. -/
def url (d : OtaData) : Option (CString × CString) :=
  if 0 ∈ d.hostMemory ∧ 0 ∈ d.fileMemory then
    some (CString.ofBytes d.hostMemory, CString.ofBytes d.fileMemory)
  else none

end OtaData

/-- The host and the file of a message: what the CBOR library finds under the two labels. -/
abbrev ManifestUrl := Option (List UInt8) × Option (List UInt8)

/-- Two C strings, as the texts of a message. -/
def urlTexts (url : CString × CString) : ManifestUrl := (some url.1.bytes, some url.2.bytes)

/-- What the locals of the decoder hold before they are written: `temp`, and the bytes `host_data`
and `file_data` point to (none if they cannot be read). -/
structure DecodeStack where
  temp : UInt64
  hostData : Option (List UInt8)
  fileData : Option (List UInt8)

section Decode

variable (Q : Qcbor)

/-- One number of the version: what the getter leaves in `temp`. -/
def decodeNumber (dc : Q.Context) (label : ℤ) (temp : UInt64) : UInt64 × Q.Context :=
  let (out, dc) := Q.getUInt64ConvertAllInMapN dc label
  (out.getD temp, dc)

/-- The loop over the hash. -/
def decodeHash : List (Fin 8) → (Fin 8 → UInt8) → Q.Context → UInt64 → (Fin 8 → UInt8) × Q.Context
  | [], hash, dc, _ => (hash, dc)
  | i :: is, hash, dc, temp =>
    let (out, dc) := Q.getUInt64 dc
    let temp := out.getD temp
    decodeHash is (Function.update hash i temp.toUInt8) dc temp

/-- `decode_ota_version` -/
def decodeOtaVersion (version : OtaVersion) (dc : Q.Context) (label : ℤ) (temp : UInt64) :
    OtaVersion × Q.Context :=
  let dc := Q.enterMapFromMapN dc label
  let (temp, dc) := decodeNumber Q dc majorPos temp
  let version := { version with major := temp.toUInt8 }
  let (temp, dc) := decodeNumber Q dc minorPos temp
  let version := { version with minor := temp.toUInt8 }
  let (temp, dc) := decodeNumber Q dc patchPos temp
  let version := { version with patch := temp.toUInt8 }
  let (temp, dc) := decodeNumber Q dc commitPos temp
  let version := { version with commit := temp.toUInt8 }
  let dc := Q.enterArrayFromMapN dc hashPos
  let (hash, dc) := decodeHash Q (List.finRange 8) version.hash dc temp
  let dc := Q.exitArray dc
  ({ version with hash := hash }, Q.exitMap dc)

/-- One text: `memcpy` copies what the getter found, or whatever the local pointed to, before the
error is looked at. -/
def decodeText (dc : Q.Context) (label : ℤ) (unset : Option (List UInt8)) (field : Area UInt8 128) :
    Option (Area UInt8 128 × Q.Context) := do
  let (out, dc) := Q.getTextStringInMapN dc label
  let field ← field.copyIn 0 (← out <|> unset)
  some (field, dc)

/-- `decode_ota_data`: the result and the structure after it; none where a `memcpy` leaves the
field, or reads from a pointer that is none. -/
def decodeOtaData (stack : DecodeStack) (data : List UInt8) (d : OtaData) : Option (ℕ × OtaData) :=
  let dc := Q.enterMap (Q.init data)
  if Q.getError dc ≠ 0 then some (Q.finish dc, d)
  else
    let (version, dc) := decodeOtaVersion Q d.version dc versionPos stack.temp
    let d := { d with version := version }
    if Q.getError dc ≠ 0 then some (Q.finish dc, d)
    else do
      let (host, dc) ← decodeText Q dc hostPos stack.hostData d.host
      let d := { d with host := host }
      if Q.getError dc ≠ 0 then some (Q.finish dc, d)
      else do
        let (file, dc) ← decodeText Q dc filePos stack.fileData d.file
        let d := { d with file := file }
        if Q.getError dc ≠ 0 then some (Q.finish dc, d)
        else
          let (force, dc) := Q.getBoolInMapN dc forcePos
          let d := { d with force := force.getD d.force }
          if Q.getError dc ≠ 0 then some (Q.finish dc, d)
          else some (Q.finish (Q.exitMap dc), d)

/-- The host and the file of a message, read without writing anything. -/
def manifestUrl (data : List UInt8) : ManifestUrl :=
  let dc := Q.enterMap (Q.init data)
  let dc := (decodeOtaVersion Q .zero dc versionPos 0).2
  let (host, dc) := Q.getTextStringInMapN dc hostPos
  let (file, _) := Q.getTextStringInMapN dc filePos
  (host, file)

end Decode

end Pyrinas
