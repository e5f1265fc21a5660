import Pyrinas.Machinery.Cbor
import Pyrinas.Machinery.CString

/-!
# Cloud/Encoding — one map, encoded by the CBOR library

`encode_ota_request` and `encode_telemetry_data` open a map, add an entry for everything they have
to say, and close it.  The library is a parameter, with what it says of such a map as its laws; a
writer that keeps the entries as bytes is an instance.

    Init ─▸ OpenMap ─▸ Add…ToMapN ⋯ Add…ToMapN ─▸ CloseMap ─▸ FinishGetSize
-/

open Machinery

namespace Pyrinas

/-- The functions of QCBOR that the encoders call: a context is a `QCBOREncodeContext` and its
buffer. -/
structure QcborEncode where
  Context : Type
  init : ℕ → Context
  openMap : Context → Context
  addUInt64ToMapN : Context → Int64 → UInt64 → Context
  addInt64ToMapN : Context → Int64 → Int64 → Context
  addSZStringToMapN : Context → Int64 → CString → Context
  closeMap : Context → Context
  finishGetSize : Context → Except ℕ (List UInt8)

/-- A value that can be added to a map. -/
inductive MapValue
  | uInt64 (n : UInt64)
  | int64 (n : Int64)
  | szString (s : CString)

/-- The item that a value is encoded as. -/
def MapValue.item : MapValue → Cbor
  | uInt64 n => .unsigned n.toNat
  | int64 n => .int n.toInt
  | szString s => .text s.bytes

/-- The map with these values under these labels. -/
def mapItem (values : List (Int64 × MapValue)) : Cbor :=
  .map (values.map fun v => (.int v.1.toInt, v.2.item))

namespace QcborEncode

/-- `QCBOR_ERR_BUFFER_TOO_SMALL` -/
def bufferTooSmall : ℕ := 1

variable (E : QcborEncode)

/-- A value is added. -/
def add (ec : E.Context) : Int64 × MapValue → E.Context
  | (label, .uInt64 n) => E.addUInt64ToMapN ec label n
  | (label, .int64 n) => E.addInt64ToMapN ec label n
  | (label, .szString s) => E.addSZStringToMapN ec label s

/-- A map is encoded into a buffer of that size. -/
def encodeMap (size : ℕ) (values : List (Int64 × MapValue)) : Except ℕ (List UInt8) :=
  E.finishGetSize (E.closeMap (values.foldl E.add (E.openMap (E.init size))))

/-- What the library says of a map, as long as neither its counters nor its offsets overflow: the
entries are encoded in their order and in the shortest form, and a buffer that they do not fit is an
error. -/
structure Lawful : Prop where
  shortest {size : ℕ} {values : List (Int64 × MapValue)} (hcount : values.length < 2 ^ 15)
    (hsize : size < 2 ^ 32) (hfits : (mapItem values).encode.length ≤ size) :
    E.encodeMap size values = .ok (mapItem values).encode
  tooSmall {size : ℕ} {values : List (Int64 × MapValue)} (hcount : values.length < 2 ^ 15)
    (hsize : size < 2 ^ 32) (hsmall : size < (mapItem values).encode.length) :
    E.encodeMap size values = .error bufferTooSmall

variable {E}

theorem Lawful.encodeMap_eq (hE : E.Lawful) {size : ℕ} {values : List (Int64 × MapValue)}
    (hcount : values.length < 2 ^ 15) (hsize : size < 2 ^ 32) : E.encodeMap size values
      = if (mapItem values).encode.length ≤ size then .ok (mapItem values).encode
        else .error bufferTooSmall := by
  split_ifs with hfits
  · exact hE.shortest hcount hsize hfits
  · exact hE.tooSmall hcount hsize (not_le.mp hfits)

/-- A value that is added under a condition. -/
theorem foldl_add_ite (ec : E.Context) (flag : Bool) (v : Int64 × MapValue) :
    (if flag then [v] else []).foldl E.add ec = if flag then E.add ec v else ec := by
  cases flag <;> rfl

end QcborEncode

/-! ## A writer -/

/-- A map that is being written: the size of its buffer, and the number of its entries and their
bytes. -/
structure CborWriter where
  size : ℕ
  count : ℕ
  bytes : List UInt8

namespace CborWriter

/-- Label and value, in the shortest form. -/
def add (w : CborWriter) (v : Int64 × MapValue) : CborWriter :=
  { w with
    count := w.count + 1
    bytes := w.bytes ++ Cbor.encodeEntry (.int v.1.toInt, v.2.item) }

/-- The head comes in front. -/
def closeMap (w : CborWriter) : CborWriter :=
  { w with bytes := Cbor.head 5 w.count ++ w.bytes }

def finish (w : CborWriter) : Except ℕ (List UInt8) :=
  if w.bytes.length ≤ w.size then .ok w.bytes else .error QcborEncode.bufferTooSmall

/-- **The entries stand behind what was there.** -/
theorem foldl_add (w : CborWriter) (values : List (Int64 × MapValue)) :
    values.foldl add w = ⟨w.size, w.count + values.length,
      w.bytes
        ++ (values.map fun v => (Cbor.int v.1.toInt, v.2.item)).flatMap Cbor.encodeEntry⟩ := by
  induction values generalizing w with
  | nil => simp
  | cons v values ih =>
    rw [List.foldl_cons, ih]
    simp only [add, List.map_cons, List.flatMap_cons, List.length_cons, List.append_assoc,
      Nat.add_assoc, Nat.add_comm 1]

end CborWriter

/-- The writer as the library. -/
def cborWriter : QcborEncode where
  Context := CborWriter
  init size := ⟨size, 0, []⟩
  openMap w := w
  addUInt64ToMapN w label n := w.add (label, .uInt64 n)
  addInt64ToMapN w label n := w.add (label, .int64 n)
  addSZStringToMapN w label s := w.add (label, .szString s)
  closeMap w := w.closeMap
  finishGetSize w := w.finish

theorem add_cborWriter : cborWriter.add = CborWriter.add := by
  funext w v
  obtain ⟨label, n | n | s⟩ := v <;> rfl

theorem encodeMap_cborWriter (size : ℕ) (values : List (Int64 × MapValue)) :
    cborWriter.encodeMap size values
      = if (mapItem values).encode.length ≤ size then .ok (mapItem values).encode
        else .error QcborEncode.bufferTooSmall := by
  have hencode : (mapItem values).encode = Cbor.head 5 values.length
      ++ (values.map fun v => (Cbor.int v.1.toInt, v.2.item)).flatMap Cbor.encodeEntry := by
    rw [mapItem, Cbor.encode, Cbor.encodeEntries_eq, List.length_map]
  have hwritten := CborWriter.foldl_add ⟨size, 0, []⟩ values
  rw [Nat.zero_add, List.nil_append] at hwritten
  rw [QcborEncode.encodeMap, add_cborWriter]
  change CborWriter.finish (CborWriter.closeMap (values.foldl CborWriter.add ⟨size, 0, []⟩)) = _
  rw [hwritten, hencode]
  rfl

/-- The writer is lawful. -/
theorem lawful_cborWriter : cborWriter.Lawful where
  shortest _ _ hfits := (encodeMap_cborWriter _ _).trans (if_pos hfits)
  tooSmall _ _ hsmall := (encodeMap_cborWriter _ _).trans (if_neg (not_le.mpr hsmall))

end Pyrinas
