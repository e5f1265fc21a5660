import Pyrinas.Cloud.Cbor
import Pyrinas.Machinery.Writes

/-!
# Cloud/Decoding — what `decode_ota_data` stores, and on whose word

The decoder asks the CBOR library for one value after the other, and stores each before it looks at
the error.  A store is what a getter was to set and where it goes; with what the locals hold where a
getter sets nothing, the stores become writes into `ota_data`.

    getter ─▸ store ⟨place, what was set⟩ ─▸ write ⟨place, value⟩
-/

open Machinery

namespace Pyrinas

/-- A number of the version. -/
inductive VersionByte
  | major
  | minor
  | patch
  | commit
  | hash (i : Fin 8)
  deriving DecidableEq

/-- A text of the manifest. -/
inductive UrlPart
  | host
  | file
  deriving DecidableEq

/-- A place in `ota_data`. -/
inductive OtaPlace
  | number (byte : VersionByte)
  | text (part : UrlPart)
  | force
  deriving DecidableEq

/-- A value that is stored, as far as the getter set it. -/
inductive OtaStore
  | number (byte : VersionByte) (out : Option UInt64)
  | text (part : UrlPart) (out : Option (List UInt8))
  | force (out : Option Bool)

/-- A write into `ota_data`; of a text, none if its pointer cannot be read. -/
inductive OtaWrite
  | number (byte : VersionByte) (value : UInt8)
  | text (part : UrlPart) (bytes : Option (List UInt8))
  | force (value : Bool)

/-- The label of a text. -/
def UrlPart.pos : UrlPart → ℤ
  | .host => hostPos
  | .file => filePos

/-- Where a store goes. -/
def OtaStore.place : OtaStore → OtaPlace
  | .number byte _ => .number byte
  | .text part _ => .text part
  | .force _ => .force

namespace OtaVersion

/-- One number. -/
def get (v : OtaVersion) : VersionByte → UInt8
  | .major => v.major
  | .minor => v.minor
  | .patch => v.patch
  | .commit => v.commit
  | .hash i => v.hash i

/-- Write one number. -/
def set (v : OtaVersion) (value : UInt8) : VersionByte → OtaVersion
  | .major => { v with major := value }
  | .minor => { v with minor := value }
  | .patch => { v with patch := value }
  | .commit => { v with commit := value }
  | .hash i => { v with hash := Function.update v.hash i value }

@[simp] theorem get_set (v : OtaVersion) (value : UInt8) (byte : VersionByte) :
    (v.set value byte).get byte = value := by
  cases byte <;> simp [get, set]

theorem get_set_of_ne (v : OtaVersion) (value : UInt8) {byte other : VersionByte}
    (h : other ≠ byte) : (v.set value byte).get other = v.get other := by
  cases byte <;> cases other <;> simp_all [get, set]

/-- Writing the number that is there changes nothing. -/
theorem set_get (v : OtaVersion) (byte : VersionByte) : v.set (v.get byte) byte = v := by
  cases byte <;> simp [get, set]

end OtaVersion

namespace OtaData

/-- One text. -/
def text (d : OtaData) : UrlPart → Area UInt8 128
  | .host => d.host
  | .file => d.file

/-- Write one text. -/
def setText (d : OtaData) (area : Area UInt8 128) : UrlPart → OtaData
  | .host => { d with host := area }
  | .file => { d with file := area }

end OtaData

/-- What a local holds that a text getter leaves unset. -/
def DecodeStack.unset (stack : DecodeStack) : UrlPart → Option (List UInt8)
  | .host => stack.hostData
  | .file => stack.fileData

namespace OtaWrite

/-- Where a write goes. -/
def place : OtaWrite → OtaPlace
  | number byte _ => .number byte
  | text part _ => .text part
  | force _ => .force

/-- The write itself; none if it leaves the field. -/
def write (d : OtaData) : OtaWrite → Option OtaData
  | number byte value => some { d with version := d.version.set value byte }
  | text part bytes => do
    let area ← (d.text part).copyIn 0 (← bytes)
    some (d.setText area part)
  | force value => some { d with force := value }

/-- The value is there. -/
def Holds (d : OtaData) : OtaWrite → Prop
  | number byte value => d.version.get byte = value
  | text part bytes => ∃ t, bytes = some t ∧ t <+: (d.text part).cells
  | force value => d.force = value

end OtaWrite

/-- The writes a row of stores comes to: a number that was not set is the last one that was, or what
`temp` held before; a text that was not set is what its local pointed to. -/
def resolve (stack : DecodeStack) : UInt64 → List OtaStore → List OtaWrite
  | _, [] => []
  | temp, .number byte out :: stores =>
    .number byte (out.getD temp).toUInt8 :: resolve stack (out.getD temp) stores
  | temp, .text part out :: stores =>
    .text part (out.or (stack.unset part)) :: resolve stack temp stores
  | temp, .force (some value) :: stores => .force value :: resolve stack temp stores
  | temp, .force none :: stores => resolve stack temp stores

section Trace

variable (Q : Qcbor)

/-- The loop over the hash. -/
def traceHash : List (Fin 8) → Q.Context → List OtaStore × Q.Context
  | [], dc => ([], dc)
  | i :: is, dc =>
    let (out, dc) := Q.getUInt64 dc
    let (stores, dc) := traceHash is dc
    (.number (.hash i) out :: stores, dc)

/-- The numbers of the version. -/
def traceNumbers (dc : Q.Context) : List OtaStore × Q.Context :=
  let (major, dc) := Q.getUInt64ConvertAllInMapN dc majorPos
  let (minor, dc) := Q.getUInt64ConvertAllInMapN dc minorPos
  let (patch, dc) := Q.getUInt64ConvertAllInMapN dc patchPos
  let (commit, dc) := Q.getUInt64ConvertAllInMapN dc commitPos
  let (hash, dc) := traceHash Q (List.finRange 8) (Q.enterArrayFromMapN dc hashPos)
  (.number .major major :: .number .minor minor :: .number .patch patch ::
    .number .commit commit :: hash, dc)

/-- What `decode_ota_version` stores. -/
def traceVersion (dc : Q.Context) (label : ℤ) : List OtaStore × Q.Context :=
  let (stores, dc) := traceNumbers Q (Q.enterMapFromMapN dc label)
  (stores, Q.exitMap (Q.exitArray dc))

/-- The value of `force`, the last one. -/
def traceForce (dc : Q.Context) : List OtaStore × Q.Context :=
  let (force, dc) := Q.getBoolInMapN dc forcePos
  ([.force force], if Q.getError dc ≠ 0 then dc else Q.exitMap dc)

/-- A text, and what follows it. -/
def traceText (part : UrlPart) (next : Q.Context → List OtaStore × Q.Context) (dc : Q.Context) :
    List OtaStore × Q.Context :=
  let (text, dc) := Q.getTextStringInMapN dc part.pos
  if Q.getError dc ≠ 0 then ([.text part text], dc)
  else
    let (stores, dc) := next dc
    (.text part text :: stores, dc)

/-- What `decode_ota_data` stores, and where the library is at the end. -/
def traceData (data : List UInt8) : List OtaStore × Q.Context :=
  let dc := Q.enterMap (Q.init data)
  if Q.getError dc ≠ 0 then ([], dc)
  else
    let (version, dc) := traceVersion Q dc versionPos
    if Q.getError dc ≠ 0 then (version, dc)
    else
      let (stores, dc) := traceText Q .host (traceText Q .file (traceForce Q)) dc
      (version ++ stores, dc)

/-! ## Where a trace ends -/

variable {Q}

theorem traceText_of_error {part : UrlPart} {next : Q.Context → List OtaStore × Q.Context}
    {dc : Q.Context} (h : Q.getError (Q.getTextStringInMapN dc part.pos).2 ≠ 0) :
    traceText Q part next dc = ([.text part (Q.getTextStringInMapN dc part.pos).1],
      (Q.getTextStringInMapN dc part.pos).2) := if_pos h

theorem traceText_of_no_error {part : UrlPart} {next : Q.Context → List OtaStore × Q.Context}
    {dc : Q.Context} (h : Q.getError (Q.getTextStringInMapN dc part.pos).2 = 0) :
    traceText Q part next dc = (.text part (Q.getTextStringInMapN dc part.pos).1 ::
      (next (Q.getTextStringInMapN dc part.pos).2).1,
      (next (Q.getTextStringInMapN dc part.pos).2).2) := if_neg (not_not.mpr h)

/-- The message is no map. -/
theorem traceData_of_no_map {data : List UInt8} (h : Q.getError (Q.enterMap (Q.init data)) ≠ 0) :
    traceData Q data = ([], Q.enterMap (Q.init data)) := if_pos h

/-- There is an error when the version is left. -/
theorem traceData_of_no_version {data : List UInt8}
    (hmap : Q.getError (Q.enterMap (Q.init data)) = 0)
    (h : Q.getError (traceVersion Q (Q.enterMap (Q.init data)) versionPos).2 ≠ 0) :
    traceData Q data = traceVersion Q (Q.enterMap (Q.init data)) versionPos :=
  (if_neg (not_not.mpr hmap)).trans (if_pos h)

/-- There is none. -/
theorem traceData_of_version {data : List UInt8}
    (hmap : Q.getError (Q.enterMap (Q.init data)) = 0)
    (h : Q.getError (traceVersion Q (Q.enterMap (Q.init data)) versionPos).2 = 0) :
    traceData Q data = ((traceVersion Q (Q.enterMap (Q.init data)) versionPos).1 ++
        (traceText Q .host (traceText Q .file (traceForce Q))
          (traceVersion Q (Q.enterMap (Q.init data)) versionPos).2).1,
      (traceText Q .host (traceText Q .file (traceForce Q))
        (traceVersion Q (Q.enterMap (Q.init data)) versionPos).2).2) :=
  (if_neg (not_not.mpr hmap)).trans (if_neg (not_not.mpr h))

end Trace

/-! ## The stores are those of the decoder -/

section Refines

variable {Q : Qcbor}

/-- What `temp` holds after a row of stores. -/
def tempAfter : UInt64 → List OtaStore → UInt64
  | temp, [] => temp
  | temp, .number _ out :: stores => tempAfter (out.getD temp) stores
  | temp, _ :: stores => tempAfter temp stores

theorem resolve_append (stack : DecodeStack) (temp : UInt64) (stores more : List OtaStore) :
    resolve stack temp (stores ++ more)
      = resolve stack temp stores ++ resolve stack (tempAfter temp stores) more := by
  induction stores generalizing temp with
  | nil => rfl
  | cons store stores ih =>
    cases store with
    | number byte out => simp [resolve, tempAfter, ih]
    | text part out => simp [resolve, tempAfter, ih]
    | force out => cases out <;> simp [resolve, tempAfter, ih]

/-- **What a store comes to is among the writes**, with some `temp` or other. -/
theorem exists_mem_resolve (stack : DecodeStack) (temp : UInt64) {stores : List OtaStore}
    {store : OtaStore} (h : store ∈ stores) :
    ∃ t, ∀ w ∈ resolve stack t [store], w ∈ resolve stack temp stores := by
  obtain ⟨before, behind, rfl⟩ := List.append_of_mem h
  refine ⟨tempAfter temp before, fun w hw => ?_⟩
  rw [← List.singleton_append, resolve_append, resolve_append]
  exact List.mem_append_right _ (List.mem_append_left _ hw)

theorem foldlM_resolve_number (stack : DecodeStack) (temp : UInt64) (byte : VersionByte)
    (out : Option UInt64) (stores : List OtaStore) (d : OtaData) :
    (resolve stack temp (.number byte out :: stores)).foldlM OtaWrite.write d
      = (resolve stack (out.getD temp) stores).foldlM OtaWrite.write
          { d with version := d.version.set (out.getD temp).toUInt8 byte } := by
  rw [resolve, List.foldlM_cons, OtaWrite.write, Option.bind_eq_bind, Option.bind_some]

/-- The loop over the hash writes what it reads. -/
theorem write_traceHash (stack : DecodeStack) (is : List (Fin 8)) (dc : Q.Context) (temp : UInt64)
    (d : OtaData) :
    (resolve stack temp (traceHash Q is dc).1).foldlM OtaWrite.write d
        = some { d with version.hash := (decodeHash Q is d.version.hash dc temp).1 } ∧
      (traceHash Q is dc).2 = (decodeHash Q is d.version.hash dc temp).2 := by
  induction is generalizing dc temp d with
  | nil => exact ⟨rfl, rfl⟩
  | cons i is ih =>
    obtain ⟨hrun, hdc⟩ := ih (Q.getUInt64 dc).2 ((Q.getUInt64 dc).1.getD temp)
      { d with version.hash :=
          Function.update d.version.hash i ((Q.getUInt64 dc).1.getD temp).toUInt8 }
    exact ⟨hrun, hdc⟩

/-- So does the version. -/
theorem write_traceVersion (stack : DecodeStack) (dc : Q.Context) (label : ℤ) (temp : UInt64)
    (d : OtaData) :
    (resolve stack temp (traceVersion Q dc label).1).foldlM OtaWrite.write d
        = some { d with version := (decodeOtaVersion Q d.version dc label temp).1 } ∧
      (traceVersion Q dc label).2 = (decodeOtaVersion Q d.version dc label temp).2 := by
  -- the four numbers one by one, and then the loop
  simp only [traceVersion, traceNumbers, foldlM_resolve_number, decodeOtaVersion, decodeNumber]
  obtain ⟨hrun, hdc⟩ := write_traceHash stack (List.finRange 8) _ _ _
  rw [hrun, hdc]
  exact ⟨rfl, rfl⟩

/-- A part of the decoder, from a place of the library on, writes what a trace stores and returns
what finishing answers. -/
def Traces (stack : DecodeStack) (trace : Q.Context → List OtaStore × Q.Context)
    (decode : Q.Context → OtaData → Option (ℕ × OtaData)) : Prop :=
  ∀ dc temp d, decode dc d = ((resolve stack temp (trace dc).1).foldlM OtaWrite.write d).map
    fun d => (Q.finish (trace dc).2, d)

/-- The end of the decoder. -/
def decodeForce (dc : Q.Context) (d : OtaData) : Option (ℕ × OtaData) :=
  let force := Q.getBoolInMapN dc forcePos
  let d := { d with force := force.1.getD d.force }
  if Q.getError force.2 ≠ 0 then some (Q.finish force.2, d)
  else some (Q.finish (Q.exitMap force.2), d)

theorem traces_force (stack : DecodeStack) : Traces stack (traceForce Q) decodeForce := by
  intro dc temp d
  unfold decodeForce traceForce
  rcases Q.getBoolInMapN dc forcePos with ⟨force, dc'⟩
  cases force <;> dsimp only <;> split_ifs <;> rfl

/-- The decoder from a text on. -/
def decodeFrom (stack : DecodeStack) (part : UrlPart)
    (next : Q.Context → OtaData → Option (ℕ × OtaData)) (dc : Q.Context) (d : OtaData) :
    Option (ℕ × OtaData) :=
  (decodeText Q dc part.pos (stack.unset part) (d.text part)).bind fun r =>
    let d := d.setText r.1 part
    if Q.getError r.2 ≠ 0 then some (Q.finish r.2, d) else next r.2 d

theorem traces_text {stack : DecodeStack} {trace : Q.Context → List OtaStore × Q.Context}
    {decode : Q.Context → OtaData → Option (ℕ × OtaData)} (part : UrlPart)
    (h : Traces stack trace decode) :
    Traces stack (traceText Q part trace) (decodeFrom stack part decode) := by
  intro dc temp d
  unfold decodeFrom traceText decodeText
  rcases Q.getTextStringInMapN dc part.pos with ⟨out, dc'⟩
  dsimp only
  by_cases herr : Q.getError dc' ≠ 0
  · rw [if_pos herr]
    cases hbytes : out.or (stack.unset part) with
    | none => simp [hbytes, resolve, OtaWrite.write]
    | some bytes =>
      cases hcopy : (d.text part).copyIn 0 bytes <;>
        simp [hbytes, hcopy, resolve, OtaWrite.write, herr]
  · rw [if_neg herr]
    cases hbytes : out.or (stack.unset part) with
    | none => simp [hbytes, resolve, OtaWrite.write]
    | some bytes =>
      cases hcopy : (d.text part).copyIn 0 bytes with
      | none => simp [hbytes, hcopy, resolve, OtaWrite.write]
      | some area => simp [hbytes, hcopy, resolve, OtaWrite.write, herr, h dc' temp]

/-- The decoder is made of these parts. -/
theorem decodeOtaData_parts (stack : DecodeStack) (data : List UInt8) (d : OtaData) :
    decodeOtaData Q stack data d =
      let dc := Q.enterMap (Q.init data)
      if Q.getError dc ≠ 0 then some (Q.finish dc, d)
      else
        let v := decodeOtaVersion Q d.version dc versionPos stack.temp
        let d := { d with version := v.1 }
        if Q.getError v.2 ≠ 0 then some (Q.finish v.2, d)
        else decodeFrom stack .host (decodeFrom stack .file decodeForce) v.2 d := rfl

/-- The writes of further stores come after those of the first. -/
theorem write_append {stack : DecodeStack} {temp : UInt64} {stores : List OtaStore}
    {d d' : OtaData} (hrun : (resolve stack temp stores).foldlM OtaWrite.write d = some d')
    (more : List OtaStore) : (resolve stack temp (stores ++ more)).foldlM OtaWrite.write d
      = (resolve stack (tempAfter temp stores) more).foldlM OtaWrite.write d' := by
  rw [resolve_append, List.foldlM_append, hrun]
  rfl

/-- **The decoder writes what the trace stores**, and returns what finishing answers. -/
theorem decodeOtaData_eq (stack : DecodeStack) (data : List UInt8) (d : OtaData) :
    decodeOtaData Q stack data d
      = ((resolve stack stack.temp (traceData Q data).1).foldlM OtaWrite.write d).map
          fun d => (Q.finish (traceData Q data).2, d) := by
  have htexts := traces_text .host (traces_text .file (traces_force (Q := Q) stack))
  rw [decodeOtaData_parts]
  unfold traceData
  extract_lets dc v d'
  obtain ⟨hrun, hdc⟩ := write_traceVersion stack dc versionPos stack.temp d
  split
  · rfl
  rw [← hdc]
  rcases htrace : traceVersion Q dc versionPos with ⟨stores, versionDc⟩
  rw [htrace] at hrun
  dsimp only at hrun ⊢
  split
  · rw [hrun]
    rfl
  · rw [write_append hrun, htexts]

/-- The host and the file of a message are the texts the trace stores. -/
theorem manifestUrl_eq (data : List UInt8) : manifestUrl Q data =
    let host := Q.getTextStringInMapN
      (traceVersion Q (Q.enterMap (Q.init data)) versionPos).2 UrlPart.host.pos
    (host.1, (Q.getTextStringInMapN host.2 UrlPart.file.pos).1) := by
  rw [(write_traceVersion ⟨0, none, none⟩ (Q.enterMap (Q.init data)) versionPos 0 .zero).2]
  rfl

end Refines

end Pyrinas
