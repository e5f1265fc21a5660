import Pyrinas.Ble.Subscriptions
import Pyrinas.Machinery.Area

/-!
# Ble/Lengths — the lengths of a name and its data

`ble_publish` and `ble_subscribe` keep `strlen + 1` in a `uint8_t` before they compare it with the
field, so a string of 255 characters or more is checked, and copied, by what is left of its length.
And the one refuses a name that just fills the field where the other takes it.

    strlen + 1      … , N-1 ,  N  , N+1 , … , 255 , 256 , 257 , …
    in a uint8_t    … , N-1 ,  N  , N+1 , … , 255 ,  0  ,  1  , …
-/

open Machinery

namespace Pyrinas

/-- The sizes of `bytes` in `protobuf_event_t_name_t` and in `protobuf_event_t_data_t`, which are
parts of one structure. -/
structure EventFields extends NameField where
  dataSize : ℕ
  sizes_le : size + dataSize ≤ 168

/-- A bytes field: its size, and an array of `n` bytes. -/
structure PbBytes (n : ℕ) where
  size : ℕ
  bytes : Area UInt8 n

/-- `protobuf_event_t` -/
structure ProtobufEvent (F : EventFields) where
  name : PbBytes F.size
  data : PbBytes F.dataSize

/-- The field holds a string and its terminator, and its size says so. -/
structure PbBytes.Holds {n : ℕ} (f : PbBytes n) (s : CString) : Prop where
  size : f.size = s.length + 1
  bytes : f.bytes.cells.take (s.length + 1) = s.bytes ++ [0]

/-- What `ble_publish` logs. -/
inductive PublishError
  | name
  | data
  deriving DecidableEq

/-- What `ble_subscribe` logs. -/
inductive SubscribeError
  | name
  | tooMany
  deriving DecidableEq

/-- `strlen(data) + 1` in a `uint8_t`. -/
def dataLength (data : CString) : ℕ := (data.length + 1) % 2 ^ 8

/-- A field of a zeroed event, with `length` bytes of a string and its terminator; `none` where the
copy leaves the field. -/
def PbBytes.copied (n length : ℕ) (s : CString) : Option (PbBytes n) :=
  ((Area.fill n 0).copyIn 0 ((s.bytes ++ [0]).take length)).map fun bytes => ⟨length, bytes⟩

/-- `ble_publish`, up to `ble_publish_raw(event)`; `none` where a copy leaves its field. -/
def blePublish (F : EventFields) (name data : CString) :
    Option (Except PublishError (ProtobufEvent F)) :=
  if SubscribeList.nameLength name ≥ F.size then some (.error .name)
  else if dataLength data ≥ F.dataSize then some (.error .data)
  else
    match PbBytes.copied F.size (SubscribeList.nameLength name) name,
      PbBytes.copied F.dataSize (dataLength data) data with
    | some name, some data => some (.ok ⟨name, data⟩)
    | _, _ => none

/-- `ble_subscribe`, with what it logs where it leaves the table as it is. -/
def SubscribeList.subscribeResult {H : Type} (N : NameField) (l : SubscribeList H) (name : CString)
    (handler : H) : Except SubscribeError (SubscribeList H) :=
  if nameLength name > N.size then .error .name
  else if l.count < bleSettingsMaxSubscriptions then .ok (l.bleSubscribe N name handler)
  else .error .tooMany

/-- Whatever is not refused is published and stored just as it is given, and the same names are
refused. -/
structure TrueLengths (F : EventFields) (name data : CString) : Prop where
  publish : ∃ r, blePublish F name data = some r ∧
    ∀ evt, r = .ok evt → evt.name.Holds name ∧ evt.data.Holds data
  subscribe : ∀ {H : Type} (l l' : SubscribeList H) (handler : H),
    l.subscribeResult F.toNameField name handler = .ok l' →
      l'.subscribers = upsert BleSubscription.name l.subscribers ⟨handler, name.bytes ++ [0]⟩
  same : ∀ {H : Type} (l : SubscribeList H) (handler : H),
    l.subscribeResult F.toNameField name handler = .error .name ↔
      blePublish F name data = some (.error .name)

/-- What is left of the name's length is not the size of the field; and it is longer, or the name
is shorter than 255 characters, and so is the data unless what is left of its length fills the
field. -/
def LengthsKept (F : EventFields) (name data : CString) : Prop :=
  SubscribeList.nameLength name ≠ F.size ∧
    (SubscribeList.nameLength name > F.size ∨
      name.length < 255 ∧ (dataLength data ≥ F.dataSize ∨ data.length < 255))

namespace SubscribeList

/-- The table that is left. -/
theorem bleSubscribe_eq_result {H : Type} (N : NameField) (l : SubscribeList H) (name : CString)
    (handler : H) :
    l.bleSubscribe N name handler = (l.subscribeResult N name handler).toOption.getD l := by
  unfold subscribeResult
  split_ifs with hname hcount
  · rw [bleSubscribe, if_pos hname]
    rfl
  · rfl
  · rw [bleSubscribe, if_neg hname, dif_neg hcount]
    rfl

/-- The first entry of a table. -/
theorem subscribers_bleSubscribe_empty {H : Type*} {N : NameField} {name : CString}
    (h : nameLength name ≤ N.size) (handler : H) : (empty.bleSubscribe N name handler).subscribers
      = [⟨handler, (name.bytes ++ [0]).take (nameLength name)⟩] := by
  have hroom : (empty : SubscribeList H).count < bleSettingsMaxSubscriptions := Nat.zero_lt_succ _
  rw [bleSubscribe, if_neg (not_lt.mpr h), dif_pos hroom]
  rfl

end SubscribeList

/-! ## What is copied -/

variable {F : EventFields} {name data : CString}

/-- The field has a size and as many bytes of a string and its terminator. -/
structure PbBytes.Begins {n : ℕ} (f : PbBytes n) (length : ℕ) (s : CString) : Prop where
  size : f.size = length
  bytes : f.bytes.cells.take length = (s.bytes ++ [0]).take length

theorem exists_copied {n length : ℕ} {s : CString} (hlength : length < n)
    (hs : length ≤ s.length + 1) :
    ∃ f, PbBytes.copied n length s = some f ∧ f.Begins length s := by
  have hlen : ((s.bytes ++ [0]).take length).length = length := by
    simpa [CString.length] using hs
  obtain ⟨b, hb⟩ := (Area.fill n (0 : UInt8)).exists_copyIn 0 ((s.bytes ++ [0]).take length)
    (by omega)
  refine ⟨⟨length, b⟩, by rw [PbBytes.copied, hb]; rfl, rfl, ?_⟩
  have htake := Area.take_of_copyIn hb
  rwa [Nat.zero_add, hlen, List.take_zero, List.nil_append] at htake

/-- The event that is built. -/
theorem exists_blePublish (hname : SubscribeList.nameLength name < F.size)
    (hdata : dataLength data < F.dataSize) :
    ∃ evt, blePublish F name data = some (.ok evt) ∧
      evt.name.Begins (SubscribeList.nameLength name) name ∧
      evt.data.Begins (dataLength data) data := by
  obtain ⟨f, hf, hfname⟩ := exists_copied (s := name) hname (Nat.mod_le _ _)
  obtain ⟨g, hg, hgdata⟩ := exists_copied (s := data) hdata (Nat.mod_le _ _)
  refine ⟨⟨f, g⟩, ?_, hfname, hgdata⟩
  rw [blePublish, if_neg (not_le.mpr hname), if_neg (not_le.mpr hdata), hf, hg]

/-- A length that was not cut is that of the string. -/
theorem PbBytes.Begins.holds {n length : ℕ} {f : PbBytes n} {s : CString}
    (h : f.Begins length s) (hlength : length = s.length + 1) : f.Holds s := by
  subst hlength
  refine ⟨h.size, h.bytes.trans (List.take_of_length_le ?_)⟩
  simp [CString.length]

/-! ## The exact condition -/

/-- A name that both refuse. -/
theorem trueLengths_of_long (h : SubscribeList.nameLength name > F.size) :
    TrueLengths F name data := by
  have hpublish : blePublish F name data = some (.error .name) := if_pos h.le
  have hsubscribe : ∀ {H : Type} (l : SubscribeList H) (handler : H),
      l.subscribeResult F.toNameField name handler = .error .name := fun _ _ => if_pos h
  refine ⟨⟨_, hpublish, fun evt he => ?_⟩, fun l l' handler hl => ?_, fun l handler => ?_⟩
  · cases he
  · rw [hsubscribe] at hl
    cases hl
  · exact iff_of_true (hsubscribe l handler) hpublish

/-- A name that both take. -/
theorem subscribeResult_ne_name (h : SubscribeList.nameLength name < F.size) {H : Type}
    (l : SubscribeList H) (handler : H) :
    l.subscribeResult F.toNameField name handler ≠ .error .name := by
  rw [SubscribeList.subscribeResult, if_neg (not_lt.mpr h.le)]
  split_ifs <;> nofun

theorem blePublish_ne_name (h : SubscribeList.nameLength name < F.size) :
    blePublish F name data ≠ some (.error .name) := by
  rw [blePublish, if_neg (not_le.mpr h)]
  split_ifs
  · nofun
  · split <;> nofun

/-- A short name that fits. -/
theorem trueLengths_of_short (h : SubscribeList.nameLength name < F.size)
    (hname : name.length < 255) (hdata : dataLength data ≥ F.dataSize ∨ data.length < 255) :
    TrueLengths F name data := by
  have hlen : SubscribeList.nameLength name = name.length + 1 := Nat.mod_eq_of_lt (by omega)
  refine ⟨?_, fun l l' handler hl => ?_, fun l handler => ?_⟩
  · by_cases hd : dataLength data ≥ F.dataSize
    · refine ⟨.error .data, ?_, fun evt he => by cases he⟩
      rw [blePublish, if_neg (not_le.mpr h), if_pos hd]
    · obtain ⟨evt, hevt, hevtName, hevtData⟩ := exists_blePublish h (not_le.mp hd)
      have hdlen : dataLength data = data.length + 1 :=
        Nat.mod_eq_of_lt (by have := hdata.resolve_left hd; omega)
      refine ⟨.ok evt, hevt, fun evt' he => ?_⟩
      cases he
      exact ⟨hevtName.holds hlen, hevtData.holds hdlen⟩
  · unfold SubscribeList.subscribeResult at hl
    rw [if_neg (not_lt.mpr h.le)] at hl
    split_ifs at hl with hroom
    cases hl
    exact Subscriptions.bleSubscribe_room hroom (⟨name, by omega⟩ : FittingName F.toNameField)
      handler
  · exact iff_of_false (subscribeResult_ne_name h l handler) (blePublish_ne_name h)

/-- An empty table takes what fits. -/
theorem subscribeResult_empty (h : SubscribeList.nameLength name ≤ F.size) :
    SubscribeList.empty.subscribeResult F.toNameField name ()
      = .ok (SubscribeList.empty.bleSubscribe F.toNameField name ()) := by
  have hroom : (SubscribeList.empty : SubscribeList Unit).count < bleSettingsMaxSubscriptions :=
    Nat.zero_lt_succ _
  rw [SubscribeList.subscribeResult, if_neg (not_lt.mpr h), if_pos hroom]

theorem lengthsKept_of_trueLengths (h : TrueLengths F name data) : LengthsKept F name data := by
  have hne : SubscribeList.nameLength name ≠ F.size := by
    intro heq
    have hpublish : blePublish F name data = some (.error .name) := if_pos heq.ge
    have hsubscribe := (h.same SubscribeList.empty ()).mpr hpublish
    rw [subscribeResult_empty heq.le] at hsubscribe
    cases hsubscribe
  refine ⟨hne, or_iff_not_imp_left.mpr fun hle => ?_⟩
  have hlt : SubscribeList.nameLength name < F.size := lt_of_le_of_ne (not_lt.mp hle) hne
  constructor
  · -- what the table holds is as long as the name only if nothing was cut
    have hstored := h.subscribe _ _ () (subscribeResult_empty hlt.le)
    rw [SubscribeList.subscribers_bleSubscribe_empty (N := F.toNameField) hlt.le] at hstored
    have hbytes : (name.bytes ++ [0]).take (SubscribeList.nameLength name) = name.bytes ++ [0] := by
      simpa [upsert, searchKey, SubscribeList.empty] using hstored
    have hlen := congrArg List.length hbytes
    have hmod : SubscribeList.nameLength name < 256 := Nat.mod_lt _ (by decide)
    simp only [List.length_take, List.length_append, List.length_singleton] at hlen
    unfold CString.length
    omega
  · refine or_iff_not_imp_left.mpr fun hd => ?_
    obtain ⟨evt, hevt, -, hevtData⟩ := exists_blePublish hlt (not_le.mp hd)
    obtain ⟨r, hr, hholds⟩ := h.publish
    obtain rfl : r = .ok evt := Option.some.inj (hr.symm.trans hevt)
    have hdata := hevtData.size.symm.trans (hholds evt rfl).2.size
    have hmod : dataLength data < 256 := Nat.mod_lt _ (by decide)
    omega

/-- **The lengths are checked as they are exactly when nothing that passes is cut and the name does
not just fill its field.** -/
theorem trueLengths_iff_lengthsKept (F : EventFields) (name data : CString) :
    TrueLengths F name data ↔ LengthsKept F name data := by
  refine ⟨lengthsKept_of_trueLengths, fun ⟨hne, hkept⟩ => ?_⟩
  rcases hne.lt_or_gt with hlt | hgt
  · obtain ⟨hname, hdata⟩ := hkept.resolve_left hlt.not_gt
    exact trueLengths_of_short hlt hname hdata
  · exact trueLengths_of_long hgt

/-- Fields of 16 and 128 bytes. -/
def sampleFields : EventFields := ⟨Subscriptions.sampleField, 128, by decide⟩

/-- A name of 256 characters is published as its first. -/
theorem not_trueLengths_256_characters :
    ¬ TrueLengths sampleFields (CString.ofBytes (List.replicate 256 97))
      (CString.ofBytes [49]) := by
  intro h
  have hname : SubscribeList.nameLength (CString.ofBytes (List.replicate 256 97))
      < sampleFields.size := by decide +kernel
  have hdata : dataLength (CString.ofBytes [49]) < sampleFields.dataSize := by decide +kernel
  obtain ⟨r, hr, hholds⟩ := h.publish
  obtain ⟨evt, hevt, hevtName, -⟩ := exists_blePublish hname hdata
  obtain rfl : r = .ok evt := Option.some.inj (hr.symm.trans hevt)
  have hheld := hevtName.size.symm.trans (hholds evt rfl).1.size
  revert hheld
  decide +kernel

end Pyrinas
