import Pyrinas.Cloud.Decoded
import Pyrinas.Cloud.VersionOrder
import Pyrinas.Machinery.Cbor

/-!
# Cloud/DecodedVersion — when the version in `ota_data` is the one in the message

The library answers with numbers of 64 bits, and each is stored in a byte; of the hash, eight items
are read, however many there are.

    message  commit 256, hash of nine   ── getters ──▸   256, eight items   ── store ──▸   0
-/

open Machinery

namespace Pyrinas

/-- The label of a number; a byte of the hash is in the array under the last one. -/
def VersionByte.pos : VersionByte → ℤ
  | .major => majorPos
  | .minor => minorPos
  | .patch => patchPos
  | .commit => commitPos
  | .hash _ => hashPos

/-- The integers of a version: `major`, `minor`, `patch` and `commit`, and what is in the array of
the hash. -/
structure EncodedVersion where
  numbers : List ℤ
  hash : List (Option ℤ)
  deriving DecidableEq

/-- The version a message has. -/
def encodedVersion (message : Cbor) : Option EncodedVersion := do
  let manifest ← message.asEntries
  let version ← (← Cbor.lookup versionPos manifest).asEntries
  let numbers ← [majorPos, minorPos, patchPos, commitPos].mapM fun label => do
    (← Cbor.lookup label version).asInteger
  let hash ← (← Cbor.lookup hashPos version).asItems
  some ⟨numbers, hash.map Cbor.asInteger⟩

/-- What the library says of the values it finds: which item a message is, and which map or array
the decoder is in.  It finds the values of a map by their labels, and the items of an array one
after the other. -/
structure Qcbor.Content (Q : Qcbor) where
  item : List UInt8 → Cbor
  At : Q.Context → Cbor → Prop
  enterMap {data : List UInt8} (h : Q.getError (Q.enterMap (Q.init data)) = 0) :
    ∃ entries, (item data).asEntries = some entries ∧ At (Q.enterMap (Q.init data)) (.map entries)
  enterMapFromMapN {dc : Q.Context} {label : ℤ} {entries : List (Cbor × Cbor)}
    (hat : At dc (.map entries)) (h : Q.getError (Q.enterMapFromMapN dc label) = 0) :
    ∃ inner, (Cbor.lookup label entries).bind Cbor.asEntries = some inner ∧
      At (Q.enterMapFromMapN dc label) (.map inner)
  getUInt64ConvertAllInMapN {dc : Q.Context} {label : ℤ} {entries : List (Cbor × Cbor)} {n : UInt64}
    (hat : At dc (.map entries)) (h : (Q.getUInt64ConvertAllInMapN dc label).1 = some n) :
    (Cbor.lookup label entries).bind Cbor.asInteger = some (n.toNat : ℤ) ∧
      At (Q.getUInt64ConvertAllInMapN dc label).2 (.map entries)
  enterArrayFromMapN {dc : Q.Context} {label : ℤ} {entries : List (Cbor × Cbor)}
    (hat : At dc (.map entries)) (h : Q.getError (Q.enterArrayFromMapN dc label) = 0) :
    ∃ items, (Cbor.lookup label entries).bind Cbor.asItems = some items ∧
      At (Q.enterArrayFromMapN dc label) (.array items)
  getUInt64 {dc : Q.Context} {items : List Cbor} {n : UInt64} (hat : At dc (.array items))
    (h : (Q.getUInt64 dc).1 = some n) : ∃ i rest, items = i :: rest ∧
      i.asInteger = some (n.toNat : ℤ) ∧ At (Q.getUInt64 dc).2 (.array rest)

/-! ## What the numbers are -/

section Numbers

variable {Q : Qcbor} (hQ : Q.Lawful) (C : Q.Content)

include hQ C

/-- The loop over the hash stores items from the front of the array. -/
theorem exists_hash_numbers {is : List (Fin 8)} (his : is.Nodup) {dc : Q.Context}
    {items : List Cbor} (hat : C.At dc (.array items))
    (herr : Q.getError (traceHash Q is dc).2 = 0) : ∃ n : Fin 8 → UInt64,
      (∀ i ∈ is, .number (.hash i) (some (n i)) ∈ (traceHash Q is dc).1) ∧
      (is.map fun i => some ((n i).toNat : ℤ)) <+: items.map Cbor.asInteger := by
  induction is generalizing dc items with
  | nil => exact ⟨fun _ => 0, by simp, List.nil_prefix⟩
  | cons i is ih =>
    obtain ⟨hi, his⟩ := List.nodup_cons.mp his
    have hrest : Q.getError (traceHash Q is (Q.getUInt64 dc).2).2 = 0 := herr
    have hfirst := keeps_traceHash hQ is _ hrest
    obtain ⟨first, hget⟩ := hQ.getUInt64.exists_of_no_error hfirst
    obtain ⟨item, rest, rfl, hitem, hat'⟩ := C.getUInt64 hat hget
    obtain ⟨n, hmem, hfront⟩ := ih his hat' hrest
    have hkeep : ∀ j ∈ is, Function.update n i first j = n j := fun j hj =>
      Function.update_of_ne (ne_of_mem_of_not_mem hj hi) _ _
    refine ⟨Function.update n i first, List.forall_mem_cons.mpr ⟨?_, fun j hj => ?_⟩, ?_⟩
    · rw [Function.update_self, ← hget]
      exact List.mem_cons_self
    · rw [hkeep j hj]
      exact List.mem_cons_of_mem _ (hmem j hj)
    · rw [List.map_cons, Function.update_self, List.map_cons, hitem, List.map_congr_left
        fun j hj => congrArg (fun m : UInt64 => some (m.toNat : ℤ)) (hkeep j hj)]
      exact (List.prefix_cons_inj _).mpr hfront

/-- The version stores the numbers of its map. -/
theorem exists_version_numbers {dc : Q.Context} {label : ℤ} {entries : List (Cbor × Cbor)}
    (hat : C.At dc (.map entries)) (herr : Q.getError (traceVersion Q dc label).2 = 0) :
    ∃ (n : VersionByte → UInt64) (version : List (Cbor × Cbor)) (hash : List Cbor),
      (∀ byte, .number byte (some (n byte)) ∈ (traceVersion Q dc label).1) ∧
      (Cbor.lookup label entries).bind Cbor.asEntries = some version ∧
      (∀ byte ∈ [VersionByte.major, .minor, .patch, .commit],
        (Cbor.lookup byte.pos version).bind Cbor.asInteger = some ((n byte).toNat : ℤ)) ∧
      (Cbor.lookup hashPos version).bind Cbor.asItems = some hash ∧
      ((List.finRange 8).map fun i => some ((n (.hash i)).toNat : ℤ)) <+:
        hash.map Cbor.asInteger := by
  -- an error that is not there at the end has never been there
  have hloop : Q.getError (traceNumbers Q (Q.enterMapFromMapN dc label)).2 = 0 :=
    hQ.exitArray _ (hQ.exitMap _ herr)
  have hget := fun label => hQ.getUInt64ConvertAllInMapN label
  let major := Q.getUInt64ConvertAllInMapN (Q.enterMapFromMapN dc label) majorPos
  let minor := Q.getUInt64ConvertAllInMapN major.2 minorPos
  let patch := Q.getUInt64ConvertAllInMapN minor.2 patchPos
  let commit := Q.getUInt64ConvertAllInMapN patch.2 commitPos
  have harray : Q.getError (Q.enterArrayFromMapN commit.2 hashPos) = 0 :=
    keeps_traceHash hQ (List.finRange 8) _ hloop
  have hcommit : Q.getError commit.2 = 0 := hQ.enterArrayFromMapN hashPos _ harray
  have hpatch : Q.getError patch.2 = 0 := (hget commitPos).2 _ hcommit
  have hminor : Q.getError minor.2 = 0 := (hget patchPos).2 _ hpatch
  have hmajor : Q.getError major.2 = 0 := (hget minorPos).2 _ hminor
  obtain ⟨version, hversion, hat₀⟩ := C.enterMapFromMapN hat ((hget majorPos).2 _ hmajor)
  obtain ⟨n₀, h₀⟩ := (hget majorPos).exists_of_no_error hmajor
  obtain ⟨hmajorItem, hat₁⟩ := C.getUInt64ConvertAllInMapN hat₀ h₀
  obtain ⟨n₁, h₁⟩ := (hget minorPos).exists_of_no_error hminor
  obtain ⟨hminorItem, hat₂⟩ := C.getUInt64ConvertAllInMapN hat₁ h₁
  obtain ⟨n₂, h₂⟩ := (hget patchPos).exists_of_no_error hpatch
  obtain ⟨hpatchItem, hat₃⟩ := C.getUInt64ConvertAllInMapN hat₂ h₂
  obtain ⟨n₃, h₃⟩ := (hget commitPos).exists_of_no_error hcommit
  obtain ⟨hcommitItem, hat₄⟩ := C.getUInt64ConvertAllInMapN hat₃ h₃
  obtain ⟨hash, hhash, hat₅⟩ := C.enterArrayFromMapN hat₄ harray
  obtain ⟨n, hmem, hfront⟩ := exists_hash_numbers hQ C (List.nodup_finRange 8) hat₅ hloop
  let all : VersionByte → UInt64
    | .major => n₀
    | .minor => n₁
    | .patch => n₂
    | .commit => n₃
    | .hash i => n i
  have hstores : (traceVersion Q dc label).1 = .number .major major.1 :: .number .minor minor.1 ::
      .number .patch patch.1 :: .number .commit commit.1 ::
        (traceHash Q (List.finRange 8) (Q.enterArrayFromMapN commit.2 hashPos)).1 := rfl
  refine ⟨all, version, hash, ?_, hversion, ?_, hhash, hfront⟩
  · intro byte
    rw [hstores, show major.1 = some n₀ from h₀, show minor.1 = some n₁ from h₁,
      show patch.1 = some n₂ from h₂, show commit.1 = some n₃ from h₃]
    cases byte with
    | hash i => simpa [all] using hmem i (List.mem_finRange i)
    | _ => simp [all]
  · simpa [all, VersionByte.pos] using ⟨hmajorItem, hminorItem, hpatchItem, hcommitItem⟩

end Numbers

theorem number_mem_resolve {stack : DecodeStack} {stores : List OtaStore} {byte : VersionByte}
    {n : UInt64} (h : .number byte (some n) ∈ stores) (temp : UInt64) :
    .number byte n.toUInt8 ∈ resolve stack temp stores := by
  obtain ⟨_, hmem⟩ := exists_mem_resolve stack temp h
  exact hmem _ List.mem_cons_self

/-- **The version of a message that is accepted**: its integers are numbers of 64 bits, of which the
structure has the low bytes; and the array of the hash has eight of them at its front. -/
theorem numbers_of_accepted {Q : Qcbor} (hQ : Q.Lawful) (C : Q.Content) {stack : DecodeStack}
    {data : List UInt8} {d d' : OtaData} (h : decodeOtaData Q stack data d = some (0, d')) :
    ∃ (n : VersionByte → UInt64) (v : EncodedVersion), encodedVersion (C.item data) = some v ∧
      v.numbers
        = [VersionByte.major, .minor, .patch, .commit].map (fun byte => ((n byte).toNat : ℤ)) ∧
      ((List.finRange 8).map fun i => some ((n (.hash i)).toNat : ℤ)) <+: v.hash ∧
      ∀ byte, d'.version.get byte = (n byte).toUInt8 := by
  obtain ⟨hrun, hfinish⟩ := run_of_decode h
  obtain ⟨hmap, hversion, stores, hstores⟩ := stores_of_accepted hQ hfinish
  obtain ⟨entries, hentries, hat⟩ := C.enterMap hmap
  obtain ⟨n, version, hash, hmem, hinner, hnumbers, hhash, hfront⟩ :=
    exists_version_numbers hQ C hat hversion
  refine ⟨n, ⟨_, hash.map Cbor.asInteger⟩, ?_, rfl, hfront, fun byte => ?_⟩
  · obtain ⟨map, hmap, hmapEntries⟩ := Option.bind_eq_some_iff.mp hinner
    obtain ⟨array, harray, hitems⟩ := Option.bind_eq_some_iff.mp hhash
    simp only [List.mem_cons, List.not_mem_nil, or_false, forall_eq_or_imp, forall_eq,
      VersionByte.pos] at hnumbers
    simp [encodedVersion, hentries, hmap, hmapEntries, harray, hitems, hnumbers]
  · have hwrite : .number byte (n byte).toUInt8 ∈ otaWrites Q stack data :=
      number_mem_resolve (by simp [hstores, hmem byte]) stack.temp
    exact OtaWrite.writing.holds_of_foldlM (nodup_otaWrites Q stack data) hrun hwrite

/-! ## When they are kept -/

namespace EncodedVersion

/-- The integers and the hash of a message are those of the structure. -/
def Faithful (v : EncodedVersion) (version : OtaVersion) : Prop :=
  v.numbers = version.raw.map (fun b => (b.toNat : ℤ)) ∧
    v.hash = (List.finRange 8).map fun i => some ((version.hash i).toNat : ℤ)

/-- All are bytes, and the hash has eight. -/
def InRange (v : EncodedVersion) : Prop :=
  (∀ n ∈ v.numbers, 0 ≤ n ∧ n ≤ 255) ∧ v.hash.length = 8 ∧
    ∀ out ∈ v.hash, ∃ n ∈ out, 0 ≤ n ∧ n ≤ 255

instance (v : EncodedVersion) (version : OtaVersion) : Decidable (v.Faithful version) :=
  inferInstanceAs (Decidable (_ ∧ _))

instance (v : EncodedVersion) : Decidable v.InRange := inferInstanceAs (Decidable (_ ∧ _ ∧ _))

/-- `ver_comp` orders two versions as their integers are ordered; for the same integers it tells
whether the hashes are the same. -/
def Ordered (v w : EncodedVersion) (first second : OtaVersion) : Prop :=
  (v.numbers < w.numbers → verComp first second = 1) ∧
    (w.numbers < v.numbers → verComp first second = -1) ∧
    (v.numbers = w.numbers → verComp first second = if v.hash = w.hash then 0 else 1)

variable {v w : EncodedVersion} {first second : OtaVersion}

/-- A byte is kept by being stored in one. -/
theorem toNat_toUInt8 {n : UInt64} (h : (n.toNat : ℤ) ≤ 255) : n.toUInt8.toNat = n.toNat := by
  rw [UInt64.toNat_toUInt8]
  omega

theorem toNat_bounds (b : UInt8) : 0 ≤ (b.toNat : ℤ) ∧ (b.toNat : ℤ) ≤ 255 := by
  have := b.toNat_lt
  omega

/-- **Numbers are kept by being stored in bytes iff they are bytes**, and there are no more items in
the hash than are read. -/
theorem faithful_iff_inRange {n : VersionByte → UInt64}
    (hnumbers : v.numbers
      = [VersionByte.major, .minor, .patch, .commit].map (fun byte => ((n byte).toNat : ℤ)))
    (hhash : ((List.finRange 8).map fun i => some ((n (.hash i)).toNat : ℤ)) <+: v.hash)
    (hget : ∀ byte, first.get byte = (n byte).toUInt8) : v.Faithful first ↔ v.InRange := by
  have hraw : first.raw.map (fun b => (b.toNat : ℤ))
      = [VersionByte.major, .minor, .patch, .commit].map fun byte =>
          ((first.get byte).toNat : ℤ) := rfl
  constructor
  · rintro ⟨hn, hh⟩
    refine ⟨?_, by simp [hh], ?_⟩
    · rw [hn]
      exact List.forall_mem_map.mpr fun b _ => toNat_bounds b
    · rw [hh]
      exact List.forall_mem_map.mpr fun i _ => ⟨_, rfl, toNat_bounds _⟩
  · rintro ⟨hn, hlen, hh⟩
    have hall := hhash.eq_of_length (by simp [hlen])
    rw [hnumbers, List.forall_mem_map] at hn
    rw [← hall, List.forall_mem_map] at hh
    refine ⟨?_, ?_⟩
    · rw [hnumbers, hraw]
      refine List.map_congr_left fun byte hbyte => ?_
      rw [hget, toNat_toUInt8 (hn byte hbyte).2]
    · rw [← hall]
      refine List.map_congr_left fun i hi => ?_
      obtain ⟨m, hm, -, hle⟩ := hh i hi
      obtain rfl := Option.some.inj hm
      have hbyte : first.hash i = (n (.hash i)).toUInt8 := hget (.hash i)
      rw [hbyte, toNat_toUInt8 hle]

theorem Faithful.hash_eq_iff (hv : v.Faithful first) (hw : w.Faithful second) :
    v.hash = w.hash ↔ first.hash = second.hash := by
  rw [hv.2, hw.2]
  constructor
  · intro h
    funext i
    have hi := List.map_inj_left.mp h i (List.mem_finRange i)
    exact UInt8.toNat_inj.mp (Int.ofNat.inj (Option.some.inj hi))
  · intro h
    rw [h]

/-- **Integers that are kept are compared right.** -/
theorem ordered_of_faithful (hv : v.Faithful first) (hw : w.Faithful second) :
    Ordered v w first second := by
  have hnumbers : ∀ u : OtaVersion, u.raw.map (fun b => (b.toNat : ℤ)) = u.quadruple.map (↑) :=
    fun u => by simp [OtaVersion.quadruple]
  have hmono : ∀ {l l' : List ℕ}, l < l' → l.map ((↑) : ℕ → ℤ) < l'.map (↑) := fun h =>
    List.map_lt (fun _ _ => Int.ofNat_lt.mpr) h
  have hfirst := hv.1.trans (hnumbers first)
  have hsecond := hw.1.trans (hnumbers second)
  unfold Ordered
  rw [hfirst, hsecond]
  rcases lt_trichotomy first.quadruple second.quadruple with hlt | heq | hgt
  · have h := hmono hlt
    exact ⟨fun _ => verComp_of_lt hlt, fun h' => absurd h' (lt_asymm h),
      fun h' => absurd h' h.ne⟩
  · rw [heq]
    refine ⟨fun h => absurd h (lt_irrefl _), fun h => absurd h (lt_irrefl _), fun _ => ?_⟩
    simp [verComp_of_eq heq, hv.hash_eq_iff hw]
  · have h := hmono hgt
    exact ⟨fun h' => absurd h' (lt_asymm h), fun _ => verComp_of_gt hgt,
      fun h' => absurd h' h.ne'⟩

end EncodedVersion

/-- **Two messages that are accepted have their versions kept, and compared as they are in the
messages, iff all their integers are bytes and both hashes have eight.** -/
theorem faithful_and_ordered_iff {Q : Qcbor} (hQ : Q.Lawful) (C : Q.Content)
    {stack stack' : DecodeStack} {data data' : List UInt8} {d d' first second : OtaData}
    (hfirst : decodeOtaData Q stack data d = some (0, first))
    (hsecond : decodeOtaData Q stack' data' d' = some (0, second)) :
    ∃ v w, encodedVersion (C.item data) = some v ∧ encodedVersion (C.item data') = some w ∧
      (v.Faithful first.version ∧ w.Faithful second.version ∧
          v.Ordered w first.version second.version ↔ v.InRange ∧ w.InRange) := by
  obtain ⟨n, v, hv, hvnumbers, hvhash, hvget⟩ := numbers_of_accepted hQ C hfirst
  obtain ⟨m, w, hw, hwnumbers, hwhash, hwget⟩ := numbers_of_accepted hQ C hsecond
  have hvkept := EncodedVersion.faithful_iff_inRange hvnumbers hvhash hvget
  have hwkept := EncodedVersion.faithful_iff_inRange hwnumbers hwhash hwget
  refine ⟨v, w, hv, hw, ?_⟩
  rw [← hvkept, ← hwkept]
  exact ⟨fun h => ⟨h.1, h.2.1⟩,
    fun h => ⟨h.1, h.2, EncodedVersion.ordered_of_faithful h.1 h.2⟩⟩

/-! ## The content of the reader -/

namespace CborItem

mutual

/-- What the reader has read. -/
def toCbor : CborItem → Cbor
  | uint n => .unsigned n
  | text bytes => .text bytes
  | array items => .array (toCbors items)
  | map entries => .map (toEntries entries)
  | bool b => .simple (if b then 21 else 20)

def toCbors : List CborItem → List Cbor
  | [] => []
  | item :: items => item.toCbor :: toCbors items

def toEntries : List (CborItem × CborItem) → List (Cbor × Cbor)
  | [] => []
  | (key, value) :: entries => (key.toCbor, value.toCbor) :: toEntries entries

end

/-- The value under a label is found among what was read. -/
theorem lookup_toEntries (label : ℤ) (entries : List (CborItem × CborItem)) :
    Cbor.lookup label (toEntries entries) = (lookup label entries).map toCbor := by
  induction entries with
  | nil => simp [toEntries, lookup, Cbor.lookup]
  | cons e entries ih =>
    obtain ⟨key, value⟩ := e
    cases key with
    | uint n =>
      by_cases h : (n : ℤ) = label <;>
        simp_all [toEntries, toCbor, lookup, Cbor.lookup, Cbor.isInt]
    | _ => simp_all [toEntries, toCbor, lookup, Cbor.lookup, Cbor.isInt]

end CborItem

namespace CborContext

variable {c : CborContext} {α : Type}

/-- A scope: a map, or what is left of an array. -/
inductive Stands : List CborItem → Cbor → Prop
  | map (entries : List (CborItem × CborItem)) :
    Stands [.map entries] (.map (CborItem.toEntries entries))
  | array (items : List CborItem) : Stands items (.array (CborItem.toCbors items))

/-- The innermost scope. -/
def At (c : CborContext) (item : Cbor) : Prop :=
  ∃ scope scopes, c.scopes = scope :: scopes ∧ Stands scope item

theorem get_eq_some {read : Except ℕ α} {a : α} (h : (c.get read).1 = some a) :
    read = .ok a ∧ (c.get read).2 = c := by
  by_cases hc : c.err ≠ 0
  · simp [get, hc] at h
  · cases read <;> simp_all [get]

theorem of_enter {read : Except ℕ (List CborItem)} (hread : read ≠ .error 0)
    (h : (c.enter read).err = 0) :
    ∃ items, read = .ok items ∧ (c.enter read).scopes = items :: c.scopes := by
  have hc := err_of_enter h
  cases read with
  | ok items => exact ⟨items, rfl, by simp [enter, get, hc]⟩
  | error err =>
    have herr : (c.enter (.error err)).err = err := by simp [enter, get, hc, fail]
    exact absurd (congrArg Except.error (herr.symm.trans h)) hread

/-- A value of the map the reader is in. -/
theorem find_eq_ok {label : ℤ} {entries : List (Cbor × Cbor)} {value : CborItem}
    (hat : c.At (.map entries)) (h : c.find label = .ok value) :
    Cbor.lookup label entries = some value.toCbor := by
  obtain ⟨scope, scopes, hscopes, hstands⟩ := hat
  cases hstands with
  | map es =>
    rw [CborItem.lookup_toEntries]
    unfold find at h
    rw [hscopes] at h
    cases hlookup : CborItem.lookup label es with
    | none => simp [hlookup] at h
    | some v => simp_all

/-- What is made of such a value. -/
theorem find_bind_eq_ok {label : ℤ} {f : CborItem → Except ℕ α} {a : α}
    (h : (c.find label >>= f) = .ok a) : ∃ value, c.find label = .ok value ∧ f value = .ok a := by
  cases hfind : c.find label with
  | ok value =>
    rw [hfind] at h
    exact ⟨value, rfl, h⟩
  | error err =>
    rw [hfind] at h
    exact nomatch h

theorem asInteger_of_uint64 {item : CborItem} {n : UInt64} (h : uint64 item = .ok n) :
    item.toCbor.asInteger = some (n.toNat : ℤ) := by
  cases item with
  | uint m =>
    unfold uint64 at h
    dsimp only at h
    split at h
    next hm =>
      obtain rfl := Except.ok.inj h
      rw [CborItem.toCbor, Cbor.asInteger, UInt64.toNat_ofNat', Nat.mod_eq_of_lt hm]
    next => exact absurd h (by simp)
  | _ => simp [uint64] at h

theorem next_eq_some {n : UInt64} (h : c.next.1 = some n) : ∃ item items scopes,
    c.scopes = (item :: items) :: scopes ∧ uint64 item = .ok n ∧
      c.next.2.scopes = items :: scopes := by
  unfold next at h ⊢
  split at h
  next => exact absurd h (by simp)
  next hc =>
    rw [if_neg hc]
    split at h
    next item items scopes hscopes =>
      split at h
      next m hm =>
        obtain rfl := Option.some.inj h
        exact ⟨item, items, scopes, hscopes, hm, by simp⟩
      next => exact absurd h (by simp)
    next => exact absurd h (by simp)

/-- A message that is a map is entered as one. -/
theorem at_enterMap {data : List UInt8} (h : cborReader.getError
    (cborReader.enterMap (cborReader.init data)) = 0) : ∃ entries rest,
      CborItem.parse data.length data = some (.map entries, rest) ∧
        CborContext.At (cborReader.enterMap (cborReader.init data))
          (.map (CborItem.toEntries entries)) := by
  obtain ⟨scope, hread, hscopes⟩ := of_enter (by split <;> simp [unexpectedType]) h
  split at hread
  next entries scopes hinit =>
    obtain rfl := Except.ok.inj hread
    have hparse : ∃ rest, CborItem.parse data.length data = some (.map entries, rest) := by
      simp only [cborReader] at hinit
      split at hinit
      next item rest hparse =>
        obtain ⟨hitem, -⟩ := List.cons.inj hinit
        obtain ⟨rfl, -⟩ := List.cons.inj hitem
        exact ⟨rest, hparse⟩
      next => exact absurd hinit (by simp)
    obtain ⟨rest, hparse⟩ := hparse
    exact ⟨entries, rest, hparse, [.map entries], _, hscopes, .map entries⟩
  next => cases hread

end CborContext

open CborContext in
/-- The content of the reader. -/
def readerContent : cborReader.Content where
  item data := ((CborItem.parse data.length data).map fun r => r.1.toCbor).getD (.simple 23)
  At := CborContext.At
  enterMap {data} h := by
    obtain ⟨entries, rest, hparse, hat⟩ := at_enterMap h
    exact ⟨CborItem.toEntries entries, by simp [hparse, CborItem.toCbor, Cbor.asEntries], hat⟩
  enterMapFromMapN {dc label entries} hat h := by
    obtain ⟨scope, hread, hscopes⟩ := of_enter
      (find_bind_ne_error fun item => by cases item <;> simp [unexpectedType]) h
    obtain ⟨value, hfind, hvalue⟩ := find_bind_eq_ok hread
    rw [find_eq_ok hat hfind]
    cases value with
    | map inner =>
      obtain rfl := Except.ok.inj hvalue
      exact ⟨CborItem.toEntries inner, by simp [CborItem.toCbor, Cbor.asEntries],
        [.map inner], dc.scopes, hscopes, .map inner⟩
    | _ => exact nomatch hvalue
  getUInt64ConvertAllInMapN {dc label entries n} hat h := by
    obtain ⟨hread, hdc⟩ := get_eq_some h
    obtain ⟨value, hfind, hvalue⟩ := find_bind_eq_ok hread
    refine ⟨?_, (congrArg (CborContext.At · _) hdc).mpr hat⟩
    rw [find_eq_ok hat hfind]
    exact asInteger_of_uint64 hvalue
  enterArrayFromMapN {dc label entries} hat h := by
    obtain ⟨scope, hread, hscopes⟩ := of_enter
      (find_bind_ne_error fun item => by cases item <;> simp [unexpectedType]) h
    obtain ⟨value, hfind, hvalue⟩ := find_bind_eq_ok hread
    rw [find_eq_ok hat hfind]
    cases value with
    | array items =>
      obtain rfl := Except.ok.inj hvalue
      exact ⟨CborItem.toCbors items, by simp [CborItem.toCbor, Cbor.asItems],
        items, dc.scopes, hscopes, .array items⟩
    | _ => exact nomatch hvalue
  getUInt64 {dc items n} hat h := by
    obtain ⟨scope, scopes, hscopes, hstands⟩ := hat
    obtain ⟨item, rest, outer, hnow, hitem, hnext⟩ := next_eq_some h
    obtain ⟨rfl, rfl⟩ := List.cons.inj (hscopes.symm.trans hnow)
    cases hstands with
    | array =>
      exact ⟨item.toCbor, CborItem.toCbors rest, by simp [CborItem.toCbors],
        asInteger_of_uint64 hitem, rest, scopes, hnext, .array rest⟩

/-- A manifest of 2.0.0-0 counts as newer than one of 1.0.0-0. -/
theorem faithful_and_ordered_iff_manifests : ∃ first second,
    decodeOtaData cborReader ⟨0, none, none⟩ (manifestBytes 1 [97] [102]) .zero = some (0, first) ∧
    decodeOtaData cborReader ⟨0, none, none⟩ (manifestBytes 2 [97] [102]) .zero = some (0, second) ∧
    verComp first.version second.version = 1 := by
  have hdec : ∀ major ∈ [1, 2], (decodeOtaData cborReader ⟨0, none, none⟩
      (manifestBytes major [97] [102]) .zero).any fun r => r.1 = 0 := by decide +kernel
  obtain ⟨⟨err, first⟩, hfirst, herr⟩ := (Option.any_eq_true _ _).mp (hdec 1 (by simp))
  obtain ⟨⟨err', second⟩, hsecond, herr'⟩ := (Option.any_eq_true _ _).mp (hdec 2 (by simp))
  obtain rfl : err = 0 := by simpa using herr
  obtain rfl : err' = 0 := by simpa using herr'
  obtain ⟨v, w, hv, hw, hiff⟩ :=
    faithful_and_ordered_iff lawful_cborReader readerContent hfirst hsecond
  have hitem : ∀ major ∈ [1, 2], encodedVersion (readerContent.item
      (manifestBytes major [97] [102]))
        = some ⟨[major.toNat, 0, 0, 0], List.replicate 8 (some 0)⟩ := by decide +kernel
  obtain rfl := Option.some.inj (hv.symm.trans (hitem 1 (by simp)))
  obtain rfl := Option.some.inj (hw.symm.trans (hitem 2 (by simp)))
  exact ⟨first, second, hfirst, hsecond, (hiff.mpr (by decide)).2.2.1 (by decide)⟩

/-- The manifest of 1.0.0-256. -/
def manifestCommit256 : List UInt8 :=
  [0xA4, 0x00, 0xA5, 0x00, 0x01, 0x01, 0x00, 0x02, 0x00, 0x03, 0x19, 0x01, 0x00, 0x04, 0x88, 0, 0,
    0, 0, 0, 0, 0, 0, 0x01, 0x61, 97, 0x02, 0x61, 102, 0x03, 0xF4]

/-- It is stored as 1.0.0-0. -/
theorem not_faithful_commit256 : ¬ ∀ (Q : Qcbor) (C : Q.Content) (stack : DecodeStack)
    (data : List UInt8) (d d' : OtaData) (v : EncodedVersion), Q.Lawful →
    decodeOtaData Q stack data d = some (0, d') → encodedVersion (C.item data) = some v →
    v.Faithful d'.version := by
  intro h
  have hdec : (decodeOtaData cborReader ⟨0, none, none⟩ manifestCommit256 .zero).any fun r =>
      r.1 = 0 ∧ ¬ EncodedVersion.Faithful ⟨[1, 0, 0, 256], List.replicate 8 (some 0)⟩ r.2.version :=
    by decide +kernel
  obtain ⟨⟨err, d'⟩, hdec, hboth⟩ := (Option.any_eq_true _ _).mp hdec
  obtain ⟨rfl, hne⟩ : err = 0 ∧ ¬ EncodedVersion.Faithful
      ⟨[1, 0, 0, 256], List.replicate 8 (some 0)⟩ d'.version := by simpa using hboth
  exact hne (h cborReader readerContent _ _ _ d' _ lawful_cborReader hdec (by decide +kernel))

end Pyrinas
