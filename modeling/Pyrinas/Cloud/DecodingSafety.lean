import Pyrinas.Cloud.Decoding

/-!
# Cloud/DecodingSafety — when decoding a message is memory safe

The library keeps the first error and sets no output from then on, but `decode_ota_version` looks at
no error, and `decode_ota_data` copies each text before it looks.  So a message is decoded safely if
its numbers are all found and, unless the version ends in an error, both texts are, and fit.

    map? ─▸ twelve numbers ─▸ version? ─▸ copy host ─▸ host? ─▸ copy file ─▸ file? ─▸ ⋯
-/

open Machinery

namespace Pyrinas

namespace Qcbor

variable (Q : Qcbor)

/-- A call that clears no error. -/
def Keeps (f : Q.Context → Q.Context) : Prop := ∀ dc, Q.getError (f dc) = 0 → Q.getError dc = 0

/-- A getter: its output is unset iff there is an error afterwards, and it clears none. -/
def Gets {α : Type} (f : Q.Context → Option α × Q.Context) : Prop :=
  (∀ dc, (f dc).1 = none ↔ Q.getError (f dc).2 ≠ 0) ∧ Q.Keeps fun dc => (f dc).2

/-- What the library says of its errors: a getter that fails leaves its output unset and records an
error, an error stays, and finishing returns it. -/
structure Lawful : Prop where
  enterMapFromMapN (label : ℤ) : Q.Keeps (Q.enterMapFromMapN · label)
  getUInt64ConvertAllInMapN (label : ℤ) : Q.Gets (Q.getUInt64ConvertAllInMapN · label)
  enterArrayFromMapN (label : ℤ) : Q.Keeps (Q.enterArrayFromMapN · label)
  getUInt64 : Q.Gets Q.getUInt64
  exitArray : Q.Keeps Q.exitArray
  getTextStringInMapN (label : ℤ) : Q.Gets (Q.getTextStringInMapN · label)
  getBoolInMapN (label : ℤ) : Q.Gets (Q.getBoolInMapN · label)
  exitMap : Q.Keeps Q.exitMap
  finish (dc : Q.Context) : Q.finish dc = 0 → Q.getError dc = 0

variable {Q} {α : Type} {f : Q.Context → Option α × Q.Context} {dc : Q.Context}

theorem Gets.ne_none_iff (h : Q.Gets f) : (f dc).1 ≠ none ↔ Q.getError (f dc).2 = 0 := by
  rw [Ne, h.1 dc, not_not]

theorem Gets.exists_of_no_error (h : Q.Gets f) (herr : Q.getError (f dc).2 = 0) :
    ∃ a, (f dc).1 = some a := Option.ne_none_iff_exists'.mp (h.ne_none_iff.mpr herr)

end Qcbor

/-! ## The reader keeps its errors -/

namespace CborContext

variable {c : CborContext} {α : Type}

theorem err_of_exit (h : c.exit.err = 0) : c.err = 0 := by
  by_contra hc
  rw [exit, if_pos hc] at h
  exact hc h

theorem err_of_get (read : Except ℕ α) (h : (c.get read).2.err = 0) : c.err = 0 := by
  by_contra hc
  rw [get.eq_def, if_pos hc] at h
  exact hc h

theorem get_eq_none_iff {read : Except ℕ α} (hread : read ≠ .error 0) :
    (c.get read).1 = none ↔ (c.get read).2.err ≠ 0 := by
  by_cases hc : c.err ≠ 0
  · simp [get, hc]
  · cases read with
    | ok a => simp_all [get]
    | error err => simp_all [get, fail]

theorem err_of_enter {read : Except ℕ (List CborItem)} (h : (c.enter read).err = 0) :
    c.err = 0 := by
  unfold enter at h
  generalize hget : c.get read = r at h
  obtain ⟨out, c'⟩ := r
  refine err_of_get read ?_
  rw [hget]
  cases out <;> exact h

theorem find_ne_error (label : ℤ) : c.find label ≠ .error 0 := by
  unfold find
  split
  · split <;> simp [labelNotFound]
  · simp [unexpectedType]

theorem uint64_ne_error (item : CborItem) : uint64 item ≠ .error 0 := by
  unfold uint64
  split
  · split <;> simp [unexpectedType]
  · simp [unexpectedType]

/-- What is done with a value that is found adds no error 0. -/
theorem find_bind_ne_error {label : ℤ} {f : CborItem → Except ℕ α} (h : ∀ item, f item ≠ .error 0) :
    (c.find label >>= f) ≠ .error 0 := by
  have hfind := c.find_ne_error label
  cases hitem : c.find label with
  | ok item => exact h item
  | error err =>
    rw [hitem] at hfind
    exact fun heq => hfind (congrArg Except.error (Except.error.inj heq))

theorem err_of_next (h : c.next.2.err = 0) : c.err = 0 := by
  by_contra hc
  rw [next, if_pos hc] at h
  exact hc h

theorem next_eq_none_iff : c.next.1 = none ↔ c.next.2.err ≠ 0 := by
  unfold next
  split
  next hc => simp [hc]
  next hc =>
    split
    · split
      · simpa using hc
      next item _ _ _ _ err herr =>
        have hne := herr ▸ uint64_ne_error item
        simpa [fail] using hne
    · simp [fail, hitEnd]

end CborContext

open CborContext in
/-- The reader is lawful. -/
theorem lawful_cborReader : cborReader.Lawful where
  enterMapFromMapN _ _ := err_of_enter
  getUInt64ConvertAllInMapN _ :=
    ⟨fun _ => get_eq_none_iff (find_bind_ne_error uint64_ne_error), fun _ => err_of_get _⟩
  enterArrayFromMapN _ _ := err_of_enter
  getUInt64 := ⟨fun _ => next_eq_none_iff, fun _ => err_of_next⟩
  exitArray _ := err_of_exit
  getTextStringInMapN _ := by
    refine ⟨fun _ => get_eq_none_iff (find_bind_ne_error fun item => ?_), fun _ => err_of_get _⟩
    cases item <;> simp [unexpectedType]
  getBoolInMapN _ := by
    refine ⟨fun _ => get_eq_none_iff (find_bind_ne_error fun item => ?_), fun _ => err_of_get _⟩
    cases item <;> simp [unexpectedType]
  exitMap _ := err_of_exit
  finish c h := by
    by_contra hc
    have hfinish : cborReader.finish c = c.err := if_pos hc
    exact hc (hfinish.symm.trans h)

/-! ## Safe stores -/

/-- A text that was set and fits its field. -/
def Fits (out : Option (List UInt8)) : Prop := ∃ t ∈ out, t.length ≤ 128

instance (out : Option (List UInt8)) : Decidable (Fits out) :=
  inferInstanceAs (Decidable (∃ t ∈ out, t.length ≤ 128))

/-- A number is one that was set, and a text is one that was set and is copied inside its field.
The getter of `force` writes it itself, or not at all. -/
def OtaStore.Safe : OtaStore → Prop
  | .number _ out => out ≠ none
  | .text _ out => Fits out
  | .force _ => True

instance : ∀ store : OtaStore, Decidable store.Safe
  | .number _ out => inferInstanceAs (Decidable (out ≠ none))
  | .text _ out => inferInstanceAs (Decidable (Fits out))
  | .force _ => inferInstanceAs (Decidable True)

/-- Every store of a message is safe. -/
def MemorySafe (Q : Qcbor) (data : List UInt8) : Prop :=
  ∀ store ∈ (traceData Q data).1, store.Safe

instance (Q : Qcbor) (data : List UInt8) : Decidable (MemorySafe Q data) :=
  inferInstanceAs (Decidable (∀ store ∈ (traceData Q data).1, store.Safe))

/-- The message is no map; or the numbers of its version are read without an error and, if it still
is so when the version is left, its host and its file are found and fit. -/
def Answered (Q : Qcbor) (data : List UInt8) : Prop :=
  let dc := Q.enterMap (Q.init data)
  Q.getError dc = 0 → Q.getError (traceNumbers Q (Q.enterMapFromMapN dc versionPos)).2 = 0 ∧
    (Q.getError (traceVersion Q dc versionPos).2 = 0 →
      Fits (manifestUrl Q data).1 ∧ Fits (manifestUrl Q data).2)

instance (Q : Qcbor) (data : List UInt8) : Decidable (Answered Q data) :=
  inferInstanceAs (Decidable (_ → _ ∧ (_ → _ ∧ _)))

/-! ## What safe stores come to -/

/-- Safe stores come to the same writes, whatever the locals hold. -/
theorem resolve_of_safe {stores : List OtaStore} (h : ∀ store ∈ stores, store.Safe)
    (stack stack' : DecodeStack) (temp temp' : UInt64) :
    resolve stack temp stores = resolve stack' temp' stores := by
  induction stores generalizing temp temp' with
  | nil => rfl
  | cons store stores ih =>
    obtain ⟨hsafe, hrest⟩ := List.forall_mem_cons.mp h
    cases store with
    | number byte out =>
      obtain ⟨n, rfl⟩ := Option.ne_none_iff_exists'.mp hsafe
      simp [resolve, ih hrest n n]
    | text part out =>
      obtain ⟨t, rfl, -⟩ := hsafe
      simp [resolve, ih hrest temp temp']
    | force out => cases out <;> simp [resolve, ih hrest temp temp']

/-- Safe stores stay inside their fields. -/
theorem exists_write_of_safe {stores : List OtaStore} (h : ∀ store ∈ stores, store.Safe)
    (stack : DecodeStack) (temp : UInt64) (d : OtaData) :
    ∃ d', (resolve stack temp stores).foldlM OtaWrite.write d = some d' := by
  induction stores generalizing temp d with
  | nil => exact ⟨d, rfl⟩
  | cons store stores ih =>
    obtain ⟨hsafe, hrest⟩ := List.forall_mem_cons.mp h
    cases store with
    | number byte out => exact ih hrest _ _
    | text part out =>
      obtain ⟨t, rfl, ht⟩ := hsafe
      obtain ⟨area, harea⟩ := (d.text part).exists_copyIn 0 t (by omega)
      simpa [resolve, OtaWrite.write, harea] using ih hrest temp _
    | force out =>
      cases out with
      | none => exact ih hrest _ _
      | some value => exact ih hrest _ _

/-- **Where the stores are safe the decoder returns**, and with what does not depend on what its
locals held. -/
theorem decodeOtaData_of_safe {Q : Qcbor} {data : List UInt8} (h : MemorySafe Q data)
    (d : OtaData) : ∃ r, ∀ stack, decodeOtaData Q stack data d = some r := by
  obtain ⟨d', hd⟩ := exists_write_of_safe h ⟨0, none, none⟩ 0 d
  refine ⟨(Q.finish (traceData Q data).2, d'), fun stack => ?_⟩
  rw [decodeOtaData_eq, resolve_of_safe h stack ⟨0, none, none⟩ stack.temp 0, hd]
  rfl

/-! ## Which messages are safe -/

section Safety

variable {Q : Qcbor} (hQ : Q.Lawful)

include hQ

theorem keeps_traceHash (is : List (Fin 8)) : Q.Keeps fun dc => (traceHash Q is dc).2 := by
  induction is with
  | nil => exact fun _ => id
  | cons i is ih => exact fun dc h => hQ.getUInt64.2 dc (ih _ h)

/-- The loop over the hash is safe iff it ends without an error: its last getter tells. -/
theorem safe_traceHash_iff (is : List (Fin 8)) (his : is ≠ []) (dc : Q.Context) :
    (∀ store ∈ (traceHash Q is dc).1, store.Safe) ↔ Q.getError (traceHash Q is dc).2 = 0 := by
  induction is generalizing dc with
  | nil => exact absurd rfl his
  | cons i is ih =>
    have hfirst : (Q.getUInt64 dc).1 ≠ none ↔ Q.getError (Q.getUInt64 dc).2 = 0 :=
      hQ.getUInt64.ne_none_iff
    by_cases hlast : is = []
    · subst hlast
      simpa [traceHash, OtaStore.Safe] using hfirst
    · have hrest := ih hlast (Q.getUInt64 dc).2
      have hkeep := keeps_traceHash hQ is (Q.getUInt64 dc).2
      refine List.forall_mem_cons.trans ?_
      exact (and_congr hfirst hrest).trans (and_iff_right_of_imp hkeep)

/-- So are the numbers of the version. -/
theorem safe_traceNumbers_iff (dc : Q.Context) :
    (∀ store ∈ (traceNumbers Q dc).1, store.Safe) ↔ Q.getError (traceNumbers Q dc).2 = 0 := by
  have hget := fun label => hQ.getUInt64ConvertAllInMapN label
  let major := Q.getUInt64ConvertAllInMapN dc majorPos
  let minor := Q.getUInt64ConvertAllInMapN major.2 minorPos
  let patch := Q.getUInt64ConvertAllInMapN minor.2 patchPos
  let commit := Q.getUInt64ConvertAllInMapN patch.2 commitPos
  let hash := traceHash Q (List.finRange 8) (Q.enterArrayFromMapN commit.2 hashPos)
  have hhash : (∀ store ∈ hash.1, store.Safe) ↔ Q.getError (traceNumbers Q dc).2 = 0 :=
    safe_traceHash_iff hQ (List.finRange 8) (by decide) _
  have hcommit : Q.getError (traceNumbers Q dc).2 = 0 → Q.getError commit.2 = 0 := fun h =>
    hQ.enterArrayFromMapN hashPos _ (keeps_traceHash hQ (List.finRange 8) _ h)
  have hpatch : Q.getError commit.2 = 0 → Q.getError patch.2 = 0 := (hget commitPos).2 _
  have hminor : Q.getError patch.2 = 0 → Q.getError minor.2 = 0 := (hget patchPos).2 _
  have hmajor : Q.getError minor.2 = 0 → Q.getError major.2 = 0 := (hget minorPos).2 _
  have hall : (∀ store ∈ (traceNumbers Q dc).1, store.Safe) ↔ major.1 ≠ none ∧ minor.1 ≠ none ∧
      patch.1 ≠ none ∧ commit.1 ≠ none ∧ ∀ store ∈ hash.1, store.Safe :=
    List.forall_mem_cons.trans <| and_congr_right' <| List.forall_mem_cons.trans <|
      and_congr_right' <| List.forall_mem_cons.trans <| and_congr_right' List.forall_mem_cons
  rw [hall, (hget majorPos).ne_none_iff, (hget minorPos).ne_none_iff, (hget patchPos).ne_none_iff,
    (hget commitPos).ne_none_iff, hhash]
  exact ⟨fun h => h.2.2.2.2, fun h => ⟨hmajor (hminor (hpatch (hcommit h))),
    hminor (hpatch (hcommit h)), hpatch (hcommit h), hcommit h, h⟩⟩

/-- A text is safe iff it is found and fits; if it is not found, nothing follows it. -/
theorem safe_traceText_iff (part : UrlPart) (next : Q.Context → List OtaStore × Q.Context)
    (dc : Q.Context) : (∀ store ∈ (traceText Q part next dc).1, store.Safe) ↔
      Fits (Q.getTextStringInMapN dc part.pos).1 ∧
        ∀ store ∈ (next (Q.getTextStringInMapN dc part.pos).2).1, store.Safe := by
  by_cases herr : Q.getError (Q.getTextStringInMapN dc part.pos).2 = 0
  · rw [traceText_of_no_error herr]
    exact List.forall_mem_cons
  · have hunset : (Q.getTextStringInMapN dc part.pos).1 = none :=
      ((hQ.getTextStringInMapN part.pos).1 dc).mpr herr
    rw [traceText_of_error herr, hunset]
    simp [OtaStore.Safe, Fits]

/-- **Decoding a message is memory safe iff all that is stored unasked was answered.** -/
theorem memorySafe_iff (data : List UInt8) : MemorySafe Q data ↔ Answered Q data := by
  unfold MemorySafe Answered
  rw [manifestUrl_eq]
  dsimp only
  have hnumbers : (∀ store ∈ (traceVersion Q (Q.enterMap (Q.init data)) versionPos).1,
      store.Safe) ↔ Q.getError
        (traceNumbers Q (Q.enterMapFromMapN (Q.enterMap (Q.init data)) versionPos)).2 = 0 :=
    safe_traceNumbers_iff hQ _
  have htexts := safe_traceText_iff hQ .host (traceText Q .file (traceForce Q))
    (traceVersion Q (Q.enterMap (Q.init data)) versionPos).2
  rw [safe_traceText_iff hQ .file] at htexts
  have hforce : ∀ dc, ∀ store ∈ (traceForce Q dc).1, store.Safe := fun dc => by
    simp [traceForce, OtaStore.Safe]
  by_cases hmap : Q.getError (Q.enterMap (Q.init data)) = 0
  · by_cases hversion : Q.getError (traceVersion Q (Q.enterMap (Q.init data)) versionPos).2 = 0
    · rw [traceData_of_version hmap hversion]
      simp only [hmap, hversion, true_implies, List.forall_mem_append, hnumbers, htexts]
      exact and_congr_right' (and_congr_right' (and_iff_left (hforce _)))
    · simp [traceData_of_no_version hmap hversion, hmap, hversion, hnumbers]
  · simp [traceData_of_no_map hmap, hmap]

end Safety

/-- A manifest with short texts is safe. -/
theorem memorySafe_iff_manifest : MemorySafe cborReader (manifestBytes 1 [97] [102]) :=
  (memorySafe_iff lawful_cborReader _).mpr (by decide +kernel)

/-- A manifest that ends behind the version. -/
def manifestWithoutHost : List UInt8 :=
  [0xA1, 0x00, 0xA5, 0x00, 0x01, 0x01, 0x00, 0x02, 0x00, 0x03, 0x00, 0x04, 0x88, 0, 0, 0, 0, 0, 0,
    0, 0]

/-- Its host is copied from wherever `host_data` points to. -/
theorem not_memorySafe_withoutHost : ¬ ∀ (B : CloudBuild) (data : List UInt8), B.qcbor.Lawful →
    data.length ≤ B.payloadBufferSize → MemorySafe B.qcbor data := by
  intro h
  have hunsafe : ¬ MemorySafe cborReader manifestWithoutHost := by decide +kernel
  exact hunsafe (h sampleBuild manifestWithoutHost lawful_cborReader (by decide))

end Pyrinas
