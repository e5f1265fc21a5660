import Pyrinas.Cloud.DecodingSafety

/-!
# Cloud/Decoded — what a call leaves in `ota_data`

Every place of `ota_data` is written at most once, so after a call each place that was written holds
what the message has for it, and everything else is as it was: that is so after a failure too, and
for the bytes behind a text that is shorter than the one before.

    host  a b c d \0 ⋯   ── memcpy "x y" ──▸   x y c d \0 ⋯
-/

open Machinery

namespace Pyrinas

/-! ## Writes into `ota_data` -/

namespace OtaData

@[simp] theorem text_setText (d : OtaData) (area : Area UInt8 128) (part : UrlPart) :
    (d.setText area part).text part = area := by
  cases part <;> rfl

theorem text_setText_of_ne (d : OtaData) (area : Area UInt8 128) {part other : UrlPart}
    (h : other ≠ part) : (d.setText area part).text other = d.text other := by
  cases part <;> cases other <;> first | rfl | exact absurd rfl h

theorem setText_text (d : OtaData) (part : UrlPart) : d.setText (d.text part) part = d := by
  cases part <;> rfl

@[simp] theorem version_setText (d : OtaData) (area : Area UInt8 128) (part : UrlPart) :
    (d.setText area part).version = d.version := by
  cases part <;> rfl

@[simp] theorem force_setText (d : OtaData) (area : Area UInt8 128) (part : UrlPart) :
    (d.setText area part).force = d.force := by
  cases part <;> rfl

end OtaData

namespace OtaWrite

/-- What writing a text leaves of it. -/
theorem cells_of_write {d d' : OtaData} {part : UrlPart} {bytes : Option (List UInt8)}
    (h : write d (.text part bytes) = some d') : ∃ t area, bytes = some t ∧
      (d.text part).copyIn 0 t = some area ∧ d' = d.setText area part := by
  cases bytes with
  | none => exact absurd h (by simp [write])
  | some t =>
    cases harea : (d.text part).copyIn 0 t with
    | none => exact absurd h (by simp [write, harea])
    | some area => exact ⟨t, area, rfl, harea, by simpa [write, harea] using h.symm⟩

/-- A write changes its own place. -/
theorem writing : Writing write place Holds where
  holds := by
    intro d d' w h
    cases w with
    | number byte value =>
      obtain rfl := Option.some.inj h
      exact d.version.get_set value byte
    | text part bytes =>
      obtain ⟨t, area, rfl, harea, rfl⟩ := cells_of_write h
      refine ⟨t, rfl, ?_⟩
      rw [OtaData.text_setText]
      exact ⟨_, by simpa using (Area.cells_of_copyIn harea).2.symm⟩
    | force value =>
      obtain rfl := Option.some.inj h
      rfl
  other := by
    intro d d' v w h hne hv
    cases w with
    | number byte value =>
      obtain rfl := Option.some.inj h
      cases v with
      | number other _ =>
        have hother : other ≠ byte := fun heq => hne (congrArg OtaPlace.number heq)
        exact (d.version.get_set_of_ne value hother).trans hv
      | text | force => exact hv
    | text part bytes =>
      obtain ⟨t, area, rfl, -, rfl⟩ := cells_of_write h
      cases v with
      | text other _ =>
        have hother : other ≠ part := fun heq => hne (congrArg OtaPlace.text heq)
        rw [Holds, d.text_setText_of_ne area hother]
        exact hv
      | number | force => simpa [Holds] using hv
    | force value =>
      obtain rfl := Option.some.inj h
      cases v with
      | force _ => exact absurd rfl hne
      | number | text => exact hv
  idle := by
    intro d w h
    cases w with
    | number byte value =>
      obtain rfl : d.version.get byte = value := h
      rw [write, d.version.set_get]
    | text part bytes =>
      obtain ⟨t, rfl, ht⟩ := h
      have hcopy := Area.copyIn_self (a := d.text part) (Nat.zero_le 128) (by simpa using ht)
      simp [write, hcopy, d.setText_text]
    | force value =>
      obtain rfl : d.force = value := h
      rfl

/-- A text can be written if it can be read and fits. -/
def CanWrite : OtaWrite → Prop
  | text _ bytes => Fits bytes
  | _ => True

theorem exists_write_iff (d : OtaData) (w : OtaWrite) :
    (∃ d', write d w = some d') ↔ w.CanWrite := by
  cases w with
  | number | force => exact iff_of_true ⟨_, rfl⟩ trivial
  | text part bytes =>
    constructor
    · rintro ⟨d', h⟩
      obtain ⟨t, area, rfl, harea, -⟩ := cells_of_write h
      exact ⟨t, rfl, by simpa using (Area.cells_of_copyIn harea).1⟩
    · rintro ⟨t, rfl, ht⟩
      obtain ⟨area, harea⟩ := (d.text part).exists_copyIn 0 t (by omega)
      exact ⟨d.setText area part, by simp [write, harea]⟩

end OtaWrite

/-! ## The writes of a message -/

/-- The writes of a message. -/
def otaWrites (Q : Qcbor) (stack : DecodeStack) (data : List UInt8) : List OtaWrite :=
  resolve stack stack.temp (traceData Q data).1

/-- The places of `ota_data`, in the order they are written. -/
def otaPlaces : List OtaPlace :=
  [.number .major, .number .minor, .number .patch, .number .commit]
    ++ (List.finRange 8).map (fun i => .number (.hash i)) ++ [.text .host, .text .file, .force]

theorem places_resolve (stack : DecodeStack) (temp : UInt64) (stores : List OtaStore) :
    ((resolve stack temp stores).map OtaWrite.place).Sublist (stores.map OtaStore.place) := by
  induction stores generalizing temp with
  | nil => exact List.Sublist.refl _
  | cons store stores ih =>
    cases store with
    | number byte out => exact (ih _).cons_cons _
    | text part out => exact (ih _).cons_cons _
    | force out =>
      cases out with
      | none => exact (ih _).cons _
      | some value => exact (ih _).cons_cons _

section Places

variable {Q : Qcbor}

theorem places_traceHash (is : List (Fin 8)) (dc : Q.Context) :
    (traceHash Q is dc).1.map OtaStore.place = is.map fun i => .number (.hash i) := by
  induction is generalizing dc with
  | nil => rfl
  | cons i is ih => exact congrArg (_ :: ·) (ih _)

theorem places_traceVersion (dc : Q.Context) (label : ℤ) :
    (traceVersion Q dc label).1.map OtaStore.place
      = [.number .major, .number .minor, .number .patch, .number .commit]
        ++ (List.finRange 8).map fun i => .number (.hash i) := by
  obtain ⟨major, minor, patch, commit, hashDc, h⟩ : ∃ major minor patch commit hashDc,
      (traceVersion Q dc label).1 = .number .major major :: .number .minor minor ::
        .number .patch patch :: .number .commit commit ::
          (traceHash Q (List.finRange 8) hashDc).1 := ⟨_, _, _, _, _, rfl⟩
  rw [h, ← places_traceHash (List.finRange 8) hashDc]
  rfl

theorem places_traceText (part : UrlPart) {next : Q.Context → List OtaStore × Q.Context}
    {places : List OtaPlace} (h : ∀ dc, (next dc).1.map OtaStore.place <+: places)
    (dc : Q.Context) :
    (traceText Q part next dc).1.map OtaStore.place <+: .text part :: places := by
  by_cases herr : Q.getError (Q.getTextStringInMapN dc part.pos).2 = 0
  · rw [traceText_of_no_error herr]
    exact (List.prefix_cons_inj _).mpr (h _)
  · rw [traceText_of_error herr]
    exact (List.prefix_cons_inj _).mpr List.nil_prefix

/-- A message is written from the front, as far as it goes. -/
theorem places_traceData (data : List UInt8) :
    (traceData Q data).1.map OtaStore.place <+: otaPlaces := by
  have hversion := places_traceVersion (Q.enterMap (Q.init data)) versionPos
  have hforce : ∀ dc, (traceForce Q dc).1.map OtaStore.place <+: [.force] :=
    fun _ => List.prefix_rfl
  have htexts := places_traceText .host (places_traceText .file hforce)
    (traceVersion Q (Q.enterMap (Q.init data)) versionPos).2
  by_cases hmap : Q.getError (Q.enterMap (Q.init data)) = 0
  · by_cases herr : Q.getError (traceVersion Q (Q.enterMap (Q.init data)) versionPos).2 = 0
    · rw [traceData_of_version hmap herr, List.map_append, hversion]
      exact (List.prefix_append_right_inj _).mpr htexts
    · rw [traceData_of_no_version hmap herr, hversion]
      exact List.prefix_append _ _
  · rw [traceData_of_no_map hmap]
    exact List.nil_prefix

/-- No place is written twice. -/
theorem nodup_otaWrites (Q : Qcbor) (stack : DecodeStack) (data : List UInt8) :
    ((otaWrites Q stack data).map OtaWrite.place).Nodup := by
  have hall : otaPlaces.Nodup := by decide
  exact ((hall.sublist (places_traceData data).sublist).sublist (places_resolve _ _ _))

/-- What a call that returns has done. -/
theorem run_of_decode {stack : DecodeStack} {data : List UInt8} {d d' : OtaData} {err : ℕ}
    (h : decodeOtaData Q stack data d = some (err, d')) :
    (otaWrites Q stack data).foldlM OtaWrite.write d = some d' ∧
      Q.finish (traceData Q data).2 = err := by
  rw [decodeOtaData_eq] at h
  obtain ⟨e, hrun, heq⟩ := Option.map_eq_some_iff.mp h
  obtain ⟨rfl, rfl⟩ := Prod.mk.inj heq
  exact ⟨hrun, rfl⟩

/-- A call that returns does so whatever the structure holds. -/
theorem exists_decode {stack : DecodeStack} {data : List UInt8} {d d' : OtaData} {err : ℕ}
    (h : decodeOtaData Q stack data d = some (err, d')) (e : OtaData) :
    ∃ e', decodeOtaData Q stack data e = some (err, e') := by
  obtain ⟨hrun, rfl⟩ := run_of_decode h
  have hcan := (exists_foldlM_iff OtaWrite.exists_write_iff).mp ⟨d', hrun⟩
  obtain ⟨e', he⟩ := (exists_foldlM_iff OtaWrite.exists_write_iff (s := e)).mpr hcan
  refine ⟨e', ?_⟩
  rw [decodeOtaData_eq]
  exact congrArg (Option.map _) he

/-- A call returns iff every text it writes can be read and fits. -/
theorem exists_decode_iff {stack : DecodeStack} {data : List UInt8} {d : OtaData} :
    (∃ r, decodeOtaData Q stack data d = some r) ↔ ∀ w ∈ otaWrites Q stack data, w.CanWrite := by
  rw [← exists_foldlM_iff OtaWrite.exists_write_iff (s := d), decodeOtaData_eq]
  constructor
  · rintro ⟨r, h⟩
    obtain ⟨d', hrun, -⟩ := Option.map_eq_some_iff.mp h
    exact ⟨d', hrun⟩
  · rintro ⟨d', hrun⟩
    exact ⟨_, congrArg (Option.map _) hrun⟩

end Places

/-! ## Texts over texts -/

/-- The text that a row of writes puts into a field; none if it has no write for it. -/
def textWritten (ws : List OtaWrite) (part : UrlPart) : Option (List UInt8) :=
  ws.findSome? fun
    | .text other bytes => if other = part then bytes else none
    | _ => none

/-- The value a row of writes gives `force`. -/
def forceWritten (ws : List OtaWrite) : Option Bool :=
  ws.findSome? fun
    | .force value => some value
    | _ => none

namespace OtaData

/-- A field with the text of a row of writes over its first bytes. -/
def under (d : OtaData) (ws : List OtaWrite) (part : UrlPart) : List UInt8 :=
  let text := (textWritten ws part).getD []
  text ++ (d.text part).cells.drop text.length

/-- With the texts of a row of writes over those that were there, two C strings lie at the front of
`host` and of `file`, each with its terminator. -/
def ReadsAs (d : OtaData) (ws : List OtaWrite) (url : CString × CString) : Prop :=
  let force : UInt8 := if (forceWritten ws).getD d.force then 1 else 0
  url.1.bytes ++ [0] <+: d.under ws .host ++ (d.under ws .file ++ [force]) ∧
    url.2.bytes ++ [0] <+: d.under ws .file ++ [force]

variable {d d' : OtaData} {ws : List OtaWrite}

/-- What no write goes to is found in no row of them. -/
theorem textWritten_eq_none {part : UrlPart} (h : ∀ w ∈ ws, OtaPlace.text part ≠ w.place) :
    textWritten ws part = none := by
  refine List.findSome?_eq_none_iff.mpr fun w hw => ?_
  cases w with
  | text other bytes =>
    have hother : other ≠ part := fun heq => h _ hw (congrArg OtaPlace.text heq.symm)
    exact if_neg hother
  | number | force => rfl

/-- **A field after a row of writes** is the field from before with the text over it. -/
theorem cells_of_run (hplaces : (ws.map OtaWrite.place).Nodup)
    (hrun : ws.foldlM OtaWrite.write d = some d') (part : UrlPart) :
    (d'.text part).cells = d.under ws part := by
  induction ws generalizing d with
  | nil =>
    obtain rfl := Option.some.inj hrun
    rfl
  | cons w ws ih =>
    rw [List.foldlM_cons] at hrun
    obtain ⟨e, hwrite, hrest⟩ := Option.bind_eq_some_iff.mp hrun
    rw [List.map_cons, List.nodup_cons] at hplaces
    have hih := ih hplaces.2 hrest
    cases w with
    | number byte value =>
      obtain rfl := Option.some.inj hwrite
      cases part <;> exact hih
    | force value =>
      obtain rfl := Option.some.inj hwrite
      cases part <;> exact hih
    | text other bytes =>
      obtain ⟨t, area, rfl, harea, rfl⟩ := OtaWrite.cells_of_write hwrite
      by_cases hpart : other = part
      · subst hpart
        have hlater : textWritten ws other = none := textWritten_eq_none fun v hv heq =>
          hplaces.1 (List.mem_map.mpr ⟨v, hv, heq.symm⟩)
        have hcells := (Area.cells_of_copyIn harea).2
        simp only [under, hlater, d.text_setText, hcells] at hih
        simpa [under, textWritten] using hih
      · simp only [under, d.text_setText_of_ne area (Ne.symm hpart)] at hih
        simpa [under, textWritten, hpart] using hih

theorem force_of_run (hplaces : (ws.map OtaWrite.place).Nodup)
    (hrun : ws.foldlM OtaWrite.write d = some d') :
    d'.force = (forceWritten ws).getD d.force := by
  induction ws generalizing d with
  | nil =>
    obtain rfl := Option.some.inj hrun
    rfl
  | cons w ws ih =>
    rw [List.foldlM_cons] at hrun
    obtain ⟨e, hwrite, hrest⟩ := Option.bind_eq_some_iff.mp hrun
    rw [List.map_cons, List.nodup_cons] at hplaces
    have hih := ih hplaces.2 hrest
    cases w with
    | number byte value =>
      obtain rfl := Option.some.inj hwrite
      exact hih
    | force value =>
      obtain rfl := Option.some.inj hwrite
      have hlater : forceWritten ws = none := by
        refine List.findSome?_eq_none_iff.mpr fun v hv => ?_
        cases v with
        | force _ => exact absurd (List.mem_map.mpr ⟨_, hv, rfl⟩) hplaces.1
        | number | text => rfl
      rw [hih, hlater]
      rfl
    | text part bytes =>
      obtain ⟨t, area, rfl, -, rfl⟩ := OtaWrite.cells_of_write hwrite
      rwa [force_setText] at hih

/-- The memory from `host` on holds a string, and so does that from `file` on. -/
theorem url_eq_some_iff {host file : CString} : d.url = some (host, file) ↔
    host.bytes ++ [0] <+: d.hostMemory ∧ file.bytes ++ [0] <+: d.fileMemory := by
  rw [← CString.ofBytes_eq_iff_prefix, ← CString.ofBytes_eq_iff_prefix]
  unfold OtaData.url
  split
  next h => simp [h]
  next h => exact iff_of_false (by simp) fun h' => h ⟨h'.1.1, h'.2.1⟩

/-- **The C strings after a row of writes** are what its texts read as, over those before. -/
theorem url_eq_some_iff_readsAs (hplaces : (ws.map OtaWrite.place).Nodup)
    (hrun : ws.foldlM OtaWrite.write d = some d') {url : CString × CString} :
    d'.url = some url ↔ d.ReadsAs ws url := by
  have hhost : d'.host.cells = d.under ws .host := cells_of_run hplaces hrun .host
  have hfile : d'.file.cells = d.under ws .file := cells_of_run hplaces hrun .file
  rw [url_eq_some_iff, hostMemory, fileMemory, hhost, hfile, force_of_run hplaces hrun]
  rfl

theorem textWritten_of_mem (hplaces : (ws.map OtaWrite.place).Nodup) {part : UrlPart}
    {t : List UInt8} (h : .text part (some t) ∈ ws) : textWritten ws part = some t := by
  obtain ⟨before, behind, rfl⟩ := List.append_of_mem h
  rw [List.map_append, List.map_cons, List.nodup_append] at hplaces
  have hbefore : textWritten before part = none := textWritten_eq_none fun w hw =>
    (hplaces.2.2 _ (List.mem_map_of_mem hw) _ List.mem_cons_self).symm
  simp only [textWritten, List.findSome?_append] at hbefore ⊢
  simp [hbefore]

/-- A text with a zero behind it is a string. -/
theorem prefix_under {part : UrlPart} {s : CString} (ht : textWritten ws part = some s.bytes)
    (hzero : (d.text part).cells[s.length]? = some 0) : s.bytes ++ [0] <+: d.under ws part := by
  obtain ⟨hlt, hget⟩ := List.getElem?_eq_some_iff.mp hzero
  rw [under, ht, Option.getD_some]
  change s.bytes ++ [0] <+: s.bytes ++ (d.text part).cells.drop s.length
  rw [List.drop_eq_getElem_cons hlt, hget]
  exact (List.prefix_append_right_inj _).mpr ⟨_, rfl⟩

/-- **Two texts with zeros behind them are read as they are.** -/
theorem readsAs_of_zeros {url : CString × CString}
    (hhost : textWritten ws .host = some url.1.bytes)
    (hfile : textWritten ws .file = some url.2.bytes)
    (hhostZero : d.host.cells[url.1.length]? = some 0)
    (hfileZero : d.file.cells[url.2.length]? = some 0) : d.ReadsAs ws url :=
  ⟨(prefix_under hhost hhostZero).trans (List.prefix_append _ _),
    (prefix_under hfile hfileZero).trans (List.prefix_append _ _)⟩

end OtaData

/-- The C strings after a call. -/
theorem url_of_decode {Q : Qcbor} {stack : DecodeStack} {data : List UInt8} {d d' : OtaData}
    {err : ℕ} (h : decodeOtaData Q stack data d = some (err, d')) (url : CString × CString) :
    d'.url = some url ↔ d.ReadsAs (otaWrites Q stack data) url :=
  OtaData.url_eq_some_iff_readsAs (nodup_otaWrites Q stack data) (run_of_decode h).1

/-! ## Failing calls -/

section Atomic

variable (Q : Qcbor) (stack : DecodeStack) (data : List UInt8)

/-- The call returns an error. -/
def Fails (d : OtaData) : Prop :=
  ∃ err d', decodeOtaData Q stack data d = some (err, d') ∧ err ≠ 0

/-- If the call returns an error, `ota_data` is as it was. -/
def Atomic (d : OtaData) : Prop :=
  ∀ err d', decodeOtaData Q stack data d = some (err, d') → err ≠ 0 → d' = d

variable {Q data}

/-- Of a map, something is always written: `major` first. -/
theorem exists_major_write (hmap : Q.getError (Q.enterMap (Q.init data)) = 0) :
    ∃ value, OtaWrite.number .major value ∈ otaWrites Q stack data := by
  have hstores : ∃ out stores, (traceData Q data).1 = .number .major out :: stores := by
    by_cases herr : Q.getError (traceVersion Q (Q.enterMap (Q.init data)) versionPos).2 = 0
    · exact ⟨_, _, congrArg Prod.fst (traceData_of_version hmap herr)⟩
    · exact ⟨_, _, congrArg Prod.fst (traceData_of_no_version hmap herr)⟩
  obtain ⟨out, stores, h⟩ := hstores
  rw [otaWrites, h]
  exact ⟨_, List.mem_cons_self⟩

variable (Q data)

/-- **A call that fails is atomic iff the message is not even a map**; for given contents it may be
so as well because it finds in place whatever it writes. -/
theorem atomic_iff :
    ((∀ d, Atomic Q stack data d) ↔
      ((∃ d, Fails Q stack data d) → Q.getError (Q.enterMap (Q.init data)) ≠ 0)) ∧
    ∀ d, Atomic Q stack data d ↔
      (Fails Q stack data d → ∀ w ∈ otaWrites Q stack data, w.Holds d) := by
  have hself : ∀ {d d' err}, decodeOtaData Q stack data d = some (err, d') →
      (d' = d ↔ ∀ w ∈ otaWrites Q stack data, w.Holds d) := fun h =>
    OtaWrite.writing.eq_self_iff (nodup_otaWrites Q stack data) (run_of_decode h).1
  refine ⟨⟨?_, ?_⟩, fun d => ⟨?_, ?_⟩⟩
  · rintro hatomic ⟨d, err, d', h, herr⟩ hmap
    obtain ⟨value, hmem⟩ := exists_major_write stack hmap
    -- contents whose `major` is another one
    let e : OtaData := { d with version := d.version.set (value + 1) .major }
    obtain ⟨e', he⟩ := exists_decode h e
    have hheld := (hself he).mp (hatomic e err e' he herr) _ hmem
    have hget : e.version.get .major = value + 1 := d.version.get_set (value + 1) .major
    exact absurd (hget.symm.trans hheld) (by simp)
  · intro hmap d err d' h herr
    have hnil : otaWrites Q stack data = [] := by
      rw [otaWrites, traceData_of_no_map (hmap ⟨d, err, d', h, herr⟩), resolve]
    exact (hself h).mpr (by simp [hnil])
  · rintro hatomic ⟨err, d', h, herr⟩
    exact (hself h).mp (hatomic err d' h herr)
  · exact fun hheld err d' h herr => (hself h).mpr (hheld ⟨err, d', h, herr⟩)

end Atomic

/-- With a byte behind the manifest everything is stored before the error is found. -/
theorem not_atomic_trailing : ¬ ∀ Q : Qcbor, Q.Lawful → ∀ stack data d, Atomic Q stack data d := by
  intro h
  have hfails : (decodeOtaData cborReader ⟨0, none, none⟩ (manifestBytes 1 [97] [102] ++ [0])
      .zero).any fun r => r.1 ≠ 0 ∧ r.2 ≠ .zero := by decide +kernel
  obtain ⟨⟨err, d'⟩, hdec, hne⟩ := (Option.any_eq_true _ _).mp hfails
  obtain ⟨herr, hd⟩ : err ≠ 0 ∧ d' ≠ .zero := by simpa using hne
  exact hd (h cborReader lawful_cborReader _ _ _ err d' hdec herr)

/-! ## The texts of a message that is accepted -/

section Url

variable {Q : Qcbor} {stack : DecodeStack} {data : List UInt8} {d d' : OtaData}

theorem text_mem_resolve {stores : List OtaStore} {part : UrlPart} {t : List UInt8}
    (h : .text part (some t) ∈ stores) (temp : UInt64) :
    .text part (some t) ∈ resolve stack temp stores := by
  obtain ⟨_, hmem⟩ := exists_mem_resolve stack temp h
  exact hmem _ List.mem_cons_self

/-- A message that is accepted is read to its end. -/
theorem stores_of_accepted (hQ : Q.Lawful) (h : Q.finish (traceData Q data).2 = 0) :
    Q.getError (Q.enterMap (Q.init data)) = 0 ∧
      Q.getError (traceVersion Q (Q.enterMap (Q.init data)) versionPos).2 = 0 ∧
      ∃ stores, (traceData Q data).1
        = (traceVersion Q (Q.enterMap (Q.init data)) versionPos).1 ++
          .text .host (manifestUrl Q data).1 :: .text .file (manifestUrl Q data).2 :: stores := by
  have herr := hQ.finish _ h
  by_cases hmap : Q.getError (Q.enterMap (Q.init data)) = 0
  · by_cases hversion :
        Q.getError (traceVersion Q (Q.enterMap (Q.init data)) versionPos).2 = 0
    · refine ⟨hmap, hversion, ?_⟩
      rw [traceData_of_version hmap hversion, manifestUrl_eq] at *
      generalize (traceVersion Q (Q.enterMap (Q.init data)) versionPos).2 = dc at *
      by_cases hhost : Q.getError (Q.getTextStringInMapN dc UrlPart.host.pos).2 = 0
      · rw [traceText_of_no_error hhost] at herr ⊢
        by_cases hfile : Q.getError (Q.getTextStringInMapN
            (Q.getTextStringInMapN dc UrlPart.host.pos).2 UrlPart.file.pos).2 = 0
        · rw [traceText_of_no_error hfile]
          exact ⟨_, rfl⟩
        · rw [traceText_of_error hfile] at herr
          exact absurd herr hfile
      · rw [traceText_of_error hhost] at herr
        exact absurd herr hhost
    · rw [traceData_of_no_version hmap hversion] at herr
      exact absurd herr hversion
  · rw [traceData_of_no_map hmap] at herr
    exact absurd herr hmap

/-- A text that is written lies at the front of its field… -/
theorem prefix_of_run {part : UrlPart} {t : List UInt8}
    (hrun : (otaWrites Q stack data).foldlM OtaWrite.write d = some d')
    (hmem : .text part (some t) ∈ otaWrites Q stack data) : t <+: (d'.text part).cells := by
  obtain ⟨u, hu, hfront⟩ :=
    OtaWrite.writing.holds_of_foldlM (nodup_otaWrites Q stack data) hrun hmem
  obtain rfl := Option.some.inj hu
  exact hfront

/-- …and the byte behind it is the one that was there before. -/
theorem getElem_of_run {part : UrlPart} {t : List UInt8}
    (hrun : (otaWrites Q stack data).foldlM OtaWrite.write d = some d')
    (hmem : .text part (some t) ∈ otaWrites Q stack data) :
    (d'.text part).cells[t.length]? = (d.text part).cells[t.length]? := by
  refine foldlM_frame (f := fun d : OtaData => (d.text part).cells[t.length]?) ?_ hrun
  intro w hw s s' hwrite
  cases w with
  | number byte value =>
    obtain rfl := Option.some.inj hwrite
    cases part <;> rfl
  | force value =>
    obtain rfl := Option.some.inj hwrite
    cases part <;> rfl
  | text other bytes =>
    obtain ⟨u, area, rfl, harea, rfl⟩ := OtaWrite.cells_of_write hwrite
    by_cases hpart : other = part
    · -- no other text is written there
      have heq := List.inj_on_of_nodup_map (nodup_otaWrites Q stack data) hw hmem
        (congrArg OtaPlace.text hpart)
      obtain ⟨rfl, hu⟩ := OtaWrite.text.inj heq
      obtain rfl := Option.some.inj hu
      have hdrop := congrArg List.head? (Area.drop_of_copyIn harea)
      rw [Nat.zero_add, List.head?_drop, List.head?_drop] at hdrop
      rw [OtaData.text_setText, hdrop]
    · rw [s.text_setText_of_ne area (Ne.symm hpart)]

/-- A short text that lies at the front of its field is the string there iff a zero follows it. -/
theorem ofBytes_field_iff {s : CString} {field : Area UInt8 128} (rest : List UInt8)
    (h : s.bytes <+: field.cells) (hlen : s.length ≤ 127) :
    (0 ∈ field.cells ++ rest ∧ CString.ofBytes (field.cells ++ rest) = s) ↔
      field.cells[s.length]? = some 0 := by
  have hlt : s.length < field.cells.length := by
    rw [field.length_cells]
    omega
  rw [CString.ofBytes_eq_iff (h.trans (List.prefix_append _ _)), List.getElem?_append_left hlt]

/-- Of a message that is accepted both texts are written. -/
theorem texts_of_accepted {host file : CString} (hQ : Q.Lawful)
    (h : decodeOtaData Q stack data d = some (0, d'))
    (hurl : manifestUrl Q data = urlTexts (host, file)) :
    .text .host (some host.bytes) ∈ otaWrites Q stack data ∧
      .text .file (some file.bytes) ∈ otaWrites Q stack data := by
  obtain ⟨-, -, stores, hstores⟩ := stores_of_accepted hQ (run_of_decode h).2
  rw [hurl] at hstores
  exact ⟨text_mem_resolve (by simp [hstores, urlTexts]) stack.temp,
    text_mem_resolve (by simp [hstores, urlTexts]) stack.temp⟩

/-- **The C strings are those of the message iff the bytes behind its texts were zero before.** -/
theorem url_iff {host file : CString} (hQ : Q.Lawful)
    (h : decodeOtaData Q stack data d = some (0, d'))
    (hurl : manifestUrl Q data = urlTexts (host, file)) (hhost : host.length ≤ 127)
    (hfile : file.length ≤ 127) : d'.url = some (host, file) ↔
      d.host.cells[host.length]? = some 0 ∧ d.file.cells[file.length]? = some 0 := by
  obtain ⟨hrun, -⟩ := run_of_decode h
  obtain ⟨hhostMem, hfileMem⟩ := texts_of_accepted hQ h hurl
  have hhostPrefix : host.bytes <+: d'.host.cells := prefix_of_run hrun hhostMem
  have hfilePrefix : file.bytes <+: d'.file.cells := prefix_of_run hrun hfileMem
  have hhostByte : d'.host.cells[host.length]? = d.host.cells[host.length]? :=
    getElem_of_run hrun hhostMem
  have hfileByte : d'.file.cells[file.length]? = d.file.cells[file.length]? :=
    getElem_of_run hrun hfileMem
  rw [OtaData.url_eq_some_iff, ← CString.ofBytes_eq_iff_prefix, ← CString.ofBytes_eq_iff_prefix,
    ← hhostByte, ← hfileByte]
  exact and_congr (ofBytes_field_iff _ hhostPrefix hhost) (ofBytes_field_iff _ hfilePrefix hfile)

end Url

/-- The first manifest is read right. -/
theorem url_iff_first : ∃ d', decodeOtaData cborReader ⟨0, none, none⟩ (manifestBytes 1 [97] [102])
    .zero = some (0, d') ∧ d'.url = some (CString.ofBytes [97], CString.ofBytes [102]) := by
  have hdec : (decodeOtaData cborReader ⟨0, none, none⟩ (manifestBytes 1 [97] [102])
      .zero).any fun r => r.1 = 0 := by decide +kernel
  obtain ⟨⟨err, d'⟩, hdec, herr⟩ := (Option.any_eq_true _ _).mp hdec
  obtain rfl : err = 0 := by simpa using herr
  have hurl : manifestUrl cborReader (manifestBytes 1 [97] [102])
      = urlTexts (CString.ofBytes [97], CString.ofBytes [102]) := by decide +kernel
  have hhost : (CString.ofBytes [97]).length ≤ 127 := by decide
  have hfile : (CString.ofBytes [102]).length ≤ 127 := by decide
  exact ⟨d', hdec, (url_iff lawful_cborReader hdec hurl hhost hfile).mpr (by decide)⟩

/-- A shorter host after a longer one keeps the end of that. -/
theorem not_url_shorterHost : ¬ ∀ (Q : Qcbor) (stack : DecodeStack) (data : List UInt8)
    (d d' : OtaData) (host file : CString), Q.Lawful →
    decodeOtaData Q stack data d = some (0, d') → manifestUrl Q data = urlTexts (host, file) →
    host.length ≤ 127 → file.length ≤ 127 → d'.url = some (host, file) := by
  intro h
  have hdec : (decodeOtaData cborReader ⟨0, none, none⟩ (manifestBytes 1 [97, 98] [102])
      .zero).any fun r => (decodeOtaData cborReader ⟨0, none, none⟩ (manifestBytes 1 [97] [102])
        r.2).any fun r' => r'.1 = 0 ∧
          r'.2.url ≠ some (CString.ofBytes [97], CString.ofBytes [102]) := by decide +kernel
  obtain ⟨⟨err, d⟩, -, hany⟩ := (Option.any_eq_true _ _).mp hdec
  obtain ⟨⟨err', d'⟩, hdec', hboth⟩ := (Option.any_eq_true _ _).mp hany
  obtain ⟨rfl, hne⟩ : err' = 0 ∧ d'.url ≠ some (CString.ofBytes [97], CString.ofBytes [102]) := by
    simpa using hboth
  exact hne (h cborReader _ _ d d' _ _ lawful_cborReader hdec' (by decide +kernel) (by decide)
    (by decide))

end Pyrinas
