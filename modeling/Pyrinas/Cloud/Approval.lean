import Pyrinas.Cloud.Decoded

/-!
# Cloud/Approval — when the image downloaded is the image that was approved

A manifest is approved when it decodes and `ver_comp` calls it newer; the download starts five
seconds later, from the C strings in `ota_data`.  Until then every further OTA message is decoded
into the same `ota_data` before it is judged, and no text gets a terminator.

    approve A ──▸ fota_work pending ── (no update) B ──▸ download B
-/

open Machinery

namespace Pyrinas

/-- The urls of the manifests that have been approved, and the C strings in `ota_data` when the last
of them was. -/
structure Approved where
  urls : List ManifestUrl
  standing : Option (CString × CString)

/-- A download of one of the approved manifests, as it was when the last one was approved. -/
structure Approved.Allows (a : Approved) (url : CString × CString) : Prop where
  ofOne : urlTexts url ∈ a.urls
  unchanged : a.standing = some url

/-- The client, what is approved, and for each download what was approved when it started. -/
structure Approval where
  cloud : Cloud
  approved : Approved
  due : List Approved

namespace Approval

variable (B : CloudBuild)

/-- At boot nothing is approved. -/
def start : Approval := ⟨.boot, ⟨[], none⟩, []⟩

/-- The url of the manifest an event brings, if it is approved. -/
def approves (s : Cloud) (e : CloudEvent) : Option ManifestUrl := do
  let (data, stack, _) ← s.otaDelivery B e
  let (err, d) ← decodeOtaData B.qcbor stack data s.otaData
  if Cloud.isNewer B err d then some (manifestUrl B.qcbor data) else none

/-- One event. -/
def step (x : Approval) (e : CloudEvent) : Approval where
  cloud := x.cloud.step B e
  approved :=
    match approves B x.cloud e with
    | some url => ⟨x.approved.urls ++ [url], (x.cloud.step B e).otaData.url⟩
    | none => x.approved
  due := if x.cloud.downloads.length < (x.cloud.step B e).downloads.length
    then x.due ++ [x.approved] else x.due

/-- Every download was of one approved manifest and not changed by any other message, and no memory
was accessed out of bounds. -/
def DownloadsApproved (x : Approval) : Prop :=
  x.cloud.status ≠ .faulted ∧ List.Forall₂ Approved.Allows x.due x.cloud.downloads

/-- The texts that an OTA message stores can be read and fit.  With them over the texts that are
there, `host` and `file` read as the url of an approved manifest, if this one is approved; and as
before, if it is not while `fota_work` is pending. -/
def KeepsUrl (x : Approval) (e : CloudEvent) : Prop :=
  ∀ data stack rand, x.cloud.otaDelivery B e = some (data, stack, rand) →
    (∀ w ∈ otaWrites B.qcbor stack data, w.CanWrite) ∧
    (∀ approved, approves B x.cloud e = some approved →
      ∃ url, urlTexts url ∈ x.approved.urls ++ [approved] ∧
        x.cloud.otaData.ReadsAs (otaWrites B.qcbor stack data) url) ∧
    (approves B x.cloud e = none → x.cloud.fotaWork →
      ∀ url, x.cloud.otaData.url = some url →
        x.cloud.otaData.ReadsAs (otaWrites B.qcbor stack data) url)

/-! ## The invariant -/

/-- The downloads were approved, and a pending one is of what is approved. -/
structure Sound (x : Approval) : Prop where
  downloads : DownloadsApproved x
  pending : x.cloud.fotaWork → ∃ url, x.cloud.otaData.url = some url ∧ x.approved.Allows url

theorem sound_start : Sound start := ⟨⟨by decide, .nil⟩, by simp [start, Cloud.boot]⟩

variable {B}

/-- Only an OTA message approves anything. -/
theorem approves_of_otaDelivery {s : Cloud} {e : CloudEvent} (h : s.otaDelivery B e = none) :
    approves B s e = none := by
  simp [approves, h]

/-- What an OTA message approves. -/
theorem approves_of_decode {s : Cloud} {e : CloudEvent} {data : List UInt8} {stack : DecodeStack}
    {rand : UInt32} {err : ℕ} {d : OtaData} (h : s.otaDelivery B e = some (data, stack, rand))
    (hd : decodeOtaData B.qcbor stack data s.otaData = some (err, d)) :
    approves B s e
      = if Cloud.isNewer B err d then some (manifestUrl B.qcbor data) else none := by
  simp only [approves, h, hd, Option.bind_eq_bind, Option.bind_some]

theorem approved_of_some {x : Approval} {e : CloudEvent} {url : ManifestUrl}
    (h : approves B x.cloud e = some url) :
    (x.step B e).approved = ⟨x.approved.urls ++ [url], (x.cloud.step B e).otaData.url⟩ := by
  simp only [step, h]

theorem approved_of_none {x : Approval} {e : CloudEvent} (h : approves B x.cloud e = none) :
    (x.step B e).approved = x.approved := by
  simp only [step, h]

/-- Without a download nothing is added. -/
theorem due_of_downloads {x : Approval} {e : CloudEvent}
    (h : (x.cloud.step B e).downloads = x.cloud.downloads) : (x.step B e).due = x.due := by
  simp [step, h]

/-- With one, what is approved is due. -/
theorem due_of_download {x : Approval} {e : CloudEvent} {url : CString × CString}
    (h : (x.cloud.step B e).downloads = x.cloud.downloads ++ [url]) :
    (x.step B e).due = x.due ++ [x.approved] := by
  simp [step, h]

theorem forall₂_concat_iff {α β : Type*} {R : α → β → Prop} {as : List α} {bs : List β} {a : α}
    {b : β} : List.Forall₂ R (as ++ [a]) (bs ++ [b]) ↔ List.Forall₂ R as bs ∧ R a b := by
  rw [← List.forall₂_reverse_iff]
  simp [and_comm]

/-- **What is approved is downloaded**: `fota_work` starts one download, of what is due. -/
theorem sound_fotaWork {x : Approval} (h : Sound x) (start : CString → CString → ℤ) :
    Sound (x.step B (.fotaWork start)) := by
  have happ : (x.step B (.fotaWork start)).approved = x.approved :=
    approved_of_none (approves_of_otaDelivery rfl)
  by_cases hgo : x.cloud.status = .running ∧ x.cloud.fotaWork
  · obtain ⟨hrun, hw⟩ := hgo
    obtain ⟨url, hurl, hallows⟩ := h.pending hw
    obtain ⟨-, hdone, hdl, hst⟩ := Cloud.step_fotaWork (B := B) hrun hw hurl start
    refine ⟨⟨hst, ?_⟩, ?_⟩
    · change List.Forall₂ Approved.Allows _ (x.cloud.step B (.fotaWork start)).downloads
      rw [due_of_download hdl, hdl]
      exact forall₂_concat_iff.mpr ⟨h.downloads.2, hallows⟩
    · intro hw'
      change (x.cloud.step B (.fotaWork start)).fotaWork = true at hw'
      simp [hdone] at hw'
  · have hstep := Cloud.step_fotaWork_idle (B := B) hgo start
    have hdue : (x.step B (.fotaWork start)).due = x.due := due_of_downloads (by rw [hstep])
    have hx : x.step B (.fotaWork start) = x := by
      cases x
      simp only [step, mk.injEq] at hstep happ hdue ⊢
      exact ⟨hstep, happ, hdue⟩
    rwa [hx]

theorem sound_step (x : Approval) (e : CloudEvent) (h : Sound x) (hok : KeepsUrl B x e) :
    Sound (x.step B e) := by
  rcases Cloud.event_cases B x.cloud e with ⟨data, stack, rand, hd⟩ | ⟨start, rfl⟩ | hu
  · obtain ⟨hfits, happroved, hother⟩ := hok data stack rand hd
    obtain ⟨⟨err, d⟩, hdec⟩ := exists_decode_iff.mpr hfits
    obtain ⟨hrun, hstep⟩ := Cloud.step_of_otaDelivery hd
    obtain ⟨hdata, hwork, hdl, hst, -⟩ := Cloud.otaMessage_of_decode hdec rand
    rw [← hstep] at hdata hwork hdl hst
    have happ := approves_of_decode hd hdec
    refine ⟨⟨?_, ?_⟩, ?_⟩
    · intro hf
      exact h.downloads.1 (hst.symm.trans hf)
    · change List.Forall₂ Approved.Allows _ (x.cloud.step B e).downloads
      rw [due_of_downloads hdl, hdl]
      exact h.downloads.2
    · intro hw
      change (x.cloud.step B e).fotaWork = true at hw
      change ∃ url, (x.cloud.step B e).otaData.url = some url ∧ _
      rw [hdata]
      cases hnew : Cloud.isNewer B err d with
      | true =>
        rw [hnew, if_pos rfl] at happ
        obtain ⟨url, hmem, hreads⟩ := happroved _ happ
        have hurl := (url_of_decode hdec url).mpr hreads
        refine ⟨url, hurl, ?_⟩
        rw [approved_of_some happ]
        exact ⟨hmem, (congrArg OtaData.url hdata).trans hurl⟩
      | false =>
        rw [hnew, if_neg Bool.false_ne_true] at happ
        have hw' : x.cloud.fotaWork := by simpa [hwork, hnew] using hw
        obtain ⟨url, hurl, hallows⟩ := h.pending hw'
        refine ⟨url, (url_of_decode hdec url).mpr (hother happ hw' url hurl), ?_⟩
        rwa [approved_of_none happ]
  · exact sound_fotaWork h start
  · obtain ⟨hdata, hwork, hdl, -, hst, -⟩ := Cloud.step_unrelated hu
    refine ⟨⟨fun hfault => h.downloads.1 (hst hfault), ?_⟩, ?_⟩
    · change List.Forall₂ Approved.Allows _ (x.cloud.step B e).downloads
      rw [due_of_downloads hdl, hdl]
      exact h.downloads.2
    · intro hw
      change ∃ url, (x.cloud.step B e).otaData.url = some url ∧ _
      rw [hdata, approved_of_none (approves_of_otaDelivery hu.1)]
      exact h.pending (hwork.symm.trans hw)

/-! ## The exact condition -/

/-- **A manifest that is approved keeps the url** if its texts fit and the bytes of `ota_data`
behind them are zero. -/
theorem keepsUrl_of_zeros (hQ : B.qcbor.Lawful) {x : Approval} {e : CloudEvent} {data : List UInt8}
    {stack : DecodeStack} {rand : UInt32} {url : CString × CString}
    (hd : x.cloud.otaDelivery B e = some (data, stack, rand)) (happ : approves B x.cloud e ≠ none)
    (hanswered : Answered B.qcbor data) (hurl : manifestUrl B.qcbor data = urlTexts url)
    (hhost : x.cloud.otaData.host.cells[url.1.length]? = some 0)
    (hfile : x.cloud.otaData.file.cells[url.2.length]? = some 0) : KeepsUrl B x e := by
  intro data' stack' rand' hd'
  obtain ⟨rfl, rfl, rfl⟩ : data' = data ∧ stack' = stack ∧ rand' = rand := by
    simpa using hd'.symm.trans hd
  obtain ⟨⟨err, d⟩, hdec⟩ :=
    decodeOtaData_of_safe ((memorySafe_iff hQ data').mpr hanswered) x.cloud.otaData
  have happroves := approves_of_decode hd (hdec stack')
  have hnew : Cloud.isNewer B err d = true := by
    by_contra hold
    rw [if_neg hold] at happroves
    exact happ happroves
  rw [if_pos hnew, hurl] at happroves
  obtain ⟨rfl, -⟩ : err = 0 ∧ _ := by simpa [Cloud.isNewer] using hnew
  obtain ⟨hhostMem, hfileMem⟩ := texts_of_accepted hQ (hdec stack') hurl
  have hplaces := nodup_otaWrites B.qcbor stack' data'
  refine ⟨exists_decode_iff.mp ⟨_, hdec stack'⟩, fun approved heq => ⟨url, ?_, ?_⟩, fun hnone => ?_⟩
  · rw [← Option.some.inj (happroves.symm.trans heq)]
    exact List.mem_append_right _ List.mem_cons_self
  · exact OtaData.readsAs_of_zeros (OtaData.textWritten_of_mem hplaces hhostMem)
      (OtaData.textWritten_of_mem hplaces hfileMem) hhost hfile
  · exact absurd hnone happ

/-- A pending `fota_work` with C strings that are not approved downloads the wrong image. -/
theorem not_always_of_wrong_url {x : Approval} (hrun : x.cloud.status = .running)
    (hw : x.cloud.fotaWork)
    (hbad : ∀ url, x.cloud.otaData.url = some url → ¬ x.approved.Allows url) :
    ¬ Always (step B) DownloadsApproved x [.fotaWork fun _ _ => 0] := by
  intro hall
  obtain ⟨hst, hafter⟩ := hall.last
  cases hurl : x.cloud.otaData.url with
  | none => exact hst (congrArg Cloud.status (Cloud.step_fotaWork_fault (B := B) hrun hw hurl _))
  | some url =>
    obtain ⟨-, -, hdl, -⟩ := Cloud.step_fotaWork (B := B) hrun hw hurl fun _ _ => 0
    rw [run_cons, run_nil, due_of_download hdl] at hafter
    change List.Forall₂ Approved.Allows _ (x.cloud.step B _).downloads at hafter
    rw [hdl, forall₂_concat_iff] at hafter
    exact hbad url hurl hafter.2

/-- **An OTA message that does not keep the url ends in a wrong download.** -/
theorem exists_run_of_not_keepsUrl {x : Approval} {e : CloudEvent} (h : Sound x)
    (hbad : ¬ KeepsUrl B x e) : ∃ rs, Meets (step B) (KeepsUrl B) (x.step B e) rs ∧
      ¬ Always (step B) DownloadsApproved (x.step B e) rs := by
  simp only [KeepsUrl, not_forall] at hbad
  obtain ⟨data, stack, rand, hd, hbad⟩ := hbad
  obtain ⟨hrun, hstep⟩ := Cloud.step_of_otaDelivery hd
  have hwait : Meets (step B) (KeepsUrl B) (x.step B e) [.fotaWork fun _ _ => 0] :=
    meets_cons.mpr ⟨fun _ _ _ h => by simp [Cloud.otaDelivery] at h, meets_nil⟩
  cases hdec : decodeOtaData B.qcbor stack data x.cloud.otaData with
  | none =>
    refine ⟨[], meets_nil, fun hall => hall.head.1 ?_⟩
    change (x.cloud.step B e).status = .faulted
    rw [hstep, Cloud.otaMessage_fault hdec rand]
  | some r =>
    obtain ⟨err, d⟩ := r
    have hfits := exists_decode_iff.mp ⟨_, hdec⟩
    have happ := approves_of_decode hd hdec
    obtain ⟨hdata, hwork, -, hst, -⟩ := Cloud.otaMessage_of_decode hdec rand
    rw [← hstep] at hdata hwork hst
    have hpending : x.cloud.fotaWork ∨ Cloud.isNewer B err d → (x.step B e).cloud.fotaWork := by
      intro hor
      change (x.cloud.step B e).fotaWork = true
      rwa [hwork, Bool.or_eq_true]
    have hurl : ∀ url, (x.step B e).cloud.otaData.url = some url →
        x.cloud.otaData.ReadsAs (otaWrites B.qcbor stack data) url := by
      intro url hsome
      change (x.cloud.step B e).otaData.url = some url at hsome
      rw [hdata] at hsome
      exact (url_of_decode hdec url).mp hsome
    refine ⟨_, hwait, ?_⟩
    cases hnew : Cloud.isNewer B err d with
    | true =>
      -- it is approved, and reads as no approved manifest
      rw [hnew, if_pos rfl] at happ
      refine not_always_of_wrong_url (hst.trans hrun) (hpending (.inr hnew))
        fun url hsome hallows => hbad ⟨hfits, fun approved heq => ?_, fun hnone => ?_⟩
      · obtain rfl := Option.some.inj (happ.symm.trans heq)
        have hmem := hallows.ofOne
        rw [approved_of_some happ] at hmem
        exact ⟨url, hmem, hurl url hsome⟩
      · rw [happ] at hnone
        cases hnone
    | false =>
      -- it is not approved, and `fota_work` was pending already
      rw [hnew, if_neg Bool.false_ne_true] at happ
      have hw : x.cloud.fotaWork := by
        by_contra hidle
        refine hbad ⟨hfits, fun approved heq => ?_, fun _ hw => absurd hw hidle⟩
        rw [happ] at heq
        cases heq
      refine not_always_of_wrong_url (hst.trans hrun) (hpending (.inl hw))
        fun url hsome hallows => hbad ⟨hfits, fun approved heq => ?_, fun _ _ url' hurl' => ?_⟩
      · rw [happ] at heq
        cases heq
      · obtain ⟨before, hbefore, hstood⟩ := h.pending hw
        rw [approved_of_none happ] at hallows
        have hsame : before = url :=
          Option.some.inj (hstood.unchanged.symm.trans hallows.unchanged)
        obtain rfl : url' = url :=
          (Option.some.inj (hurl'.symm.trans hbefore)).trans hsame
        exact hurl url' hsome

/-- **The image downloaded is the image that was approved exactly while every OTA message keeps the
url.** -/
theorem downloadsApproved_iff_keepsUrl (es : List CloudEvent) :
    Robust (step B) (KeepsUrl B) DownloadsApproved start es
      ↔ Meets (step B) (KeepsUrl B) start es :=
  robust_iff_meets (I := Sound) sound_step (fun _ h => h.downloads)
    (fun _ _ h hbad => exists_run_of_not_keepsUrl h hbad) sound_start es

/-- Version 2 of `a/f` is approved; version 1 of `b/g` is no update, and is downloaded. -/
theorem not_downloadsApproved_no_update :
    ¬ Always (step sampleBuild) DownloadsApproved start
      [otaMessageOf (manifestBytes 2 [97] [102]), otaMessageOf (manifestBytes 1 [98] [103]),
        .fotaWork fun _ _ => 0] := by
  intro h
  obtain ⟨-, hall⟩ := List.forall₂_iff_zip.mp h.last.2
  generalize hx : run (step sampleBuild) start _ = x at hall
  have hbad : (x.due.zip x.cloud.downloads).any fun p => urlTexts p.2 ∉ p.1.urls := by
    rw [← hx]
    decide +kernel
  obtain ⟨p, hp, hnone⟩ := List.any_eq_true.mp hbad
  exact of_decide_eq_true hnone (hall hp).ofOne

end Approval

end Pyrinas
