import Mathlib.Data.List.ReduceOption
import Pyrinas.Cloud.Cbor
import Pyrinas.Cloud.Registry

/-!
# Cloud/Callbacks — when a message reaches the callback of its topic

`publish_evt_handler` compares an incoming topic twice: with `ota_sub_topic` as far as that goes,
and with each `full_topic` as far as the incoming topic goes.  So a longer incoming topic passes for
the OTA topic, and a longer subscription in an earlier slot takes the message of a shorter one.

    incoming  …/app/sub/ab       slots  [ …/app/sub/abc , …/app/sub/ab ]   calls the first
-/

open Machinery

namespace Pyrinas

/-- A call into the application: the callback, the entry's topic and the message. -/
structure CallbackCall where
  cb : ℕ
  topic : List UInt8
  data : List UInt8
  deriving DecidableEq

/-- What becomes of a message: it is decoded as a manifest, or callbacks are called. -/
inductive Reception
  | ota (data : List UInt8)
  | application (calls : List CallbackCall)
  deriving DecidableEq

/-- The call for an entry. -/
def CbEntry.call (e : CbEntry) (data : List UInt8) : CallbackCall :=
  ⟨e.cb, (List.range e.topicLen).map e.topic, data⟩

/-- The loop of `publish_evt_handler` over the remaining slots; `none` where it reads memory that
was freed. -/
def Registry.callFrom (r : Registry) (topic data : List UInt8) :
    List (Option ℕ) → Option (List CallbackCall)
  | [] => some []
  | none :: slots => r.callFrom topic data slots
  | some p :: slots =>
    match r.heap p with
    | none => none
    | some e =>
      if sameUpTo topic.length e.fullTopic topic then some [e.call data]
      else r.callFrom topic data slots

/-- `publish_evt_handler`, for a topic with other bytes of the receive buffer behind it. -/
def publishEvtHandler (B : CloudBuild) (r : Registry) (topic behind data : List UInt8) :
    Option Reception :=
  if sameUpTo B.otaSubTopic.length B.otaSubTopic (topic ++ behind) then some (.ota data)
  else (r.callFrom topic data r.callbacks).map .application

/-! ## What should become of it -/

/-- A message on the OTA topic is a manifest; any other is for the subscription of its topic, once,
and for no other. -/
def Reception.Right (B : CloudBuild) (books : Books) (topic data : List UInt8)
    (reception : Reception) : Prop :=
  (reception = .ota data ↔ topic = B.otaSubTopic) ∧
    (topic ≠ B.otaSubTopic → ∃ calls, reception = .application calls ∧
      (∀ sub, some sub ∈ books → applicationSubTopic B.imei sub.topic = topic →
        calls = [⟨sub.cb, sub.topic.bytes, data⟩]) ∧
      ((∀ sub, some sub ∈ books → applicationSubTopic B.imei sub.topic ≠ topic) → calls = []))

/-- A full topic begins with the incoming one, or the incoming one goes on behind a zero. -/
def Begins (topic full : List UInt8) : Prop := topic <+: full ∨ full ++ [0] <+: topic

instance (topic full : List UInt8) : Decidable (Begins topic full) :=
  inferInstanceAs (Decidable (_ ∨ _))

/-- What lies at the incoming topic begins with `ota_sub_topic` only if it is that, and the first
slot whose full topic begins with another one holds just that. -/
def OnlyExact (B : CloudBuild) (books : Books) (topic behind : List UInt8) : Prop :=
  topic = B.otaSubTopic ∨ (¬ B.otaSubTopic <+: topic ++ behind ∧
    ∀ sub, books.reduceOption.find?
        (fun sub => Begins topic (applicationSubTopic B.imei sub.topic)) = some sub →
      applicationSubTopic B.imei sub.topic = topic)

/-! ## What the handler does -/

variable {B : CloudBuild} {r : Registry} {books : Books} {topic behind data : List UInt8}

theorem zero_notMem_otaSubTopic : 0 ∉ B.otaSubTopic := by
  simp only [CloudBuild.otaSubTopic, CloudBuild.topic, List.mem_append, not_or]
  exact ⟨CString.noNul _, CString.noNul _⟩

theorem zero_notMem_applicationSubTopic (imei : List UInt8) (topic : CString) :
    0 ∉ applicationSubTopic imei topic := by
  simp only [applicationSubTopic, List.mem_append, not_or]
  exact ⟨⟨CString.noNul _, CString.noNul _⟩, topic.noNul⟩

theorem applicationSubTopic_injective (imei : List UInt8) :
    Function.Injective (applicationSubTopic imei) := by
  intro topic topic' h
  exact CString.ext_bytes (List.append_cancel_left h)

/-- **The loop calls the first subscription whose full topic begins with the incoming one.** -/
theorem callFrom_eq {slots : List (Option ℕ)}
    (h : List.Forall₂ (Option.Rel fun p sub => ∃ e, r.heap p = some e ∧
      Ledger.Holds B.imei e sub) slots books) :
    r.callFrom topic data slots = some ((books.reduceOption.find?
      fun sub => Begins topic (applicationSubTopic B.imei sub.topic)).map
        fun sub => ⟨sub.cb, sub.topic.bytes, data⟩).toList := by
  induction h with
  | nil => rfl
  | cons ho h ih =>
    cases ho with
    | none => simpa [Registry.callFrom] using ih
    | @some p sub hp =>
      obtain ⟨e, he, hcb, hfull, -, htopic⟩ := hp
      have hzero := zero_notMem_applicationSubTopic B.imei sub.topic
      have hbegins : sameUpTo topic.length e.fullTopic topic
          ↔ Begins topic (applicationSubTopic B.imei sub.topic) := by
        rw [hfull]
        exact sameUpTo_length_right hzero topic
      have hcall : e.call data = ⟨sub.cb, sub.topic.bytes, data⟩ := by
        rw [CbEntry.call, hcb, htopic]
      rw [Registry.callFrom, he, List.reduceOption_cons_of_some, List.find?_cons]
      by_cases hb : Begins topic (applicationSubTopic B.imei sub.topic)
      · simp [hbegins.mpr hb, hb, hcall]
      · simpa [hbegins, hb] using ih

/-- **The handler takes a message for a manifest** when what lies at its topic begins with
`ota_sub_topic`, and otherwise looks among the subscriptions. -/
theorem publishEvtHandler_eq (h : Ledger.Represents B.imei r books) :
    publishEvtHandler B r topic behind data = some (
      if B.otaSubTopic <+: topic ++ behind then .ota data
      else .application ((books.reduceOption.find?
        fun sub => Begins topic (applicationSubTopic B.imei sub.topic)).map
          fun sub => ⟨sub.cb, sub.topic.bytes, data⟩).toList) := by
  have hota := sameUpTo_length_left (zero_notMem_otaSubTopic (B := B)) (topic ++ behind)
  rw [publishEvtHandler, callFrom_eq h]
  by_cases hb : B.otaSubTopic <+: topic ++ behind
  · rw [if_pos (hota.mpr hb), if_pos hb]
  · rw [if_neg (hota.not.mpr hb), if_neg hb, Option.map_some]

/-- It is the manifest of the client's own step. -/
theorem publishEvt_eq_handler (s : Cloud) (readErr : ℤ) (stack : DecodeStack) (rand : UInt32) :
    s.publishEvt B (topic ++ behind) data readErr stack rand
      = if 0 ≤ Cloud.publishGetPayload B data readErr ∧
          publishEvtHandler B r topic behind data = some (.ota data) then
        s.otaMessage B data stack rand
      else s := by
  have hota := sameUpTo_length_left (zero_notMem_otaSubTopic (B := B)) (topic ++ behind)
  have hhandler : publishEvtHandler B r topic behind data = some (.ota data)
      ↔ B.otaSubTopic <+: topic ++ behind := by
    rw [publishEvtHandler]
    split_ifs with hs
    · simpa using hota.mp hs
    · simpa using hota.not.mp hs
  simp only [Cloud.publishEvt, hhandler]

/-! ## The exact condition -/

/-- A subscription is found among the slots. -/
theorem mem_of_find {p : Subscription → Bool} {sub : Subscription}
    (h : books.reduceOption.find? p = some sub) : some sub ∈ books :=
  List.reduceOption_mem_iff.mp (List.mem_of_find?_eq_some h)

/-- Distinct topics have distinct subscriptions. -/
theorem eq_of_topic_eq (hdistinct : (books.reduceOption.map Subscription.topic).Nodup)
    {sub sub' : Subscription} (h : some sub ∈ books) (h' : some sub' ∈ books)
    (heq : sub.topic = sub'.topic) : sub = sub' :=
  List.inj_on_of_nodup_map hdistinct (List.reduceOption_mem_iff.mpr h)
    (List.reduceOption_mem_iff.mpr h') heq

/-- The subscription of a topic begins with it. -/
theorem begins_of_eq {full : List UInt8} (h : full = topic) : Begins topic full :=
  .inl (h ▸ List.prefix_rfl)

/-- **The first subscription is called rightly exactly when its topic is the incoming one.** -/
theorem calls_right_iff (hdistinct : (books.reduceOption.map Subscription.topic).Nodup)
    (topic data : List UInt8) {found : Option Subscription}
    (hfound : books.reduceOption.find?
      (fun sub => Begins topic (applicationSubTopic B.imei sub.topic)) = found) :
    ((∀ sub, some sub ∈ books → applicationSubTopic B.imei sub.topic = topic →
          (found.map fun sub => CallbackCall.mk sub.cb sub.topic.bytes data).toList
            = [⟨sub.cb, sub.topic.bytes, data⟩]) ∧
        ((∀ sub, some sub ∈ books → applicationSubTopic B.imei sub.topic ≠ topic) →
          (found.map fun sub => CallbackCall.mk sub.cb sub.topic.bytes data).toList = []))
      ↔ ∀ sub, found = some sub → applicationSubTopic B.imei sub.topic = topic := by
  cases found with
  | none =>
    have hnone : ∀ sub, some sub ∈ books → applicationSubTopic B.imei sub.topic ≠ topic := by
      intro sub hsub heq
      have hno := List.find?_eq_none.mp hfound sub (List.reduceOption_mem_iff.mpr hsub)
      exact hno (decide_eq_true (begins_of_eq heq))
    simpa using fun sub hsub heq => hnone sub hsub heq
  | some first =>
    have hfirst := mem_of_find hfound
    constructor
    · rintro ⟨hexact, hnone⟩ sub heq
      obtain rfl := Option.some.inj heq
      by_contra hne
      by_cases hother : ∃ sub, some sub ∈ books ∧ applicationSubTopic B.imei sub.topic = topic
      · -- another subscription has the topic, but the first one is called
        obtain ⟨sub, hsub, hsubtopic⟩ := hother
        have hcall := hexact sub hsub hsubtopic
        simp only [Option.map_some, Option.toList_some, List.cons.injEq, CallbackCall.mk.injEq,
          and_true] at hcall
        rw [← hsubtopic, CString.ext_bytes hcall.2] at hne
        exact hne rfl
      · have hcalls := hnone fun sub hsub heq => hother ⟨sub, hsub, heq⟩
        simp at hcalls
    · intro hall
      have htopic := hall first rfl
      refine ⟨fun sub hsub heq => ?_, fun hnone => absurd htopic (hnone first hfirst)⟩
      have hsame := applicationSubTopic_injective B.imei (heq.trans htopic.symm)
      rw [eq_of_topic_eq hdistinct hsub hfirst hsame]
      rfl

/-- **A message reaches the callback of its topic, and no other, exactly when no topic that is only
longer is found first.** -/
theorem right_iff_onlyExact (h : Ledger.Represents B.imei r books)
    (hdistinct : (books.reduceOption.map Subscription.topic).Nodup)
    (topic behind data : List UInt8) :
    (∃ reception, publishEvtHandler B r topic behind data = some reception ∧
        reception.Right B books topic data) ↔ OnlyExact B books topic behind := by
  rw [publishEvtHandler_eq h]
  simp only [Option.some.injEq, exists_eq_left', Reception.Right, OnlyExact]
  by_cases htopic : topic = B.otaSubTopic
  · simp [htopic]
  · by_cases hb : B.otaSubTopic <+: topic ++ behind
    · simp [hb, htopic]
    · have hcalls := calls_right_iff (B := B) hdistinct topic data rfl
      simp only [hb, htopic, if_false, Reception.application.injEq, reduceCtorEq, exists_eq_left',
        ne_eq, not_false_eq_true, forall_const, true_and, false_or]
      exact hcalls

/-! ## A longer topic in an earlier slot -/

/-- The application subscribes to `ab` and then to `a`. -/
def sampleSubscriptions : Books :=
  [some ⟨CString.ofString "ab", 1⟩, some ⟨CString.ofString "a", 2⟩]

/-- Their entries, in memory that was zero. -/
def sampleRegistry : Registry where
  callbacks := [some 0, some 1]
  heap
    | 0 => some (Registry.newEntry [] (CString.ofString "ab") 1 fun _ => 0)
    | 1 => some (Registry.newEntry [] (CString.ofString "a") 2 fun _ => 0)
    | _ => none

theorem represents_sample : Ledger.Represents sampleBuild.imei sampleRegistry sampleSubscriptions :=
  .cons (.some ⟨_, rfl, Ledger.holds_newEntry _ _ _⟩)
    (.cons (.some ⟨_, rfl, Ledger.holds_newEntry _ _ _⟩) .nil)

/-- A message for `ab` reaches its callback. -/
theorem right_iff_onlyExact_longer : ∃ reception,
    publishEvtHandler sampleBuild sampleRegistry (applicationSubTopic [] (CString.ofString "ab")) []
      [7] = some reception ∧ reception.Right sampleBuild sampleSubscriptions
        (applicationSubTopic [] (CString.ofString "ab")) [7] := by
  refine (right_iff_onlyExact represents_sample (by decide) _ _ _).mpr (.inr ⟨by decide, ?_⟩)
  intro sub hsub
  obtain rfl := Option.some.inj hsub
  rfl

/-- A message for `a` reaches the callback of `ab`. -/
theorem not_right_shorter : ¬ ∀ (r : Registry) (books : Books),
    Ledger.Represents sampleBuild.imei r books →
    (books.reduceOption.map Subscription.topic).Nodup → ∀ topic behind data : List UInt8,
    ∃ reception, publishEvtHandler sampleBuild r topic behind data = some reception ∧
      reception.Right sampleBuild books topic data := by
  intro h
  obtain ⟨reception, hreception, -, hright⟩ := h _ _ represents_sample (by decide)
    (applicationSubTopic [] (CString.ofString "a")) [] [7]
  obtain ⟨calls, rfl, hexact, -⟩ := hright (by decide)
  have hcalls := hexact ⟨CString.ofString "a", 2⟩ (by simp [sampleSubscriptions]) rfl
  subst hcalls
  exact absurd hreception (by decide)

end Pyrinas
