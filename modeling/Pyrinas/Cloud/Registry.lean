import Pyrinas.Errno
import Pyrinas.Machinery.CString
import Pyrinas.Machinery.Run
import Pyrinas.Machinery.Slots

/-!
# Cloud/Registry — the application subscriptions: when the registry keeps its books

`callbacks` holds pointers to entries from the heap.  `pyrinas_cloud_subscribe` allocates an entry
into the first `NULL` slot; `pyrinas_cloud_unsubscribe` looks for an entry whose stored bytes spell
the topic, and frees it, but leaves the pointer where it is.  Next to the code run its *books*: a
table of subscriptions that is only put into and cleared.

    callbacks   [ ──▸e₀ , NULL , ──▸e₂ ]        books   [ some s₀ , none , some s₂ ]
-/

open Machinery

namespace Pyrinas

/-- The `Kconfig` numbers of the registry. -/
structure RegistryKconfig where
  applicationCallbackMaxCount : ℕ
  applicationEventNameMaxSize : ℕ

/-- The defaults of `Kconfig`. -/
def RegistryKconfig.default : RegistryKconfig := ⟨10, 16⟩

/-- `IMEI_LEN` -/
def imeiLen : ℕ := 15

/-- `CONFIG_PYRINAS_CLOUD_MQTT_APPLICATION_SUB_TOPIC`, printed: `"%.*s/app/sub/%.*s"`. -/
def applicationSubTopic (imei : List UInt8) (topic : CString) : List UInt8 :=
  (CString.ofBytes (imei.take imeiLen)).bytes ++ (CString.ofString "/app/sub/").bytes ++ topic.bytes

/-- `pryinas_cloud_application_cb_entry_t`.  `topic` is what a read from the field on finds: the
copied name, and behind it whatever the memory held. -/
structure CbEntry where
  cb : ℕ
  fullTopic : List UInt8
  topic : ℕ → UInt8
  topicLen : ℕ

/-- `callbacks`, and the memory its pointers go to. -/
structure Registry where
  callbacks : List (Option ℕ)
  heap : ℕ → Option CbEntry

/-- A call, with what `k_malloc` will answer: an address and the bytes it holds, or `NULL`. -/
inductive RegistryCall
  | subscribe (topic : CString) (callback : ℕ) (mem : Option (ℕ × (ℕ → UInt8)))
  | unsubscribe (topic : CString)

namespace Registry

/-- `k_malloc` gives out no memory that is in use. -/
def kMalloc (s : Registry) (mem : Option (ℕ × (ℕ → UInt8))) : Option (ℕ × (ℕ → UInt8)) :=
  mem.filter fun m => (s.heap m.1).isNone

/-- The entry as `pyrinas_cloud_subscribe` fills it in: `memcpy` writes no terminator. -/
def newEntry (imei : List UInt8) (topic : CString) (callback : ℕ) (old : ℕ → UInt8) : CbEntry where
  cb := callback
  fullTopic := applicationSubTopic imei topic
  topic := fun i => (topic.bytes[i]?).getD (old i)
  topicLen := topic.length

/-- `pyrinas_cloud_subscribe`; `none` where it writes through the `NULL` it got from `k_malloc`. -/
def subscribe (K : RegistryKconfig) (imei : List UInt8) (s : Registry) (topic : CString)
    (callback : ℕ) (mem : Option (ℕ × (ℕ → UInt8))) : Option (ℤ × Registry) :=
  if topic.length > K.applicationEventNameMaxSize then some (-eInval, s)
  else if none ∈ s.callbacks then
    match s.kMalloc mem with
    | none => none
    | some (p, old) =>
      some (0, {
        callbacks := (putFirst p s.callbacks).getD s.callbacks
        heap := Function.update s.heap p (some (newEntry imei topic callback old)) })
  else some (-eNoMem, s)

/-- The loop of `pyrinas_cloud_unsubscribe` over the remaining slots; `none` where it reads memory
that was freed. -/
def unsubscribeFrom (s : Registry) (topic : CString) : List (Option ℕ) → Option (ℤ × Registry)
  | [] => some (-eNoEnt, s)
  | none :: slots => s.unsubscribeFrom topic slots
  | some p :: slots =>
    match s.heap p with
    | none => none
    | some e =>
      if Spells e.topic topic.bytes then
        some (0, { s with heap := Function.update s.heap p none })
      else s.unsubscribeFrom topic slots

/-- `pyrinas_cloud_unsubscribe` -/
def unsubscribe (s : Registry) (topic : CString) : Option (ℤ × Registry) :=
  s.unsubscribeFrom topic s.callbacks

/-- One call. -/
def call (K : RegistryKconfig) (imei : List UInt8) (s : Registry) :
    RegistryCall → Option (ℤ × Registry)
  | .subscribe topic callback mem => s.subscribe K imei topic callback mem
  | .unsubscribe topic => s.unsubscribe topic

end Registry

/-! ## The books -/

/-- A subscription that was made and not withdrawn. -/
structure Subscription where
  topic : CString
  cb : ℕ

/-- The subscriptions, each in its slot. -/
abbrev Books := List (Option Subscription)

namespace Books

/-- Subscribing needs a topic that is not too long, an empty slot, and memory. -/
def subscribe (K : RegistryKconfig) (b : Books) (topic : CString) (callback : ℕ)
    (allocated : Bool) : ℤ × Books :=
  if topic.length > K.applicationEventNameMaxSize then (-eInval, b)
  else
    match putFirst ⟨topic, callback⟩ b with
    | none => (-eNoMem, b)
    | some b' => if allocated then (0, b') else (-eNoMem, b)

/-- Unsubscribing empties a slot with that topic. -/
def unsubscribe (b : Books) (topic : CString) : ℤ × Books :=
  match clearFirst (fun s : Subscription => s.topic = topic) b with
  | none => (-eNoEnt, b)
  | some b' => (0, b')

/-- A topic that is not in the books is refused. -/
theorem unsubscribe_of_not_mem {b : Books} {topic : CString}
    (h : ∀ sub, some sub ∈ b → sub.topic ≠ topic) : b.unsubscribe topic = (-eNoEnt, b) := by
  have hnone : clearFirst (fun s : Subscription => s.topic = topic) b = none :=
    clearFirst_eq_none_iff.mpr fun sub hsub => by simpa using h sub hsub
  simp [unsubscribe, hnone]

theorem unsubscribe_of_mem {b : Books} {topic : CString}
    (h : ¬ ∀ sub, some sub ∈ b → sub.topic ≠ topic) : (b.unsubscribe topic).1 = 0 := by
  cases hc : clearFirst (fun s : Subscription => s.topic = topic) b with
  | none =>
    refine absurd (fun sub hsub => ?_) h
    simpa using clearFirst_eq_none_iff.mp hc sub hsub
  | some b' => simp [unsubscribe, hc]

end Books

/-! ## Code and books side by side -/

/-- The registry (none once it has used memory that is not its own), its books, and what the last
call answered according to each. -/
structure Ledger where
  reg : Option Registry
  res : ℤ
  books : Books
  booksRes : ℤ

namespace Ledger

variable (K : RegistryKconfig) (imei : List UInt8)

/-- No subscriptions; nothing allocated. -/
def start : Ledger where
  reg := some ⟨List.replicate K.applicationCallbackMaxCount none, fun _ => none⟩
  res := 0
  books := List.replicate K.applicationCallbackMaxCount none
  booksRes := 0

/-- What the books say to a call. -/
def booksCall (s : Ledger) : RegistryCall → ℤ × Books
  | .subscribe topic callback mem =>
    s.books.subscribe K topic callback ((s.reg.bind fun r => r.kMalloc mem).isSome)
  | .unsubscribe topic => s.books.unsubscribe topic

/-- One call. -/
def step (s : Ledger) (c : RegistryCall) : Ledger where
  reg := (s.reg.bind fun r => r.call K imei c).map Prod.snd
  res := ((s.reg.bind fun r => r.call K imei c).map Prod.fst).getD 0
  books := (s.booksCall K c).2
  booksRes := (s.booksCall K c).1

/-- An entry holds a subscription: its callback, its topics, its length. -/
def Holds (e : CbEntry) (sub : Subscription) : Prop :=
  e.cb = sub.cb ∧ e.fullTopic = applicationSubTopic imei sub.topic ∧
    e.topicLen = sub.topic.length ∧ (List.range e.topicLen).map e.topic = sub.topic.bytes

/-- Slot by slot, a pointer goes to live memory that holds the subscription in the books, and a
`NULL` is an empty slot in the books. -/
def Represents (r : Registry) (b : Books) : Prop :=
  List.Forall₂ (Option.Rel fun p sub => ∃ e, r.heap p = some e ∧ Holds imei e sub) r.callbacks b

/-- The registry represents its books, and answered as they did. -/
def KeepsBooks (s : Ledger) : Prop :=
  (∃ r, s.reg = some r ∧ Represents imei r s.books) ∧ s.res = s.booksRes

/-- `k_malloc` succeeds when it is reached, and no topic is unsubscribed that is subscribed, or that
the bytes of an entry happen to spell. -/
def NeverFrees (s : Ledger) : RegistryCall → Prop
  | .subscribe topic _ mem => ∀ r, s.reg = some r →
    topic.length ≤ K.applicationEventNameMaxSize → none ∈ r.callbacks → (r.kMalloc mem).isSome
  | .unsubscribe topic => ∀ r, s.reg = some r → (∀ sub, some sub ∈ s.books → sub.topic ≠ topic) ∧
    ∀ p e, some p ∈ r.callbacks → r.heap p = some e → ¬ Spells e.topic topic.bytes

/-! ## What each call does -/

variable {K imei}

theorem represents_start : Represents imei
    ⟨List.replicate K.applicationCallbackMaxCount none, fun _ => none⟩
    (List.replicate K.applicationCallbackMaxCount none) := by
  induction K.applicationCallbackMaxCount with
  | zero => exact .nil
  | succ n ih => exact .cons .none ih

/-- The books have room when the code has. -/
theorem Represents.none_mem_iff {r : Registry} {b : Books} (h : Represents imei r b) :
    none ∈ r.callbacks ↔ none ∈ b := by
  unfold Represents at h
  generalize r.callbacks = slots at h
  induction h with
  | nil => simp
  | cons ho h ih => cases ho <;> simp [ih]

/-- **What was copied is there**, whatever the memory held. -/
theorem holds_newEntry (topic : CString) (callback : ℕ) (old : ℕ → UInt8) :
    Holds imei (Registry.newEntry imei topic callback old) ⟨topic, callback⟩ := by
  refine ⟨rfl, rfl, rfl, List.ext_getElem (by simp [Registry.newEntry, CString.length]) ?_⟩
  intro i hi hi'
  simp [Registry.newEntry, hi']

/-- New memory is none of that in use: the old slots still represent their subscriptions, and the
new entry its own. -/
theorem Represents.subscribe {r : Registry} {b : Books} (h : Represents imei r b)
    {topic : CString} {callback p : ℕ} (old : ℕ → UInt8) (hp : r.heap p = none) {b' : Books}
    (hb : putFirst ⟨topic, callback⟩ b = some b') :
    Represents imei {
        callbacks := (putFirst p r.callbacks).getD r.callbacks
        heap := Function.update r.heap p (some (Registry.newEntry imei topic callback old)) }
      b' := by
  let heap' := Function.update r.heap p (some (Registry.newEntry imei topic callback old))
  have hold : List.Forall₂ (Option.Rel fun q sub => ∃ e, heap' q = some e ∧ Holds imei e sub)
      r.callbacks b := by
    refine List.Forall₂.imp (fun o o' ho => ?_) h
    cases ho with
    | none => exact .none
    | some hq =>
      obtain ⟨e, he, hsub⟩ := hq
      refine .some ⟨e, ?_, hsub⟩
      rwa [show heap' _ = _ from Function.update_of_ne (fun heq => by simp [heq, hp] at he) _ _]
  have hnew : ∃ e, heap' p = some e ∧ Holds imei e ⟨topic, callback⟩ :=
    ⟨_, Function.update_self _ _ _, holds_newEntry topic callback old⟩
  have hrel := putFirst_rel hnew hold
  rw [hb] at hrel
  cases hput : putFirst p r.callbacks with
  | none => rw [hput] at hrel; cases hrel
  | some slots =>
    rw [hput] at hrel
    cases hrel with
    | some hslots => simpa [Represents, hput] using hslots

/-- **With live pointers only, unsubscribing searches the entries**: it frees the first one whose
bytes spell the topic. -/
theorem unsubscribeFrom_spec {r : Registry} (topic : CString) {slots : List (Option ℕ)}
    (hlive : ∀ p, some p ∈ slots → ∃ e, r.heap p = some e) :
    (r.unsubscribeFrom topic slots = some (-eNoEnt, r) ∧
        ∀ p e, some p ∈ slots → r.heap p = some e → ¬ Spells e.topic topic.bytes) ∨
      ∃ p e, some p ∈ slots ∧ r.heap p = some e ∧ Spells e.topic topic.bytes ∧
        r.unsubscribeFrom topic slots
          = some (0, { r with heap := Function.update r.heap p none }) := by
  induction slots with
  | nil => exact .inl ⟨rfl, by simp⟩
  | cons o slots ih =>
    have ih := ih fun p hp => hlive p (List.mem_cons_of_mem _ hp)
    cases o with
    | none => simpa [Registry.unsubscribeFrom] using ih
    | some p =>
      obtain ⟨e, he⟩ := hlive p List.mem_cons_self
      by_cases hs : Spells e.topic topic.bytes
      · exact .inr ⟨p, e, List.mem_cons_self, he, hs, by simp [Registry.unsubscribeFrom, he, hs]⟩
      · have hstep : r.unsubscribeFrom topic (some p :: slots) = r.unsubscribeFrom topic slots := by
          simp [Registry.unsubscribeFrom, he, hs]
        rw [hstep]
        rcases ih with ⟨hres, hnone⟩ | ⟨q, e', hq, he', hs', hres⟩
        · refine .inl ⟨hres, ?_⟩
          intro q e' hq he'
          rcases List.mem_cons.mp hq with heq | hq
          · obtain rfl := Option.some.inj heq
            obtain rfl := Option.some.inj (he.symm.trans he')
            exact hs
          · exact hnone q e' hq he'
        · exact .inr ⟨q, e', List.mem_cons_of_mem _ hq, he', hs', hres⟩

theorem Represents.live {r : Registry} {b : Books} (h : Represents imei r b) :
    ∀ p, some p ∈ r.callbacks → ∃ e, r.heap p = some e := fun _ hp =>
  let ⟨_, _, e, he, _⟩ := Forall₂.exists_of_mem_left h hp
  ⟨e, he⟩

/-! ## The exact condition -/

/-- A call keeps the books when both answer the same and still correspond. -/
theorem keepsBooks_step (res : ℤ) {s : Ledger} {c : RegistryCall} {r r' : Registry} {b' : Books}
    (hr : s.reg = some r) (hcode : r.call K imei c = some (res, r'))
    (hbooks : s.booksCall K c = (res, b')) (hrep : Represents imei r' b') :
    KeepsBooks imei (s.step K imei c) := by
  refine ⟨⟨r', ?_, ?_⟩, ?_⟩
  · simp [step, hr, hcode]
  · simpa [step, hbooks] using hrep
  · simp [step, hr, hcode, hbooks]

/-- **Subscribing keeps the books as long as memory is given out.** -/
theorem keepsBooks_subscribe {s : Ledger} {r : Registry} (hr : s.reg = some r)
    (h : Represents imei r s.books) {topic : CString} {callback : ℕ}
    {mem : Option (ℕ × (ℕ → UInt8))} (hok : topic.length ≤ K.applicationEventNameMaxSize →
      none ∈ r.callbacks → (r.kMalloc mem).isSome) :
    KeepsBooks imei (s.step K imei (.subscribe topic callback mem)) := by
  by_cases hlong : topic.length > K.applicationEventNameMaxSize
  · have hcode : r.call K imei (.subscribe topic callback mem) = some (-eInval, r) := if_pos hlong
    have hbooks : s.booksCall K (.subscribe topic callback mem) = (-eInval, s.books) := if_pos hlong
    exact keepsBooks_step (-eInval) hr hcode hbooks h
  · by_cases hroom : none ∈ r.callbacks
    · obtain ⟨⟨p, old⟩, hmem⟩ := Option.isSome_iff_exists.mp (hok (not_lt.mp hlong) hroom)
      have hfree : r.heap p = none := by simpa using (Option.filter_eq_some_iff.mp hmem).2
      obtain ⟨b', hb⟩ := Option.isSome_iff_exists.mp
        (isSome_putFirst (a := (⟨topic, callback⟩ : Subscription)).mpr (h.none_mem_iff.mp hroom))
      refine keepsBooks_step 0 hr ?_ ?_ (h.subscribe old hfree hb)
      · simp only [Registry.call, Registry.subscribe, if_neg hlong, if_pos hroom, hmem]
      · simp only [booksCall, Books.subscribe, if_neg hlong, hb, hr, Option.bind_some, hmem,
          Option.isSome_some, if_true]
    · have hfull : putFirst ⟨topic, callback⟩ s.books = none := by
        rw [← Option.not_isSome_iff_eq_none, isSome_putFirst, ← h.none_mem_iff]
        exact hroom
      refine keepsBooks_step (-eNoMem) hr ?_ ?_ h
      · simp only [Registry.call, Registry.subscribe, if_neg hlong, if_neg hroom]
      · simp only [booksCall, Books.subscribe, if_neg hlong, hfull]

/-- A subscription that `k_malloc` refuses writes through `NULL`. -/
theorem not_keepsBooks_subscribe {s : Ledger} {r : Registry} (hr : s.reg = some r)
    {topic : CString} {callback : ℕ} {mem : Option (ℕ × (ℕ → UInt8))}
    (hlong : topic.length ≤ K.applicationEventNameMaxSize) (hroom : none ∈ r.callbacks)
    (hmem : ¬ (r.kMalloc mem).isSome) :
    ¬ KeepsBooks imei (s.step K imei (.subscribe topic callback mem)) := by
  rintro ⟨⟨r', hr', -⟩, -⟩
  simp [step, hr, Registry.call, Registry.subscribe, not_lt.mpr hlong, hroom,
    Option.not_isSome_iff_eq_none.mp hmem] at hr'

/-- Unsubscribing keeps the books as long as it finds nothing. -/
theorem keepsBooks_unsubscribe {s : Ledger} {r : Registry} (hr : s.reg = some r)
    (h : Represents imei r s.books) {topic : CString}
    (hbooks : ∀ sub, some sub ∈ s.books → sub.topic ≠ topic)
    (hcode : ∀ p e, some p ∈ r.callbacks → r.heap p = some e → ¬ Spells e.topic topic.bytes) :
    KeepsBooks imei (s.step K imei (.unsubscribe topic)) := by
  rcases unsubscribeFrom_spec topic h.live with ⟨hres, -⟩ | ⟨p, e, hp, he, hs, -⟩
  · exact keepsBooks_step (-eNoEnt) hr hres (Books.unsubscribe_of_not_mem hbooks) h
  · exact absurd hs (hcode p e hp he)

/-- **An entry that is found is freed, and its slot still points to it.** -/
theorem not_keepsBooks_unsubscribe {s : Ledger} {r : Registry} (hr : s.reg = some r)
    (h : Represents imei r s.books) {topic : CString}
    (hbad : ¬ ((∀ sub, some sub ∈ s.books → sub.topic ≠ topic) ∧
      ∀ p e, some p ∈ r.callbacks → r.heap p = some e → ¬ Spells e.topic topic.bytes)) :
    ¬ KeepsBooks imei (s.step K imei (.unsubscribe topic)) := by
  rintro ⟨⟨r', hr', hrep⟩, hres⟩
  rcases unsubscribeFrom_spec topic h.live with ⟨hcode, hnone⟩ | ⟨p, e, hp, he, hs, hcode⟩
  · -- not found, although it is in the books
    have hmem : ¬ ∀ sub, some sub ∈ s.books → sub.topic ≠ topic := fun hb => hbad ⟨hb, hnone⟩
    have hzero := Books.unsubscribe_of_mem hmem
    simp [step, hr, Registry.call, Registry.unsubscribe, hcode, booksCall, hzero,
      eNoEnt] at hres
  · simp only [step, hr, Option.bind_some, Registry.call, Registry.unsubscribe, hcode,
      Option.map_some, Option.some.injEq] at hr'
    subst hr'
    obtain ⟨e', he'⟩ := hrep.live p hp
    simp at he'

/-- **The registry keeps its books exactly while nothing is ever freed and memory lasts.** -/
theorem keepsBooks_iff_neverFrees (cs : List RegistryCall) :
    Always (step K imei) (KeepsBooks imei) (start K) cs
      ↔ Meets (step K imei) (NeverFrees K) (start K) cs := by
  refine always_iff_meets (I := KeepsBooks imei) ?_ (fun _ h => h) ?_
    ⟨⟨_, rfl, represents_start⟩, rfl⟩ cs
  · rintro s c ⟨⟨r, hr, hrep⟩, -⟩ hok
    cases c with
    | subscribe topic callback mem => exact keepsBooks_subscribe hr hrep (hok r hr)
    | unsubscribe topic =>
      obtain ⟨hbooks, hcode⟩ := hok r hr
      exact keepsBooks_unsubscribe hr hrep hbooks hcode
  · rintro s c ⟨⟨r, hr, hrep⟩, -⟩ hbad
    cases c with
    | subscribe topic callback mem =>
      simp only [NeverFrees, hr, Option.some.injEq, forall_eq', not_forall] at hbad
      obtain ⟨hlong, hroom, hmem⟩ := hbad
      exact not_keepsBooks_subscribe hr hlong hroom hmem
    | unsubscribe topic =>
      simp only [NeverFrees, hr, Option.some.injEq, forall_eq'] at hbad
      exact not_keepsBooks_unsubscribe hr hrep hbad

/-- Subscribe to a topic and withdraw it: the slot points to freed memory. -/
theorem not_keepsBooks_withdrawn :
    ¬ Always (step .default []) (KeepsBooks []) (start .default)
      [.subscribe (CString.ofString "a") 1 (some (0, fun _ => 0)),
        .unsubscribe (CString.ofString "a")] := by
  intro h
  obtain ⟨⟨r, hr, hrep⟩, -⟩ := h.last
  obtain rfl := Option.some.inj hr
  obtain ⟨e, he⟩ := hrep.live 0 (by decide)
  have hnone : (none : Option CbEntry) = some e := he
  cases hnone

end Ledger

end Pyrinas
