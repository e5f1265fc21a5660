import Pyrinas.Ble.EventBytes
import Pyrinas.Cloud.Measurements

/-!
# Cloud/Topics — a topic says who publishes, and what

A hub publishes under its imei, and for its peripherals under their addresses; telemetry, the OTA
commands and the events of the application have topics of their own.  `topic` has 256 bytes, which
cut nothing but the longest types of `pyrinas_cloud_publish`.

    351358811234567/ota/pub     351358811234567/tel/pub     351358811234567/app/pub/type
                                   c0ffee123456/tel/pub        c0ffee123456/app/pub/name
-/

open Machinery

namespace Pyrinas

/-- What the module publishes: a command (`publish_ota_check`, `publish_ota_done`), the telemetry of
the hub or of a peripheral, an event of a peripheral, or data of the application. -/
inductive Publication (F : EventFields)
  | ota
  | telemetry
  | telemetryEvt (evt : TelemetryEvent)
  | evt (peripheralAddr : Fin 6 → UInt8) (name : PbBytes F.size)
  | application (type : CString)

/-- `CONFIG_PYRINAS_CLOUD_MQTT_APPLICATION_PUB_TOPIC`, `"%.*s/app/pub/%.*s"`, printed into `topic`:
what `strlen` finds there. -/
def applicationPubTopic (topic : Area UInt8 256) (sender name : List UInt8) : List UInt8 :=
  (CString.ofBytes (topic.snprintf
    (sender ++ (CString.ofString "/app/pub/").bytes ++ name)).cells).bytes

/-- `uid`, printed with `"%02x%02x%02x%02x%02x%02x"`. -/
def peripheralUid (addr : Fin 6 → UInt8) : List UInt8 := (List.ofFn addr).flatMap hexByte

namespace Publication

variable {F : EventFields}

/-- The topic of a publication, with what `topic` held. -/
def topic (B : CloudBuild) (stack : Area UInt8 256) : Publication F → List UInt8
  | ota => B.otaPubTopic
  | telemetry => B.telemetryPubTopic
  | telemetryEvt e => peripheralTopic e
  | evt addr name =>
    applicationPubTopic stack (peripheralUid addr) (CString.ofBytes name.received).bytes
  | application type =>
    applicationPubTopic stack (CString.ofBytes (B.imei.take imeiLen)).bytes type.bytes

end Publication

/-- Who publishes. -/
inductive Sender
  | hub (imei : List UInt8)
  | peripheral (addr : Fin 6 → UInt8)

/-- What is published. -/
inductive Subject
  | ota
  | telemetry
  | application (name : List UInt8)

namespace Sender

/-- Under which name. -/
def bytes : Sender → List UInt8
  | hub imei => imei
  | peripheral addr => peripheralUid addr

end Sender

namespace Subject

/-- What stands behind the first `/`. -/
def bytes : Subject → List UInt8
  | ota => (CString.ofString "ota/pub").bytes
  | telemetry => (CString.ofString "tel/pub").bytes
  | application name => (CString.ofString "app/pub/").bytes ++ name

end Subject

/-- What `AT+CGSN` answers: fifteen digits. -/
structure IsImei (imei : List UInt8) : Prop where
  length : imei.length = imeiLen
  digits : ∀ b ∈ imei, isDigit b

/-- A sender with an imei that is one. -/
def Sender.Proper : Sender → Prop
  | hub imei => IsImei imei
  | peripheral _ => True

namespace Publication

variable {F : EventFields} {B B' : CloudBuild} {imei : List UInt8}

/-- What a publication says; a type as far as `topic` has room for it. -/
def said (B : CloudBuild) : Publication F → Sender × Subject
  | ota => (.hub B.imei, .ota)
  | telemetry => (.hub B.imei, .telemetry)
  | telemetryEvt e => (.peripheral e.peripheralAddr, .telemetry)
  | evt addr name => (.peripheral addr, .application (CString.ofBytes name.received).bytes)
  | application type => (.hub B.imei, .application (type.bytes.take 231))

/-! ## A topic -/

theorem bytes_imei (h : IsImei imei) : (CString.ofBytes (imei.take imeiLen)).bytes = imei := by
  have hzero : 0 ∉ imei := fun hmem => absurd (h.digits 0 hmem) (by decide)
  have hself := CString.bytes_ofBytes_of_noNul hzero []
  rw [List.append_nil] at hself
  rw [List.take_of_length_le h.length.le, hself]
  exact List.append_nil _

/-- The text as far as it fits. -/
theorem applicationPubTopic_eq (stack : Area UInt8 256) {sender name : List UInt8}
    (hsender : 0 ∉ sender) (hname : 0 ∉ name) : applicationPubTopic stack sender name
      = (sender ++ (CString.ofString "/app/pub/").bytes ++ name).take 255 := by
  have hzero : 0 ∉ sender ++ (CString.ofString "/app/pub/").bytes ++ name := by
    simp only [List.mem_append, not_or]
    exact ⟨⟨hsender, CString.noNul _⟩, hname⟩
  have hbytes := ofBytes_snprintf stack (by decide) hzero []
  rwa [List.append_nil] at hbytes

/-- A uid has twelve characters, and no zero or `/` among them. -/
theorem length_peripheralUid (addr : Fin 6 → UInt8) : (peripheralUid addr).length = 12 := by
  rw [peripheralUid, length_flatMap_hexByte, List.length_ofFn]

theorem notMem_peripheralUid (addr : Fin 6 → UInt8) {c : UInt8} (hc : c.toNat ≤ 47) :
    c ∉ peripheralUid addr := fun h => absurd (lt_of_mem_flatMap_hexByte h) (not_lt.mpr hc)

theorem notMem_imei (h : IsImei imei) {c : UInt8} (hc : c.toNat ≤ 47) : c ∉ imei := by
  intro hmem
  have hdigit := h.digits c hmem
  simp only [isDigit, decide_eq_true_eq] at hdigit
  omega

/-- **A topic is the sender, a `/`, and the subject.** -/
theorem topic_eq (h : IsImei B.imei) (stack : Area UInt8 256) (p : Publication F) :
    p.topic B stack = (p.said B).1.bytes ++ 0x2f :: (p.said B).2.bytes := by
  have himei := bytes_imei h
  cases p with
  | ota =>
    change (CString.ofBytes (B.imei.take imeiLen)).bytes ++ _ = _
    rw [himei]
    rfl
  | telemetry =>
    change (CString.ofBytes (B.imei.take imeiLen)).bytes ++ _ = _
    rw [himei]
    rfl
  | telemetryEvt e => rfl
  | evt addr name =>
    have hname : (CString.ofBytes name.received).bytes.length ≤ 168 := by
      have hfront : (CString.ofBytes name.received).bytes <+: name.received :=
        List.takeWhile_prefix _
      have hreceived : name.received.length ≤ F.size := by simp [PbBytes.received]
      exact hfront.length_le.trans (hreceived.trans F.size_le)
    have huid := length_peripheralUid addr
    rw [topic, applicationPubTopic_eq stack (notMem_peripheralUid addr (by decide))
      (CString.noNul _), List.take_of_length_le, List.append_assoc]
    · rfl
    · rw [List.length_append, List.length_append, huid]
      change 12 + 9 + _ ≤ 255
      omega
  | application type =>
    have hlength : (B.imei ++ (CString.ofString "/app/pub/").bytes).length = 24 := by
      rw [List.length_append, h.length]
      rfl
    rw [topic, himei, applicationPubTopic_eq stack (notMem_imei h (by decide)) type.noNul,
      List.take_append, hlength, List.take_of_length_le (by rw [hlength]; decide),
      List.append_assoc]
    rfl

/-! ## What a topic says -/

theorem proper_said (h : IsImei B.imei) (p : Publication F) : (p.said B).1.Proper := by
  cases p with
  | ota | telemetry | application => exact h
  | telemetryEvt | evt => exact trivial

/-- The name of a hub is longer than that of a peripheral. -/
theorem sender_eq {a b : Sender} (ha : a.Proper) (hb : b.Proper) (hab : a.bytes = b.bytes) :
    a = b := by
  have hlength := congrArg List.length hab
  cases a with
  | hub imei =>
    have himei : imei.length = 15 := ha.length
    cases b with
    | hub imei' => exact congrArg Sender.hub hab
    | peripheral addr =>
      simp only [Sender.bytes, length_peripheralUid] at hlength
      omega
  | peripheral addr =>
    cases b with
    | hub imei =>
      have himei : imei.length = 15 := hb.length
      simp only [Sender.bytes, length_peripheralUid] at hlength
      omega
    | peripheral addr' => rw [List.ofFn_injective (flatMap_hexByte_injective hab)]

theorem subject_injective : Function.Injective Subject.bytes := by
  intro a b hab
  have hota : (CString.ofString "ota/pub").bytes = [111, 116, 97, 47, 112, 117, 98] := by decide
  have htel : (CString.ofString "tel/pub").bytes = [116, 101, 108, 47, 112, 117, 98] := by decide
  have happ : (CString.ofString "app/pub/").bytes = [97, 112, 112, 47, 112, 117, 98, 47] := by
    decide
  cases a <;> cases b <;> simp_all [Subject.bytes]

theorem slash_notMem_sender {sender : Sender} (h : sender.Proper) : 0x2f ∉ sender.bytes := by
  cases sender with
  | hub imei => exact notMem_imei h (by decide)
  | peripheral addr => exact notMem_peripheralUid addr (by decide)

/-- Of every subject the fifth character is the `p` of `pub`, so nothing is published under what has
another one there. -/
theorem topic_ne_of_fifth (h : IsImei B.imei) (himei : IsImei imei) (stack : Area UInt8 256)
    (p : Publication F) {rest : List UInt8} (hrest : rest[4]? = some 115) :
    p.topic B stack ≠ imei ++ 0x2f :: rest := by
  have hfifth : ∀ subject : Subject, subject.bytes[4]? = some 112 := by
    intro subject
    cases subject <;> rfl
  rw [topic_eq h]
  intro heq
  obtain ⟨-, hsubject⟩ :=
    append_sep_inj (slash_notMem_sender (proper_said h p)) (notMem_imei himei (by decide)) heq
  rw [← hsubject, hfifth] at hrest
  exact absurd hrest (by decide)

/-- **The topic says who publishes, and what**: two publications, of one hub or of two, have one
exactly when they agree about both; and none has a topic that a hub is subscribed to. -/
theorem topic_says (h : IsImei B.imei) (h' : IsImei B'.imei) :
    (∀ (stack stack' : Area UInt8 256) (p q : Publication F),
      p.topic B stack = q.topic B' stack' ↔ p.said B = q.said B') ∧
    ∀ (stack : Area UInt8 256) (p : Publication F), p.topic B stack ≠ B'.otaSubTopic ∧
      ∀ topic, p.topic B stack ≠ applicationSubTopic B'.imei topic := by
  have hota : B'.otaSubTopic = B'.imei ++ 0x2f :: (CString.ofString "ota/sub").bytes := by
    rw [CloudBuild.otaSubTopic, CloudBuild.topic, bytes_imei h']
    rfl
  have happ : ∀ topic, applicationSubTopic B'.imei topic
      = B'.imei ++ 0x2f :: ((CString.ofString "app/sub/").bytes ++ topic.bytes) := by
    intro topic
    rw [applicationSubTopic, bytes_imei h', List.append_assoc]
    rfl
  refine ⟨fun stack stack' p q => ?_, fun stack p => ⟨?_, fun topic => ?_⟩⟩
  · have hp := proper_said h p
    have hq := proper_said h' q
    rw [topic_eq h, topic_eq h']
    constructor
    · intro heq
      obtain ⟨hsender, hsubject⟩ :=
        append_sep_inj (slash_notMem_sender hp) (slash_notMem_sender hq) heq
      exact Prod.ext (sender_eq hp hq hsender) (subject_injective hsubject)
    · intro heq
      rw [heq]
  · rw [hota]
    exact topic_ne_of_fifth h h' stack p rfl
  · rw [happ]
    exact topic_ne_of_fifth h h' stack p rfl

/-- Builds whose modems have answered. -/
def connectedBuild (last : UInt8) : CloudBuild :=
  { sampleBuild with imei := [51, 53, 49, 51, 53, 56, 56, 49, 49, 50, 51, 52, 53, 54, last] }

theorem topic_says_connected :
    (∀ (stack stack' : Area UInt8 256) (p q : Publication sampleFields),
      p.topic (connectedBuild 55) stack = q.topic (connectedBuild 56) stack'
        ↔ p.said (connectedBuild 55) = q.said (connectedBuild 56)) ∧
    ∀ (stack : Area UInt8 256) (p : Publication sampleFields),
      p.topic (connectedBuild 55) stack ≠ (connectedBuild 56).otaSubTopic ∧
        ∀ topic, p.topic (connectedBuild 55) stack
          ≠ applicationSubTopic (connectedBuild 56).imei topic :=
  topic_says ⟨rfl, by decide +kernel⟩ ⟨rfl, by decide +kernel⟩

end Publication

end Pyrinas
