import Pyrinas.Cloud.Callbacks
import Pyrinas.Machinery.Area

/-!
# Cloud/Payload — a payload is handled whole or not at all

`MQTT_EVT_PUBLISH` reads the payload into `payload_buf`, a fragment at a time, each as long as the
library likes.  Then it either calls `publish_evt_handler` or disconnects, and in both cases it
acknowledges a message of QoS 1.

    read ─▸ read ─▸ … ─▸ read ─┬─▸ publish_evt_handler ─┬─▸ mqtt_publish_qos1_ack
                               └─▸ mqtt_disconnect ─────┘
-/

open Machinery

namespace Pyrinas

/-- `enum mqtt_qos` -/
inductive MqttQos
  | atMostOnce
  | atLeastOnce
  | exactlyOnce
  deriving DecidableEq

/-- What the handler reads of `struct mqtt_publish_param`, and the bytes of the payload, which are
`payload.len` many. -/
structure PublishParam where
  topic : List UInt8
  payload : List UInt8
  qos : MqttQos
  messageId : UInt16

/-- What `mqtt_read_publish_payload_blocking` may answer: a count of at most `requested`, zero, or
an error. -/
abbrev ReadAnswer (requested : ℕ) : Type := { ret : ℤ // ret ≤ requested }

/-- The answers, call by call. -/
abbrev PayloadReads : Type := ℕ → (requested : ℕ) → ReadAnswer requested

/-- A call out of the handler. -/
inductive PublishCall
  | read (requested : ℕ) (ret : ℤ)
  | publishEvtHandler (topic data : List UInt8)
  | mqttDisconnect
  | mqttPublishQos1Ack (messageId : UInt16)
  deriving DecidableEq

/-- How a piece of code ends: not within the steps it is given, with a write outside of the buffer,
or with a result. -/
inductive Ending (α : Type)
  | running
  | outside
  | done (a : α)

/-- What `publish_get_payload` returns, with `payload_buf` and the calls made. -/
structure PayloadRead (n : ℕ) where
  ret : ℤ
  payloadBuf : Area UInt8 n
  calls : List PublishCall

namespace PublishParam

/-- The loop of `publish_get_payload`, with `buf` at offset `pos`. -/
def readLoop (m : PublishParam) (reads : PayloadReads) {n : ℕ} :
    ℕ → ℕ → Area UInt8 n → List PublishCall → Ending (PayloadRead n)
  | 0, _, _, _ => .running
  | fuel + 1, pos, payloadBuf, calls =>
    if pos < m.payload.length then
      let requested := m.payload.length - pos
      let ret := (reads calls.length requested).val
      let calls := calls ++ [.read requested ret]
      if ret < 0 then .done ⟨ret, payloadBuf, calls⟩
      else if ret = 0 then .done ⟨-eIo, payloadBuf, calls⟩
      else
        match payloadBuf.copyIn pos ((m.payload.drop pos).take ret.toNat) with
        | none => .outside
        | some payloadBuf => m.readLoop reads fuel (pos + ret.toNat) payloadBuf calls
    else .done ⟨0, payloadBuf, calls⟩

/-- `publish_get_payload` -/
def publishGetPayload (m : PublishParam) (reads : PayloadReads) {n : ℕ} (fuel : ℕ)
    (payloadBuf : Area UInt8 n) : Ending (PayloadRead n) :=
  if m.payload.length > n then .done ⟨-eMsgSize, payloadBuf, []⟩
  else m.readLoop reads fuel 0 payloadBuf []

/-- The acknowledgements due for a message. -/
def acks (m : PublishParam) : List UInt16 :=
  if m.qos = .atLeastOnce then [m.messageId] else []

/-- `mqtt_evt_handler` for `MQTT_EVT_PUBLISH`, behind `publish_get_payload`; it only prints what
`mqtt_disconnect` and `mqtt_publish_qos1_ack` return. -/
def afterPayload (m : PublishParam) {n : ℕ} (r : PayloadRead n) : PayloadRead n :=
  let handled := if r.ret ≥ 0 then
      .publishEvtHandler m.topic (r.payloadBuf.cells.take m.payload.length)
    else .mqttDisconnect
  { r with calls := r.calls ++ handled :: m.acks.map .mqttPublishQos1Ack }

end PublishParam

/-! ## Whole, or not at all -/

/-- The messages `publish_evt_handler` is called with. -/
def handed (calls : List PublishCall) : List (List UInt8 × List UInt8) :=
  calls.filterMap fun
    | .publishEvtHandler topic data => some (topic, data)
    | _ => none

/-- The acknowledgements that reach the broker: nothing is sent after `mqtt_disconnect`. -/
def ackedToBroker : List PublishCall → List UInt16
  | [] => []
  | .mqttPublishQos1Ack messageId :: calls => messageId :: ackedToBroker calls
  | .mqttDisconnect :: _ => []
  | .read _ _ :: calls => ackedToBroker calls
  | .publishEvtHandler _ _ :: calls => ackedToBroker calls

namespace PublishParam

/-- How many bytes the first `k` answers bring, if each read asks for all that is missing. -/
def position (m : PublishParam) (reads : PayloadReads) : ℕ → ℕ
  | 0 => 0
  | k + 1 => m.position reads k
    + (reads k (m.payload.length - m.position reads k)).val.toNat

/-- The answer to read `k`. -/
def answer (m : PublishParam) (reads : PayloadReads) (k : ℕ) : ℤ :=
  (reads k (m.payload.length - m.position reads k)).val

/-- The payload is too long for a buffer of `n` bytes; or, with bytes missing after a number of
positive answers, the next answer is an error or zero. -/
def Broken (m : PublishParam) (n : ℕ) (reads : PayloadReads) : Prop :=
  m.payload.length > n ∨ ∃ k, (∀ j < k, 0 < m.answer reads j) ∧
    m.position reads k < m.payload.length ∧ m.answer reads k ≤ 0

/-- Handed over once, with its own bytes, and acknowledged after that. -/
structure Whole (m : PublishParam) (calls : List PublishCall) : Prop where
  once : handed calls = [(m.topic, m.payload)]
  acked : ackedToBroker calls = m.acks
  ackedLast : ∃ before, handed before = [(m.topic, m.payload)] ∧
    calls = before ++ m.acks.map .mqttPublishQos1Ack

/-- Never handed over and never acknowledged, and the client disconnects. -/
structure NotAtAll (calls : List PublishCall) : Prop where
  never : handed calls = []
  disconnects : .mqttDisconnect ∈ calls
  unacked : ackedToBroker calls = []

end PublishParam

example : ackedToBroker [.read 2 1, .read 1 0, .mqttDisconnect, .mqttPublishQos1Ack 7] = [] := rfl

/-! ## The calls -/

theorem handed_append (before calls : List PublishCall) :
    handed (before ++ calls) = handed before ++ handed calls := List.filterMap_append

theorem handed_acks (messageIds : List UInt16) :
    handed (messageIds.map .mqttPublishQos1Ack) = [] := by
  simp [handed]

theorem ackedToBroker_acks (messageIds : List UInt16) :
    ackedToBroker (messageIds.map .mqttPublishQos1Ack) = messageIds := by
  induction messageIds with
  | nil => rfl
  | cons messageId messageIds ih => exact congrArg (messageId :: ·) ih

namespace PublishParam

variable {n : ℕ} {m : PublishParam} {reads : PayloadReads}

/-! ## Reading the payload -/

/-- The first `k` reads. -/
def firstReads (m : PublishParam) (reads : PayloadReads) (k : ℕ) : List PublishCall :=
  (List.range k).map fun j => .read (m.payload.length - m.position reads j) (m.answer reads j)

theorem firstReads_succ (m : PublishParam) (reads : PayloadReads) (k : ℕ) :
    m.firstReads reads (k + 1) = m.firstReads reads k
      ++ [.read (m.payload.length - m.position reads k) (m.answer reads k)] := by
  rw [firstReads, List.range_succ, List.map_append]
  rfl

theorem handed_firstReads (m : PublishParam) (reads : PayloadReads) (k : ℕ) :
    handed (m.firstReads reads k) = [] := by
  simp [handed, firstReads, List.filterMap_map]

theorem ackedToBroker_firstReads_append (m : PublishParam) (reads : PayloadReads) (k : ℕ)
    (calls : List PublishCall) :
    ackedToBroker (m.firstReads reads k ++ calls) = ackedToBroker calls := by
  induction k generalizing calls with
  | zero => rfl
  | succ k ih => rw [firstReads_succ, List.append_assoc, ih]; rfl

/-- What `publish_get_payload` owes its caller. -/
structure ReadRight (m : PublishParam) (reads : PayloadReads) (r : PayloadRead n) : Prop where
  calls : ∃ k, r.calls = m.firstReads reads k
  failed : r.ret < 0 ↔ m.Broken n reads
  whole : 0 ≤ r.ret → r.payloadBuf.cells.take m.payload.length = m.payload

theorem whole_of_ret {r : PayloadRead n} (h : m.ReadRight reads r) (hret : r.ret ≥ 0) :
    m.Whole (m.afterPayload r).calls := by
  obtain ⟨k, hk⟩ := h.calls
  have hbefore : handed (r.calls ++ [.publishEvtHandler m.topic m.payload])
      = [(m.topic, m.payload)] := by
    rw [handed_append, hk, handed_firstReads]
    rfl
  simp only [afterPayload, if_pos hret]
  rw [h.whole hret, List.append_cons]
  refine ⟨?_, ?_, _, hbefore, rfl⟩
  · rw [handed_append, hbefore, handed_acks, List.append_nil]
  · rw [List.append_assoc, hk, ackedToBroker_firstReads_append]
    exact ackedToBroker_acks m.acks

theorem notAtAll_of_ret {r : PayloadRead n} (h : m.ReadRight reads r) (hret : ¬ r.ret ≥ 0) :
    NotAtAll (m.afterPayload r).calls := by
  obtain ⟨k, hk⟩ := h.calls
  simp only [afterPayload, if_neg hret]
  refine ⟨?_, List.mem_append_right _ List.mem_cons_self, ?_⟩
  · rw [handed_append, hk, handed_firstReads]
    exact handed_acks m.acks
  · rw [hk, ackedToBroker_firstReads_append]
    rfl

/-- The client's own step on a message is taken when the handler is called with it. -/
theorem publishEvt_eq_handed (B : CloudBuild) (s : Cloud) (registry : Registry)
    (behind : List UInt8) {r : PayloadRead B.payloadBufferSize} (h : m.ReadRight reads r)
    (stack : DecodeStack) (rand : UInt32) :
    s.publishEvt B (m.topic ++ behind) m.payload r.ret stack rand
      = if handed (m.afterPayload r).calls = [(m.topic, m.payload)] ∧
          publishEvtHandler B registry m.topic behind m.payload = some (.ota m.payload) then
        s.otaMessage B m.payload stack rand
      else s := by
  have hhanded : 0 ≤ Cloud.publishGetPayload B m.payload r.ret
      ↔ handed (m.afterPayload r).calls = [(m.topic, m.payload)] := by
    unfold Cloud.publishGetPayload
    by_cases hret : r.ret ≥ 0
    · have hfits : ¬ m.payload.length > B.payloadBufferSize :=
        fun hlong => h.failed.not.mp (not_lt.mpr hret) (Or.inl hlong)
      rw [if_neg hfits]
      exact iff_of_true hret (whole_of_ret h hret).once
    · rw [(notAtAll_of_ret h hret).never]
      refine iff_of_false ?_ (List.cons_ne_nil _ _).symm
      split_ifs
      · decide
      · exact hret
  rw [publishEvt_eq_handler (r := registry) s r.ret stack rand]
  simp only [hhanded]

end PublishParam

end Pyrinas
