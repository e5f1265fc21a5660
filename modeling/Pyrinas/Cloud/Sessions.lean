import Pyrinas.Cloud.Cbor

/-!
# Cloud/Sessions — when the application subscription survives a reconnect

A session begins with a CONNACK and ends with the connection; subscriptions do not outlive it.  In
every session the client subscribes to `ota_sub_topic`; the SUBACK queues an OTA check, and its
answer subscribes to `application_sub_topic`.  But the SUBACK does so only while `initial_ota_check`
is 0, and the first OTA message sets that for good.

    CONNACK ─▸ subscribe ─▸ SUBACK ─(initial_ota_check = 0)─▸ OTA check ─▸ no update ─▸ subscribe
-/

open Machinery

namespace Pyrinas

/-- What has happened in a session: the OTA subscription still waiting for its SUBACK; whether that
came while `ota_state_s` was ready, and whether it left an OTA check queued; whether an OTA message
said that there is no update; whether the application topic is subscribed. -/
structure Session where
  otaSub : Option UInt16
  confirmed : Bool
  queued : Bool
  answered : Bool
  appSubscribed : Bool
  deriving DecidableEq

/-- The client, and the session if there is one. -/
structure Sessions where
  cloud : Cloud
  session : Option Session

namespace Sessions

variable (B : CloudBuild)

/-- At boot there is no session. -/
def start : Sessions := ⟨.boot, none⟩

/-- The calls a step has made. -/
def newCalls (s s' : Cloud) : List CloudCall := s'.calls.drop s.calls.length

/-- The message id of a subscription to a topic. -/
def subscribedTo (topic : List UInt8) : List CloudCall → Option UInt16
  | [] => none
  | .mqttSubscribe t messageId :: calls =>
    if t = topic then some messageId else subscribedTo topic calls
  | _ :: calls => subscribedTo topic calls

/-- An event is the SUBACK of the session's OTA subscription. -/
def isSuback (x : Session) : CloudEvent → Bool
  | .suback _ messageId => x.otaSub = some messageId
  | _ => false

/-- …and it says that the subscription was accepted. -/
def isAccepted : CloudEvent → Bool
  | .suback result _ => result = 0
  | _ => false

/-- What a step of the client adds to the session. -/
def record (s s' : Cloud) (e : CloudEvent) (x : Session) : Session :=
  let confirms := isSuback x e && isAccepted e && s.otaState = .ready
  { otaSub := (subscribedTo B.otaSubTopic (newCalls s s')).or
      (if isSuback x e then none else x.otaSub)
    confirmed := x.confirmed || confirms
    queued := if confirms then s'.otaRequestWork else x.queued
    answered := x.answered ||
      ((s.otaDelivery B e).isSome && s.otaState = .ready && s'.otaState = .ready
        && s'.status = .running)
    appSubscribed := x.appSubscribed ||
      (subscribedTo B.applicationSubTopic (newCalls s s')).isSome }

/-- One event: a CONNACK starts a session or refuses it, and a disconnect ends it. -/
def step (x : Sessions) (e : CloudEvent) : Sessions where
  cloud := x.cloud.step B e
  session :=
    if x.cloud.status = .running then
      match e with
      | .connack result => if result = 0 then some ⟨none, false, false, false, false⟩ else none
      | .disconnect => none
      | e => x.session.map (record B x.cloud (x.cloud.step B e) e)
    else x.session

/-- In the session, a SUBACK for the OTA subscription left an OTA check queued, and an answer led to
the application subscription. -/
def SubscriptionsSurvive (x : Sessions) : Prop :=
  ∀ session, x.session = some session →
    (session.confirmed → session.queued) ∧ (session.answered → session.appSubscribed)

/-- When the SUBACK of the session's OTA subscription comes while `ota_state_s` is ready, no OTA
message has been handled since boot, or an OTA check is queued already. -/
def CheckStillDue (x : Sessions) (e : CloudEvent) : Prop :=
  ∀ session, x.cloud.status = .running → x.session = some session → isSuback session e →
    isAccepted e → x.cloud.otaState = .ready →
    x.cloud.initialOtaCheck = false ∨ x.cloud.otaRequestWork

/-! ## What a step calls -/

variable {B}

theorem newCalls_of_append {s s' : Cloud} {l : List CloudCall} (h : s'.calls = s.calls ++ l) :
    newCalls s s' = l := by
  rw [newCalls, h, List.drop_left]

/-- The two topics differ, behind the same imei. -/
theorem applicationSubTopic_ne_otaSubTopic (B : CloudBuild) :
    B.applicationSubTopic ≠ B.otaSubTopic := by
  unfold CloudBuild.applicationSubTopic CloudBuild.otaSubTopic applicationSubTopic CloudBuild.topic
  rw [List.append_assoc]
  intro h
  have := List.append_cancel_left h
  revert this
  decide

/-- A step subscribes to the OTA topic under the id it leaves in `ota_sub_message_id`, or leaves
that alone. -/
def SubIdKept (B : CloudBuild) (s s' : Cloud) : Prop :=
  match subscribedTo B.otaSubTopic (newCalls s s') with
  | some messageId => s'.otaSubMessageId = messageId
  | none => s'.otaSubMessageId = s.otaSubMessageId

theorem subIdKept_of_append {s s' : Cloud} {l : List CloudCall} (h : s'.calls = s.calls ++ l)
    (hl : subscribedTo B.otaSubTopic l = none) (hid : s'.otaSubMessageId = s.otaSubMessageId) :
    SubIdKept B s s' := by
  simpa only [SubIdKept, newCalls_of_append h, hl] using hid

theorem subIdKept_of_calls {s s' : Cloud} (h : s'.calls = s.calls)
    (hid : s'.otaSubMessageId = s.otaSubMessageId) : SubIdKept B s s' :=
  subIdKept_of_append (l := []) (by rw [h, List.append_nil]) rfl hid

theorem subIdKept_dataPublish {s t : Cloud} (topic : List UInt8) (payload : CloudPayload)
    (rand : UInt32) (h : t.calls = s.calls) (hid : t.otaSubMessageId = s.otaSubMessageId) :
    SubIdKept B s (t.dataPublish topic payload rand) := by
  by_cases hc : t.cloudState = .connected
  · exact subIdKept_of_append (by simp [Cloud.dataPublish, hc, h]; rfl) rfl hid
  · exact subIdKept_of_calls (by simp [Cloud.dataPublish, hc, h]) hid

/-- **The OTA subscription is made under the id that is kept.** -/
theorem subIdKept_onConnectFn {s t : Cloud} (rand subRand : UInt32) (h : t.calls = s.calls)
    (hid : t.otaSubMessageId = s.otaSubMessageId) :
    SubIdKept B s (t.onConnectFn B rand subRand) := by
  simp only [Cloud.onConnectFn]
  split_ifs
  · have hcalls : ∃ l, (t.publishTelemetry B true rand).calls = s.calls ++ l ∧
        subscribedTo B.otaSubTopic (l ++ [.mqttSubscribe B.otaSubTopic subRand.toUInt16])
          = some subRand.toUInt16 := by
      by_cases hc : t.cloudState = .connected
      · refine ⟨[.mqttPublish B.telemetryPubTopic (.telemetry true) rand.toUInt16], ?_, ?_⟩
        · simp only [Cloud.publishTelemetry, Cloud.dataPublish, hc, h, if_true]
        · simp [subscribedTo]
      · refine ⟨[], by simp [Cloud.publishTelemetry, Cloud.dataPublish, hc, h], ?_⟩
        simp [subscribedTo]
    obtain ⟨l, hl, hsub⟩ := hcalls
    have hnew : newCalls s ({ t.publishTelemetry B true rand with
        otaSubMessageId := subRand.toUInt16 }.subscribe B.otaSubTopic subRand.toUInt16)
        = l ++ [.mqttSubscribe B.otaSubTopic subRand.toUInt16] :=
      newCalls_of_append (by simp only [Cloud.subscribe, hl, List.append_assoc])
    simp only [SubIdKept, hnew, hsub]
    rfl
  · exact subIdKept_dataPublish _ _ _ h hid

theorem subIdKept_otaMessage (s : Cloud) (data : List UInt8) (stack : DecodeStack) (rand : UInt32) :
    SubIdKept B s (s.otaMessage B data stack rand) := by
  unfold Cloud.otaMessage
  dsimp only
  split
  · exact subIdKept_of_calls rfl rfl
  · split_ifs
    · exact subIdKept_of_calls rfl rfl
    · exact subIdKept_of_append rfl
        (by simp [subscribedTo, applicationSubTopic_ne_otaSubTopic]) rfl
    · exact subIdKept_of_calls rfl rfl

theorem subIdKept_fotaStartFn {s t : Cloud} (start : CString → CString → ℤ)
    (h : t.calls = s.calls) (hid : t.otaSubMessageId = s.otaSubMessageId) :
    SubIdKept B s (t.fotaStartFn start) := by
  unfold Cloud.fotaStartFn Cloud.fotaStartResult
  split
  next => exact subIdKept_of_calls h hid
  next host file _ =>
    have hcalls := congrArg (· ++ [CloudCall.fotaDownloadStart host file]) h
    dsimp only
    split <;> exact subIdKept_of_append hcalls rfl hid

theorem subIdKept_step (s : Cloud) (e : CloudEvent) : SubIdKept B s (s.step B e) := by
  have hstep := Cloud.canStep B s e
  generalize s.step B e = s' at hstep ⊢
  cases hstep with
  | onConnectWork rand subRand => exact subIdKept_onConnectFn rand subRand rfl rfl
  | otaMessage => exact subIdKept_otaMessage s _ _ _
  | fotaWork start => exact subIdKept_fotaStartFn start rfl rfl
  | publishTelemetryWork | otaRequestWork | otaDoneWork => exact subIdKept_dataPublish _ _ _ rfl rfl
  | connect initErr connErr =>
    simp only [Cloud.connect]
    split_ifs <;> exact subIdKept_of_calls rfl rfl
  | reconnectWork initErr connErr =>
    simp only [Cloud.reconnectWorkFn, Cloud.connect]
    split_ifs <;> exact subIdKept_of_calls rfl rfl
  | connack result =>
    simp only [Cloud.connackEvt]
    split_ifs <;> exact subIdKept_of_calls rfl rfl
  | suback result messageId =>
    simp only [Cloud.subackEvt]
    split_ifs <;> exact subIdKept_of_calls rfl rfl
  | otaCheckSubscribedWork =>
    simp only [Cloud.otaCheckSubscribedWorkFn]
    split_ifs <;> exact subIdKept_of_calls rfl rfl
  | fotaEvt id => cases id <;> exact subIdKept_of_calls rfl rfl
  | idle | disconnect | telemetryCheck | otaRebootWork => exact subIdKept_of_calls rfl rfl

/-- **An OTA message that leaves `ota_state_s` ready subscribes to the application topic.** -/
theorem appSubscribed_of_otaDelivery {s : Cloud} {e : CloudEvent}
    (hd : (s.otaDelivery B e).isSome) (hready : s.otaState = .ready)
    (hready' : (s.step B e).otaState = .ready) (hrun : (s.step B e).status = .running) :
    (subscribedTo B.applicationSubTopic (newCalls s (s.step B e))).isSome := by
  obtain ⟨⟨data, stack, rand⟩, hd⟩ := Option.isSome_iff_exists.mp hd
  obtain ⟨-, hstep⟩ := Cloud.step_of_otaDelivery hd
  rw [hstep] at hready' hrun ⊢
  cases hdec : decodeOtaData B.qcbor stack data s.otaData with
  | none =>
    rw [Cloud.otaMessage_fault hdec] at hrun
    simp at hrun
  | some r =>
    obtain ⟨err, d⟩ := r
    by_cases hnew : Cloud.isNewer B err d
    · simp [Cloud.otaMessage, hdec, hnew, Cloud.setOtaState, Cloud.otaStateCallback] at hready'
    · have hcalls : (s.otaMessage B data stack rand).calls
          = s.calls ++ [.mqttSubscribe B.applicationSubTopic rand.toUInt16] := by
        simp [Cloud.otaMessage, hdec, hnew, hready, Cloud.otaStateCallback, Cloud.subscribe]
      rw [newCalls_of_append hcalls]
      simp [subscribedTo]

/-! ## The exact condition -/

/-- The OTA subscription that waits for its SUBACK was made under `ota_sub_message_id`, and what the
property says of the session holds. -/
def Sound (x : Sessions) : Prop :=
  ∀ session, x.session = some session →
    (∀ messageId, session.otaSub = some messageId → x.cloud.otaSubMessageId = messageId) ∧
    (session.confirmed → session.queued) ∧ (session.answered → session.appSubscribed)

theorem sound_start : Sound start := fun _ h => by simp [start] at h

theorem Sound.subscriptionsSurvive {x : Sessions} (h : Sound x) : SubscriptionsSurvive x :=
  fun session hs => (h session hs).2

/-- **What the SUBACK of the OTA subscription leaves queued.** -/
theorem otaRequestWork_suback {s : Cloud} {session : Session} {e : CloudEvent}
    (hrun : s.status = .running) (hsub : isSuback session e) (hacc : isAccepted e)
    (hid : ∀ messageId, session.otaSub = some messageId → s.otaSubMessageId = messageId) :
    (s.step B e).otaRequestWork = (s.otaRequestWork || !s.initialOtaCheck) := by
  cases e with
  | suback result messageId =>
    have h0 : result = 0 := by simpa [isAccepted] using hacc
    have hmatch : s.otaSubMessageId = messageId := hid _ (by simpa [isSuback] using hsub)
    rw [Cloud.step_of_running hrun, Cloud.handle, Cloud.subackEvt]
    cases hcheck : s.initialOtaCheck <;> simp [h0, hmatch]
  | _ => simp [isSuback] at hsub

/-- The id in the record of a session is the one that is kept. -/
theorem otaSub_record {s : Cloud} {session : Session} {e : CloudEvent} {messageId : UInt16}
    (h : ∀ messageId, session.otaSub = some messageId → s.otaSubMessageId = messageId)
    (hrec : (record B s (s.step B e) e session).otaSub = some messageId) :
    (s.step B e).otaSubMessageId = messageId := by
  have hkept := subIdKept_step (B := B) s e
  cases hnew : subscribedTo B.otaSubTopic (newCalls s (s.step B e)) with
  | some newId =>
    simp only [SubIdKept, hnew] at hkept
    simp only [record, hnew, Option.some_or, Option.some.injEq] at hrec
    exact hkept.trans hrec
  | none =>
    simp only [SubIdKept, hnew] at hkept
    simp only [record, hnew, Option.none_or] at hrec
    split_ifs at hrec
    exact hkept.trans (h _ hrec)

/-- An answer in the session goes with the application subscription. -/
theorem answered_record {s : Cloud} {session : Session} {e : CloudEvent}
    (h : session.answered → session.appSubscribed)
    (hrec : (record B s (s.step B e) e session).answered) :
    (record B s (s.step B e) e session).appSubscribed := by
  simp only [record, Bool.or_eq_true, Bool.and_eq_true, decide_eq_true_eq] at hrec ⊢
  rcases hrec with hold | ⟨⟨⟨hd, hready⟩, hready'⟩, hrun⟩
  · exact .inl (h hold)
  · exact .inr (appSubscribed_of_otaDelivery hd hready hready' hrun)

/-- A session is recorded on, unless it ends or another one begins. -/
theorem session_step {x : Sessions} {e : CloudEvent} (hrun : x.cloud.status = .running) :
    (x.step B e).session = none ∨
      (x.step B e).session = some ⟨none, false, false, false, false⟩ ∨
      (x.step B e).session = x.session.map (record B x.cloud (x.cloud.step B e) e) := by
  simp only [step, if_pos hrun]
  cases e with
  | connack result =>
    dsimp only
    split_ifs
    · exact .inr (.inl rfl)
    · exact .inl rfl
  | disconnect => exact .inl rfl
  | _ => exact .inr (.inr rfl)

theorem sound_step (x : Sessions) (e : CloudEvent) (h : Sound x) (hok : CheckStillDue x e) :
    Sound (x.step B e) := by
  by_cases hrun : x.cloud.status = .running
  · intro session' hs'
    rcases session_step (B := B) (e := e) hrun with hnone | hfresh | hrec
    · simp [hnone] at hs'
    · obtain rfl := Option.some.inj (hfresh.symm.trans hs')
      simp
    · obtain ⟨session, hs, rfl⟩ := Option.map_eq_some_iff.mp (hrec.symm.trans hs')
      obtain ⟨hid, hqueued, hanswered⟩ := h session hs
      refine ⟨fun _ => otaSub_record hid, ?_, answered_record hanswered⟩
      intro hconf
      -- either this is the SUBACK, or the record was there before
      simp only [record] at hconf ⊢
      split_ifs with hnow
      · simp only [Bool.and_eq_true, decide_eq_true_eq] at hnow
        obtain ⟨⟨hsub, hacc⟩, hready⟩ := hnow
        rw [otaRequestWork_suback hrun hsub hacc hid]
        rcases hok session hrun hs hsub hacc hready with hcheck | hpend
        · simp [hcheck]
        · simp [hpend]
      · exact hqueued (by simpa [hnow] using hconf)
  · have hx : x.step B e = x := by
      cases x
      simp only [step, if_neg hrun, Cloud.step_of_not_running hrun]
    rwa [hx]

/-- A SUBACK that finds the check done queues nothing. -/
theorem not_subscriptionsSurvive {x : Sessions} {e : CloudEvent} (h : Sound x)
    (hbad : ¬ CheckStillDue x e) : ¬ SubscriptionsSurvive (x.step B e) := by
  simp only [CheckStillDue, not_forall, not_or] at hbad
  obtain ⟨session, hrun, hs, hsub, hacc, hready, hcheck, hpend⟩ := hbad
  have hwork := otaRequestWork_suback (B := B) hrun hsub hacc (h session hs).1
  have hsession : (x.step B e).session
      = some (record B x.cloud (x.cloud.step B e) e session) := by
    simp only [step, if_pos hrun]
    cases e with
    | suback => rw [hs]; rfl
    | _ => simp [isSuback] at hsub
  intro hP
  have hnow : (isSuback session e && isAccepted e && x.cloud.otaState = .ready) = true := by
    simp [hsub, hacc, hready]
  have hqueued := (hP _ hsession).1 (by simp [record, hnow])
  simp only [record, hnow, if_true, hwork] at hqueued
  simp [hcheck, hpend] at hqueued

/-- **The application subscription survives reconnects exactly while every SUBACK of an OTA
subscription finds the check still due.** -/
theorem subscriptionsSurvive_iff_checkStillDue (es : List CloudEvent) :
    Always (step B) SubscriptionsSurvive start es ↔ Meets (step B) CheckStillDue start es :=
  always_iff_meets sound_step (fun _ => Sound.subscriptionsSurvive)
    (fun _ _ => not_subscriptionsSurvive) sound_start es

/-- Two sessions: in the first the check is queued and answered, in the second it is not queued. -/
theorem not_subscriptionsSurvive_second_session :
    ¬ Always (step sampleBuild) SubscriptionsSurvive start
      [.connect 0 0, .connack 0, .onConnectWork 1 2, .suback 0 2, .otaRequestWork 3,
        otaMessageOf (manifestBytes 1 [97] [102]), .disconnect,
        .reconnectWork 0 0, .connack 0, .onConnectWork 4 5, .suback 0 5] := by
  intro h
  have hsession := h.last ⟨none, true, false, false, false⟩ (by decide +kernel)
  exact absurd (hsession.1 rfl) (by decide)

end Sessions

end Pyrinas
