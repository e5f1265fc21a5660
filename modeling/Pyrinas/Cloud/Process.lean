import Pyrinas.Cloud.Cbor

/-!
# Cloud/Process — when the cloud client never wedges

`pyrinas_cloud_process` waits for `pyrinas_cloud_thread_sem`, which `pyrinas_cloud_connect` gives,
and then serves the connection while `cloud_state_s` says there is one.  It leaves that loop in six
ways.  Failures of `mqtt_input` and the two poll flags end in `mqtt_abort`, which brings
`MQTT_EVT_DISCONNECT` and with it a reconnect; a failing `poll` or `mqtt_live` brings nothing, and
while the state still says connected nobody gives the semaphore again.

    take ─▸ loop ─▸ poll ─▸ live ─▸ input ─▸ err ─▸ nval ─▸ loop        break: back to take
-/

open Machinery

namespace Pyrinas

/-- Where `pyrinas_cloud_process` is: at `k_sem_take`, at the condition of the inner loop, at one of
the calls in it, or at one of the checks of `revents`. -/
inductive ProcessPc
  | take
  | loop
  | poll
  | live
  | input
  | err
  | nval
  | abort
  deriving DecidableEq

/-- The flags of `fds.revents`: `POLLIN`, `POLLERR`, `POLLNVAL`. -/
structure Revents where
  pollIn : Bool
  pollErr : Bool
  pollNval : Bool
  deriving DecidableEq

/-- What the next call of the thread answers: `poll`, with the flags it sets; `mqtt_live`;
`mqtt_input`. -/
structure ProcessAnswer where
  poll : ℤ
  revents : Revents
  live : ℤ
  input : ℤ

/-- The client and the thread. -/
structure Process where
  cloud : Cloud
  pc : ProcessPc
  revents : Revents

/-- Something happens to the client, or the thread goes one step. -/
inductive ProcessEvent
  | cloud (e : CloudEvent)
  | thread (answer : ProcessAnswer)

namespace Process

variable (B : CloudBuild)

/-- The first `pyrinas_cloud_connect` of a disconnected client has just succeeded. -/
def start (s : Cloud) : Process :=
  ⟨({ s with cloudState := .disconnected }.connect 0 0).2, .take, ⟨false, false, false⟩⟩

/-- `k_sem_take`: the thread goes on if the semaphore lets it; else it touches the watchdog every 55
seconds. -/
def semTake (x : Process) : Process :=
  if 0 < x.cloud.pyrinasCloudThreadSem.count then
    { x with
      cloud := { x.cloud with pyrinasCloudThreadSem := x.cloud.pyrinasCloudThreadSem.take }
      pc := .loop }
  else x

/-- `MQTT_EVT_DISCONNECT`, as `mqtt_abort` and a failing `mqtt_input` deliver it. -/
def deliverDisconnect (x : Process) : Process := { x with cloud := x.cloud.disconnectEvt }

/-- One step of the thread. -/
def threadStep (x : Process) (answer : ProcessAnswer) : Process :=
  match x.pc with
  | .take => x.semTake
  | .loop => { x with pc := if x.cloud.cloudState = .connected then .poll else .take }
  | .poll =>
    if answer.poll < 0 then { x with pc := .take }
    else { x with pc := .live, revents := answer.revents }
  | .live =>
    if answer.live = 0 then { x with pc := .input }
    else if answer.live ≠ 0 ∧ answer.live ≠ -eAgain then { x with pc := .take }
    else { x with pc := .input }
  | .input =>
    if x.revents.pollIn then
      if answer.input ≠ 0 then { x.deliverDisconnect with pc := .abort } else { x with pc := .err }
    else { x with pc := .err }
  | .err => { x with pc := if x.revents.pollErr then .abort else .nval }
  | .nval => { x with pc := if x.revents.pollNval then .abort else .loop }
  -- `mqtt_abort`, and out of the loop
  | .abort => { x.deliverDisconnect with pc := .take }

/-- One event. -/
def step (x : Process) : ProcessEvent → Process
  | .cloud e => { x with cloud := x.cloud.step B e }
  | .thread answer => if x.cloud.status = .running then x.threadStep answer else x

/-- If the thread is blocked, the client is disconnected and will be reconnected. -/
def NeverWedged (x : Process) : Prop :=
  x.pc = .take → x.cloud.pyrinasCloudThreadSem.count = 0 →
    x.cloud.cloudState = .disconnected ∧ x.cloud.reconnectWork

/-- A call that makes the thread leave the loop without a word to anyone. -/
def Breaks (x : Process) (answer : ProcessAnswer) : Prop :=
  (x.pc = .poll ∧ answer.poll < 0) ∨ (x.pc = .live ∧ answer.live ≠ 0 ∧ answer.live ≠ -eAgain)

/-- `poll` and `mqtt_live` fail only while the client is disconnected, or the semaphore is given. -/
def BreaksNoticed (x : Process) : ProcessEvent → Prop
  | .cloud _ => True
  | .thread answer => x.cloud.status = .running → Breaks x answer →
    x.cloud.cloudState = .connected → x.cloud.pyrinasCloudThreadSem.count ≠ 0

/-! ## The invariant -/

/-- A disconnected client will be reconnected, and a thread that waits is let through while there is
a connection. -/
structure Sound (x : Process) : Prop where
  reconnect : x.cloud.cloudState = .disconnected → x.cloud.reconnectWork
  given : x.pc = .take → x.cloud.cloudState = .connected → x.cloud.pyrinasCloudThreadSem.count ≠ 0

theorem sound_start (s : Cloud) : Sound (start s) :=
  ⟨fun h => by simp [start, Cloud.connect, Cloud.setCloudState, Cloud.cloudStateCallback] at h,
    fun _ _ => by simp [start, Cloud.connect, Cloud.setCloudState, Cloud.cloudStateCallback]⟩

theorem Sound.neverWedged {x : Process} (h : Sound x) : NeverWedged x := by
  intro hpc hsem
  have hdis : x.cloud.cloudState = .disconnected := by
    cases hs : x.cloud.cloudState with
    | disconnected => rfl
    | connected => exact absurd hsem (h.given hpc hs)
  exact ⟨hdis, h.reconnect hdis⟩

variable {B}

/-- A thread that stays in the loop needs no semaphore. -/
theorem Sound.of_pc {x : Process} (h : Sound x) {pc : ProcessPc} {revents : Revents}
    (hpc : pc ≠ .take) : Sound { x with pc := pc, revents := revents } :=
  ⟨h.reconnect, fun heq => absurd heq hpc⟩

/-- After `MQTT_EVT_DISCONNECT` the thread may be anywhere. -/
theorem sound_deliverDisconnect (x : Process) (pc : ProcessPc) :
    Sound { x.deliverDisconnect with pc := pc } :=
  ⟨fun _ => by simp [deliverDisconnect, Cloud.disconnectEvt, Cloud.setCloudState,
    Cloud.cloudStateCallback], fun _ hc => by
      simp [deliverDisconnect, Cloud.disconnectEvt, Cloud.setCloudState,
        Cloud.cloudStateCallback] at hc⟩

/-- **Every way out of the loop but the silent ones leads to a reconnect.** -/
theorem sound_threadStep {x : Process} (h : Sound x) {answer : ProcessAnswer}
    (hok : Breaks x answer → x.cloud.cloudState = .connected →
      x.cloud.pyrinasCloudThreadSem.count ≠ 0) : Sound (x.threadStep answer) := by
  unfold threadStep
  cases hpc : x.pc with
  | take =>
    simp only [semTake]
    split
    · exact ⟨h.reconnect, fun hp => by simp at hp⟩
    · exact h
  | loop =>
    refine ⟨h.reconnect, ?_⟩
    intro hp hc
    simp only at hp hc
    simp [hc] at hp
  | poll =>
    simp only
    split
    next hp => exact ⟨h.reconnect, fun _ hc => hok (.inl ⟨hpc, hp⟩) hc⟩
    next => exact h.of_pc (by simp)
  | live =>
    simp only
    split
    next => exact h.of_pc (by simp)
    next =>
      split
      next hl => exact ⟨h.reconnect, fun _ hc => hok (.inr ⟨hpc, hl⟩) hc⟩
      next => exact h.of_pc (by simp)
  | input =>
    simp only
    split
    next =>
      split
      next => exact sound_deliverDisconnect x .abort
      next => exact h.of_pc (by simp)
    next => exact h.of_pc (by simp)
  | err => exact h.of_pc (by split <;> simp)
  | nval => exact h.of_pc (by split <;> simp)
  | abort => exact sound_deliverDisconnect x .take

/-- A silent way out, while the state says connected and the semaphore is not given, wedges. -/
theorem not_neverWedged_of_breaks {x : Process} {answer : ProcessAnswer} (hb : Breaks x answer)
    (hc : x.cloud.cloudState = .connected) (hsem : x.cloud.pyrinasCloudThreadSem.count = 0) :
    ¬ NeverWedged (x.threadStep answer) := by
  have hout : x.threadStep answer = { x with pc := .take } := by
    rcases hb with ⟨hpc, hp⟩ | ⟨hpc, h0, hagain⟩
    · simp only [threadStep, hpc, if_pos hp]
    · simp only [threadStep, hpc, if_neg h0, if_pos (And.intro h0 hagain)]
  intro hP
  rw [hout] at hP
  have hdis := (hP rfl hsem).1
  simp only [hc] at hdis
  cases hdis

theorem sound_step (x : Process) (e : ProcessEvent) (h : Sound x) (hok : BreaksNoticed x e) :
    Sound (x.step B e) := by
  cases e with
  | cloud e =>
    obtain ⟨hconn, hdis⟩ := Cloud.link_step (B := B) (s := x.cloud) (e := e)
    refine ⟨hdis h.reconnect, ?_⟩
    intro hpc hc
    rcases hconn hc with hone | ⟨hold, hsame⟩
    · exact hone
    · change (x.cloud.step B e).pyrinasCloudThreadSem.count ≠ 0
      rw [hsame]
      exact h.given hpc hold
  | thread answer =>
    simp only [step]
    split
    next hrun => exact sound_threadStep h (hok hrun)
    next => exact h

/-- **The client never wedges exactly while the silent ways out are taken with nothing to lose**:
disconnected, or with the semaphore given. -/
theorem neverWedged_iff_breaksNoticed (s : Cloud) (es : List ProcessEvent) :
    Always (step B) NeverWedged (start s) es ↔ Meets (step B) BreaksNoticed (start s) es := by
  refine always_iff_meets sound_step (fun _ => Sound.neverWedged) ?_ (sound_start s) es
  intro x e h hbad
  cases e with
  | cloud e => exact absurd trivial hbad
  | thread answer =>
    simp only [BreaksNoticed, not_forall, not_not] at hbad
    obtain ⟨hrun, hb, hc, hsem⟩ := hbad
    rw [step, if_pos hrun]
    exact not_neverWedged_of_breaks hb hc hsem

/-- The thread has taken the semaphore and is served by `poll`, which fails. -/
theorem not_neverWedged_poll_fails :
    ¬ Always (step sampleBuild) NeverWedged (start Cloud.boot)
      (List.replicate 3 (.thread ⟨-1, ⟨false, false, false⟩, 0, 0⟩)) := by
  intro h
  have hdis := (h.last (by decide) (by decide)).1
  revert hdis
  decide

end Process

end Pyrinas
