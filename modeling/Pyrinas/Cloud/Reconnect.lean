import Pyrinas.Cloud.Cbor

/-!
# Cloud/Reconnect — when the reconnect chain stops

`cloud_state_callback` submits `reconnect_work` when the client is disconnected, and
`reconnect_work_fn` submits it again unless `pyrinas_cloud_connect` returns 0 or `EINPROGRESS`.  But
a client that is connected returns `-EINPROGRESS`: a run that finds the link up is not the last one.

    disconnected ─▸ reconnect_work ─▸ connected by another path ─▸ reconnect_work_fn ─▸ …
                                                                     └───10 s───┘
-/

open Machinery

namespace Pyrinas

/-- A run of `reconnect_work_fn`: the state it found, and whether it left another run scheduled. -/
structure ReconnectRun where
  found : CloudState
  scheduled : Bool
  deriving DecidableEq

/-- The client and the runs of `reconnect_work_fn`; `sinceUp` counts those after a successful
connect, as long as no disconnected state has been notified. -/
structure Reconnecting where
  cloud : Cloud
  runs : List ReconnectRun
  sinceUp : Option ℕ

/-- An event ends in `cloud_state_callback(cloud_state_disconnected)`. -/
def CloudEvent.notifiesDisconnected : CloudEvent → Bool
  | .connack result => result ≠ 0
  | .disconnect => true
  | _ => false

/-- An event is a run of `reconnect_work_fn`. -/
def CloudEvent.runsReconnect (s : Cloud) : CloudEvent → Bool
  | .reconnectWork _ _ => s.status = .running && s.reconnectWork
  | _ => false

namespace Reconnecting

variable (B : CloudBuild)

/-- At boot. -/
def start : Reconnecting := ⟨.boot, [], none⟩

/-- How `sinceUp` goes on, with the client after the event. -/
def sinceUpAfter (x : Reconnecting) (e : CloudEvent) (cloud : Cloud) : Option ℕ :=
  if e.notifiesDisconnected then none
  else if x.cloud.cloudState = .disconnected ∧ cloud.cloudState = .connected then some 0
  else if e.runsReconnect x.cloud then x.sinceUp.map (· + 1)
  else x.sinceUp

/-- One event. -/
def step (x : Reconnecting) (e : CloudEvent) : Reconnecting where
  cloud := x.cloud.step B e
  runs := if e.runsReconnect x.cloud then
      x.runs ++ [⟨x.cloud.cloudState, (x.cloud.step B e).reconnectWork⟩] else x.runs
  sinceUp := x.sinceUpAfter e (x.cloud.step B e)

/-- No run that found the client connected has scheduled another, and since the link is up there has
been at most one. -/
structure ChainStops (x : Reconnecting) : Prop where
  scheduled : ∀ r ∈ x.runs, r.found = .connected → r.scheduled = false
  sinceUp : ∀ n, x.sinceUp = some n → n ≤ 1

/-- `reconnect_work_fn` finds the client disconnected whenever it runs. -/
def RunsWhileDown (x : Reconnecting) (e : CloudEvent) : Prop :=
  e.runsReconnect x.cloud → x.cloud.cloudState = .disconnected

end Reconnecting

namespace Cloud

variable {B : CloudBuild} {s : Cloud} {e : CloudEvent}

theorem cloudState_connect (s : Cloud) (initErr connErr : ℕ) (hc : s.cloudState = .connected) :
    s.connect initErr connErr = (-eInProgress, s) := if_pos hc

/-- **A run that finds the client connected schedules the next one.** -/
theorem step_reconnectWork_connected (hrun : s.status = .running) (hw : s.reconnectWork)
    (hc : s.cloudState = .connected) (initErr connErr : ℕ) :
    s.step B (.reconnectWork initErr connErr) = s := by
  have hagain : -eInProgress ≠ 0 ∧ -eInProgress ≠ eInProgress := by decide
  rw [step_of_running hrun, handle, if_pos hw, reconnectWorkFn,
    cloudState_connect { s with reconnectWork := false } initErr connErr hc]
  simp only [if_pos hagain]
  cases s
  subst hw
  rfl

/-- **A connection does not end without a notification.** -/
theorem connected_step (hc : s.cloudState = .connected) (hn : e.notifiesDisconnected = false) :
    (s.step B e).cloudState = .connected := by
  have hstep := canStep B s e
  generalize s.step B e = s' at hstep ⊢
  cases hstep with
  | connect initErr connErr => rwa [cloudState_connect s initErr connErr hc]
  | reconnectWork initErr connErr =>
    simp only [reconnectWorkFn, cloudState_connect { s with reconnectWork := false } _ _ hc]
    split_ifs <;> exact hc
  | connack result =>
    have h0 : result = 0 := by simpa [CloudEvent.notifiesDisconnected] using hn
    simpa [connackEvt, h0] using hc
  | disconnect => simp [CloudEvent.notifiesDisconnected] at hn
  | otaMessage =>
    unfold otaMessage
    dsimp only
    split
    · exact hc
    · split_ifs <;> exact hc
  | fotaWork start =>
    unfold fotaStartFn fotaStartResult
    split
    · exact hc
    · dsimp only
      split <;> exact hc
  | suback result messageId =>
    simp only [subackEvt]
    split_ifs <;> exact hc
  | onConnectWork rand subRand =>
    simp only [onConnectFn]
    split_ifs <;> exact hc
  | otaCheckSubscribedWork =>
    simp only [otaCheckSubscribedWorkFn]
    split_ifs <;> exact hc
  | fotaEvt id => cases id <;> exact hc
  | idle | telemetryCheck | publishTelemetryWork | otaRequestWork | otaDoneWork | otaRebootWork =>
    exact hc

end Cloud

namespace Reconnecting

variable {B : CloudBuild}

/-! ## The exact condition -/

/-- No run has found the client connected, so there has been none since the link is up. -/
structure Sound (x : Reconnecting) : Prop where
  found : ∀ r ∈ x.runs, r.found = .disconnected
  up : ∀ n, x.sinceUp = some n → n = 0 ∧ x.cloud.cloudState = .connected

theorem sound_start : Sound start :=
  ⟨fun r hr => absurd hr List.not_mem_nil, fun n hn => by simp [start] at hn⟩

theorem Sound.chainStops {x : Reconnecting} (h : Sound x) : ChainStops x := by
  refine ⟨fun r hr hc => ?_, fun n hn => ?_⟩
  · rw [h.found r hr] at hc
    cases hc
  · rw [(h.up n hn).1]
    exact Nat.zero_le 1

theorem sound_step (x : Reconnecting) (e : CloudEvent) (h : Sound x) (hok : RunsWhileDown x e) :
    Sound (x.step B e) := by
  refine ⟨?_, fun n hn => ?_⟩
  · simp only [step]
    split_ifs with hrun
    · exact List.forall_mem_append.mpr ⟨h.found, List.forall_mem_singleton.mpr (hok hrun)⟩
    · exact h.found
  · have hn' : x.sinceUpAfter e (x.cloud.step B e) = some n := hn
    unfold sinceUpAfter at hn'
    split_ifs at hn' with hnote hup hrun
    · exact ⟨(Option.some.inj hn').symm, hup.2⟩
    · -- the link was up, so this was no run
      obtain ⟨m, hm, -⟩ := Option.map_eq_some_iff.mp hn'
      have hdown := hok hrun
      rw [(h.up m hm).2] at hdown
      cases hdown
    · obtain ⟨h0, hc⟩ := h.up n hn'
      exact ⟨h0, Cloud.connected_step hc (by simpa using hnote)⟩

/-- A run while the link is up. -/
theorem not_chainStops_step {x : Reconnecting} {e : CloudEvent} (hbad : ¬ RunsWhileDown x e) :
    ¬ ChainStops (x.step B e) := by
  simp only [RunsWhileDown, not_forall] at hbad
  obtain ⟨hruns, hup⟩ := hbad
  have hc : x.cloud.cloudState = .connected := by
    cases hs : x.cloud.cloudState with
    | disconnected => exact absurd hs hup
    | connected => rfl
  intro h
  cases e with
  | reconnectWork initErr connErr =>
    have hrun := hruns
    simp only [CloudEvent.runsReconnect, Bool.and_eq_true, decide_eq_true_eq] at hrun
    have hlast := h.scheduled
      ⟨x.cloud.cloudState, (x.cloud.step B (.reconnectWork initErr connErr)).reconnectWork⟩
      (by simp only [step, if_pos hruns]; exact List.mem_append_right _ List.mem_cons_self) hc
    rw [Cloud.step_reconnectWork_connected hrun.1 hrun.2 hc] at hlast
    exact absurd (hrun.2.symm.trans hlast) (by decide)
  | _ => simp [CloudEvent.runsReconnect] at hruns

/-- **The reconnect chain stops exactly when no run finds the client connected.** -/
theorem chainStops_iff_runsWhileDown (B : CloudBuild) (es : List CloudEvent) :
    Always (step B) ChainStops start es ↔ Meets (step B) RunsWhileDown start es :=
  always_iff_meets sound_step (fun _ => Sound.chainStops) (fun _ _ _ => not_chainStops_step)
    sound_start es

/-- Disconnected, connected again by the application, and then the delayed work. -/
theorem not_chainStops_app_connect :
    ¬ Always (step sampleBuild) ChainStops start
      [.connect 0 0, .disconnect, .connect 0 0, .reconnectWork 0 0] := by
  intro h
  have hlast := h.last.scheduled ⟨.connected, true⟩ (by decide +kernel) rfl
  cases hlast

end Reconnecting

end Pyrinas
