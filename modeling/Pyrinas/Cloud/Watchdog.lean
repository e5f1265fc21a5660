import Pyrinas.Cloud.Process
import Pyrinas.Cloud.Reconnect
import Pyrinas.Machinery.Refinement

/-!
# Cloud/Watchdog — whom the watchdog resets

The watchdog resets the device unless it is fed every minute.  `pyrinas_cloud_process` feeds it when
it has waited 55 seconds for the semaphore, and whenever it goes round in the loop, where `poll`
waits no longer than the keepalive, 55 seconds in the sample.  Each of the two waits is short
enough, but between the end of a connection and the next feed there may be both.

    feed ──poll, up to the keepalive──▸ mqtt_abort ──k_sem_take, 55 s──▸ feed        60 s ─▸ reset

Time passes here only while the thread waits: computing takes none.
-/

open Machinery

namespace Pyrinas

/-- `window.max` of `wdt_settings`, in milliseconds. -/
def wdtWindowMax : ℕ := 60000

theorem zero_lt_wdtWindowMax : 0 < wdtWindowMax := by decide

/-- `K_SECONDS(55)`, in milliseconds. -/
def semTimeout : ℕ := 55000

/-- The thread with its watchdog: `wdt_started_s`, and whether `wdt_setup` has succeeded; the
milliseconds since the watchdog was fed, and those for which the thread has been waiting; whether
the watchdog has reset the device. -/
structure Watched where
  process : Process
  wdtStarted : Bool
  wdtRunning : Bool
  sinceFed : ℕ
  waited : ℕ
  reset : Bool

/-- Something happens to the client; the thread goes one step, with what `wdt_setup` answers; or
milliseconds pass. -/
inductive WatchedEvent
  | cloud (e : CloudEvent)
  | thread (answer : ProcessAnswer) (setupErr : ℤ)
  | pass (ms : ℕ)

namespace Watched

variable (B : CloudBuild) (keepalive : ℕ)

/-- At boot. -/
def boot : Watched where
  process := ⟨.boot, .take, ⟨false, false, false⟩⟩
  wdtStarted := false
  wdtRunning := false
  sinceFed := 0
  waited := 0
  reset := false

/-- How long the thread may wait where it is: for the semaphore, or in `poll` for what
`mqtt_keepalive_time_left` answers at most. -/
def waitLimit (x : Watched) : ℕ :=
  match x.process.pc with
  | .take => if x.process.cloud.pyrinasCloudThreadSem.count = 0 then semTimeout else 0
  | .poll => keepalive
  | _ => 0

/-- Time passes, as far as the thread waits. -/
def pass (x : Watched) (ms : ℕ) : Watched :=
  let ms := min ms (x.waitLimit keepalive - x.waited)
  { x with
    sinceFed := x.sinceFed + ms
    waited := x.waited + ms
    reset := x.wdtRunning && wdtWindowMax ≤ x.sinceFed + ms }

/-- `wdt_feed` -/
def feed (x : Watched) : Watched := { x with sinceFed := 0 }

/-- `wdt_setup`, by the first to come this far. -/
def wdtSetup (x : Watched) (setupErr : ℤ) : Watched :=
  if x.wdtStarted then x
  else { x with wdtStarted := true, wdtRunning := setupErr = 0, sinceFed := 0 }

/-- The thread goes on to its next call. -/
def goOn (x : Watched) (answer : ProcessAnswer) : Watched :=
  { x with process := x.process.threadStep answer, waited := 0 }

/-- One step of the thread. -/
def threadStep (x : Watched) (answer : ProcessAnswer) (setupErr : ℤ) : Watched :=
  match x.process.pc with
  | .take =>
    if 0 < x.process.cloud.pyrinasCloudThreadSem.count then (x.wdtSetup setupErr).goOn answer
    else if x.waited < semTimeout then x
    else if x.wdtStarted then x.feed.goOn answer
    else x.goOn answer
  | .loop => if x.process.cloud.cloudState = .connected then x.feed.goOn answer else x.goOn answer
  | _ => x.goOn answer

/-- One event. -/
def step (x : Watched) (e : WatchedEvent) : Watched :=
  if x.reset ∨ x.process.cloud.status ≠ .running then x
  else match e with
    | .cloud e => { x with process := x.process.step B (.cloud e) }
    | .thread answer setupErr => x.threadStep answer setupErr
    | .pass ms => x.pass keepalive ms

/-- What the thread and the client do at an event. -/
def steps (x : Watched) (e : WatchedEvent) : List ProcessEvent :=
  if x.reset ∨ x.process.cloud.status ≠ .running then []
  else match e with
    | .cloud e => [.cloud e]
    | .thread answer _ => [.thread answer]
    | .pass _ => []

/-- A connection that the thread is told of lives until it has looked at `cloud_state_s`. -/
def SeenFirst (x : Watched) : WatchedEvent → Prop
  | .cloud e => e.notifiesDisconnected → x.process.pc ≠ .loop ∧
      (x.process.pc = .take → x.process.cloud.pyrinasCloudThreadSem.count = 0)
  | _ => True

/-- How long ago the watchdog was fed, by where the thread is. -/
def Fed (x : Watched) : Prop :=
  match x.process.pc with
  | .take => x.waited ≤ semTimeout ∧ x.sinceFed ≤ keepalive + x.waited ∧
      (0 < x.waited → x.process.cloud.pyrinasCloudThreadSem.count ≠ 0 →
        x.process.cloud.cloudState = .connected)
  | .loop => x.process.cloud.cloudState = .connected ∨ x.sinceFed ≤ keepalive
  | .poll => x.sinceFed ≤ x.waited ∧ x.waited ≤ keepalive
  | _ => x.sinceFed ≤ keepalive

/-- A watchdog that runs was fed in time; or it has reset the device, where the two waits together
were too long or one was. -/
structure Sound (x : Watched) : Prop where
  fed : x.wdtRunning → x.reset = false → x.Fed keepalive ∧ x.sinceFed < wdtWindowMax
  started : x.wdtRunning → x.wdtStarted
  reset : x.reset → wdtWindowMax ≤ keepalive ∨
    (x.process.pc = .take ∧ wdtWindowMax ≤ keepalive + semTimeout)

end Watched

namespace Cloud

variable {B : CloudBuild} {s : Cloud} {e : CloudEvent}

/-- **The semaphore is given with a connection.** -/
theorem given_step (s : Cloud) (e : CloudEvent) :
    (s.step B e).pyrinasCloudThreadSem = s.pyrinasCloudThreadSem ∨
      (s.step B e).cloudState = .connected := by
  have hstep := canStep B s e
  generalize s.step B e = s' at hstep ⊢
  cases hstep with
  | connect initErr connErr =>
    rcases s.connect_cases initErr connErr with ⟨err, -, heq⟩ | ⟨-, hc, -⟩
    · rw [heq]
      exact .inl rfl
    · exact .inr hc
  | reconnectWork initErr connErr =>
    rcases { s with reconnectWork := false }.connect_cases initErr connErr with
      ⟨err, -, heq⟩ | ⟨h0, hc, -⟩
    · simp only [reconnectWorkFn, heq]
      split_ifs <;> exact .inl rfl
    · simp only [reconnectWorkFn, h0, ne_eq, not_true_eq_false, false_and, if_false]
      exact .inr hc
  | connack result =>
    unfold connackEvt
    split_ifs <;> exact .inl rfl
  | otaMessage =>
    unfold otaMessage
    dsimp only
    split
    · exact .inl rfl
    · split_ifs <;> exact .inl rfl
  | fotaWork start =>
    unfold fotaStartFn fotaStartResult
    split
    · exact .inl rfl
    · dsimp only
      split <;> exact .inl rfl
  | suback result messageId =>
    simp only [subackEvt]
    split_ifs <;> exact .inl rfl
  | onConnectWork rand subRand =>
    simp only [onConnectFn]
    split_ifs <;> exact .inl rfl
  | otaCheckSubscribedWork =>
    simp only [otaCheckSubscribedWorkFn]
    split_ifs <;> exact .inl rfl
  | fotaEvt id => cases id <;> exact .inl rfl
  | idle | disconnect | telemetryCheck | publishTelemetryWork | otaRequestWork | otaDoneWork =>
    exact .inl rfl
  | otaRebootWork => exact .inl rfl

end Cloud

namespace Watched

variable {B : CloudBuild} {keepalive : ℕ} {x : Watched}

/-! ## The thread -/

theorem process_threadStep (x : Watched) (answer : ProcessAnswer) (setupErr : ℤ) :
    (x.threadStep answer setupErr).process = x.process.threadStep answer := by
  unfold threadStep
  split
  next hpc =>
    have htake : x.process.threadStep answer = x.process.semTake := by
      rw [Process.threadStep, hpc]
    split_ifs with hcount
    · unfold wdtSetup
      split_ifs <;> rfl
    · rw [htake, Process.semTake, if_neg hcount]
    · rfl
    · rfl
  next => split_ifs <;> rfl
  next => rfl

/-- **The watchdog changes nothing about the thread** until it resets the device. -/
theorem process_run (B : CloudBuild) (keepalive : ℕ) (es : List WatchedEvent) :
    (run (step B keepalive) boot es).process
      = run (Process.step B) boot.process (trace (step B keepalive) steps boot es) := by
  have hstep : ∀ (x : Watched) (y : Process) (e : WatchedEvent), x.process = y →
      (x.step B keepalive e).process = run (Process.step B) y (x.steps e) := by
    rintro x _ e rfl
    unfold step steps
    split
    next => rfl
    next hlive =>
      cases e with
      | cloud e => rfl
      | thread answer setupErr =>
        have hrun : x.process.cloud.status = .running := by
          by_contra hstopped
          exact hlive (.inr hstopped)
        rw [run_cons, run_nil, Process.step, if_pos hrun]
        exact process_threadStep x answer setupErr
      | pass ms => rfl
  exact refines_run (R := fun (x : Watched) (y : Process) => x.process = y) hstep rfl es

/-! ## A step -/

/-- What happens to the client while the thread is where it is. -/
theorem Fed.cloud (h : x.Fed keepalive) {e : CloudEvent} (hok : x.SeenFirst (.cloud e)) :
    Fed keepalive { x with process := x.process.step B (.cloud e) } := by
  unfold Fed at h ⊢
  simp only [Process.step]
  cases hpc : x.process.pc with
  | take =>
    rw [hpc] at h
    obtain ⟨hwaited, hfed, hgiven⟩ := h
    refine ⟨hwaited, hfed, fun hpos hcount => ?_⟩
    rcases Cloud.given_step (B := B) x.process.cloud e with hsame | hconn
    · rw [hsame] at hcount
      have hquiet : e.notifiesDisconnected = false :=
        Bool.eq_false_iff.mpr fun hends => hcount ((hok hends).2 hpc)
      exact Cloud.connected_step (hgiven hpos hcount) hquiet
    · exact hconn
  | loop =>
    rw [hpc] at h
    have hquiet : e.notifiesDisconnected = false :=
      Bool.eq_false_iff.mpr fun hends => (hok hends).1 hpc
    exact h.imp_left fun hconn => Cloud.connected_step hconn hquiet
  | poll | live | input | err | nval | abort =>
    rw [hpc] at h
    exact h

/-- Where the thread waits, time passes at most until its wait is over. -/
theorem Fed.pass (h : x.Fed keepalive) {ms : ℕ} (hms : ms ≤ x.waitLimit keepalive - x.waited) :
    Fed keepalive { x with sinceFed := x.sinceFed + ms, waited := x.waited + ms } ∧
      (ms ≠ 0 → x.sinceFed + ms ≤ keepalive ∨
        (x.process.pc = .take ∧ x.sinceFed + ms ≤ keepalive + semTimeout)) := by
  unfold Fed at h ⊢
  unfold waitLimit at hms
  cases hpc : x.process.pc with
  | take =>
    rw [hpc] at h hms
    obtain ⟨hwaited, hfed, hgiven⟩ := h
    dsimp only at hms ⊢
    split_ifs at hms with hcount
    · refine ⟨⟨by omega, by omega, fun _ hne => absurd hcount hne⟩, fun _ => .inr ⟨rfl, by omega⟩⟩
    · obtain rfl : ms = 0 := by omega
      exact ⟨⟨hwaited, hfed, hgiven⟩, fun hne => absurd rfl hne⟩
  | poll =>
    rw [hpc] at h hms
    dsimp only at h hms ⊢
    exact ⟨⟨by omega, by omega⟩, fun _ => .inl (by omega)⟩
  | loop | live | input | err | nval | abort =>
    rw [hpc] at h hms
    obtain rfl : ms = 0 := by
      dsimp only at hms
      omega
    exact ⟨h, fun hne => absurd rfl hne⟩

/-- **The watchdog fires only behind a wait that was too long.** -/
theorem Sound.pass (h : x.Sound keepalive) (hreset : x.reset = false) (ms : ℕ) :
    (x.pass keepalive ms).Sound keepalive := by
  unfold Watched.pass
  dsimp only
  set m := min ms (x.waitLimit keepalive - x.waited)
  refine ⟨fun hrun hnot => ?_, h.started, fun hfired => ?_⟩
  · obtain ⟨hfed, -⟩ := h.fed hrun hreset
    refine ⟨(hfed.pass (Nat.min_le_right _ _)).1, ?_⟩
    simpa [show x.wdtRunning = true from hrun] using hnot
  · simp only [Bool.and_eq_true, decide_eq_true_eq] at hfired
    obtain ⟨hrun, hlate⟩ := hfired
    obtain ⟨hfed, hbefore⟩ := h.fed hrun hreset
    have hpassed : m ≠ 0 := by omega
    rcases (hfed.pass (Nat.min_le_right _ _)).2 hpassed with hle | ⟨hpc, hle⟩
    · exact .inl (hlate.trans hle)
    · exact .inr ⟨hpc, hlate.trans hle⟩

/-- A thread that begins to wait has fed the watchdog not longer ago than a keepalive. -/
theorem fed_of_le (hwaited : x.waited = 0) (hle : x.sinceFed ≤ keepalive)
    (hpoll : x.process.pc = .poll → x.sinceFed = 0) : x.Fed keepalive := by
  unfold Fed
  cases hpc : x.process.pc with
  | take =>
    dsimp only
    exact ⟨by omega, by omega, fun hpos => absurd hwaited hpos.ne'⟩
  | loop => exact .inr hle
  | poll =>
    have hzero := hpoll hpc
    dsimp only
    omega
  | live | input | err | nval | abort => exact hle

/-- Only the condition of the loop leads to `poll`. -/
theorem pc_threadStep_ne_poll {y : Process} (h : y.pc ≠ .loop) (answer : ProcessAnswer) :
    (y.threadStep answer).pc ≠ .poll := by
  unfold Process.threadStep
  cases hpc : y.pc with
  | loop => exact absurd hpc h
  | take =>
    simp only [Process.semTake]
    split
    · simp
    · simp [hpc]
  | poll | live | err | nval =>
    dsimp only
    split_ifs <;> simp
  | input =>
    dsimp only
    split_ifs <;> simp
  | abort => simp

theorem fed_goOn (hpc : x.process.pc ≠ .loop) (answer : ProcessAnswer)
    (hle : x.sinceFed ≤ keepalive) : (x.goOn answer).Fed keepalive :=
  fed_of_le rfl hle fun hpoll => absurd hpoll (pc_threadStep_ne_poll hpc answer)

/-- The thread has got the semaphore, and sets the watchdog up if nobody has. -/
theorem Sound.semTaken (h : x.Sound keepalive) (hreset : x.reset = false)
    (hpc : x.process.pc = .take) (hcount : 0 < x.process.cloud.pyrinasCloudThreadSem.count)
    (answer : ProcessAnswer) (setupErr : ℤ) :
    ((x.wdtSetup setupErr).goOn answer).Sound keepalive := by
  unfold wdtSetup
  split_ifs with hstarted
  · refine ⟨fun hrun _ => ?_, fun _ => hstarted, fun hr => absurd (hreset ▸ hr) (by simp)⟩
    obtain ⟨hfed, hbefore⟩ := h.fed hrun hreset
    refine ⟨?_, hbefore⟩
    simp only [Fed, hpc] at hfed
    obtain ⟨-, hle, hgiven⟩ := hfed
    rcases Nat.eq_zero_or_pos x.waited with hzero | hpos
    · exact fed_goOn (by simp [hpc]) answer (by omega)
    · have hloop : (x.goOn answer).process.pc = .loop := by
        simp [goOn, Process.threadStep, hpc, Process.semTake, hcount]
      have hconn : (x.goOn answer).process.cloud.cloudState = .connected := by
        simp only [goOn, Process.threadStep, hpc, Process.semTake, if_pos hcount]
        exact hgiven hpos hcount.ne'
      simp only [Fed, hloop]
      exact .inl hconn
  · refine ⟨fun _ _ => ⟨?_, zero_lt_wdtWindowMax⟩, fun _ => rfl,
      fun hr => absurd (hreset ▸ hr) (by simp)⟩
    exact fed_goOn (by simp [hpc]) answer (Nat.zero_le _)

/-- **The thread feeds the watchdog in time, or has been waiting.** -/
theorem Sound.threadStep (h : x.Sound keepalive) (hreset : x.reset = false) (answer : ProcessAnswer)
    (setupErr : ℤ) : (x.threadStep answer setupErr).Sound keepalive := by
  have hgone : ∀ {y : Watched}, y.reset = false → ¬ y.reset = true := fun hr ht => by
    rw [hr] at ht
    cases ht
  unfold Watched.threadStep
  cases hpc : x.process.pc with
  | take =>
    dsimp only
    split_ifs with hcount hwaits hstarted
    · exact h.semTaken hreset hpc hcount answer setupErr
    · exact h
    · refine ⟨fun _ _ => ⟨?_, zero_lt_wdtWindowMax⟩, fun _ => hstarted,
        fun hr => absurd hr (hgone hreset)⟩
      exact fed_goOn (by simp [feed, hpc]) answer (Nat.zero_le _)
    · exact ⟨fun hrun => absurd (h.started hrun) hstarted, h.started,
        fun hr => absurd hr (hgone hreset)⟩
  | loop =>
    dsimp only
    split_ifs with hconn
    · have hfed : (x.feed.goOn answer).Fed keepalive :=
        fed_of_le rfl (Nat.zero_le _) fun _ => rfl
      exact ⟨fun _ _ => ⟨hfed, zero_lt_wdtWindowMax⟩, h.started,
        fun hr => absurd hr (hgone hreset)⟩
    · refine ⟨fun hrun _ => ?_, h.started, fun hr => absurd hr (hgone hreset)⟩
      obtain ⟨hfed, hbefore⟩ := h.fed hrun hreset
      simp only [Fed, hpc] at hfed
      refine ⟨fed_of_le rfl (hfed.resolve_left hconn) fun hpoll => ?_, hbefore⟩
      simp [goOn, Process.threadStep, hpc, hconn] at hpoll
  | poll | live | input | err | nval | abort =>
    refine ⟨fun hrun _ => ?_, h.started, fun hr => absurd hr (hgone hreset)⟩
    obtain ⟨hfed, hbefore⟩ := h.fed hrun hreset
    simp only [Fed, hpc] at hfed
    exact ⟨fed_goOn (by simp [hpc]) answer (by omega), hbefore⟩

theorem sound_step (x : Watched) (e : WatchedEvent) (h : x.Sound keepalive)
    (hok : x.SeenFirst e) : (x.step B keepalive e).Sound keepalive := by
  unfold step
  split
  next => exact h
  next hlive =>
    have hreset : x.reset = false := by
      rw [not_or] at hlive
      exact Bool.eq_false_iff.mpr hlive.1
    cases e with
    | cloud e =>
      refine ⟨fun hrun _ => ?_, h.started, fun hr => ?_⟩
      · obtain ⟨hfed, hbefore⟩ := h.fed hrun hreset
        exact ⟨hfed.cloud hok, hbefore⟩
      · rw [hreset] at hr
        cases hr
    | thread answer setupErr => exact h.threadStep hreset answer setupErr
    | pass ms => exact h.pass hreset ms

/-! ## A run -/

theorem sound_boot (keepalive : ℕ) : boot.Sound keepalive where
  fed h := by cases h
  started h := by cases h
  reset h := by cases h

end Watched

end Pyrinas
