import Pyrinas.Rtc.Soundness

/-!
# Rtc/Completeness — an alarm that was set is reported

When `set_alarm` has returned 0 the timer counts the ticks it was asked for, or the flag is set
already.  The flag stays until the next call, so no alarm is missed, whatever failed before and
wherever the timer expired; only of a multiple of 256 ticks nothing is left to count.

    set_alarm ⋯ returns 0 ──elapse──▸ due ──expire──▸ TF ──elapse──▸ get_pending_int = 1
-/

open Machinery

namespace Pyrinas

namespace Pcf85063a

/-! ## Between calls -/

/-- The timer holds the ticks, and has counted down from them at most once the flag is set. -/
structure Counting (ticks : UInt32) (c : Chip) : Prop where
  value : c.timerValue = ticks.toUInt8
  began : c.Flag ∨ c.started = c.loaded

/-- It counts seconds. -/
structure Armed (ticks : UInt32) (c : Chip) : Prop extends Counting ticks c where
  enabled : c.timerMode &&& timerModeEn ≠ 0
  rate : c.timerMode &&& timerModeFreqMask = timerModeFreq1 <<< timerModeFreqShift

variable {ticks : UInt32} {c : Chip}

/-- A flag that is set stays set. -/
theorem flag_expire (h : c.Flag ∨ c.Ripe) : c.expire.Flag := by
  have hset : ∀ b : UInt8, (b ||| ctrl2TF) &&& ctrl2TF ≠ 0 := by
    rintro ⟨b⟩
    revert b
    decide +kernel
  by_cases hr : c.Ripe
  · rw [expire_of_ripe hr]
    exact hset c.ctrl2
  · rw [expire_of_not_ripe hr]
    exact h.resolve_right hr

@[simp] theorem timerValue_expire (c : Chip) : c.expire.timerValue = c.timerValue := by
  unfold Chip.expire
  split <;> rfl

@[simp] theorem timerMode_expire (c : Chip) : c.expire.timerMode = c.timerMode := by
  unfold Chip.expire
  split <;> rfl

@[simp] theorem loaded_expire (c : Chip) : c.expire.loaded = c.loaded := by
  unfold Chip.expire
  split <;> rfl

theorem Counting.elapse (h : Counting ticks c) (n : ℕ) : Counting ticks (c.elapse n) :=
  ⟨h.value, h.began⟩

theorem Counting.expire (h : Counting ticks c) : Counting ticks c.expire := by
  refine ⟨(timerValue_expire c).trans h.value, ?_⟩
  by_cases hr : c.Ripe
  · exact .inl (flag_expire (.inr hr))
  · rw [expire_of_not_ripe hr]
    exact h.began

theorem Armed.elapse (h : Armed ticks c) (n : ℕ) : Armed ticks (c.elapse n) :=
  ⟨h.toCounting.elapse n, h.enabled, h.rate⟩

theorem Armed.expire (h : Armed ticks c) : Armed ticks c.expire := by
  refine ⟨h.toCounting.expire, ?_, ?_⟩
  · rw [timerMode_expire]
    exact h.enabled
  · rw [timerMode_expire]
    exact h.rate

/-- **The time of the alarm has come**: the timer expires, or has. -/
theorem Armed.flag_of_due (h : Armed ticks c) (hticks : ¬ 256 ∣ ticks.toNat)
    (hdue : (⟨ticks, c.loaded⟩ : Alarm).due ≤ c.now) : c.Flag ∨ c.Ripe := by
  refine h.began.imp id fun hstarted => ?_
  have hvalue : c.timerValue.toNat = ticks.toNat % 256 := by
    rw [h.value, UInt32.toNat_toUInt8]
  have hrun : c.Running := by
    refine ⟨h.enabled, fun hzero => hticks (Nat.dvd_of_mod_eq_zero ?_)⟩
    rw [← hvalue, hzero]
    rfl
  have hcount : c.countdown = c.timerValue.toNat * 4096 := by
    rw [Chip.countdown, h.rate]
    rfl
  refine ⟨hrun, ?_⟩
  calc c.started + c.countdown
      = c.loaded + ticks.toNat % 256 * 4096 := by rw [hstarted, hcount, hvalue]
    _ ≤ c.loaded + ticks.toNat * 4096 :=
        Nat.add_le_add_left (Nat.mul_le_mul_right _ (Nat.mod_le _ _)) _
    _ ≤ c.now := hdue

/-! ## Within a call -/

/-- Any transaction may fail. -/
def Answers (t : Transaction) (c : Chip) (answer : Int32 × UInt8) (c' : Chip) : Prop :=
  ∃ err applied, (answer, c') = c.transact err applied t

theorem Counting.roams {t : Transaction} {c' : Chip} (h : Counting ticks c)
    (hr : Roams t c c') : Counting ticks c' := by
  rcases hr with ⟨n, rfl⟩ | rfl
  · exact h.elapse n
  · exact h.expire

/-- After a `set_alarm` that returned 0. -/
def Arms (ticks : UInt32) (ret : Int32) (c : Chip) : Prop := ret = 0 → Armed ticks c

/-- The mode that `set_alarm` asks for, written or found. -/
theorem Counting.arm (h : Counting ticks c) (old : UInt8)
    (hmode : c.timerMode = updated (timerModeFreqMask ||| timerModeEn ||| timerModeIntEn)
      (timerModeFreq1 <<< timerModeFreqShift ||| timerModeEn ||| timerModeIntEn) old) :
    Armed ticks c := by
  refine ⟨h, ?_, ?_⟩
  · rw [hmode]
    exact mode_enabled old
  · rw [hmode]
    exact mode_set old

/-- The timer is enabled last. -/
theorem wp_arm (h : Counting ticks c) :
    (i2cRegUpdateByte .timerMode (timerModeFreqMask ||| timerModeEn ||| timerModeIntEn)
      (timerModeFreq1 <<< timerModeFreqShift ||| timerModeEn ||| timerModeIntEn)).wp
        Roams Answers (Arms ticks) c := by
  refine Prog.wp_call (fun _ _ => Counting.roams) ?_ h
  rintro c answer c' hc ⟨err, applied, hact⟩
  obtain ⟨rfl, rfl⟩ := Prod.mk.inj hact
  rw [Prog.ret_bind]
  dsimp only
  split
  next herr => exact fun hzero => absurd hzero herr
  next =>
    split
    next hsame => exact fun _ => hc.arm c'.timerMode hsame.symm
    next =>
      refine Prog.wp_call (fun _ _ => Counting.roams) ?_ hc
      rintro c answer c'' hc ⟨err, applied, hact⟩ hzero
      obtain ⟨rfl, rfl⟩ := Prod.mk.inj hact
      obtain rfl : err = 0 := hzero
      rw [if_pos (.inl rfl)]
      exact Counting.arm ⟨hc.value, hc.began⟩ _ rfl

/-- **`set_alarm` arms the timer, or fails.** -/
theorem wp_setAlarm_arms (ticks : UInt32) (c : Chip) :
    (setAlarm ticks).wp Roams Answers (Arms ticks) c := by
  refine Prog.wp_bind.mpr (Prog.wp_of_forall ?_ _ _)
  intro ret c
  split
  next hret => exact fun hzero => absurd hzero hret
  next =>
    refine Prog.wp_call (A := fun _ => True) (fun _ _ _ _ => trivial) ?_ trivial
    rintro c answer c' - ⟨err, applied, hact⟩
    obtain ⟨rfl, rfl⟩ := Prod.mk.inj hact
    rw [Prog.ret_bind]
    dsimp only
    split
    next herr => exact fun hzero => absurd hzero herr
    next herr =>
      rw [if_pos (.inl (not_not.mp herr))]
      exact wp_arm ⟨rfl, .inr rfl⟩

/-! ## Runs -/

namespace Rtc

/-- A `set_alarm` in progress is going to arm the timer. -/
def Arming (x : Rtc) : Prop :=
  ∀ w ticks, x.waiting = some w → w.call = .setAlarm ticks →
    (Prog.call w.transaction w.next).wp Roams Answers (Arms ticks) x.chip

/-- The event calls a function that changes the alarm. -/
def Sets : RtcEvent → Prop
  | .setAlarm _ | .cancelAlarm => True
  | _ => False

/-- The event is the transaction with which a `set_alarm` returns 0. -/
def Succeeds (x : Rtc) (ticks : UInt32) (e : RtcEvent) : Prop :=
  ∃ w err applied, x.waiting = some w ∧ w.call = .setAlarm ticks ∧
    e = .transaction err applied ∧
    w.next (x.chip.transact err applied w.transaction).1 = .ret 0

variable {x : Rtc}

theorem arming_goOn {call : Call} {p : Driver Int32}
    (h : ∀ ticks, call = .setAlarm ticks → p.wp Roams Answers (Arms ticks) x.chip) :
    (x.goOn call p).Arming := by
  rintro w ticks hw hcall
  cases p with
  | ret ret => cases hw
  | call transaction next =>
    obtain rfl := Option.some.inj hw
    exact h ticks hcall

theorem arming_chip {c : Chip} (h : x.Arming) (hr : ∀ t, Roams t x.chip c) :
    Arming { x with
      chip := c
      pending := none } :=
  fun w ticks hw hcall => Prog.wp_of_rely (h w ticks hw hcall) (hr w.transaction)

theorem arming_step (x : Rtc) (e : RtcEvent) (h : x.Arming) : (x.step e).Arming := by
  cases e with
  | setAlarm ticks =>
    simp only [step]
    split
    · refine arming_goOn ?_
      rintro _ ⟨rfl⟩
      exact wp_setAlarm_arms ticks x.chip
    · exact h
  | cancelAlarm =>
    simp only [step]
    split
    · exact arming_goOn fun _ hcall => Call.noConfusion hcall
    · exact h
  | getPendingInt err =>
    simp only [step]
    split
    next hw =>
      intro w ticks hw'
      cases hw.symm.trans hw'
    next => exact h
  | transaction err applied =>
    simp only [step]
    split
    next => exact h
    next w hw =>
      exact arming_goOn fun ticks hcall =>
        Prog.wp_of_acts (h w ticks hw hcall) ⟨err, applied, rfl⟩
  | elapse n => exact arming_chip h fun _ => .inl ⟨n, rfl⟩
  | expire => exact arming_chip h fun _ => .inr rfl

/-- No call is in progress, and the alarm in force is one that the timer counts. -/
structure Awaits (ticks : UInt32) (x : Rtc) : Prop where
  waiting : x.waiting = none
  alarm : x.alarm = some ⟨ticks, x.chip.loaded⟩
  armed : Armed ticks x.chip

/-- No call is in progress, and the flag is set. -/
structure Reports (x : Rtc) : Prop where
  waiting : x.waiting = none
  flag : x.chip.Flag

theorem Arming.awaits {e : RtcEvent} (h : x.Arming) (he : x.Succeeds ticks e) :
    (x.step e).Awaits ticks := by
  obtain ⟨w, err, applied, hw, hcall, rfl, hret⟩ := he
  have harmed : (w.next (x.chip.transact err applied w.transaction).1).wp Roams Answers
      (Arms ticks) (x.chip.transact err applied w.transaction).2 :=
    Prog.wp_of_acts (h w ticks hw hcall) ⟨err, applied, rfl⟩
  rw [hret] at harmed
  simp only [step, hw, hret, goOn, if_pos]
  exact ⟨rfl, by rw [hcall]; rfl, harmed rfl⟩

/-- What an event does that is not a call, when no call is in progress. -/
theorem step_idle (hw : x.waiting = none) {e : RtcEvent} (he : ¬ Sets e) :
    (x.step e).waiting = none ∧ (x.step e).alarm = x.alarm ∧
      ((x.step e).chip = x.chip ∨ Roams (.read .ctrl2) x.chip (x.step e).chip) := by
  cases e with
  | setAlarm ticks => exact absurd trivial he
  | cancelAlarm => exact absurd trivial he
  | getPendingInt err => simp [step, hw, exec_getPendingInt]
  | transaction err applied => simp [step, hw]
  | elapse n => exact ⟨hw, rfl, .inr (.inl ⟨n, rfl⟩)⟩
  | expire => exact ⟨hw, rfl, .inr (.inr rfl)⟩

theorem awaits_step (x : Rtc) (e : RtcEvent) (h : x.Awaits ticks) (he : ¬ Sets e) :
    (x.step e).Awaits ticks := by
  obtain ⟨hw, halarm, hchip⟩ := step_idle h.waiting he
  refine ⟨hw, halarm.trans (h.alarm.trans ?_), ?_⟩
  · rcases hchip with hchip | ⟨n, hchip⟩ | hchip
    · rw [hchip]
    · rw [hchip]
      rfl
    · rw [hchip, loaded_expire]
  · rcases hchip with hchip | ⟨n, hchip⟩ | hchip
    · exact hchip ▸ h.armed
    · exact hchip ▸ h.armed.elapse n
    · exact hchip ▸ h.armed.expire

theorem reports_step (x : Rtc) (e : RtcEvent) (h : x.Reports) (he : ¬ Sets e) :
    (x.step e).Reports := by
  obtain ⟨hw, -, hchip⟩ := step_idle h.waiting he
  refine ⟨hw, ?_⟩
  rcases hchip with hchip | ⟨n, hchip⟩ | hchip
  · exact hchip ▸ h.flag
  · exact hchip ▸ h.flag
  · exact hchip ▸ flag_expire (.inl h.flag)

/-- It comes due, and the timer expires. -/
theorem Awaits.reports (h : x.Awaits ticks) (hticks : ¬ 256 ∣ ticks.toNat) (hdue : x.Due) :
    (x.step .expire).Reports := by
  obtain ⟨alarm, halarm, hdue⟩ := hdue
  obtain rfl := Option.some.inj (h.alarm.symm.trans halarm)
  exact ⟨h.waiting, flag_expire (h.armed.flag_of_due hticks hdue)⟩

theorem Reports.pending (h : x.Reports) : (x.step (.getPendingInt 0)).pending = some 1 := by
  simp only [step, h.waiting, exec_getPendingInt]
  rw [if_neg (not_not.mpr rfl), if_pos h.flag]

/-- **No alarm is missed**: when `set_alarm` has returned 0, and until the next call, every
`get_pending_int` that succeeds returns 1 once the alarm was due and the timer has expired; unless
it was asked for a multiple of 256 ticks. -/
theorem pending_of_succeeds (es : List RtcEvent) (hticks : ¬ 256 ∣ ticks.toNat) {e : RtcEvent}
    (he : (run step reset es).Succeeds ticks e) {fs gs : List RtcEvent}
    (hfs : ∀ e ∈ fs, ¬ Sets e) (hdue : (run step reset (es ++ e :: fs)).Due)
    (hgs : ∀ e ∈ gs, ¬ Sets e) :
    (run step reset (es ++ e :: (fs ++ .expire :: (gs ++ [.getPendingInt 0])))).pending
      = some 1 := by
  have hboot : reset.Arming := fun _ _ hw => by cases hw
  have harming : (run step reset es).Arming := invariant_run_all arming_step hboot es
  simp only [run_append, run_cons, run_nil] at hdue ⊢
  generalize run step reset es = x at he hdue harming ⊢
  have hawaits : (run step (x.step e) fs).Awaits ticks :=
    invariant_run awaits_step (harming.awaits he) (meets_of_forall_mem hfs)
  have hreports := hawaits.reports hticks hdue
  exact (invariant_run reports_step hreports (meets_of_forall_mem hgs)).pending

/-- Two seconds; the flag is read once too soon. -/
theorem pending_of_succeeds_two :
    (run step reset ([.setAlarm 2, .transaction 0 false, .transaction 0 false, .transaction 0 false]
      ++ .transaction 0 false :: ([.elapse 8192, .getPendingInt 0]
        ++ .expire :: ([.elapse 1] ++ [.getPendingInt 0])))).pending = some 1 := by
  have hticks : ¬ 256 ∣ (2 : UInt32).toNat := by decide
  refine pending_of_succeeds _ hticks ⟨_, 0, false, rfl, rfl, rfl, rfl⟩ ?_ ?_ ?_
  · exact List.forall_mem_cons.mpr ⟨id, List.forall_mem_cons.mpr ⟨id, by simp⟩⟩
  · exact ⟨⟨2, 0⟩, by decide +kernel, by decide +kernel⟩
  · exact List.forall_mem_cons.mpr ⟨id, by simp⟩

end Rtc

end Pcf85063a

end Pyrinas
