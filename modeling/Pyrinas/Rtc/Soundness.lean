import Mathlib.Order.MinMax
import Pyrinas.Rtc.Pcf85063a

/-!
# Rtc/Soundness — when a pending alarm is an alarm that is due

The flag of the chip is due when it is set, and so will be the countdown that runs: this holds
between calls, and is kept by time and by the timer.  A call keeps it if nothing expires behind its
back: `set_alarm` and `cancel_alarm` clear the flag before they stop the timer that sets it.

    set_alarm:     clear TF ··· expires ··· load ─▸ enable
    cancel_alarm:  clear TF ··· expires ··· disable

An observer notes whether that has happened.  A call that fails then leaves the earlier alarm in
force, to which the flag belongs; one that succeeds leaves a flag that belongs to nobody.
-/

open Machinery

namespace Pyrinas

namespace Pcf85063a

/-! ## What has to be avoided -/

/-- The flag was cleared, and the timer that sets it is not yet stopped. -/
def gap : Call → Transaction → Bool
  | .setAlarm _, .write .timerValue _ => true
  | .cancelAlarm, .read .timerMode => true
  | .cancelAlarm, .write .timerMode _ => true
  | _, _ => false

/-- The timer does not run, or an alarm is in force that is due when the countdown is over. -/
def Backed (alarm : Option Alarm) (c : Chip) : Prop :=
  c.Running → ∃ a, alarm = some a ∧ a.due ≤ max c.now (c.loaded + c.countdown)

/-- The driver and its chip; `overtaken` if the timer has expired in a gap of the call in progress.
-/
structure Observed where
  rtc : Rtc
  overtaken : Bool

namespace Observed

/-- After a power-on reset of the chip. -/
def reset : Observed := ⟨.reset, false⟩

/-- One event; a call begins with nothing noted. -/
def step (x : Observed) (e : RtcEvent) : Observed where
  rtc := x.rtc.step e
  overtaken := match e with
    | .setAlarm _ | .cancelAlarm => x.overtaken && x.rtc.waiting.isSome
    | .expire =>
      x.overtaken || x.rtc.waiting.any fun w => gap w.call w.transaction && decide x.rtc.chip.Ripe
    | _ => x.overtaken

/-- The ticks fit into the register; a `set_alarm` that fails leaves no countdown that is over too
soon; a call in a gap of which the timer has expired does not succeed; and a read of the flag fails
only if an alarm is due. -/
def Careful (x : Observed) : RtcEvent → Prop
  | .setAlarm ticks => x.rtc.waiting = none → ticks.toNat < 256 ∨ 256 ∣ ticks.toNat
  | .getPendingInt err => x.rtc.waiting = none → err ≠ 0 → x.rtc.Due
  | .transaction err applied => ∀ w, x.rtc.waiting = some w →
    (∀ ticks, w.call = .setAlarm ticks → err ≠ 0 →
      Backed x.rtc.alarm (x.rtc.chip.transact err applied w.transaction).2) ∧
    (x.overtaken → w.next (x.rtc.chip.transact err applied w.transaction).1 ≠ .ret 0)
  | _ => True

end Observed

/-! ## Bits -/

/-- What `i2c_reg_update_byte` makes of a byte. -/
def updated (mask value oldValue : UInt8) : UInt8 := (oldValue &&& ~~~mask) ||| (value &&& mask)

theorem flag_cleared (oldValue : UInt8) : updated ctrl2TF 0 oldValue &&& ctrl2TF = 0 := by
  obtain ⟨b⟩ := oldValue
  revert b
  decide +kernel

/-- The mode that `set_alarm` asks for. -/
theorem mode_set (oldValue : UInt8) :
    updated (timerModeFreqMask ||| timerModeEn ||| timerModeIntEn)
      (timerModeFreq1 <<< timerModeFreqShift ||| timerModeEn ||| timerModeIntEn) oldValue
        &&& timerModeFreqMask = timerModeFreq1 <<< timerModeFreqShift := by
  obtain ⟨b⟩ := oldValue
  revert b
  decide +kernel

theorem mode_enabled (oldValue : UInt8) :
    updated (timerModeFreqMask ||| timerModeEn ||| timerModeIntEn)
      (timerModeFreq1 <<< timerModeFreqShift ||| timerModeEn ||| timerModeIntEn) oldValue
        &&& timerModeEn ≠ 0 := by
  obtain ⟨b⟩ := oldValue
  revert b
  decide +kernel

/-- The mode that `cancel_alarm` asks for. -/
theorem mode_cancelled (oldValue : UInt8) :
    updated (timerModeEn ||| timerModeIntEn ||| timerModeIntTiTp) 0 oldValue
      &&& timerModeEn = 0 := by
  obtain ⟨b⟩ := oldValue
  revert b
  decide +kernel

/-! ## Between calls -/

/-- The chip counts seconds when it counts, and began to count no sooner than it was loaded. -/
structure Paced (c : Chip) : Prop where
  rate : c.timerMode &&& timerModeEn ≠ 0 →
    c.timerMode &&& timerModeFreqMask = timerModeFreq1 <<< timerModeFreqShift
  started : c.loaded ≤ c.started
  loaded : c.loaded ≤ c.now

/-- A flag that is set is that of an alarm that is due, and so is the next. -/
structure Calm (alarm : Option Alarm) (c : Chip) : Prop extends Paced c where
  flag : c.Flag → ∃ a, alarm = some a ∧ a.due ≤ c.now
  backed : Backed alarm c

variable {alarm : Option Alarm} {c : Chip}

theorem Paced.elapse (h : Paced c) (n : ℕ) : Paced (c.elapse n) :=
  ⟨h.rate, h.started, Nat.le_add_right_of_le h.loaded⟩

theorem Calm.elapse (h : Calm alarm c) (n : ℕ) : Calm alarm (c.elapse n) := by
  refine ⟨h.toPaced.elapse n, ?_, ?_⟩
  · intro hf
    obtain ⟨a, ha, hdue⟩ := h.flag hf
    exact ⟨a, ha, Nat.le_add_right_of_le hdue⟩
  · intro hr
    obtain ⟨a, ha, hdue⟩ := h.backed hr
    refine ⟨a, ha, hdue.trans ?_⟩
    exact max_le_max (Nat.le_add_right _ _) le_rfl

theorem expire_of_ripe (h : c.Ripe) :
    c.expire = { c with ctrl2 := c.ctrl2 ||| ctrl2TF, started := c.now } := if_pos h

theorem expire_of_not_ripe (h : ¬ c.Ripe) : c.expire = c := if_neg h

theorem Paced.expire (h : Paced c) : Paced c.expire := by
  by_cases hr : c.Ripe
  · rw [expire_of_ripe hr]
    exact ⟨h.rate, h.loaded, h.loaded⟩
  · rwa [expire_of_not_ripe hr]

/-- A countdown that is over is one of an alarm that is due. -/
theorem Calm.expire (h : Calm alarm c) : Calm alarm c.expire := by
  refine ⟨h.toPaced.expire, ?_, ?_⟩
  · by_cases hr : c.Ripe
    · rw [expire_of_ripe hr]
      intro _
      obtain ⟨a, ha, hdue⟩ := h.backed hr.1
      have hover : c.loaded + c.countdown ≤ c.now :=
        (Nat.add_le_add_right h.started _).trans hr.2
      exact ⟨a, ha, by simpa [hover] using hdue⟩
    · rw [expire_of_not_ripe hr]
      exact h.flag
  · by_cases hr : c.Ripe
    · rw [expire_of_ripe hr]
      exact h.backed
    · rw [expire_of_not_ripe hr]
      exact h.backed

/-! ## Within a call -/

/-- What may happen while a call waits for a transaction. -/
def Roams (_ : Transaction) (c c' : Chip) : Prop := (∃ n, c' = c.elapse n) ∨ c' = c.expire

/-- What may happen if the timer does not expire in a gap. -/
def Undisturbed (call : Call) (t : Transaction) (c c' : Chip) : Prop :=
  (∃ n, c' = c.elapse n) ∨ (c.Ripe → gap call t = false) ∧ c' = c.expire

/-- How a transaction may be answered. -/
def Acts (call : Call) (alarm : Option Alarm) (t : Transaction) (c : Chip) (answer : Int32 × UInt8)
    (c' : Chip) : Prop :=
  ∃ err applied, (answer, c') = c.transact err applied t ∧
    ∀ ticks, call = .setAlarm ticks → err ≠ 0 → Backed alarm c'

/-- A transaction fails where it may. -/
def MayFail (call : Call) (alarm : Option Alarm) (c : Chip) : Prop :=
  ∀ ticks, call = .setAlarm ticks → Backed alarm c

/-- After a call that failed, the earlier alarm accounts for the flag. -/
def Fails (alarm : Option Alarm) (ret : Int32) (c : Chip) : Prop := ret ≠ 0 → Calm alarm c

/-- After a call that succeeded, the alarm that it leaves in force does. -/
def Settles (call : Call) (ret : Int32) (c : Chip) : Prop := ret = 0 → Calm (Rtc.settle c call) c

section Outline

variable {call : Call} {A : Chip → Prop} {Q : Int32 → Chip → Prop}
  {rely : Transaction → Chip → Chip → Prop}

/-- An assertion that holds while a call waits for a transaction… -/
theorem stable_of_roams (helapse : ∀ c n, A c → A (c.elapse n)) (hexpire : ∀ c, A c → A c.expire)
    (t : Transaction) : ∀ c c', A c → Roams t c c' → A c' := by
  rintro c c' hA (⟨n, rfl⟩ | rfl)
  · exact helapse c n hA
  · exact hexpire c hA

/-- …and one that holds if nothing expires in a gap. -/
theorem stable_of_undisturbed (helapse : ∀ c n, A c → A (c.elapse n)) {t : Transaction}
    (hexpire : ∀ c, A c → gap call t = false → A c.expire) :
    ∀ c c', A c → Undisturbed call t c c' → A c' := by
  rintro c c' hA (⟨n, rfl⟩ | ⟨hgap, rfl⟩)
  · exact helapse c n hA
  · by_cases hr : c.Ripe
    · exact hexpire c hA (hgap hr)
    · rwa [expire_of_not_ripe hr]

/-- **The outline of `i2c_reg_update_byte`**: nothing is changed if a transaction fails or nothing
has to be, or the register is. -/
theorem wp_i2cRegUpdateByte {reg : Reg} {mask value : UInt8}
    (hread : ∀ c c', A c → rely (.read reg) c c' → A c')
    (hwrite : ∀ v c c', A c → rely (.write reg v) c c' → A c')
    (hfail : ∀ c err, A c → err ≠ 0 → MayFail call alarm c → Q err c)
    (hskip : ∀ c, A c → updated mask value (c.get reg) = c.get reg → Q 0 c)
    (hset : ∀ c old err, A c → (err ≠ 0 → MayFail call alarm (c.set reg (updated mask value old))) →
      Q err (c.set reg (updated mask value old)))
    (h : A c) :
    (i2cRegUpdateByte reg mask value).wp rely (Acts call alarm) Q c := by
  refine Prog.wp_call hread ?_ h
  rintro c answer c' hA ⟨err, applied, hact, hok⟩
  obtain ⟨rfl, rfl⟩ := Prod.mk.inj hact
  rw [Prog.ret_bind]
  dsimp only
  split
  next herr => exact hfail c' err hA herr fun ticks hcall => hok ticks hcall herr
  next herr =>
    split
    next hsame => exact hskip c' hA hsame
    next =>
      refine Prog.wp_call (hwrite _) ?_ hA
      rintro c answer c'' hA ⟨err, applied, hact, hok⟩
      obtain ⟨rfl, rfl⟩ := Prod.mk.inj hact
      by_cases hdone : err = 0 ∨ applied
      · rw [if_pos hdone] at hok ⊢
        exact hset c _ err hA fun herr ticks hcall => hok ticks hcall herr
      · rw [if_neg hdone] at hok ⊢
        obtain ⟨herr, -⟩ := not_or.mp hdone
        exact hfail c err hA herr fun ticks hcall => hok ticks hcall herr

theorem not_flag_cleared (c : Chip) (old : UInt8) :
    ¬ (c.set .ctrl2 (updated ctrl2TF 0 old)).Flag :=
  fun hf => hf (flag_cleared old)

/-- A flag may be cleared. -/
theorem Calm.clear (h : Calm alarm c) (old : UInt8) :
    Calm alarm (c.set .ctrl2 (updated ctrl2TF 0 old)) :=
  ⟨⟨h.rate, h.started, h.loaded⟩, fun hf => absurd hf (not_flag_cleared c old), h.backed⟩

/-- **The outline of a call**: it clears the flag, and what it does then starts with the flag
cleared. -/
theorem wp_clear {rest : Driver Int32}
    (hstable : ∀ t c c', Calm alarm c → rely t c c' → Calm alarm c')
    (hfail : ∀ ret c, ret ≠ 0 → Calm alarm c → Q ret c)
    (hrest : ∀ c, Calm alarm c → ¬ c.Flag → rest.wp rely (Acts call alarm) Q c)
    (h : Calm alarm c) :
    ((i2cRegUpdateByte .ctrl2 ctrl2TF 0).bind fun ret => if ret ≠ 0 then .ret ret else rest).wp
      rely (Acts call alarm) Q c := by
  rw [Prog.wp_bind]
  refine wp_i2cRegUpdateByte (hstable _) (fun v => hstable _) ?_ ?_ ?_ h
  · intro c err hc herr _
    rw [if_pos herr]
    exact hfail err c herr hc
  · intro c hc hsame
    rw [if_neg (not_not.mpr rfl)]
    refine hrest c hc fun hf => hf ?_
    exact (congrArg (· &&& ctrl2TF) hsame).symm.trans (flag_cleared _)
  · intro c old err hc _
    split
    next herr => exact hfail err _ herr (hc.clear old)
    next => exact hrest _ (hc.clear old) (not_flag_cleared c old)

/-- The timer has been loaded by the call, and if the flag is set the countdown is over, or an
earlier alarm is due. -/
structure Loaded (earlier : Option Alarm) (ticks : UInt32) (c : Chip) : Prop extends Paced c where
  value : c.timerValue = ticks.toUInt8
  flag : c.Flag → c.Running ∧ c.loaded + c.timerValue.toNat * 4096 ≤ c.now ∨
    ∃ a, earlier = some a ∧ a.due ≤ c.now

/-- It counts seconds. -/
theorem Paced.countdown (h : Paced c) (hr : c.Running) :
    c.countdown = c.timerValue.toNat * 4096 := by
  rw [Chip.countdown, h.rate hr.1]
  rfl

section Loaded

variable {earlier : Option Alarm} {ticks : UInt32}

theorem Loaded.elapse (h : Loaded earlier ticks c) (n : ℕ) : Loaded earlier ticks (c.elapse n) := by
  refine ⟨h.toPaced.elapse n, h.value, fun hf => ?_⟩
  rcases h.flag hf with ⟨hr, hover⟩ | ⟨a, ha, hdue⟩
  · exact .inl ⟨hr, Nat.le_add_right_of_le hover⟩
  · exact .inr ⟨a, ha, Nat.le_add_right_of_le hdue⟩

theorem Loaded.expire (h : Loaded earlier ticks c) : Loaded earlier ticks c.expire := by
  by_cases hr : c.Ripe
  · have hpaced := h.toPaced.expire
    rw [expire_of_ripe hr] at hpaced ⊢
    refine ⟨hpaced, h.value, fun _ => .inl ⟨hr.1, ?_⟩⟩
    have hover := hr.2
    rw [h.countdown hr.1] at hover
    exact (Nat.add_le_add_right h.started _).trans hover
  · rwa [expire_of_not_ripe hr]

/-- A call that fails after it has loaded the timer: what runs is backed by the earlier alarm. -/
theorem Loaded.calm (h : Loaded alarm ticks c) (hb : Backed alarm c) : Calm alarm c := by
  refine ⟨h.toPaced, fun hf => ?_, hb⟩
  rcases h.flag hf with ⟨hr, hover⟩ | hearlier
  · obtain ⟨a, ha, hdue⟩ := hb hr
    refine ⟨a, ha, hdue.trans ?_⟩
    rw [h.countdown hr]
    exact max_le le_rfl hover
  · exact hearlier

/-- A register holds the ticks, or the timer has nothing to count. -/
theorem toNat_of_fits (hfits : ticks.toNat < 256 ∨ 256 ∣ ticks.toNat)
    (hne : ticks.toUInt8 ≠ 0) : ticks.toUInt8.toNat = ticks.toNat := by
  rw [UInt32.toNat_toUInt8]
  rcases hfits with hlt | hdvd
  · exact Nat.mod_eq_of_lt hlt
  · refine absurd ?_ hne
    apply UInt8.toNat_inj.mp
    rw [UInt32.toNat_toUInt8]
    exact Nat.mod_eq_zero_of_dvd hdvd

/-- A call that succeeds: what runs is its own alarm. -/
theorem Loaded.calm_own (h : Loaded none ticks c) (hfits : ticks.toNat < 256 ∨ 256 ∣ ticks.toNat) :
    Calm (some ⟨ticks, c.loaded⟩) c := by
  have hdue : c.Running → (⟨ticks, c.loaded⟩ : Alarm).due
      = c.loaded + c.timerValue.toNat * 4096 := by
    intro hr
    rw [Alarm.due, h.value, toNat_of_fits hfits (h.value ▸ hr.2)]
  have hown : Loaded (some ⟨ticks, c.loaded⟩) ticks c := by
    refine ⟨h.toPaced, h.value, fun hf => .inl ((h.flag hf).resolve_right ?_)⟩
    rintro ⟨a, ha, -⟩
    cases ha
  refine hown.calm fun hr => ⟨_, rfl, ?_⟩
  rw [hdue hr, h.countdown hr]
  exact le_max_right _ _

/-- The mode that `set_alarm` asks for is a second for each tick. -/
theorem Loaded.setMode (h : Loaded earlier ticks c) (old : UInt8) :
    Loaded earlier ticks (c.set .timerMode
      (updated (timerModeFreqMask ||| timerModeEn ||| timerModeIntEn)
        (timerModeFreq1 <<< timerModeFreqShift ||| timerModeEn ||| timerModeIntEn) old)) := by
  refine ⟨⟨fun _ => mode_set old, h.started, h.loaded⟩, h.value, fun hf => ?_⟩
  rcases h.flag hf with ⟨hr, hover⟩ | hearlier
  · exact .inl ⟨⟨mode_enabled old, hr.2⟩, hover⟩
  · exact .inr hearlier

/-- A write of the ticks, with whatever flag… -/
theorem Calm.load (h : Calm alarm c) (ticks : UInt32) :
    Loaded alarm ticks (c.set .timerValue ticks.toUInt8) :=
  ⟨⟨h.rate, le_rfl, le_rfl⟩, rfl, fun hf => .inr (h.flag hf)⟩

/-- …and with none. -/
theorem Calm.load_cleared (h : Calm alarm c) (hnot : ¬ c.Flag) (ticks : UInt32) :
    Loaded none ticks (c.set .timerValue ticks.toUInt8) :=
  ⟨⟨h.rate, le_rfl, le_rfl⟩, rfl, fun hf => absurd hf hnot⟩

/-- The timer is enabled last. -/
theorem wp_setMode (hstable : ∀ t c c', Loaded earlier ticks c → rely t c c' →
      Loaded earlier ticks c')
    (hfail : ∀ ret c, ret ≠ 0 → Loaded earlier ticks c → Backed alarm c → Q ret c)
    (hdone : ∀ c, Loaded earlier ticks c → Q 0 c) (h : Loaded earlier ticks c) :
    (i2cRegUpdateByte .timerMode (timerModeFreqMask ||| timerModeEn ||| timerModeIntEn)
      (timerModeFreq1 <<< timerModeFreqShift ||| timerModeEn ||| timerModeIntEn)).wp
        rely (Acts (.setAlarm ticks) alarm) Q c := by
  refine wp_i2cRegUpdateByte (hstable _) (fun v => hstable _) ?_ ?_ ?_ h
  · exact fun c err hc herr hmay => hfail err c herr hc (hmay ticks rfl)
  · exact fun c hc _ => hdone c hc
  · intro c old err hc hmay
    by_cases herr : err = 0
    · subst herr
      exact hdone _ (hc.setMode old)
    · exact hfail err _ herr (hc.setMode old) (hmay herr ticks rfl)

end Loaded

variable {ticks : UInt32}

theorem calm_roams (t : Transaction) : ∀ c c', Calm alarm c → Roams t c c' → Calm alarm c' :=
  stable_of_roams (fun _ n hc => hc.elapse n) (fun _ hc => hc.expire) t

theorem calm_undisturbed (t : Transaction) :
    ∀ c c', Calm alarm c → Undisturbed call t c c' → Calm alarm c' :=
  stable_of_undisturbed (fun _ n hc => hc.elapse n) fun _ hc _ => hc.expire

/-- No earlier countdown is over before the gap is closed, if nothing expires in it. -/
theorem calm_cleared {t : Transaction} (hgap : gap call t = true) :
    ∀ c c', Calm alarm c ∧ ¬ c.Flag → Undisturbed call t c c' → Calm alarm c' ∧ ¬ c'.Flag :=
  stable_of_undisturbed (fun _ n hc => ⟨hc.1.elapse n, hc.2⟩) fun _ _ hnot =>
    absurd (hgap.symm.trans hnot) Bool.noConfusion

/-- **A `set_alarm` that fails leaves the alarm before it in force**… -/
theorem wp_setAlarm_fails (ticks : UInt32) (h : Calm alarm c) :
    (setAlarm ticks).wp Roams (Acts (.setAlarm ticks) alarm) (Fails alarm) c := by
  refine wp_clear calm_roams (fun ret c _ hc _ => hc) ?_ h
  intro c hc _
  refine Prog.wp_call (calm_roams _) ?_ hc
  rintro c answer c' hc ⟨err, applied, hact, hok⟩
  obtain ⟨rfl, rfl⟩ := Prod.mk.inj hact
  rw [Prog.ret_bind]
  dsimp only
  split
  next herr =>
    by_cases happlied : err = 0 ∨ applied
    · rw [if_pos happlied] at hok ⊢
      exact fun _ => (hc.load ticks).calm (hok ticks rfl herr)
    · rw [if_neg happlied]
      exact fun _ => hc
  next herr =>
    rw [if_pos (.inl (not_not.mp herr))]
    refine wp_setMode ?_ (fun ret c _ hc hb _ => hc.calm hb) (fun c _ hne => absurd rfl hne)
      (hc.load ticks)
    exact stable_of_roams (fun _ n hc => hc.elapse n) fun _ hc => hc.expire

/-- **…and one that succeeds the alarm it was asked for.** -/
theorem wp_setAlarm_succeeds (hfits : ticks.toNat < 256 ∨ 256 ∣ ticks.toNat) (h : Calm alarm c) :
    (setAlarm ticks).wp (Undisturbed (.setAlarm ticks)) (Acts (.setAlarm ticks) alarm)
      (Settles (.setAlarm ticks)) c := by
  refine wp_clear calm_undisturbed (fun ret c hne _ hzero => absurd hzero hne) ?_ h
  intro c hc hnot
  refine Prog.wp_call (calm_cleared rfl) ?_ ⟨hc, hnot⟩
  rintro c answer c' ⟨hc, hnot⟩ ⟨err, applied, hact, hok⟩
  obtain ⟨rfl, rfl⟩ := Prod.mk.inj hact
  rw [Prog.ret_bind]
  dsimp only
  split
  next herr => exact fun hzero => absurd hzero herr
  next herr =>
    rw [if_pos (.inl (not_not.mp herr))]
    refine wp_setMode ?_ (fun ret c hne _ _ hzero => absurd hzero hne)
      (fun c hc _ => hc.calm_own hfits) (hc.load_cleared hnot ticks)
    exact fun t => stable_of_undisturbed (fun _ n hc => hc.elapse n) fun _ hc _ => hc.expire

/-- **A `cancel_alarm` that fails leaves the alarm before it in force**… -/
theorem wp_cancelAlarm_fails (h : Calm alarm c) :
    cancelAlarm.wp Roams (Acts .cancelAlarm alarm) (Fails alarm) c := by
  refine wp_clear calm_roams (fun ret c _ hc _ => hc) ?_ h
  intro c hc _
  refine wp_i2cRegUpdateByte (calm_roams _) (fun v => calm_roams _) ?_ ?_ ?_ hc
  · exact fun c err hc _ _ _ => hc
  · exact fun c _ _ hne => absurd rfl hne
  · intro c old err hc _ _
    have hstopped := mode_cancelled old
    exact ⟨⟨fun hne => absurd hstopped hne, hc.started, hc.loaded⟩, hc.flag,
      fun hr => absurd hstopped hr.1⟩

/-- **…and one that succeeds none.** -/
theorem wp_cancelAlarm_succeeds (h : Calm alarm c) :
    cancelAlarm.wp (Undisturbed .cancelAlarm) (Acts .cancelAlarm alarm) (Settles .cancelAlarm)
      c := by
  refine wp_clear calm_undisturbed (fun ret c hne _ hzero => absurd hzero hne) ?_ h
  intro c hc hnot
  refine wp_i2cRegUpdateByte (calm_cleared rfl) (fun v => calm_cleared rfl) ?_ ?_ ?_ ⟨hc, hnot⟩
  · exact fun c err _ hne _ hzero => absurd hzero hne
  · rintro c ⟨hc, hnot⟩ hsame _
    refine ⟨hc.toPaced, fun hf => absurd hf hnot, fun hr => absurd ?_ hr.1⟩
    exact (congrArg (· &&& timerModeEn) hsame).symm.trans (mode_cancelled _)
  · rintro c old err ⟨hc, hnot⟩ - -
    have hstopped := mode_cancelled old
    exact ⟨⟨fun hne => absurd hstopped hne, hc.started, hc.loaded⟩, fun hf => absurd hf hnot,
      fun hr => absurd hstopped hr.1⟩

end Outline

/-! ## Runs -/

/-- A read that fails is returned as it is. -/
theorem exec_getPendingInt (c : Chip) (err : Int32) :
    getPendingInt.exec (fun t c => c.transact err false t) c
      = (if err ≠ 0 then err.toUInt32 else if c.Flag then 1 else 0, c) := by
  have hread : getPendingInt.exec (fun t c => c.transact err false t) c
      = Prog.exec (fun t c => c.transact err false t)
        (if err ≠ 0 then .ret err.toUInt32 else .ret (if c.Flag then 1 else 0)) c := rfl
  rw [hread]
  split <;> rfl

namespace Observed

/-- Between calls the flag is accounted for, and a call in progress will see to it. -/
def Kept (x : Observed) : Prop :=
  match x.rtc.waiting with
  | none => Calm x.rtc.alarm x.rtc.chip
  | some w =>
    (Prog.call w.transaction w.next).wp Roams (Acts w.call x.rtc.alarm) (Fails x.rtc.alarm)
      x.rtc.chip ∧
    (x.overtaken = false → (Prog.call w.transaction w.next).wp (Undisturbed w.call)
      (Acts w.call x.rtc.alarm) (Settles w.call) x.rtc.chip)

variable {x : Observed}

theorem kept_idle (h : x.Kept) (hw : x.rtc.waiting = none) : Calm x.rtc.alarm x.rtc.chip := by
  rw [Kept, hw] at h
  exact h

theorem kept_waiting {w : Waiting} (h : x.Kept) (hw : x.rtc.waiting = some w) :
    (Prog.call w.transaction w.next).wp Roams (Acts w.call x.rtc.alarm) (Fails x.rtc.alarm)
      x.rtc.chip ∧
    (x.overtaken = false → (Prog.call w.transaction w.next).wp (Undisturbed w.call)
      (Acts w.call x.rtc.alarm) (Settles w.call) x.rtc.chip) := by
  rw [Kept, hw] at h
  exact h

/-- A call goes on safely, and succeeds only if it was not overtaken. -/
theorem kept_goOn {r : Rtc} {overtaken : Bool} {call : Call} {p : Driver Int32}
    (hfails : p.wp Roams (Acts call r.alarm) (Fails r.alarm) r.chip)
    (hsucceeds : overtaken = false →
      p.wp (Undisturbed call) (Acts call r.alarm) (Settles call) r.chip)
    (hret : overtaken → p ≠ .ret 0) : Kept ⟨r.goOn call p, overtaken⟩ := by
  cases p with
  | ret ret =>
    change Calm (if ret = 0 then Rtc.settle r.chip call else r.alarm) r.chip
    by_cases hzero : ret = 0
    · subst hzero
      rw [if_pos rfl]
      exact hsucceeds (Bool.eq_false_iff.mpr fun hover => hret hover rfl) rfl
    · rw [if_neg hzero]
      exact hfails hzero
  | call transaction next => exact ⟨hfails, hsucceeds⟩

theorem pending_goOn (r : Rtc) (call : Call) (p : Driver Int32) :
    (r.goOn call p).pending = r.pending := by
  cases p <;> rfl

theorem sound_of_none {r : Rtc} (h : r.pending = none) : r.Sound := by
  intro ret hret
  simp [h] at hret

theorem kept_reset : reset.Kept :=
  ⟨⟨fun h => absurd rfl h, le_rfl, le_rfl⟩, fun h => absurd rfl h, fun h => absurd rfl h.1⟩

/-- **A careful step keeps the flag accounted for.** -/
theorem kept_step (h : x.Kept) {e : RtcEvent} (hok : x.Careful e) : (x.step e).Kept := by
  cases e with
  | setAlarm ticks =>
    dsimp only [step, Rtc.step]
    cases hw : x.rtc.waiting with
    | none =>
      have hcalm := kept_idle h hw
      refine kept_goOn (wp_setAlarm_fails ticks hcalm)
        (fun _ => wp_setAlarm_succeeds (hok hw) hcalm) ?_
      simp
    | some w =>
      rw [Option.isSome_some, Bool.and_true]
      exact h
  | cancelAlarm =>
    dsimp only [step, Rtc.step]
    cases hw : x.rtc.waiting with
    | none =>
      have hcalm := kept_idle h hw
      refine kept_goOn (wp_cancelAlarm_fails hcalm) (fun _ => wp_cancelAlarm_succeeds hcalm) ?_
      simp
    | some w =>
      rw [Option.isSome_some, Bool.and_true]
      exact h
  | getPendingInt err =>
    dsimp only [step, Rtc.step]
    cases hw : x.rtc.waiting with
    | none =>
      have hcalm : Calm x.rtc.alarm x.rtc.chip := kept_idle h hw
      rw [exec_getPendingInt]
      exact hcalm
    | some w => exact h
  | transaction err applied =>
    dsimp only [step, Rtc.step]
    cases hw : x.rtc.waiting with
    | none => exact h
    | some w =>
      obtain ⟨hbacked, hret⟩ := hok w hw
      obtain ⟨hfails, hsucceeds⟩ := kept_waiting h hw
      have hacts : Acts w.call x.rtc.alarm w.transaction x.rtc.chip _ _ :=
        ⟨err, applied, rfl, hbacked⟩
      exact kept_goOn (Prog.wp_of_acts hfails hacts)
        (fun hover => Prog.wp_of_acts (hsucceeds hover) hacts) hret
  | elapse n =>
    rw [Kept]
    cases hw : x.rtc.waiting with
    | none =>
      dsimp only [step, Rtc.step]
      rw [hw]
      exact (kept_idle h hw).elapse n
    | some w =>
      dsimp only [step, Rtc.step]
      rw [hw]
      obtain ⟨hfails, hsucceeds⟩ := kept_waiting h hw
      exact ⟨Prog.wp_of_rely hfails (.inl ⟨n, rfl⟩),
        fun hover => Prog.wp_of_rely (hsucceeds hover) (.inl ⟨n, rfl⟩)⟩
  | expire =>
    rw [Kept]
    cases hw : x.rtc.waiting with
    | none =>
      dsimp only [step, Rtc.step]
      rw [hw]
      exact (kept_idle h hw).expire
    | some w =>
      dsimp only [step, Rtc.step]
      rw [hw]
      obtain ⟨hfails, hsucceeds⟩ := kept_waiting h hw
      refine ⟨Prog.wp_of_rely hfails (.inr rfl), fun hover => ?_⟩
      obtain ⟨hnot, hgap⟩ := Bool.or_eq_false_iff.mp hover
      refine Prog.wp_of_rely (hsucceeds hnot) (.inr ⟨fun hripe => ?_, rfl⟩)
      simpa [hripe] using hgap

/-- **What is reported is due**: the flag was, or an alarm is anyway. -/
theorem sound_step (h : x.Kept) (hs : x.rtc.Sound) {e : RtcEvent} (hok : x.Careful e) :
    (x.rtc.step e).Sound := by
  cases e with
  | setAlarm ticks =>
    simp only [Rtc.step]
    split
    · exact sound_of_none (pending_goOn _ _ _)
    · exact hs
  | cancelAlarm =>
    simp only [Rtc.step]
    split
    · exact sound_of_none (pending_goOn _ _ _)
    · exact hs
  | getPendingInt err =>
    simp only [Rtc.step]
    split
    next hw =>
      rw [exec_getPendingInt]
      rintro ret hret hne
      obtain rfl := Option.some.inj hret
      by_cases herr : err = 0
      · by_cases hf : x.rtc.chip.Flag
        · exact (kept_idle h hw).flag hf
        · simp [herr, hf] at hne
      · exact hok hw herr
    next => exact hs
  | transaction err applied =>
    simp only [Rtc.step]
    split
    · exact hs
    · exact sound_of_none (pending_goOn _ _ _)
  | elapse n => exact sound_of_none rfl
  | expire => exact sound_of_none rfl

/-- The observer changes nothing. -/
theorem rtc_run (x : Observed) (es : List RtcEvent) :
    (run step x es).rtc = run Rtc.step x.rtc es := by
  induction es generalizing x with
  | nil => rfl
  | cons e es ih => exact ih (x.step e)

end Observed

namespace Rtc

/-- **Whatever is reported is an alarm that is due, if every step is careful.** -/
theorem sound_of_careful (es : List RtcEvent)
    (h : Meets Observed.step Observed.Careful .reset es) : Always step Sound reset es := by
  have hall : Always Observed.step (fun x => x.rtc.Sound) .reset es := by
    refine always_of_meets (I := fun x => x.Kept ∧ x.rtc.Sound) ?_ ?_ ?_ h
    · exact fun x e hx hok => ⟨Observed.kept_step hx.1 hok, Observed.sound_step hx.1 hx.2 hok⟩
    · exact fun x hx => hx.2
    · exact ⟨Observed.kept_reset, Observed.sound_of_none rfl⟩
  intro qs hqs
  have hrun : (run Observed.step .reset qs).rtc = run step reset qs := Observed.rtc_run .reset qs
  exact hrun ▸ hall qs hqs

/-- An alarm of one second; the next `set_alarm` is overtaken by it, and fails. -/
def overtakenAlarm : List RtcEvent :=
  [.setAlarm 1, .transaction 0 false, .transaction 0 false, .transaction 0 false,
    .transaction 0 false, .elapse 4096, .setAlarm 5, .transaction 0 false, .expire,
    .transaction (-5) false, .getPendingInt 0]

theorem sound_of_careful_overtaken :
    (run step reset overtakenAlarm).pending = some 1 ∧ Always step Sound reset overtakenAlarm := by
  refine ⟨by decide +kernel, sound_of_careful _ ?_⟩
  have hdone : ∀ x : Observed, x.overtaken = false → x.Careful (.transaction 0 false) :=
    fun _ hover _ _ => ⟨fun _ _ hne => absurd rfl hne, fun h => absurd (hover ▸ h) (by decide)⟩
  have hread : ∀ x : Observed, x.Careful (.getPendingInt 0) := fun _ _ h => absurd rfl h
  simp only [overtakenAlarm, meets_cons, meets_nil, hread, and_true]
  refine ⟨fun _ => .inl (by decide), hdone _ rfl, hdone _ rfl, hdone _ rfl, hdone _ rfl, trivial,
    fun _ => .inl (by decide), hdone _ rfl, trivial, ?_⟩
  intro w hw
  obtain rfl := Option.some.inj hw
  refine ⟨fun _ _ _ _ => ⟨⟨1, 0⟩, by decide +kernel, by decide +kernel⟩, fun _ hret => ?_⟩
  exact absurd (Prog.ret.inj hret) (by decide)

/-- An alarm of 257 seconds is one of one second. -/
theorem not_sound_ticks_narrowed :
    ¬ Always step Sound reset
      [.setAlarm 257, .transaction 0 false, .transaction 0 false, .transaction 0 false,
        .transaction 0 false, .elapse 4096, .expire, .getPendingInt 0] := by
  intro h
  obtain ⟨alarm, halarm, hdue⟩ := h.last 1 (by decide +kernel) (by decide)
  revert hdue halarm alarm
  decide +kernel

end Rtc

end Pcf85063a

end Pyrinas
