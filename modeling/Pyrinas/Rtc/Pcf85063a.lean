import Pyrinas.Machinery.Interference
import Pyrinas.Machinery.Run

/-!
# Rtc/Pcf85063a — the alarm of the PCF85063A driver

The driver sets and cancels an alarm, and reads whether one is pending, in several I²C transactions.
Each of them may fail, and before each of them time may pass and the timer of the chip expire.

    set_alarm:     CTRL2 r[w] ─▸ TIMER_VALUE w ─▸ TIMER_MODE r[w]
    cancel_alarm:  CTRL2 r[w] ─▸ TIMER_MODE r[w]
-/

open Machinery

namespace Pyrinas

namespace Pcf85063a

/-! ## The chip -/

/-- `PCF85063A_CTRL2`, `PCF85063A_TIMER_VALUE`, `PCF85063A_TIMER_MODE` -/
inductive Reg
  | ctrl2
  | timerValue
  | timerMode
  deriving DecidableEq

/-- `BIT` -/
def bit (n : UInt8) : UInt8 := 1 <<< n

/-- `PCF85063A_CTRL2_TF` -/
def ctrl2TF : UInt8 := bit 3

/-- `PCF85063A_TIMER_MODE_FREQ_MASK`, `_FREQ_SHIFT` and `_FREQ_1` -/
def timerModeFreqMask : UInt8 := bit 4 ||| bit 3

def timerModeFreqShift : UInt8 := 3

def timerModeFreq1 : UInt8 := 0x2

/-- `PCF85063A_TIMER_MODE_EN`, `_INT_EN` and `_INT_TI_TP` -/
def timerModeEn : UInt8 := bit 2

def timerModeIntEn : UInt8 := bit 1

def timerModeIntTiTp : UInt8 := bit 0

/-- The registers of the timer, and the time, in 1/4096 s: now, when `TIMER_VALUE` was last written,
and when the present countdown began. -/
structure Chip where
  ctrl2 : UInt8
  timerValue : UInt8
  timerMode : UInt8
  now : ℕ
  loaded : ℕ
  started : ℕ
  deriving DecidableEq

namespace Chip

/-- After a power-on reset. -/
def reset : Chip := ⟨0, 0, 0x18, 0, 0, 0⟩

/-- The timer flag is set. -/
def Flag (c : Chip) : Prop := c.ctrl2 &&& ctrl2TF ≠ 0

/-- The timer is enabled and has something to count. -/
def Running (c : Chip) : Prop := c.timerMode &&& timerModeEn ≠ 0 ∧ c.timerValue ≠ 0

instance (c : Chip) : Decidable c.Flag := inferInstanceAs (Decidable (_ ≠ _))

instance (c : Chip) : Decidable c.Running := inferInstanceAs (Decidable (_ ∧ _))

/-- How long a countdown takes: one period of the source clock for each count, of 4096 Hz, 64 Hz,
1 Hz or 1/60 Hz. -/
def countdown (c : Chip) : ℕ :=
  c.timerValue.toNat *
    match ((c.timerMode &&& timerModeFreqMask) >>> timerModeFreqShift).toNat with
    | 0 => 1
    | 1 => 64
    | 2 => 4096
    | _ => 60 * 4096

def get (c : Chip) : Reg → UInt8
  | .ctrl2 => c.ctrl2
  | .timerValue => c.timerValue
  | .timerMode => c.timerMode

/-- A write of `TIMER_VALUE` loads the timer. -/
def set (c : Chip) (reg : Reg) (value : UInt8) : Chip :=
  match reg with
  | .ctrl2 => { c with ctrl2 := value }
  | .timerValue => { c with timerValue := value, loaded := c.now, started := c.now }
  | .timerMode => { c with timerMode := value }

/-- Time passes. -/
def elapse (c : Chip) (n : ℕ) : Chip := { c with now := c.now + n }

/-- The timer may expire: it runs, and the countdown can be over.  It is never over too soon, but
may be late, as when the timer is enabled after it was loaded. -/
def Ripe (c : Chip) : Prop := c.Running ∧ c.started + c.countdown ≤ c.now

instance (c : Chip) : Decidable c.Ripe := inferInstanceAs (Decidable (_ ∧ _))

/-- It sets the flag and begins again. -/
def expire (c : Chip) : Chip :=
  if c.Ripe then { c with ctrl2 := c.ctrl2 ||| ctrl2TF, started := c.now } else c

end Chip

/-! ## The driver -/

/-- What a transaction is asked to do. -/
inductive Transaction
  | read (reg : Reg)
  | write (reg : Reg) (value : UInt8)
  deriving DecidableEq

/-- A function of the driver: what is answered to a transaction is an error, or 0, and the byte that
was read. -/
abbrev Driver := Prog Transaction (Int32 × UInt8)

/-- `i2c_reg_read_byte` -/
def i2cRegReadByte (reg : Reg) : Driver (Int32 × UInt8) := .call (.read reg) .ret

/-- `i2c_reg_write_byte` -/
def i2cRegWriteByte (reg : Reg) (value : UInt8) : Driver Int32 :=
  .call (.write reg value) fun answer => .ret answer.1

/-- `i2c_reg_update_byte`: it writes only what changes. -/
def i2cRegUpdateByte (reg : Reg) (mask value : UInt8) : Driver Int32 := do
  let (rc, oldValue) ← i2cRegReadByte reg
  if rc ≠ 0 then
    return rc
  let newValue := (oldValue &&& ~~~mask) ||| (value &&& mask)
  if newValue = oldValue then
    return 0
  i2cRegWriteByte reg newValue

/-- `pcf85063a_set_alarm` -/
def setAlarm (ticks : UInt32) : Driver Int32 := do
  let ret ← i2cRegUpdateByte .ctrl2 ctrl2TF 0
  if ret ≠ 0 then
    return ret
  let ret ← i2cRegWriteByte .timerValue ticks.toUInt8
  if ret ≠ 0 then
    return ret
  i2cRegUpdateByte .timerMode (timerModeFreqMask ||| timerModeEn ||| timerModeIntEn)
    (timerModeFreq1 <<< timerModeFreqShift ||| timerModeEn ||| timerModeIntEn)

/-- `pcf85063a_cancel_alarm` -/
def cancelAlarm : Driver Int32 := do
  let ret ← i2cRegUpdateByte .ctrl2 ctrl2TF 0
  if ret ≠ 0 then
    return ret
  i2cRegUpdateByte .timerMode (timerModeEn ||| timerModeIntEn ||| timerModeIntTiTp) 0

/-- `pcf85063a_get_pending_int` -/
def getPendingInt : Driver UInt32 := do
  let (ret, reg) ← i2cRegReadByte .ctrl2
  if ret ≠ 0 then
    return ret.toUInt32
  return if reg &&& ctrl2TF ≠ 0 then 1 else 0

/-! ## Calls and interference -/

/-- The functions that take more than one transaction. -/
inductive Call
  | setAlarm (ticks : UInt32)
  | cancelAlarm
  deriving DecidableEq

/-- The alarm that is in force: what the last `set_alarm` that returned 0 was asked for, and when it
loaded the timer. -/
structure Alarm where
  ticks : UInt32
  loaded : ℕ
  deriving DecidableEq

/-- The time from which it may be reported. -/
def Alarm.due (alarm : Alarm) : ℕ := alarm.loaded + alarm.ticks.toNat * 4096

/-- A call that waits for a transaction, and how it goes on. -/
structure Waiting where
  call : Call
  transaction : Transaction
  next : Int32 × UInt8 → Driver Int32

/-- The chip, the call in progress, the alarm in force, and what `get_pending_int` has just
returned. -/
structure Rtc where
  chip : Chip
  waiting : Option Waiting
  alarm : Option Alarm
  pending : Option UInt32

/-- A function is called, the next transaction is done, time passes, or the timer expires.  A write
that failed may have been `applied`. -/
inductive RtcEvent
  | setAlarm (ticks : UInt32)
  | cancelAlarm
  | getPendingInt (err : Int32)
  | transaction (err : Int32) (applied : Bool)
  | elapse (n : ℕ)
  | expire
  deriving DecidableEq

/-- A transaction and its answer. -/
def Chip.transact (c : Chip) (err : Int32) (applied : Bool) :
    Transaction → (Int32 × UInt8) × Chip
  | .read reg => ((err, c.get reg), c)
  | .write reg value => ((err, 0), if err = 0 ∨ applied then c.set reg value else c)

namespace Rtc

/-- After a power-on reset of the chip. -/
def reset : Rtc := ⟨.reset, none, none, none⟩

/-- What a call that returned 0 leaves in force. -/
def settle (c : Chip) : Call → Option Alarm
  | .setAlarm ticks => some ⟨ticks, c.loaded⟩
  | .cancelAlarm => none

/-- A call goes on: it waits for its next transaction, or returns. -/
def goOn (x : Rtc) (call : Call) : Driver Int32 → Rtc
  | .ret ret => { x with waiting := none, alarm := if ret = 0 then settle x.chip call else x.alarm }
  | .call transaction next => { x with waiting := some ⟨call, transaction, next⟩ }

/-- One event.  The functions of the driver are called one after another. -/
def step (x : Rtc) : RtcEvent → Rtc
  | .setAlarm ticks =>
    match x.waiting with
    | none => { x with pending := none }.goOn (.setAlarm ticks) (Pcf85063a.setAlarm ticks)
    | some _ => x
  | .cancelAlarm =>
    match x.waiting with
    | none => { x with pending := none }.goOn .cancelAlarm Pcf85063a.cancelAlarm
    | some _ => x
  | .getPendingInt err =>
    match x.waiting with
    | none =>
      let (ret, chip) := Pcf85063a.getPendingInt.exec (fun t c => c.transact err false t) x.chip
      { x with
        chip := chip
        pending := some ret }
    | some _ => x
  | .transaction err applied =>
    match x.waiting with
    | none => x
    | some w =>
      let (answer, chip) := x.chip.transact err applied w.transaction
      { x with
        chip := chip
        pending := none }.goOn w.call (w.next answer)
  | .elapse n => { x with chip := x.chip.elapse n, pending := none }
  | .expire => { x with chip := x.chip.expire, pending := none }

/-- An alarm is in force, and its time has come. -/
def Due (x : Rtc) : Prop := ∃ alarm, x.alarm = some alarm ∧ alarm.due ≤ x.chip.now

/-- `get_pending_int` reports only an alarm that is due. -/
def Sound (x : Rtc) : Prop := ∀ ret, x.pending = some ret → ret ≠ 0 → x.Due

end Rtc

end Pcf85063a

end Pyrinas
