import RTThread.Lib.Run
import RTThread.Libc.Time

set_option autoImplicit false

/-! # Alarms of the real-time clock (`alarm.c`)

The device has one alarm, a time of day. The alarms that are created are in the list of the
container, and `current` points to the one the device was set for last. When the device's alarm goes
off the service thread runs `alarm_update`, which wakes the alarms that are due and sets the device for
the next one. The functions run with the mutex of the container taken.

The controls of the device succeed, and the device keeps the time it is set to. A callback is code of
the application and leaves the alarms alone. The time is in seconds since 1970, and a pointer to an
alarm is a number.
-/

namespace RTThread.Rtc

open Libc

/-- A value as a `rt_uint32_t`. -/
def u32 (v : Int) : Nat := (v % 4294967296).toNat

/-- `mktime` as a `rt_uint32_t`. It leaves the fields of a date alone. -/
def mktime32 (t : Tm) : Nat := u32 (mktime t).1

/-! ## The container -/

def RT_ALARM_TM_NOW : Int := -1
def RT_ALARM_ONESHOT : Nat := 0x000
def RT_ALARM_DAILY : Nat := 0x100
def RT_ALARM_WEEKLY : Nat := 0x200
def RT_ALARM_MONTHLY : Nat := 0x400
def RT_ALARM_YAERLY : Nat := 0x800
def RT_ALARM_DELAY : Nat := 2
def RT_RTC_YEARS_MAX : Int := 137
def RT_EOK : Int := 0
def RT_ERROR : Int := 1

/-- `struct rt_alarm` -/
structure Alarm where
  /-- `flag & 0xFF00` -/
  mode : Nat
  /-- `RT_ALARM_STATE_INITED` -/
  inited : Bool
  /-- `RT_ALARM_STATE_START` -/
  started : Bool
  /-- `callback` is not `RT_NULL` -/
  callback : Bool
  wktime : Tm

/-- `struct rt_rtc_wkalarm` -/
structure RtcWkalarm where
  enable : Bool
  tmSec : Int
  tmMin : Int
  tmHour : Int
  deriving DecidableEq

/-- `alarm_mkdaysec` -/
def alarmMkdaysec (t : Tm) : Nat := u32 (t.tmSec + t.tmMin * 60 + t.tmHour * 3600)

/-- The time of day that the device is set to. -/
def RtcWkalarm.daysec (w : RtcWkalarm) : Nat := u32 (w.tmSec + w.tmMin * 60 + w.tmHour * 3600)

structure Container where
  /-- the alarms of the list, the last one created being the first -/
  head : List Nat
  alarm : Nat → Alarm
  current : Option Nat
  /-- the alarm of the device -/
  rtc : RtcWkalarm
  /-- `time(RT_NULL)` -/
  now : Nat
  /-- the alarms whose callback was called, and the times -/
  called : List (Nat × Nat)

namespace Container

def setAlarm (s : Container) (id : Nat) (a : Alarm) : Container :=
  { s with alarm := Function.update s.alarm id a }

/-- The time of day of an alarm. -/
def daysec (s : Container) (id : Nat) : Nat := alarmMkdaysec (s.alarm id).wktime

/-- The time of day. -/
def secNow (s : Container) : Nat := alarmMkdaysec (gmtimeR s.now)

/-- The alarm is in the list and started. -/
def Started (s : Container) (id : Nat) : Prop := id ∈ s.head ∧ (s.alarm id).started = true

instance startedDecidable (s : Container) (id : Nat) : Decidable (s.Started id) := instDecidableAnd

/-- `alarm_set` -/
def alarmSet (s : Container) (id : Nat) : Container :=
  { s with rtc :=
    { enable := (s.alarm id).started
      tmSec := (s.alarm id).wktime.tmSec
      tmMin := (s.alarm id).wktime.tmMin
      tmHour := (s.alarm id).wktime.tmHour } }

end Container

/-- The time is at most `RT_ALARM_DELAY` after the alarm. -/
def overtime (now alarm : Nat) : Bool := u32 (now - alarm) ≤ RT_ALARM_DELAY ∧ alarm ≤ now

/-- `wakeup` of `alarm_wakeup`, for an alarm that is started -/
def Alarm.wakeup (a : Alarm) (now : Tm) : Bool :=
  let secAlarm := alarmMkdaysec a.wktime
  let secNow := alarmMkdaysec now
  if a.mode = RT_ALARM_ONESHOT then overtime (mktime32 now) (mktime32 a.wktime)
  else if a.mode = RT_ALARM_DAILY then overtime secNow secAlarm
  else if a.mode = RT_ALARM_WEEKLY then
    overtime (u32 (secNow + now.tmWday * 24 * 3600)) (u32 (secAlarm + a.wktime.tmWday * 24 * 3600))
  else if a.mode = RT_ALARM_MONTHLY then
    a.wktime.tmMday = now.tmMday ∧ u32 (secNow - secAlarm) ≤ RT_ALARM_DELAY
  else if a.mode = RT_ALARM_YAERLY then
    a.wktime.tmMday = now.tmMday ∧ a.wktime.tmMon = now.tmMon ∧
      u32 (secNow - secAlarm) ≤ RT_ALARM_DELAY
  else false

/-- A one-shot alarm that is due is stopped by `alarm_wakeup`. -/
def Alarm.fires (a : Alarm) (now : Tm) : Bool :=
  a.started && a.wakeup now && a.mode == RT_ALARM_ONESHOT

namespace Container

/-- `alarm_wakeup` -/
def alarmWakeup (now : Tm) (s : Container) (id : Nat) : Container :=
  let a := s.alarm id
  if a.started ∧ a.wakeup now then
    let s := if a.mode = RT_ALARM_ONESHOT then (s.setAlarm id { a with started := false }).alarmSet id
      else s
    if a.callback then { s with called := s.called ++ [(id, s.now)] } else s
  else s

/-- The local variables of the second loop of `alarm_update`. -/
structure Scan where
  secNext : Int
  almNext : Option Nat
  secPrev : Int
  almPrev : Option Nat

/-- One round of the second loop. -/
def scanStep (s : Container) (c : Scan) (id : Nat) : Scan :=
  if (s.alarm id).started ∧ some id ≠ s.current then
    let secTmp : Int := s.daysec id - s.secNow
    if 0 < secTmp then
      -- find alarm after now and the most recent
      if secTmp < c.secNext then { c with secNext := secTmp, almNext := some id } else c
    else if secTmp < c.secPrev then
      -- find alarm before now and furthest from now
      { c with secPrev := secTmp, almPrev := some id }
    else c
  else c

/-- `alarm_set`, after which the alarm is the current one -/
def arm (s : Container) : Option Nat → Container
  | some id => { s.alarmSet id with current := some id }
  | none => s

/-- The first loop of `alarm_update`. -/
def wake (s : Container) : Container := s.head.foldl (alarmWakeup (gmtimeR s.now)) s

/-- The second loop of `alarm_update`. -/
def scan (s : Container) : Scan := s.head.foldl s.scanStep ⟨24 * 3600, none, 0, none⟩

/-- `alarm_update` from the second loop on. -/
def select (s : Container) : Container :=
  let c := s.scan
  -- enable the alarm after now first
  if c.secNext < 24 * 3600 then s.arm c.almNext
  else if c.secPrev < 0 then s.arm c.almPrev
  else s

/-- `alarm_update` -/
def alarmUpdate (s : Container) : Container := if s.head = [] then s else s.wake.select

end Container

/-! ## `alarm_setup` -/

/-- `days_of_year_month` -/
def daysOfYearMonth (tmYear tmMon : Int) : Nat :=
  let year := u32 (tmYear + 1900)
  if tmMon = 1 then 28 + (if (year % 4 = 0 ∧ year % 100 ≠ 0) ∨ year % 400 = 0 then 1 else 0)
  else if (tmMon ≤ 6 ∧ tmMon % 2 = 0) ∨ (6 < tmMon ∧ tmMon % 2 = 1) then 31
  else 30

/-- `is_valid_date` -/
def isValidDate (date : Tm) : Bool :=
  (0 ≤ date.tmYear ∧ date.tmYear ≤ RT_RTC_YEARS_MAX) ∧ (0 ≤ date.tmMon ∧ date.tmMon ≤ 11) ∧
    1 ≤ date.tmMday ∧ date.tmMday ≤ daysOfYearMonth date.tmYear date.tmMon

/-- A field that is out of its range is set to now. -/
def careOr (lo hi v now : Int) : Int := if hi < v ∨ v < lo then now else v

/-- The fields of the time of day, set to now where they are out of range. -/
def setupTime (w now : Tm) : Tm :=
  { w with
    tmSec := careOr 0 59 w.tmSec now.tmSec
    tmMin := careOr 0 59 w.tmMin now.tmMin
    tmHour := careOr 0 23 w.tmHour now.tmHour }

/-- The fields of the date that the mode of the alarm uses, or `none` when the mode is unknown. -/
def setupDate (mode : Nat) (w now : Tm) : Option Tm :=
  if mode = RT_ALARM_DAILY then some w
  else if mode = RT_ALARM_ONESHOT then
    some { w with
      tmYear := if w.tmYear = RT_ALARM_TM_NOW then now.tmYear else w.tmYear
      tmMon := if w.tmMon = RT_ALARM_TM_NOW then now.tmMon else w.tmMon
      tmMday := if w.tmMday = RT_ALARM_TM_NOW then now.tmMday else w.tmMday }
  else if mode = RT_ALARM_WEEKLY then some { w with tmWday := careOr 0 6 w.tmWday now.tmWday }
  else if mode = RT_ALARM_MONTHLY then some { w with tmMday := careOr 1 31 w.tmMday now.tmMday }
  else if mode = RT_ALARM_YAERLY then
    let w := { w with tmMon := careOr 0 11 w.tmMon now.tmMon }
    if w.tmMon = 1 then some { w with tmMday := careOr 1 29 w.tmMday now.tmMday }
    else if (w.tmMon ≤ 6 ∧ w.tmMon % 2 = 0) ∨ (6 < w.tmMon ∧ w.tmMon % 2 = 1) then
      some { w with tmMday := careOr 1 31 w.tmMday now.tmMday }
    else some { w with tmMday := careOr 1 30 w.tmMday now.tmMday }
  else none

/-- For insurance purposes, an alarm at the last second is generated two seconds ahead. -/
def insure (w : Tm) : Tm :=
  if w.tmHour = 23 ∧ w.tmMin = 59 ∧ w.tmSec = 59 then { w with tmSec := 60 - RT_ALARM_DELAY } else w

/-- `alarm_setup`. On an error the fields it has set so far stay. -/
def alarmSetup (a : Alarm) (now : Tm) : Int × Alarm :=
  let w := setupTime a.wktime now
  match setupDate a.mode w now with
  | none => (RT_ERROR, { a with wktime := w })
  | some w =>
      if a.mode = RT_ALARM_ONESHOT ∧ isValidDate w = false then (RT_ERROR, { a with wktime := w })
      else (RT_EOK, { a with wktime := insure w, inited := true })

namespace Container

/-! ## The calls -/

/-- `rt_alarm_create`, with the block that `rt_malloc` returns -/
def rtAlarmCreate (s : Container) (id flag : Nat) (wktime : Tm) (callback : Bool) : Container :=
  { s.setAlarm id ⟨flag &&& 0xFF00, false, false, callback, wktime⟩ with head := id :: s.head }

/-- The alarm is set up if it is not yet. -/
def ensureSetup (s : Container) (id : Nat) : Int × Container :=
  if (s.alarm id).inited then (RT_EOK, s)
  else
    let r := alarmSetup (s.alarm id) (gmtimeR s.now)
    (r.1, s.setAlarm id r.2)

/-- The cases in which `rt_alarm_start` sets the device for the new alarm rather than for the current
one. -/
def Wins (secNow secOld secNew : Nat) : Prop :=
  (secNew < secOld ∧ secNow < secNew) ∨ (secNow < secNew ∧ secOld < secNow) ∨
    (secNew < secOld ∧ secOld < secNow)

instance winsDecidable (secNow secOld secNew : Nat) : Decidable (Wins secNow secOld secNew) :=
  instDecidableOr

/-- `rt_alarm_start` for an alarm that is set up. -/
def startAlarm (s : Container) (id : Nat) : Int × Container :=
  if (s.alarm id).started then (RT_ERROR, s)
  else
    let s := s.setAlarm id { s.alarm id with started := true }
    match s.current with
    | none => (RT_EOK, s.arm (some id))
    | some c =>
        if Wins s.secNow (s.daysec c) (s.daysec id) then (RT_EOK, s.arm (some id))
        else (RT_EOK, s)

/-- `rt_alarm_start` -/
def rtAlarmStart (s : Container) (id : Nat) : Int × Container :=
  let r := s.ensureSetup id
  if r.1 ≠ RT_EOK then (RT_ERROR, r.2) else r.2.startAlarm id

/-- The current alarm is stopped: the device's alarm is switched off and another one is looked for. -/
def dropCurrent (s : Container) (id : Nat) : Container :=
  alarmUpdate { s.alarmSet id with current := none }

/-- `rt_alarm_stop` -/
def rtAlarmStop (s : Container) (id : Nat) : Int × Container :=
  if (s.alarm id).started = false then (RT_ERROR, s)
  else
    let s := s.setAlarm id { s.alarm id with started := false }
    if s.current = some id then (RT_EOK, s.dropCurrent id) else (RT_ERROR, s)

/-- `rt_alarm_delete` -/
def rtAlarmDelete (s : Container) (id : Nat) : Int × Container :=
  let s := s.setAlarm id { s.alarm id with started := false }
  let r := if s.current = some id then (RT_EOK, s.dropCurrent id) else (RT_ERROR, s)
  (r.1, { r.2 with head := r.2.head.erase id })

/-- `rt_alarm_control` with `RT_ALARM_CTRL_MODIFY` -/
def rtAlarmControl (s : Container) (id flag : Nat) (wktime : Tm) : Int × Container :=
  let s := (s.rtAlarmStop id).2
  let r := alarmSetup ⟨flag &&& 0xFF00, false, false, (s.alarm id).callback, wktime⟩ (gmtimeR s.now)
  (r.1, s.setAlarm id r.2)

/-- A second goes by. When the time of the device's alarm is reached `alarm_update` runs. -/
def tick (s : Container) : Container :=
  let s := { s with now := s.now + 1 }
  if s.rtc.enable = true ∧ s.rtc.daysec = s.secNow then s.alarmUpdate else s

end Container

/-! ## Runs -/

/-- What happens next. -/
inductive Action
  | create (id flag : Nat) (wktime : Tm) (callback : Bool)
  | modify (id flag : Nat) (wktime : Tm)
  | start (id : Nat)
  | stop (id : Nat)
  | delete (id : Nat)
  | update
  | tick

namespace Container

/-- A call is made for an alarm that was created and not deleted. -/
def exec (s : Container) : Action → Option Container
  | .create id flag wktime callback =>
      if id ∈ s.head then none else some (s.rtAlarmCreate id flag wktime callback)
  | .modify id flag wktime => if id ∈ s.head then some (s.rtAlarmControl id flag wktime).2 else none
  | .start id => if id ∈ s.head then some (s.rtAlarmStart id).2 else none
  | .stop id => if id ∈ s.head then some (s.rtAlarmStop id).2 else none
  | .delete id => if id ∈ s.head then some (s.rtAlarmDelete id).2 else none
  | .update => some s.alarmUpdate
  | .tick => some s.tick

/-- No alarm is created yet. -/
def Init (s : Container) : Prop := s.head = [] ∧ s.current = none

def Step (s : Container) (a : Action) (s' : Container) : Prop := s.exec a = some s'

/-- `alarm_update` at a time. -/
def updateAt (s : Container) (t : Nat) : Container := { s with now := t }.alarmUpdate

end Container

end RTThread.Rtc
