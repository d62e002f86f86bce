import RTThread.Lib.SkipList
import RTThread.Kernel.Model

set_option autoImplicit false

/-! # Timers (`timer.c`)

The active timers are in a skip list, in the order in which they expire: hard timers in
`rt_timer_list`, soft timers in `rt_soft_timer_list`. Ticks are 32 bits wide and wrap around, so
they are compared by their difference. A row is the list of its timers from the front to the back;
the node of a timer that is in no row points to itself.

The functions run with interrupts disabled where they change a list, and are taken as a whole. An
assertion that fails stops the system: the function has no result.
-/

namespace RTThread

/-- `rt_tick_t` -/
abbrev Tick := BitVec 32

def RT_TICK_MAX : Nat := 0xffffffff

abbrev TimerId := Nat

/-- The options of the skip list. -/
class TimerConfig where
  /-- `RT_TIMER_SKIP_LIST_LEVEL` -/
  level : Nat
  /-- `RT_TIMER_SKIP_LIST_MASK` -/
  mask : Nat
  pos : 0 < level
  mask_eq : mask = 1 ∨ mask = 3

/-- `struct rt_timer` -/
structure Timer where
  /-- the type of the object is `RT_Object_Class_Timer` -/
  object : Bool
  /-- `RT_TIMER_FLAG_ACTIVATED` -/
  activated : Bool
  /-- `RT_TIMER_FLAG_PERIODIC` -/
  periodic : Bool
  /-- `RT_TIMER_FLAG_SOFT_TIMER` -/
  soft : Bool
  initTick : Tick
  timeoutTick : Tick

/-- The timers, their lists, and the clock. -/
structure Timers where
  /-- `rt_tick` -/
  tick : Tick
  timer : TimerId → Timer
  /-- `rt_timer_list`, and `rt_soft_timer_list` for `true`; row `level - 1` has all timers -/
  rows : Bool → Nat → List TimerId
  /-- `random_nr` -/
  randomNr : BitVec 32

/-- The commands of `rt_timer_control` that change the timer. -/
inductive TimerCtrl
  | setTime (time : Tick)
  | setOneshot
  | setPeriodic

namespace Timers

open Kernel SkipList

variable (s : Timers) (t : TimerId)

def modify (f : Timer → Timer) : Timers :=
  { s with timer := Function.update s.timer t (f (s.timer t)) }

def setActivated (b : Bool) : Timers := s.modify t fun x => { x with activated := b }

def setTimeout (tick : Tick) : Timers := s.modify t fun x => { x with timeoutTick := tick }

/-- `_rt_timer_remove`: a node that is in no list stays as it is. -/
def timerRemove : Timers := { s with rows := fun k i => (s.rows k i).erase t }

/-- The search for the place of a timer with a timeout stops before timer `u`. -/
def stopsAt (timeout : Tick) (u : TimerId) : Bool :=
  let d := (s.timer u).timeoutTick - timeout
  d ≠ 0 ∧ d.toNat < RT_TICK_MAX / 2

/-- The loop of `rt_timer_start` from `row_lvl = 2`, for the lowest `n` of the rows that are left:
one more row for each group of zero bits of the counter. -/
def insertUpper (mask : Nat) (heads : Nat → Option TimerId) (x : TimerId) :
    Nat → BitVec 32 → (Nat → List TimerId) → Nat → List TimerId
  | 0, _, rows => rows
  | n + 1, tst, rows =>
    if tst &&& BitVec.ofNat 32 mask = 0 then
      insertUpper mask heads x n (tst >>> ((mask + 1) >>> 1))
        (Function.update rows n (insertAfter (heads n) x (rows n)))
    else rows

/-- Linking the timer into the rows of its list. -/
def link [TimerConfig] : Option Timers := do
  let k := (s.timer t).soft
  let stop := s.stopsAt (s.timer t).timeoutTick
  let low := TimerConfig.level - 1
  let head ← descend stop (s.rows k) low
  let heads := fun i => ((descend stop (s.rows k) i).getD none)
  let random := s.randomNr + 1
  let rows := Function.update (s.rows k) low (insertAfter head t (s.rows k low))
  some { s with
    rows := Function.update s.rows k (insertUpper TimerConfig.mask heads t low random rows)
    randomNr := random }

/-- `rt_timer_start` -/
def rtTimerStart [TimerConfig] : Option Timers :=
  if (s.timer t).object = true then
    let s := (s.timerRemove t).setActivated t false
    if (s.timer t).initTick.toNat < RT_TICK_MAX / 2 then
      let s := s.setTimeout t (s.tick + (s.timer t).initTick)
      (s.link t).map fun s => s.setActivated t true
    else none
  else none

/-- `rt_timer_stop` -/
def rtTimerStop : Option (Err × Timers) :=
  if (s.timer t).object = true then
    if (s.timer t).activated = false then some (.error, s)
    else some (.ok, (s.timerRemove t).setActivated t false)
  else none

/-- `rt_timer_detach`: the object is no timer any more. -/
def rtTimerDetach : Option Timers :=
  if (s.timer t).object = true then
    some ((s.timerRemove t).modify t fun x => { x with object := false })
  else none

/-- `rt_timer_control` -/
def rtTimerControl (cmd : TimerCtrl) : Option Timers :=
  if (s.timer t).object = true then
    some (s.modify t fun x => match cmd with
      | .setTime time => { x with initTick := time }
      | .setOneshot => { x with periodic := false }
      | .setPeriodic => { x with periodic := true })
  else none

/-- The time of the timer is over. -/
def due (current : Tick) (t : TimerId) : Bool :=
  (current - (s.timer t).timeoutTick).toNat < RT_TICK_MAX / 2

/-- What the checks do after the timeout function of a timer. -/
def afterTimeout [TimerConfig] : Option Timers :=
  if (s.timer t).periodic = true ∧ (s.timer t).activated = true then
    (s.setActivated t false).rtTimerStart t
  else some (s.setActivated t false)

/-- The lowest row of a list: all its timers. -/
def low [TimerConfig] (k : Bool) : List TimerId := s.rows k (TimerConfig.level - 1)

end Timers

end RTThread
