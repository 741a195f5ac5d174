import Six.Base.Errno
import Mathlib.Data.List.Basic

/-! The power management driver (`drivers/char/power_dev.c`).  `pm_enter_suspend` is cut at
`sys_sync`, where other tasks run, and at the host suspend call, during which nothing else in the
kernel runs.  The statistics, the times of the wakelocks, what the driver prints, and the value that
a write returns after it has waited are left out. -/

namespace Six.Power

open Errno

structure WakeLock where
  name : List UInt8
  active : Bool
  deriving DecidableEq, Repr

/-- A task in `pm_enter_suspend`, past its checks.  `armed` is the number of wakeup events that had
been counted when the wakeup count was armed that the checks used, if they used one. -/
structure Suspend where
  armed : Option Nat
  deriving DecidableEq, Repr

/-- The static variables of the driver.  `wlTable` is the entries in use: the table is filled from
its start, and no entry is given back.  The last four fields are no variables of the driver:
`waiting` is the tasks that wait in `sys_sync`, `host` is the task in the host suspend call,
`events` counts wakeup events without a bound, and `armedAt` is `events` when the wakeup count was
armed. -/
structure PmState where
  wlTable : List WakeLock := []
  wakeupEventCount : UInt32 := 0
  savedWakeupCount : UInt32 := 0
  eventsCheckEnabled : Bool := false
  autosuspendEnabled : Bool := false
  inSuspend : Bool := false
  wakealarmMs : Int := 0
  waiting : List Suspend := []
  host : Option Suspend := none
  events : Nat := 0
  armedAt : Option Nat := none
  deriving DecidableEq, Repr

def maxWakelocks : Nat := 32

/-- `"PowerManagerService.Display"`. -/
def display : List UInt8 :=
  [80, 111, 119, 101, 114, 77, 97, 110, 97, 103, 101, 114, 83, 101, 114, 118, 105, 99, 101, 46, 68,
    105, 115, 112, 108, 97, 121]

/-- `"PowerManagerService.WakeLocks"`. -/
def wakeLocks : List UInt8 :=
  [80, 111, 119, 101, 114, 77, 97, 110, 97, 103, 101, 114, 83, 101, 114, 118, 105, 99, 101, 46, 87,
    97, 107, 101, 76, 111, 99, 107, 115]

variable (s : PmState)

/-- `find_or_alloc_wakelock` without `create`: the first entry with this name. -/
def findWakelock (name : List UInt8) : Option Nat :=
  s.wlTable.findIdx? (·.name == name)

/-- `find_or_alloc_wakelock` with `create`: the entry, and the state.  A new entry keeps the first
47 characters of the name. -/
def findOrAllocWakelock (name : List UInt8) : Option (Nat × PmState) :=
  match findWakelock s name with
  | some i => some (i, s)
  | none =>
    if s.wlTable.length < maxWakelocks then
      some (s.wlTable.length, { s with wlTable := s.wlTable ++ [⟨name.take 47, false⟩] })
    else none

def PmState.setActive (i : Nat) (active : Bool) : PmState :=
  { s with wlTable := s.wlTable.modify i ({ · with active := active }) }

def PmState.isActive (i : Nat) : Bool := s.wlTable[i]?.any (·.active)

def pmFirstActiveWakelock : Option WakeLock := s.wlTable.find? (·.active)

def pmFirstActiveNonDisplayWakelock : Option WakeLock :=
  s.wlTable.find? fun wl => wl.active && wl.name != display

def pmWakeLock (name : List UInt8) : Int × PmState :=
  if name = [] then (-einval, s)
  else match findOrAllocWakelock s name with
  | none => (-enomem, s)
  | some (i, s) =>
    let s := s.setActive i true
    (0, if name = display then { s with autosuspendEnabled := false } else s)

/-- `pm_wakeup_event_count++`. -/
def PmState.countEvent : PmState :=
  { s with wakeupEventCount := s.wakeupEventCount + 1, events := s.events + 1 }

def PmState.arm : PmState :=
  { s with
    savedWakeupCount := s.wakeupEventCount, eventsCheckEnabled := true, armedAt := some s.events }

/-- `pm_events_check_enabled = 0`. -/
def PmState.disarm : PmState := { s with eventsCheckEnabled := false, armedAt := none }

/-- The task has passed the checks of `pm_enter_suspend` and goes on to `sys_sync`. -/
def PmState.beginSuspend : PmState :=
  { s.disarm with inSuspend := true, waiting := s.waiting ++ [⟨s.armedAt⟩] }

/-- `pm_enter_suspend` up to `sys_sync`: its return value, or `none` when the task waits. -/
def pmEnterSuspend : Option Int × PmState :=
  if (pmFirstActiveNonDisplayWakelock s).isSome then (some (-ebusy), s)
  else if s.eventsCheckEnabled ∧ s.wakeupEventCount ≠ s.savedWakeupCount then
    (some (-ebusy), s.disarm)
  else
    (none, match findWakelock s display with
      | none => s.beginSuspend
      | some i => s.beginSuspend.setActive i false)

def pmAutosuspend (name : List UInt8) : Option Int × PmState :=
  if !s.inSuspend && s.autosuspendEnabled then
    match pmFirstActiveWakelock s with
    | none => ((pmEnterSuspend s.arm).1.map fun _ => 0, (pmEnterSuspend s.arm).2)
    | some _ =>
      if name = display then ((pmEnterSuspend s).1.map fun _ => 0, (pmEnterSuspend s).2)
      else (some 0, s)
  else (some 0, s)

/-- `pm_wake_unlock`, with `none` for a task that waits in `sys_sync`. -/
def pmWakeUnlock (name : List UInt8) : Option Int × PmState :=
  if name = [] then (some (-einval), s)
  else match findWakelock s name with
  | none => (some (-enoent), s)
  | some i =>
    let s := if name = display then { s with autosuspendEnabled := true } else s
    let s := if s.isActive i then (s.setActive i false).countEvent else s
    pmAutosuspend s name

def pmNotifyDStateCleared : PmState :=
  if !s.inSuspend && s.autosuspendEnabled && (pmFirstActiveWakelock s).isNone then
    (pmEnterSuspend s.arm).2
  else s

/-- The rest of `pm_enter_suspend` up to the host suspend call, for waiting task `i`: `dTasks` says
that the scan of the task list finds a task that cannot be frozen. -/
def pmAfterSync (i : Nat) (dTasks : Bool) : Option PmState :=
  match s.waiting[i]? with
  | none => none
  | some q =>
    let s := { s with waiting := s.waiting.eraseIdx i }
    some (if dTasks then { s with inSuspend := false } else { s with host := some q })

def pmAfterHost : Option PmState :=
  match s.host with
  | none => none
  | some _ =>
    let s := { s.countEvent with
      host := none, inSuspend := false, autosuspendEnabled := false, wakealarmMs := 0 }
    some (pmWakeLock s display).2

inductive PmMinor
  | state | wakeLock | wakeUnlock | wakeupCount | wakealarm
  deriving DecidableEq, Repr

def isBlank (c : UInt8) : Bool := c == 0x20 || c == 0x09

/-- The string `p` of `power_write`: the first word of what is written. -/
def word (buf : List UInt8) : List UInt8 :=
  ((buf.take 127).dropWhile isBlank).takeWhile fun c =>
    c != 0 && c != 0x0d && c != 0x0a && !isBlank c

def isDigit (c : UInt8) : Bool := 0x30 ≤ c && c ≤ 0x39

def simpleStrtoul (p : List UInt8) : UInt32 :=
  (p.takeWhile isDigit).foldl (fun result c => result * 10 + (c - 0x30).toUInt32) 0

def toInt (v : UInt32) : Int := if v.toNat < 2 ^ 31 then v.toNat else v.toNat - 2 ^ 32

def wOn : List UInt8 := [111, 110]
def wAutosuspend : List UInt8 := [97, 117, 116, 111, 115, 117, 115, 112, 101, 110, 100]
def wMem : List UInt8 := [109, 101, 109]
def wFreeze : List UInt8 := [102, 114, 101, 101, 122, 101]
def wStandby : List UInt8 := [115, 116, 97, 110, 100, 98, 121]

def isSleep (p : List UInt8) : Bool := p == wMem || p == wFreeze || p == wStandby

def orCount (count : Nat) (err : Int) : Int := if err < 0 then err else count

def wakealarmOf (p : List UInt8) : Int :=
  let rest := p.dropWhile isDigit
  let val := simpleStrtoul p
  let ms := if rest = [109, 115] ∨ rest = [77, 83] then toInt val else toInt (val * 1000)
  if ms ≤ 0 then 50 else ms

/-- `power_write`, with `none` for a task that waits in `sys_sync`. -/
def powerWrite (minor : PmMinor) (buf : List UInt8) : Option Int × PmState :=
  let p := word buf
  if p = [] then (some buf.length, s)
  else match minor with
  | .state =>
    if p = wOn then (some buf.length, (pmWakeLock s.disarm display).2)
    else if p = wAutosuspend then
      let r := pmWakeUnlock s display
      (r.1.map (orCount buf.length), r.2)
    else if isSleep p then
      let r := pmEnterSuspend s
      (r.1.map (orCount buf.length), r.2)
    else (some (-einval), s)
  | .wakeLock =>
    let r := pmWakeLock s p
    (some (orCount buf.length r.1), r.2)
  | .wakeUnlock =>
    let r := pmWakeUnlock s p
    (r.1.map (orCount buf.length), r.2)
  | .wakeupCount =>
    if (pmFirstActiveNonDisplayWakelock s).isSome ∨ simpleStrtoul p ≠ s.wakeupEventCount then
      (some (-einval), s)
    else (some buf.length, s.arm)
  | .wakealarm => (some buf.length, { s with wakealarmMs := wakealarmOf p })

def powerDevInit : PmState :=
  (pmWakeUnlock (pmWakeLock (pmWakeLock {} display).2 wakeLocks).2 wakeLocks).2

/-- What can happen next: a task writes; the block layer reports that no task is in state D any
more; the waiting task `i` returns from `sys_sync`, and the scan of the task list finds a task in
state D or none; the host suspend call returns. -/
inductive Label
  | write (minor : PmMinor) (buf : List UInt8)
  | dStateCleared
  | syncDone (i : Nat) (dTasks : Bool)
  | hostReturn
  deriving DecidableEq, Repr

/-- One step.  During the host suspend call no task runs. -/
def step : Label → Option PmState
  | .write minor buf => if s.host.isSome then none else some (powerWrite s minor buf).2
  | .dStateCleared => if s.host.isSome then none else some (pmNotifyDStateCleared s)
  | .syncDone i dTasks => if s.host.isSome then none else pmAfterSync s i dTasks
  | .hostReturn => pmAfterHost s

end Six.Power
