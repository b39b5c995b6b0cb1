import SlotClock.Interval
import SlotClock.Source

/-!
A timer of power-of-two intervals, as a tick source.

Watchdogs are of this kind, and they are what is left when no continuous counter
runs.  Such a timer cannot be read.  Its counter is kept in software and moves by a
whole interval when that interval ends.  A delay is covered by the longest interval
that fits, and a part shorter than every interval cannot be armed at all.
-/

namespace SlotClock

structure IntervalRegisters (ρ : Type) where
  rate : Rate
  start (shift : Nat) : ρ → Except Fault ρ
  stop : ρ → ρ

structure IntervalTimer (ρ : Type) where
  regs : ρ
  counted : UInt32 := 0
  running : Option UInt64 := none

namespace IntervalTimer

variable {ρ : Type} (R : IntervalRegisters ρ) (range : IntervalRange)

def arm (delay : UInt64) (t : IntervalTimer ρ) : Except Fault (Arming × IntervalTimer ρ) := do
  match ← range.longest? delay with
  | none => return (.missed, t)
  | some shift =>
    let regs ← R.start shift t.regs
    let interval ← Word.shiftLeft 1 shift
    return (.armed interval, { t with regs := regs, running := some interval })

def disarm (t : IntervalTimer ρ) : IntervalTimer ρ :=
  { t with regs := R.stop t.regs, running := none }

/-- Counts the interval that ended, once. -/
def acknowledge (t : IntervalTimer ρ) : IntervalTimer ρ :=
  match t.running with
  | none => t
  | some interval => { t with counted := t.counted + interval.toUInt32, running := none }

def source : Source (IntervalTimer ρ) where
  rate := R.rate
  period _ := 0x100000000
  reading t := t.counted
  resolution _ := range.shortest
  arm _ := arm R range
  disarm := disarm R
  acknowledge := acknowledge

end IntervalTimer

end SlotClock
