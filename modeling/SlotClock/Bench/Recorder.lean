import SlotClock.Bench.Hardware
import SlotClock.Source.IntervalTimer
import SlotClock.Source.OutputCompare
import SlotClock.Source.SymbolCounter

/-!
Simulated hardware that records what it was armed for.

The recorder keeps the delay of every event that was armed and the times that were
noted, and counts the events that were withdrawn before they came.  Its time is
checked and does not wrap, and its latency goes by only when processor cycles are
spent.
-/

namespace SlotClock.Bench

structure Recorder where
  time : UInt64 := 0
  latency : UInt64 := 0
  /-- The next match of the compare value written last: its time, and how far ahead it was. -/
  nextMatch : Option (UInt64 × UInt64) := none
  armed : Option UInt64 := none
  beacon : UInt32 := 0
  overflowCompare : UInt32 := 0
  overflowEnabled : Bool := false
  armedDelays : Array UInt64 := #[]
  notedTimes : Array UInt64 := #[]
  withdrawn : Nat := 0
  compare : UInt32 := 0
  deriving DecidableEq, Repr

namespace Recorder

def advance (ticks : UInt64) (r : Recorder) : Except Fault Recorder :=
  (Word.add r.time ticks).map fun time => { r with time := time }

def expectMatch (delay : UInt64) (r : Recorder) : Except Fault Recorder :=
  (Word.add r.time delay).map fun time => { r with nextMatch := some (time, delay) }

def armMatch (r : Recorder) : Recorder :=
  match r.nextMatch with
  | none => r
  | some (time, delay) => { r with armed := some time, armedDelays := r.armedDelays.push delay }

def withdraw (r : Recorder) : Recorder :=
  match r.armed with
  | none => r
  | some _ => { r with armed := none, withdrawn := r.withdrawn + 1 }

def note (r : Recorder) : Recorder := { r with notedTimes := r.notedTimes.push r.time }

def disturb : HardwareStep → Recorder → Except Fault Recorder
  | .setTime time, r => .ok { r with time := time }
  | .advance ticks, r => r.advance ticks
  | .setLatency ticks, r => .ok { r with latency := ticks }
  | .latchBeacon, r => .ok { r with beacon := r.overflowCompare }
  | .setBeacon raw, r => .ok { r with beacon := raw }
  | .forceReading _, r => .ok r
  | .note, r => .ok r.note

def happen? (limit : UInt64) (r : Recorder) : Option Recorder :=
  match r.armed with
  | none => none
  | some time =>
    if time ≤ limit then some { r with time := max r.time time, armed := none } else none

instance : Hardware Recorder where
  time r := r.time
  armed r := r.armed
  disturb := disturb
  happen? := happen?
  waitUntil limit r := { r with time := max r.time limit }
  note := note
  forget r := { r with armedDelays := #[], notedTimes := #[] }

/-! ## Register access -/

def compareChannel (rate : Rate) (top : UInt32) : CompareChannel Recorder :=
  let period := top.toUInt64 + 1
  let reading := fun r : Recorder => (r.time % period).toUInt32
  { rate := rate
    top := top
    writeCycles := 0
    reading := reading
    writeCompare := fun value r =>
      let delay := (value.toUInt64 + period - (reading r).toUInt64) % period
      { r with compare := value }.expectMatch delay
    enable := armMatch
    disable := withdraw
    clearFlag := fun r => r
    spend := fun _ r => r.advance r.latency }

def symbolRegisters (bias : UInt32) : SymbolRegisters Recorder :=
  let raw := fun r : Recorder => r.time.toUInt32 + bias
  { rate := .reference
    raw := raw
    beacon := fun r => r.beacon
    writeCompare := fun value r => r.expectMatch (value - raw r).toUInt64
    enableCompare := armMatch
    disableCompare := withdraw
    writeOverflow := fun value r => { r with overflowCompare := value }
    enableOverflow := fun r => { r with overflowEnabled := true }
    disableOverflow := fun r => { r with overflowEnabled := false } }

def intervalRegisters : IntervalRegisters Recorder where
  rate := .reference
  start shift r := (r.expectMatch (UInt64.ofNat (1 <<< shift))).map armMatch
  stop := withdraw

end Recorder

end SlotClock.Bench
