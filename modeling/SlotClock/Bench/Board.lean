import SlotClock.Bench.ChannelModel
import SlotClock.Bench.Hardware
import SlotClock.Source.IntervalTimer
import SlotClock.Source.OutputCompare
import SlotClock.Source.SymbolCounter

/-!
A simulated board that logs every register write.

The time of the board wraps at 64 bits.  A compare value that is written becomes the
absolute time of its next match; enabling the interrupt arms that time, and the
latency goes by until a write has settled.
-/

namespace SlotClock.Bench

inductive RegisterWrite where
  | compare (value : UInt32)
  | enable
  | disable
  | clear
  | burn (cycles : UInt32)
  | overflowCompare (value : UInt32)
  | overflowEnable
  | overflowDisable
  | start (shift : Nat)
  | stop
  | arm (base : UInt32) (delay : UInt64)
  | disarm
  | acknowledge
  deriving DecidableEq, Repr

structure Board where
  time : UInt64 := 0
  latency : UInt64 := 0
  nextMatch : Option UInt64 := none
  armed : Option UInt64 := none
  beacon : UInt32 := 0
  overflowCompare : UInt32 := 0
  overflowEnabled : Bool := false
  forcedReading : Option UInt32 := none
  writes : Array RegisterWrite := #[]
  deriving DecidableEq, Repr

namespace Board

def log (w : RegisterWrite) (b : Board) : Board := { b with writes := b.writes.push w }

def expectMatch (delay : UInt64) (b : Board) : Board :=
  { b with nextMatch := some (b.time + delay) }

def armMatch (b : Board) : Board := { b with armed := b.nextMatch <|> b.armed }

def withdraw (b : Board) : Board := { b with armed := none }

def settle (b : Board) : Board := { b with time := b.time + b.latency }

def disturb : HardwareStep → Board → Board
  | .setTime time, b => { b with time := time }
  | .advance ticks, b => { b with time := b.time + ticks }
  | .setLatency ticks, b => { b with latency := ticks }
  | .latchBeacon, b => { b with beacon := b.overflowCompare }
  | .setBeacon raw, b => { b with beacon := raw }
  | .forceReading reading, b => { b with forcedReading := reading }
  | .note, b => b

def happen? (limit : UInt64) (b : Board) : Option Board :=
  match b.armed with
  | none => none
  | some time =>
    if time ≤ limit then some { b with time := max b.time time, armed := none } else none

instance : Hardware Board where
  time b := b.time
  armed b := b.armed
  disturb step b := .ok (b.disturb step)
  happen? := happen?
  waitUntil limit b := { b with time := max b.time limit }
  note b := b
  forget b := { b with writes := #[] }

/-! ## Register access -/

def compareChannel (model : ChannelModel) : CompareChannel Board :=
  let period := model.top.toUInt64 + 1
  let reading := fun b : Board => (b.time % period).toUInt32
  { rate := model.rate
    top := model.top
    writeCycles := model.writeCycles
    reading := reading
    writeCompare := fun value b =>
      let delay := (value.toUInt64 + period - (reading b).toUInt64) % period
      .ok ((b.log (.compare value)).expectMatch delay)
    enable := fun b => (b.log .enable).armMatch
    disable := fun b => (b.log .disable).withdraw
    clearFlag := fun b => b.log .clear
    spend := fun cycles b => .ok (if model.burns then (b.log (.burn cycles)).settle else b) }

def symbolRegisters (rate : Rate) (bias : UInt32) : SymbolRegisters Board :=
  let raw := fun b : Board => b.time.toUInt32 + bias
  { rate := rate
    raw := raw
    beacon := fun b => b.beacon
    writeCompare := fun value b =>
      .ok ((b.log (.compare value)).expectMatch (value - raw b).toUInt64)
    enableCompare := fun b => (b.log .enable).armMatch.settle
    disableCompare := fun b => (b.log .disable).withdraw
    writeOverflow := fun value b => { b.log (.overflowCompare value) with overflowCompare := value }
    enableOverflow := fun b => { b.log .overflowEnable with overflowEnabled := true }
    disableOverflow := fun b => { b.log .overflowDisable with overflowEnabled := false } }

def intervalRegisters (rate : Rate) : IntervalRegisters Board where
  rate := rate
  start shift b :=
    let interval := UInt64.ofNat (1 <<< shift)
    .ok { b.log (.start shift) with armed := some (b.time + interval) }
  stop b := (b.log .stop).withdraw

end Board

end SlotClock.Bench
