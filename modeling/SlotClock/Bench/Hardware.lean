import SlotClock.Fault

/-!
What every simulated hardware of the bench offers.

Simulated hardware keeps an absolute time and at most one armed event, and it logs
what is done to it.  A `HardwareStep` is something that happens to it from outside.
-/

namespace SlotClock.Bench

inductive HardwareStep where
  | setTime (time : UInt64)
  | advance (ticks : UInt64)
  | setLatency (ticks : UInt64)
  | latchBeacon
  | setBeacon (raw : UInt32)
  /-- Fixes the reading of a scripted counter, or lets it follow the time again. -/
  | forceReading (reading : Option UInt32)
  | note
  deriving DecidableEq, Repr

class Hardware (η : Type) where
  time : η → UInt64
  armed : η → Option UInt64
  disturb : HardwareStep → η → Except Fault η
  /--
  Lets the armed event happen if it comes by `limit`; the time is then no earlier
  than the event.
  -/
  happen? (limit : UInt64) : η → Option η
  waitUntil (limit : UInt64) : η → η
  note : η → η
  forget : η → η

end SlotClock.Bench
