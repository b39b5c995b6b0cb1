import SlotClock.Bench.Trace
import SlotClock.Rate

/-!
Sessions that convert between two rates, with a carry that starts at zero.
-/

namespace SlotClock.Bench

inductive RateStep where
  | delay (reference : UInt32)
  | reading (native : UInt64)
  | reset
  deriving DecidableEq, Repr

namespace RateStep

def run (ratio : Ratio) (step : RateStep) (carry : UInt64) :
    Except Halt (Option UInt64 × UInt64) := do
  match step with
  | delay reference =>
    let (native, carry) ← (ratio.nativeOfDelay carry reference).mapError .fault
    return (some native, carry)
  | reading native =>
    let reference ← (ratio.referenceOfReading native).mapError .fault
    return (some reference, carry)
  | reset => return (none, 0)

end RateStep

def runRates (ratio : Ratio) (steps : List RateStep) : List (Except Halt (Option UInt64)) :=
  trace (RateStep.run ratio) 0 steps

end SlotClock.Bench
