/-!
Why a computation stops.

Sums, differences, products, shifts and remainders of words are checked, and a few
operations check a condition on entry.  A `Fault` names the check that failed, and
`Fault.message` is its wording.  A loop that runs on fuel can also end without an
answer; `Halt` keeps that apart from every fault.
-/

namespace SlotClock

inductive Fault where
  | addOverflow
  | subtractOverflow
  | multiplyOverflow
  | shiftOverflow
  | zeroDivisor
  | zeroPeriod
  | reversedShifts
  | longShift
  | unusableShifts
  deriving DecidableEq, Repr

def Fault.message : Fault → String
  | addOverflow => "attempt to add with overflow"
  | subtractOverflow => "attempt to subtract with overflow"
  | multiplyOverflow => "attempt to multiply with overflow"
  | shiftOverflow => "attempt to shift left with overflow"
  | zeroDivisor => "attempt to calculate the remainder with a divisor of zero"
  | zeroPeriod => "assertion failed: period > 0"
  | reversedShifts => "assertion failed: min_shift <= max_shift"
  | longShift => "assertion failed: max_shift < 32"
  | unusableShifts => "assertion failed: min_shift <= max_shift && max_shift < 64"

/-- The two ways in which a fuelled computation ends without a value. -/
inductive Halt where
  | fault (cause : Fault)
  | outOfFuel
  deriving DecidableEq, Repr

end SlotClock
