import SlotClock.Word

/-!
Readings of a counter that wraps.

A counter of period `p` runs from `0` to `p - 1` and starts again.
`Counter.advance` adds ticks to a reading.  `Counter.distance` is the signed number
of ticks from one reading to another; the true number is only known up to whole
periods, and the one chosen is above `-p / 2` and at most `p / 2`.
-/

namespace SlotClock.Counter

/-- The reading `delta` ticks after the reading `base`. -/
def advance (period : UInt64) (base : UInt32) (delta : UInt64) : Except Fault UInt32 := do
  let within ← Word.rem delta period
  let total ← Word.add base.toUInt64 within
  let reading ← Word.rem total period
  return reading.toUInt32

/-- The ticks from `start` to `finish`, negative if `finish` lies behind. -/
def distance (period : UInt64) (start finish : UInt32) : Except Fault Int := do
  let lifted ← Word.add finish.toUInt64 period
  let back ← Word.rem start.toUInt64 period
  let gap ← Word.sub lifted back
  let forward ← Word.rem gap period
  if forward > period / 2 then
    Signed.sub (Word.toSigned forward) (Word.toSigned period)
  else
    return Word.toSigned forward

end SlotClock.Counter
