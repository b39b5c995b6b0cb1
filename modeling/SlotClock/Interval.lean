import SlotClock.Word

/-!
Power-of-two intervals.

Some timers can only be started for `2 ^ s` ticks, with `s` from a range of shifts.
`IntervalRange.longest?` finds the longest such interval that does not exceed a
delay, by doubling the shortest one for as long as the double still fits.
-/

namespace SlotClock

structure IntervalRange where
  minShift : Nat
  maxShift : Nat
  deriving DecidableEq, Repr

namespace IntervalRange

def checked (minShift maxShift : Nat) : Except Fault IntervalRange :=
  if maxShift < minShift then .error .reversedShifts
  else if 32 ≤ maxShift then .error .longShift
  else .ok ⟨minShift, maxShift⟩

def atmega : IntervalRange := ⟨11, 20⟩

def shortest (range : IntervalRange) : Except Fault UInt64 :=
  Word.shiftLeft 1 range.minShift

def grow (delay : UInt64) : (room shift : Nat) → Except Fault Nat
  | 0, shift => .ok shift
  | room + 1, shift => do
    let double ← Word.shiftLeft 2 shift
    if double ≤ delay then grow delay room (shift + 1) else return shift

/-- The shift of the longest interval within `delay`, if even the shortest one is within it. -/
def longest? (range : IntervalRange) (delay : UInt64) : Except Fault (Option Nat) :=
  if range.maxShift < range.minShift ∨ 64 ≤ range.maxShift then
    .error .unusableShifts
  else do
    let shortest ← range.shortest
    if delay < shortest then
      return none
    else
      return some (← grow delay (range.maxShift - range.minShift) range.minShift)

end IntervalRange

end SlotClock
