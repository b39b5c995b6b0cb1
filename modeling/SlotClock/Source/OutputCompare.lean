import SlotClock.Counter
import SlotClock.Source

/-!
An output compare channel of a general-purpose timer, as a tick source.

The event is a match of the counter with the compare register.  If the counter goes
past the compare value while that value is being written, there is no match until
the counter comes round again.  So the counter is read once more after the write,
and a deadline that has gone by is reported as missed.
-/

namespace SlotClock

structure CompareChannel (ρ : Type) where
  rate : Rate
  /-- The largest reading; the period is one more. -/
  top : UInt32
  writeCycles : UInt32
  reading : ρ → UInt32
  writeCompare (value : UInt32) : ρ → Except Fault ρ
  enable : ρ → ρ
  disable : ρ → ρ
  clearFlag : ρ → ρ
  spend (cycles : UInt32) : ρ → Except Fault ρ

namespace CompareChannel

variable {ρ : Type} (C : CompareChannel ρ)

def period : UInt64 := C.top.toUInt64 + 1

def arm (base : UInt32) (delay : UInt64) (r : ρ) : Except Fault (Arming × ρ) := do
  let target ← Counter.advance C.period base delay
  let r ← C.writeCompare target (C.clearFlag r)
  let r ← C.spend C.writeCycles r
  let passed ← Counter.distance C.period base (C.reading r)
  if 0 ≤ passed ∧ delay ≤ Word.ofSigned passed then
    return (.missed, r)
  else
    return (.armed delay, C.enable r)

def disarm (r : ρ) : ρ :=
  C.clearFlag (C.disable r)

def source : Source ρ where
  rate := C.rate
  period _ := C.period
  reading := C.reading
  resolution _ := .ok 1
  arm := C.arm
  disarm := C.disarm
  acknowledge r := r

end CompareChannel

end SlotClock
