import SlotClock.Word

/-!
Tick rates and the conversion between them.

Delays are given in reference ticks, and a counter runs at a native rate.
`Ratio.between` brings the two rates to lowest terms.  The conversion of a delay
leaves a fraction of a native tick, which is carried to the next delay: whatever a
sequence of delays adds up to, its native ticks add up to the conversion of that
sum.
-/

namespace SlotClock

structure Rate where
  hertz : UInt32
  hertz_pos : 0 < hertz
  deriving DecidableEq, Repr

namespace Rate

def ofHertz? (hertz : UInt32) : Option Rate :=
  if h : 0 < hertz then some ⟨hertz, h⟩ else none

/-- The rate in which every delay is given, that of a watch crystal. -/
def reference : Rate := ⟨32768, by decide⟩

def symbol : Rate := ⟨62500, by decide⟩

def watchdog : Rate := ⟨128000, by decide⟩

end Rate

/-- `num` native ticks last as long as `den` reference ticks. -/
structure Ratio where
  num : UInt64
  den : UInt64
  deriving DecidableEq, Repr

namespace Ratio

def between (native reference : Rate) : Ratio :=
  let common := Nat.gcd native.hertz.toNat reference.hertz.toNat
  ⟨UInt64.ofNat (native.hertz.toNat / common), UInt64.ofNat (reference.hertz.toNat / common)⟩

def isIdentity (r : Ratio) : Bool :=
  r.num == r.den

/--
The native ticks of a delay, and the carry for the next one.  The carry counts
fractions of a native tick in units of `1 / den`; equal rates have no fractions and
leave it alone.
-/
def nativeOfDelay (r : Ratio) (carry : UInt64) (delay : UInt32) :
    Except Fault (UInt64 × UInt64) :=
  if r.isIdentity then
    .ok (delay.toUInt64, carry)
  else do
    let product ← Word.mul delay.toUInt64 r.num
    let scaled ← Word.add product carry
    return (scaled / r.den, scaled % r.den)

def referenceOfReading (r : Ratio) (native : UInt64) : Except Fault UInt64 :=
  if r.isIdentity then
    .ok native
  else do
    let product ← Word.mul native r.den
    return product / r.num

end Ratio

end SlotClock
