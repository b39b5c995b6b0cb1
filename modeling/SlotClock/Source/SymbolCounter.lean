import SlotClock.Counter
import SlotClock.Source

/-!
The symbol counter of an IEEE 802.15.4 radio, as a tick source.

The raw counter has 32 bits and is never written.  Periods are kept with a second
compare register: its match ends a period and latches the raw reading as the beacon
timestamp, from which the next period is counted.  The value of the counter is the
part of the current period that has gone by.
-/

namespace SlotClock

structure SymbolRegisters (ρ : Type) where
  rate : Rate
  raw : ρ → UInt32
  /-- The raw reading that was latched when a period last ended. -/
  beacon : ρ → UInt32
  writeCompare (raw : UInt32) : ρ → Except Fault ρ
  enableCompare : ρ → ρ
  disableCompare : ρ → ρ
  writeOverflow (raw : UInt32) : ρ → ρ
  enableOverflow : ρ → ρ
  disableOverflow : ρ → ρ

structure SymbolCounter (ρ : Type) where
  regs : ρ
  period : UInt32
  period_pos : 0 < period
  origin : UInt32

namespace SymbolCounter

variable {ρ : Type} (R : SymbolRegisters ρ)

def ofPeriod (regs : ρ) (period : UInt32) : Except Fault (SymbolCounter ρ) :=
  if h : 0 < period then .ok ⟨regs, period, h, 0⟩ else .error .zeroPeriod

def value (c : SymbolCounter ρ) : UInt32 :=
  (R.raw c.regs - c.origin) % c.period

def markEnd (c : SymbolCounter ρ) : SymbolCounter ρ :=
  { c with regs := R.writeOverflow (c.origin + c.period) c.regs }

def start (c : SymbolCounter ρ) : SymbolCounter ρ :=
  let c := { c with origin := R.raw c.regs }.markEnd R
  { c with regs := R.enableOverflow c.regs }

def stop (c : SymbolCounter ρ) : SymbolCounter ρ :=
  { c with regs := R.disableCompare (R.disableOverflow c.regs) }

/--
Serves the end of a period.  The next one is counted from the latched reading,
however late this is.
-/
def rollOver (c : SymbolCounter ρ) : SymbolCounter ρ :=
  { c with origin := R.beacon c.regs }.markEnd R

def withPeriod (c : SymbolCounter ρ) (period : UInt32) : Except Fault (SymbolCounter ρ) :=
  if h : 0 < period then .ok { c with period := period, period_pos := h } else .error .zeroPeriod

theorem withPeriod_of_pos {period : UInt32} (pos : 0 < period) (c : SymbolCounter ρ) :
    c.withPeriod period = .ok { c with period := period, period_pos := pos } :=
  dif_pos pos

def setPeriod (c : SymbolCounter ρ) (period : UInt32) : Except Fault (SymbolCounter ρ) :=
  (c.withPeriod period).map (·.markEnd R)

def startWith (c : SymbolCounter ρ) (period : UInt32) : Except Fault (SymbolCounter ρ) :=
  (c.withPeriod period).map (·.start R)

def compareAt (c : SymbolCounter ρ) (offset : UInt32) : Except Fault (SymbolCounter ρ) := do
  let regs ← R.writeCompare (c.origin + offset) c.regs
  return { c with regs := R.enableCompare regs }

/-! ## As a tick source -/

def disarm (c : SymbolCounter ρ) : SymbolCounter ρ :=
  { c with regs := R.disableCompare c.regs }

/--
The base is a value within a period and the compare register takes a raw reading, so
the event is placed by its distance from now.  It is missed if that distance is used
up before it is enabled, or meanwhile.
-/
def arm (base : UInt32) (delay : UInt64) (c : SymbolCounter ρ) :
    Except Fault (Arming × SymbolCounter ρ) := do
  let now := R.raw c.regs
  let lead ← Counter.distance c.period.toUInt64 (c.value R) base
  let ahead ← Signed.add lead (Word.toSigned delay)
  if ahead ≤ 0 then
    return (.missed, c)
  else
    let regs ← R.writeCompare (now + Signed.low32 ahead) c.regs
    let c := { c with regs := R.enableCompare regs }
    if ahead ≤ (R.raw c.regs - now).toNat then
      return (.missed, c.disarm R)
    else
      return (.armed delay, c)

def source : Source (SymbolCounter ρ) where
  rate := R.rate
  period c := c.period.toUInt64
  reading := value R
  resolution _ := .ok 1
  arm := arm R
  disarm := disarm R
  acknowledge c := c

end SymbolCounter

end SlotClock
