import SlotClock.Rate

/-!
Tick sources.

A source is a counter that runs freely, with one event that can be armed.  It is
given as a record of operations over its state `σ`, so that what is proved for every
`Source` holds for every hardware.
-/

namespace SlotClock

inductive Arming where
  /-- The event comes `covered` ticks after the base that it was armed from. -/
  | armed (covered : UInt64)
  | missed
  deriving DecidableEq, Repr

structure Source (σ : Type) where
  rate : Rate
  period : σ → UInt64
  reading : σ → UInt32
  resolution : σ → Except Fault UInt64
  /-- Arms the event `delay` ticks after the reading `base`; `delay` is at most half the period. -/
  arm (base : UInt32) (delay : UInt64) : σ → Except Fault (Arming × σ)
  disarm : σ → σ
  acknowledge : σ → σ

end SlotClock
