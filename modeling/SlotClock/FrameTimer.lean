import SlotClock.Kick
import SlotClock.Source.SymbolCounter

/-!
The frame timer of a radio.

It keeps periods on a symbol counter, has one compare event within a period, and
remembers when the radio last saw a frame start or end.  Each of its four interrupts
can have a handler, and the run loop is kicked exactly if one ran.
-/

namespace SlotClock

/-- A handler with state `κ`, which acts on the registers `ρ` when an interrupt brings it an `α`. -/
structure Handler (ρ κ α : Type) where
  state : κ
  body (cause : α) : κ → ρ → κ × ρ

def Handler.notify {ρ κ α : Type} (h? : Option (Handler ρ κ α)) (cause : α) (regs : ρ) :
    Kick × Option (Handler ρ κ α) × ρ :=
  match h? with
  | none => (.unwanted, none, regs)
  | some h =>
    let (state, regs) := h.body cause h.state regs
    (.wanted, some { h with state := state }, regs)

inductive FrameInterrupt where
  | periodEnd
  | compare
  | frameStart (time : UInt32)
  | frameEnd (time : UInt32)
  deriving DecidableEq, Repr

structure FrameTimer (ρ κ : Type) where
  counter : SymbolCounter ρ
  onPeriodEnd : Option (Handler ρ κ Unit) := none
  onCompare : Option (Handler ρ κ Unit) := none
  onFrameStart : Option (Handler ρ κ UInt32) := none
  onFrameEnd : Option (Handler ρ κ UInt32) := none
  lastFrame : Option UInt32 := none

namespace FrameTimer

variable {ρ κ : Type} (R : SymbolRegisters ρ)

def clear (t : FrameTimer ρ κ) : FrameTimer ρ κ := { counter := t.counter }

def value (t : FrameTimer ρ κ) : UInt32 := t.counter.value R

def period (t : FrameTimer ρ κ) : UInt32 := t.counter.period

def start (t : FrameTimer ρ κ) (period : UInt32) : Except Fault (FrameTimer ρ κ) := do
  return { t with counter := ← t.counter.startWith R period }

def setPeriod (t : FrameTimer ρ κ) (period : UInt32) : Except Fault (FrameTimer ρ κ) := do
  return { t with counter := ← t.counter.setPeriod R period }

def compareAt (t : FrameTimer ρ κ) (offset : UInt32) : Except Fault (FrameTimer ρ κ) := do
  return { t with counter := ← t.counter.compareAt R offset }

def cancel (t : FrameTimer ρ κ) : FrameTimer ρ κ :=
  { t with counter := t.counter.disarm R }

def interrupt (t : FrameTimer ρ κ) : FrameInterrupt → Kick × FrameTimer ρ κ
  | .periodEnd =>
    let counter := t.counter.rollOver R
    let (answer, handler, regs) := Handler.notify t.onPeriodEnd () counter.regs
    (answer, { t with counter := { counter with regs := regs }, onPeriodEnd := handler })
  | .compare =>
    let counter := t.counter.disarm R
    let (answer, handler, regs) := Handler.notify t.onCompare () counter.regs
    (answer, { t with counter := { counter with regs := regs }, onCompare := handler })
  | .frameStart time =>
    let (answer, handler, regs) := Handler.notify t.onFrameStart time t.counter.regs
    (answer, { t with
      counter := { t.counter with regs := regs }, onFrameStart := handler, lastFrame := some time })
  | .frameEnd time =>
    let (answer, handler, regs) := Handler.notify t.onFrameEnd time t.counter.regs
    (answer, { t with
      counter := { t.counter with regs := regs }, onFrameEnd := handler, lastFrame := some time })

end FrameTimer

end SlotClock
