import SlotClock.Bench.Rig
import SlotClock.Bench.Trace
import SlotClock.FrameTimer

/-!
Sessions with the frame timer of a radio.

Every handler notes that it ran: how often, when, and for which frame time.
-/

namespace SlotClock.Bench

inductive FrameCause where
  | periodEnd
  | compare
  | frameStart
  | frameEnd
  deriving DecidableEq, Repr

structure FrameRun where
  cause : FrameCause
  label : String
  number : Nat
  time : UInt64
  frame : Option UInt32
  deriving DecidableEq, Repr

/-- The state of a handler: its label, how often it ran, and the runs not yet reported. -/
structure FrameNotes where
  label : String
  ran : Nat := 0
  runs : Array FrameRun := #[]
  deriving DecidableEq, Repr

inductive FrameStep where
  | clear
  | start (period : UInt32)
  | setPeriod (period : UInt32)
  | compareAt (offset : UInt32)
  | cancel
  | on (cause : FrameCause) (label : String)
  | interrupt (cause : FrameInterrupt)
  | disturb (step : HardwareStep)
  deriving DecidableEq, Repr

structure FrameMoment (η : Type) where
  kick : Option Kick
  value : UInt32
  timer : FrameTimer η FrameNotes
  runs : Array FrameRun

variable {η : Type} [Hardware η]

def FrameCause.handler {α : Type} (cause : FrameCause) (label : String)
    (frame : α → Option UInt32) : Handler η FrameNotes α where
  state := { label := label }
  body a notes h :=
    let number := notes.ran + 1
    let run := ⟨cause, notes.label, number, Hardware.time h, frame a⟩
    ({ notes with ran := number, runs := notes.runs.push run }, Hardware.note h)

namespace FrameStep

variable (R : SymbolRegisters η)

def register (t : FrameTimer η FrameNotes) (label : String) : FrameCause → FrameTimer η FrameNotes
  | .periodEnd => { t with onPeriodEnd := some (FrameCause.periodEnd.handler label fun _ => none) }
  | .compare => { t with onCompare := some (FrameCause.compare.handler label fun _ => none) }
  | .frameStart => { t with onFrameStart := some (FrameCause.frameStart.handler label some) }
  | .frameEnd => { t with onFrameEnd := some (FrameCause.frameEnd.handler label some) }

def apply (t : FrameTimer η FrameNotes) :
    FrameStep → Except Fault (Option Kick × FrameTimer η FrameNotes)
  | clear => .ok (none, t.clear)
  | start period => (t.start R period).map (none, ·)
  | setPeriod period => (t.setPeriod R period).map (none, ·)
  | compareAt offset => (t.compareAt R offset).map (none, ·)
  | cancel => .ok (none, t.cancel R)
  | on cause label => .ok (none, register t label cause)
  | interrupt cause =>
    let (k, t) := t.interrupt R cause
    .ok (some k, t)
  | disturb step =>
    (Hardware.disturb step t.counter.regs).map fun h =>
      (none, { t with counter := { t.counter with regs := h } })

def pending {α : Type} (h? : Option (Handler η FrameNotes α)) : Array FrameRun :=
  (h?.map (·.state.runs)).getD #[]

def reported {α : Type} (h? : Option (Handler η FrameNotes α)) : Option (Handler η FrameNotes α) :=
  h?.map fun h => { h with state := { h.state with runs := #[] } }

def runs (t : FrameTimer η FrameNotes) : Array FrameRun :=
  pending t.onPeriodEnd ++ pending t.onCompare ++ pending t.onFrameStart ++ pending t.onFrameEnd

def forget (t : FrameTimer η FrameNotes) : FrameTimer η FrameNotes :=
  { t with
    counter := { t.counter with regs := Hardware.forget t.counter.regs }
    onPeriodEnd := reported t.onPeriodEnd
    onCompare := reported t.onCompare
    onFrameStart := reported t.onFrameStart
    onFrameEnd := reported t.onFrameEnd }

def run (step : FrameStep) (t : FrameTimer η FrameNotes) :
    Except Halt (FrameMoment η × FrameTimer η FrameNotes) := do
  let (answer, t) ← (step.apply R t).mapError .fault
  return (⟨answer, t.value R, t, runs t⟩, forget t)

end FrameStep

def runFrames (R : SymbolRegisters η) (counter : SymbolCounter η) (steps : List FrameStep) :
    List (Except Halt (FrameMoment η)) :=
  trace (FrameStep.run R) { counter := counter } steps

end SlotClock.Bench
