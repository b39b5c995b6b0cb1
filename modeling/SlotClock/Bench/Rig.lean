import SlotClock.Bench.ScriptedSource

/-!
A tick source mounted on simulated hardware.

The rig knows the hardware below the source, so that a session can disturb it and
read it while the source is in use.
-/

namespace SlotClock.Bench

/-- What the owner of a symbol counter does with it besides using it as a tick source. -/
inductive DriverStep where
  | start
  | stop
  | rollOver
  | setPeriod (period : UInt32)
  deriving DecidableEq, Repr

inductive Disturbance where
  | hardware (step : HardwareStep)
  | driver (step : DriverStep)
  deriving DecidableEq, Repr

structure Rig (σ η : Type) where
  source : Source σ
  hardware : σ → η
  replaceHardware : η → σ → σ
  drive : DriverStep → σ → Except Fault σ

namespace Rig

variable {σ η : Type}

def mapHardware (rig : Rig σ η) (f : η → η) (s : σ) : σ :=
  rig.replaceHardware (f (rig.hardware s)) s

def disturb [Hardware η] (rig : Rig σ η) : Disturbance → σ → Except Fault σ
  | .hardware step, s => (Hardware.disturb step (rig.hardware s)).map (rig.replaceHardware · s)
  | .driver step, s => rig.drive step s

def compare (C : CompareChannel η) : Rig η η where
  source := C.source
  hardware h := h
  replaceHardware h _ := h
  drive _ h := .ok h

def symbol (R : SymbolRegisters η) : Rig (SymbolCounter η) η where
  source := SymbolCounter.source R
  hardware c := c.regs
  replaceHardware h c := { c with regs := h }
  drive step c :=
    match step with
    | .start => .ok (c.start R)
    | .stop => .ok (c.stop R)
    | .rollOver => .ok (c.rollOver R)
    | .setPeriod period => c.setPeriod R period

def interval (R : IntervalRegisters η) (range : IntervalRange) : Rig (IntervalTimer η) η where
  source := IntervalTimer.source R range
  hardware t := t.regs
  replaceHardware h t := { t with regs := h }
  drive _ t := .ok t

def scripted (model : ScriptedModel) : Rig ScriptedSource Board where
  source := ScriptedSource.source model
  hardware s := s.board
  replaceHardware board s := { s with board := board }
  drive _ s := .ok s

end Rig

end SlotClock.Bench
