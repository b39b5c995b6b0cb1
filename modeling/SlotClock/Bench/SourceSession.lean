import SlotClock.Bench.Rig
import SlotClock.Bench.Trace

/-!
Sessions that use a tick source directly.
-/

namespace SlotClock.Bench

inductive SourceStep where
  | arm (base : UInt32) (delay : UInt64)
  | disarm
  | acknowledge
  | describe
  | disturb (disturbance : Disturbance)
  deriving DecidableEq, Repr

inductive SourceAnswer where
  | done
  | arming (outcome : Arming)
  | description (period resolution : UInt64) (rate : Rate)
  deriving DecidableEq, Repr

structure SourceMoment (σ : Type) where
  answer : SourceAnswer
  reading : UInt32
  source : σ

namespace SourceStep

variable {σ η : Type} [Hardware η] (rig : Rig σ η)

def apply : SourceStep → σ → Except Fault (SourceAnswer × σ)
  | arm base delay, s => (rig.source.arm base delay s).map fun (outcome, s) => (.arming outcome, s)
  | disarm, s => .ok (.done, rig.source.disarm s)
  | acknowledge, s => .ok (.done, rig.source.acknowledge s)
  | describe, s =>
    (rig.source.resolution s).map fun resolution =>
      (.description (rig.source.period s) resolution rig.source.rate, s)
  | disturb disturbance, s => (rig.disturb disturbance s).map fun s => (.done, s)

def run (step : SourceStep) (s : σ) : Except Halt (SourceMoment σ × σ) := do
  let (answer, s) ← (step.apply rig s).mapError .fault
  return (⟨answer, rig.source.reading s, s⟩, rig.mapHardware Hardware.forget s)

end SourceStep

def Rig.runSource {σ η : Type} [Hardware η] (rig : Rig σ η) (s : σ) (steps : List SourceStep) :
    List (Except Halt (SourceMoment σ)) :=
  trace (SourceStep.run rig) s steps

end SlotClock.Bench
