import SlotClock.Bench.Script
import SlotClock.Bench.Trace
import SlotClock.Timer

/-!
Sessions with a timer, or with a schedule that has no timer on top.

A session applies one step after the other and notes what the timer and the hardware
show after each.  Scripts are finite, so the fuel of a callback loop is read off the
script: an invocation past its end plans nothing.
-/

namespace SlotClock.Bench

inductive TimerStep where
  | move (move : Move)
  | setCallback (script : Script)
  | interrupt
  | runUntil (time : UInt64)
  deriving DecidableEq, Repr

inductive TimerAnswer where
  | done
  | replied (reply : Reply)
  | served (kick : Kick)
  | servedAll (kicks : Array Kick)
  deriving DecidableEq, Repr

structure TimerMoment (σ : Type) where
  answer : TimerAnswer
  view : View
  reading : UInt32
  source : σ
  runs : Array Invocation

namespace TimerStep

variable {σ η : Type} [Hardware η] (rig : Rig σ η)

/-- One unit for each invocation with moves of its own, and one for the last one. -/
def fuel (t : Timer σ Playback) : Nat :=
  match t.callback with
  | none => 0
  | some c => c.state.script.length + 1

def serveOnce (t : Timer σ Playback) : Except Halt (Kick × Timer σ Playback) :=
  t.interrupt rig.source (fuel t)

def serve (time : UInt64) : Nat → Array Kick → Timer σ Playback →
    Except Halt (Array Kick × Timer σ Playback)
  | 0, kicks, t => .ok (kicks, t)
  | limit + 1, kicks, t =>
    match Hardware.happen? time (rig.hardware t.schedule.source) with
    | none => .ok (kicks, t)
    | some h =>
      match serveOnce rig { t with schedule.source := rig.replaceHardware h t.schedule.source } with
      | .error halt => .error halt
      | .ok (k, t) => serve time limit (kicks.push k) t

def applyMove (t : Timer σ Playback) : Move → Except Halt (TimerAnswer × Timer σ Playback)
  | .plan delay => do
    let (reply, t) ← t.plan rig.source (fuel t) delay
    return (.replied reply, t)
  | .cancel => .ok (.done, t.cancel rig.source)
  | .reset => .ok (.done, t.reset rig.source)
  | .clear => .ok (.done, t.clear rig.source)
  | .disturb disturbance => do
    let t ← (t.onSource (rig.disturb disturbance)).mapError .fault
    return (.done, t)

def apply (limit : Nat) (t : Timer σ Playback) :
    TimerStep → Except Halt (TimerAnswer × Timer σ Playback)
  | move m => applyMove rig t m
  | setCallback script => .ok (.done, t.setCallback (rig.callback script))
  | interrupt => do
    let (k, t) ← serveOnce rig t
    return (.served k, t)
  | runUntil time => do
    let (kicks, t) ← serve rig time limit #[] t
    let source := rig.mapHardware (Hardware.waitUntil time) t.schedule.source
    return (.servedAll kicks, { t with schedule.source := source })

def moment (answer : TimerAnswer) (s : Schedule σ) (runs : Array Invocation) :
    Except Fault (TimerMoment σ) :=
  return ⟨answer, ← View.of rig.source s, s.reading rig.source, s.source, runs⟩

def forget (t : Timer σ Playback) : Timer σ Playback :=
  ⟨{ t.schedule with source := rig.mapHardware Hardware.forget t.schedule.source },
    t.callback.map fun c => { c with state := { c.state with record := #[] } }⟩

def run (limit : Nat) (step : TimerStep) (t : Timer σ Playback) :
    Except Halt (TimerMoment σ × Timer σ Playback) := do
  let (answer, t) ← step.apply rig limit t
  let runs := (t.callback.map (·.state.record)).getD #[]
  let seen ← (moment rig answer t.schedule runs).mapError .fault
  return (seen, forget rig t)

end TimerStep

namespace Rig

variable {σ η : Type} [Hardware η]

def runTimer (rig : Rig σ η) (limit : Nat) (source : σ) (steps : List TimerStep) :
    List (Except Halt (TimerMoment σ)) :=
  trace (TimerStep.run rig limit) (.ofSource source) steps

def runMove (rig : Rig σ η) (move : Move) (s : Schedule σ) :
    Except Halt (TimerMoment σ × Schedule σ) := do
  let s ← ((move.action rig).apply rig.source s).mapError .fault
  let answer := match move with
    | .plan _ => .replied .planned
    | _ => .done
  let seen ← (TimerStep.moment rig answer s #[]).mapError .fault
  return (seen, { s with source := rig.mapHardware Hardware.forget s.source })

def runSchedule (rig : Rig σ η) (source : σ) (moves : List Move) :
    List (Except Halt (TimerMoment σ)) :=
  trace rig.runMove { source := source } moves

end Rig

end SlotClock.Bench
