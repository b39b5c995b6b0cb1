import SlotClock.Bench.Rig
import SlotClock.Callback

/-!
Callbacks that play a script.

A script says what each invocation of the callback does, and the playback keeps a
record of every invocation: what the schedule looked like on entry and after each
move.
-/

namespace SlotClock.Bench

structure View where
  phase : Phase
  anchor : UInt32
  owed : UInt64
  reading : UInt32
  deriving DecidableEq, Repr

def View.of {σ : Type} (S : Source σ) (s : Schedule σ) : Except Fault View :=
  return ⟨s.phase, ← s.referenceAnchor S, s.owed, ← s.referenceReading S⟩

inductive Move where
  | plan (delay : UInt32)
  | cancel
  | reset
  | clear
  | disturb (disturbance : Disturbance)
  deriving DecidableEq, Repr

structure Script where
  label : String := ""
  opening : List Disturbance := []
  first : List (List Move) := []
  rest : List Move := []
  limit : Nat := 0
  deriving DecidableEq, Repr

namespace Script

def moves (script : Script) (n : Nat) : List Move :=
  script.opening.map .disturb ++ script.first.getD n (if n < script.limit then script.rest else [])

/-- From this invocation on, only the opening is played. -/
def length (script : Script) : Nat :=
  max script.first.length script.limit

end Script

structure Snapshot where
  view : View
  armed : Option UInt64
  time : UInt64
  deriving DecidableEq, Repr

structure Invocation where
  label : String
  number : Nat
  time : UInt64
  onEntry : View
  moves : Array Snapshot
  deriving DecidableEq, Repr

structure Playback where
  script : Script
  next : Nat := 0
  record : Array Invocation := #[]
  deriving DecidableEq, Repr

variable {σ η : Type} [Hardware η]

def Move.action (rig : Rig σ η) : Move → Action σ
  | plan delay => .plan delay
  | cancel => .cancel
  | reset => .reset
  | clear => .clear
  | disturb disturbance => .environment (rig.disturb disturbance)

namespace Rig

def snapshot (rig : Rig σ η) (s : Schedule σ) : Except Fault Snapshot :=
  return ⟨← View.of rig.source s, Hardware.armed (rig.hardware s.source),
    Hardware.time (rig.hardware s.source)⟩

def play (rig : Rig σ η) (finish : Array Snapshot → Playback) :
    List Move → Array Snapshot → Program σ Playback
  | [], seen => .finish (finish seen)
  | move :: rest, seen =>
    .act (move.action rig) fun s =>
      match rig.snapshot s with
      | .error cause => .fail cause
      | .ok snapshot => rig.play finish rest (seen.push snapshot)

def invocation (rig : Rig σ η) (p : Playback) (s : Schedule σ) : Program σ Playback :=
  match rig.snapshot s with
  | .error cause => .fail cause
  | .ok entry =>
    let finish := fun seen =>
      { p with
        next := p.next + 1
        record := p.record.push ⟨p.script.label, p.next, entry.time, entry.view, seen⟩ }
    rig.play finish (p.script.moves p.next) #[]

def callback (rig : Rig σ η) (script : Script) : Callback σ Playback :=
  ⟨{ script := script }, rig.invocation⟩

end Rig

end SlotClock.Bench
