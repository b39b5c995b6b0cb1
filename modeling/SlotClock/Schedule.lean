import SlotClock.Counter
import SlotClock.Source

/-!
Schedules of single slots on a tick source.

A slot is planned by its delay from the slot before it, whenever the plan is made.
The instant of the last planned slot is the anchor.  A slot whose instant has gone
by is due at once, and the next one is still counted from the anchor, so that
lateness is not handed on.

A slot more than half a counter period ahead is armed in chunks.  After each chunk
the rest is measured from the reading at which the chunk was to end.
-/

namespace SlotClock

inductive Phase where
  | idle
  | armed
  | running
  deriving DecidableEq, Repr

structure Schedule (σ : Type) where
  source : σ
  /-- The fraction of a native tick that is carried to the next delay. -/
  carry : UInt64 := 0
  /-- The native reading of the instant of the slot planned last. -/
  anchor : UInt32 := 0
  phase : Phase := .idle
  eventAt : UInt32 := 0
  /-- The native ticks that remain after the armed event. -/
  owed : UInt64 := 0
  due : Bool := false

inductive Approach where
  | due (late : Int)
  | ahead (remaining : UInt64)
  deriving DecidableEq, Repr

/--
A slot `delay` ticks after an anchor that lies `elapsed` ticks back; without a delay
it is due.
-/
def Approach.of (delay : UInt64) (elapsed : Int) : Except Fault Approach := do
  if delay = 0 ∨ 0 ≤ elapsed ∧ delay ≤ Word.ofSigned elapsed then
    return .due (← Signed.sub elapsed (Word.toSigned delay))
  else
    return .ahead (Word.ofSigned (← Signed.sub (Word.toSigned delay) elapsed))

namespace Schedule

variable {σ : Type} (S : Source σ)

def period (s : Schedule σ) : UInt64 := S.period s.source

def reading (s : Schedule σ) : UInt32 := S.reading s.source

def disarm (s : Schedule σ) : Schedule σ := { s with source := S.disarm s.source }

/-! ## In reference ticks -/

def ratio : Ratio := Ratio.between S.rate Rate.reference

def referenceReading (s : Schedule σ) : Except Fault UInt32 :=
  return (← (ratio S).referenceOfReading (s.reading S).toUInt64).toUInt32

def referenceAnchor (s : Schedule σ) : Except Fault UInt32 :=
  return (← (ratio S).referenceOfReading s.anchor.toUInt64).toUInt32

/-! ## Giving up what is planned -/

def clear (s : Schedule σ) : Schedule σ := { source := S.disarm s.source }

def withoutEvent : Phase → Phase
  | .armed => .idle
  | phase => phase

def cancel (s : Schedule σ) : Schedule σ :=
  { s.disarm S with phase := withoutEvent s.phase, owed := 0, due := false }

def reset (s : Schedule σ) : Schedule σ :=
  { s.cancel S with carry := 0, anchor := 0 }

def supersede (s : Schedule σ) : Schedule σ :=
  let s := if s.phase = .armed then { s.disarm S with phase := .idle } else s
  { s with owed := 0, due := false }

/-! ## Planning a slot -/

/--
Arms the next chunk of `remaining` ticks from the reading `base`.  What is below the
resolution of the source is due at once, and so is a deadline that goes by while it
is armed.
-/
def armChunk (base : UInt32) (remaining : UInt64) (s : Schedule σ) : Except Fault (Schedule σ) := do
  let resolution ← S.resolution s.source
  if remaining < resolution then
    return { s with due := true }
  else
    let period := s.period S
    match ← S.arm base (min remaining (period / 2)) s.source with
    | (.armed covered, source) =>
      let eventAt ← Counter.advance period base covered
      let owed ← Word.sub remaining covered
      return { s with source := source, eventAt := eventAt, owed := owed, phase := .armed }
    | (.missed, source) =>
      return { s with source := S.disarm source, due := true }

def plan (delay : UInt32) (s : Schedule σ) : Except Fault (Schedule σ) := do
  let s := s.supersede S
  let (native, carry) ← (ratio S).nativeOfDelay s.carry delay
  let now := s.reading S
  let elapsed ← Counter.distance (s.period S) s.anchor now
  let anchor ← Counter.advance (s.period S) s.anchor native
  let s := { s with carry := carry, anchor := anchor }
  match ← Approach.of native elapsed with
  | .due _ => return { s with due := true }
  | .ahead remaining => s.armChunk S now remaining

/-! ## Serving events -/

def takeDue (s : Schedule σ) : Bool × Schedule σ :=
  (s.due, { s with due := false })

def continueWith (owed : UInt64) (s : Schedule σ) : Except Fault (Bool × Schedule σ) := do
  let now := s.reading S
  let late ← Counter.distance (s.period S) s.eventAt now
  let remaining ← Signed.sub (Word.toSigned owed) late
  if remaining ≤ 0 then
    return (true, s)
  else
    return (← s.armChunk S now (Word.ofSigned remaining)).takeDue

def serve (s : Schedule σ) : Except Fault (Bool × Schedule σ) :=
  let s := { s with source := S.disarm (S.acknowledge s.source) }
  if s.phase = .armed then
    let idle := { s with phase := .idle, owed := 0 }
    if s.owed = 0 then .ok (true, idle) else idle.continueWith S s.owed
  else
    .ok (false, s)

def enterCallback (s : Schedule σ) : Schedule σ := { s with phase := .running }

def leaveCallback (s : Schedule σ) : Schedule σ :=
  if s.phase = .running then { s with phase := .idle } else s

end Schedule

end SlotClock
