import SlotClock.Callback
import SlotClock.Kick

/-!
The slot timer: a schedule, and the callback that runs for its slots.

The callback runs in the interrupt of the event, or inside `plan` itself if the slot
is already due.  It plans the next slot on the schedule that it is handed, and runs
again as long as it leaves a slot that is due.  Nothing bounds that loop, so the
operations that enter it take fuel, one unit for a run.

An operation takes the whole timer and returns it.  A timer shared between the
foreground and the interrupt is served by the same operations, one after the other.
-/

namespace SlotClock

structure Timer (σ κ : Type) where
  schedule : Schedule σ
  callback : Option (Callback σ κ) := none

inductive Reply where
  | planned
  | noCallback
  deriving DecidableEq, Repr

namespace Timer

variable {σ κ : Type} (S : Source σ)

def ofSource (source : σ) : Timer σ κ := { schedule := { source := source } }

def clear (t : Timer σ κ) : Timer σ κ := { schedule := t.schedule.clear S }

def setCallback (t : Timer σ κ) (callback : Callback σ κ) : Timer σ κ :=
  { t with callback := some callback }

def cancel (t : Timer σ κ) : Timer σ κ := { t with schedule := t.schedule.cancel S }

def reset (t : Timer σ κ) : Timer σ κ := { t with schedule := t.schedule.reset S }

def onSource (t : Timer σ κ) (effect : σ → Except Fault σ) : Except Fault (Timer σ κ) := do
  let source ← effect t.schedule.source
  return { t with schedule.source := source }

/-- Runs the callback, and again for every slot that it leaves already due. -/
def runCallback : Nat → Callback σ κ → Schedule σ → Except Halt (Callback σ κ × Schedule σ)
  | 0, _, _ => .error .outOfFuel
  | fuel + 1, c, s =>
    match c.invoke S s.enterCallback with
    | .error cause => .error (.fault cause)
    | .ok (c, s) =>
      let (again, s) := s.leaveCallback.takeDue
      if again then runCallback fuel c s else .ok (c, s)

theorem runCallback_succ {fuel : Nat} {c : Callback σ κ} {s : Schedule σ}
    (h : runCallback S fuel c s ≠ .error .outOfFuel) :
    runCallback S (fuel + 1) c s = runCallback S fuel c s := by
  induction fuel generalizing c s with
  | zero => exact absurd rfl h
  | succ fuel ih =>
    rw [runCallback] at h ⊢
    rw [runCallback]
    cases hc : c.invoke S s.enterCallback with
    | error cause => rfl
    | ok next =>
      simp only [hc] at h ⊢
      split
      next again => simp only [again, ↓reduceIte] at h; exact ih h
      next => rfl

theorem runCallback_mono {fuel₁ fuel₂ : Nat} (h : fuel₁ ≤ fuel₂) {c : Callback σ κ}
    {s : Schedule σ} (hr : runCallback S fuel₁ c s ≠ .error .outOfFuel) :
    runCallback S fuel₂ c s = runCallback S fuel₁ c s := by
  induction h with
  | refl => rfl
  | step _ ih => rw [runCallback_succ S (ih ▸ hr), ih]

def plan (fuel : Nat) (t : Timer σ κ) (delay : UInt32) : Except Halt (Reply × Timer σ κ) :=
  match t.callback with
  | none => .ok (.noCallback, t)
  | some c => do
    let s ← (t.schedule.plan S delay).mapError .fault
    let (due, s) := s.takeDue
    let (c, s) ← if due then runCallback S fuel c s else pure (c, s)
    return (.planned, ⟨s, some c⟩)

/-- Serves the interrupt of the source; a kick is wanted exactly if the callback ran. -/
def interrupt (fuel : Nat) (t : Timer σ κ) : Except Halt (Kick × Timer σ κ) := do
  let (due, s) ← (t.schedule.serve S).mapError .fault
  match due, t.callback with
  | true, some c =>
    let (c, s) ← runCallback S fuel c s
    return (.wanted, ⟨s, some c⟩)
  | _, _ => return (.unwanted, { t with schedule := s })

end Timer

end SlotClock
