import SlotClock.Schedule

/-!
What a callback can do.

A callback is handed the schedule whose slot is due.  It may use the operations of
that schedule, and it may act on the world behind the source, but it cannot reach
into the schedule.  One run of a callback is therefore a tree of actions: after each
action it sees the schedule and goes on from there.
-/

namespace SlotClock

inductive Action (σ : Type) where
  | plan (delay : UInt32)
  | cancel
  | reset
  | clear
  | environment (effect : σ → Except Fault σ)

def Action.apply {σ : Type} (S : Source σ) (s : Schedule σ) : Action σ → Except Fault (Schedule σ)
  | plan delay => s.plan S delay
  | cancel => .ok (s.cancel S)
  | reset => .ok (s.reset S)
  | clear => .ok (s.clear S)
  | environment effect => do
    let source ← effect s.source
    return { s with source := source }

/-- One run of a callback, which ends in the next state of the callback or in a fault. -/
inductive Program (σ κ : Type) where
  | finish (state : κ)
  | fail (cause : Fault)
  | act (action : Action σ) (next : Schedule σ → Program σ κ)

def Program.run {σ κ : Type} (S : Source σ) :
    Program σ κ → Schedule σ → Except Fault (κ × Schedule σ)
  | finish state, s => .ok (state, s)
  | fail cause, _ => .error cause
  | act action next, s =>
    match action.apply S s with
    | .error cause => .error cause
    | .ok s => (next s).run S s

structure Callback (σ κ : Type) where
  state : κ
  body : κ → Schedule σ → Program σ κ

def Callback.invoke {σ κ : Type} (S : Source σ) (c : Callback σ κ) (s : Schedule σ) :
    Except Fault (Callback σ κ × Schedule σ) := do
  let (state, s) ← (c.body c.state s).run S s
  return ({ c with state := state }, s)

end SlotClock
