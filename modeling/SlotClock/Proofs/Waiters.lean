import SlotClock.Proofs.Wakeup

/-!
# Any number of waiters

Many waits share one signal, each with a waker of its own, and compete for it with the
foreground.  A raise that finds the signal clear is consumed once, by a take or by a poll,
unless it is still there.  Between any two steps a raised signal holds no waker, although
inside a poll it may.

To tell the registrations of a waker apart, the same run is made with numbered wakers, and
beside each wake stands how many registrations there had been.  Without the numbers it is
the run of the signal.

## The signal and its users
-/

namespace SlotClock

variable {ω : Type}

namespace Signal

/-- What its users do with the signal.  To begin a wait or to drop one leaves it as it is. -/
inductive Use (ω : Type) where
  | raise
  | heed (kick : Kick)
  | take
  | wait (w : ω)
  | drop (w : ω)
  | poll (w : ω) (landing : Landing)
  deriving DecidableEq, Repr

end Signal

open Signal

structure Shared (ω : Type) where
  signal : Signal ω := {}
  consumed : Nat := 0
  woken : List ω := []
  deriving DecidableEq, Repr

namespace Shared

def raiseIf (c : Shared ω) (wanted : Bool) : Shared ω :=
  { c with
    signal := (c.signal.raiseIf wanted).2
    woken := c.woken ++ (c.signal.raiseIf wanted).1 }

def use (c : Shared ω) : Use ω → Shared ω
  | .raise => c.raiseIf true
  | .heed kick => c.raiseIf kick.isWanted
  | .take =>
    { c with
      signal := c.signal.take.2
      consumed := c.consumed + c.signal.take.1.toNat }
  | .wait _ => c
  | .drop _ => c
  | .poll w landing =>
    let polled := c.signal.poll w landing
    { signal := polled.signal
      consumed := c.consumed + polled.ready.toNat
      woken := c.woken ++ polled.woken }

def after (c : Shared ω) (uses : List (Use ω)) : Shared ω :=
  uses.foldl use c

end Shared

/-! ## The run with numbered wakers -/

structure Numbered (ω : Type) where
  waker : ω
  number : Nat
  deriving DecidableEq, Repr

structure Wake (ω : Type) where
  woken : Numbered ω
  registered : Nat
  deriving DecidableEq, Repr

structure Watch (ω : Type) where
  signal : Signal (Numbered ω) := {}
  registered : Nat := 0
  fresh : Nat := 0
  consumed : Nat := 0
  wakes : List (Wake ω) := []
  deriving DecidableEq, Repr

namespace Watch

def raiseIf (v : Watch ω) (wanted : Bool) : Watch ω :=
  { v with
    signal := (v.signal.raiseIf wanted).2
    fresh := v.fresh + (wanted && !v.signal.raised).toNat
    wakes := v.wakes ++ (v.signal.raiseIf wanted).1.map (⟨·, v.registered⟩) }

def take (v : Watch ω) : Bool × Watch ω :=
  (v.signal.take.1,
    { v with
      signal := v.signal.take.2
      consumed := v.consumed + v.signal.take.1.toNat })

def register (v : Watch ω) (w : ω) (lands : Bool) : Watch ω :=
  let registered := v.registered + 1
  { v with
    signal := (v.signal.register ⟨w, registered⟩ lands).2
    registered := registered
    fresh := v.fresh + (lands && !v.signal.raised).toNat
    wakes := v.wakes ++ (v.signal.register ⟨w, registered⟩ lands).1.map (⟨·, registered⟩) }

def poll (v : Watch ω) (w : ω) (landing : Landing) : Bool × Watch ω :=
  let (ready, v) := (v.raiseIf landing.beforeLook).take
  if ready then
    (true, v)
  else
    let v := v.raiseIf landing.beforeRegister
    let v := v.register w landing.whileRegistering
    (v.raiseIf landing.beforeSecondLook).take

def use (v : Watch ω) : Use ω → Watch ω
  | .raise => v.raiseIf true
  | .heed kick => v.raiseIf kick.isWanted
  | .take => v.take.2
  | .wait _ => v
  | .drop _ => v
  | .poll w landing => (v.poll w landing).2

def after (v : Watch ω) (uses : List (Use ω)) : Watch ω :=
  uses.foldl use v

end Watch

/-! ## What holds at every moment -/

/-- Of `k` registrations each was woken at most once, and while it was the latest one. -/
structure WokenOnce (k : Nat) (wakes : List (Wake ω)) : Prop where
  known : ∀ wake ∈ wakes, wake.registered ≤ k
  latest : ∀ wake ∈ wakes, wake.woken.number = wake.registered
  ordered : (wakes.map (·.registered)).Pairwise (· < ·)

namespace WokenOnce

private theorem lt_next {k : Nat} {wakes : List (Wake ω)} (once : WokenOnce k wakes) :
    ∀ wake ∈ wakes, wake.registered < k + 1 :=
  fun wake mem => Nat.lt_succ_of_le (once.known wake mem)

theorem next {k : Nat} {wakes : List (Wake ω)} (once : WokenOnce k wakes) :
    WokenOnce (k + 1) wakes :=
  { once with known := fun wake mem => Nat.le_of_lt (once.lt_next wake mem) }

theorem concat {k : Nat} {wakes : List (Wake ω)} (once : WokenOnce k wakes)
    (asleep : ∀ wake ∈ wakes, wake.registered < k) (w : ω) :
    WokenOnce k (wakes ++ [⟨⟨w, k⟩, k⟩]) where
  known := by
    simpa [or_imp, forall_and] using once.known
  latest := by
    simpa [or_imp, forall_and] using once.latest
  ordered := by
    simpa [List.pairwise_append, once.ordered] using asleep

end WokenOnce

namespace Watch

structure Sound (v : Watch ω) : Prop where
  balance : v.fresh = v.consumed + v.signal.raised.toNat
  held : ∀ r, v.signal.waker = some r →
    r.number = v.registered ∧ ∀ wake ∈ v.wakes, wake.registered < v.registered
  once : WokenOnce v.registered v.wakes

theorem toNat_fresh (raised wanted : Bool) :
    raised.toNat + (wanted && !raised).toNat = (raised || wanted).toNat := by
  cases raised <;> cases wanted <;> rfl

theorem Sound.raiseIf {v : Watch ω} (sound : v.Sound) (wanted : Bool) :
    (v.raiseIf wanted).Sound where
  balance := by
    show v.fresh + _ = v.consumed + (v.signal.raiseIf wanted).2.raised.toNat
    rw [raised_raiseIf, ← toNat_fresh, sound.balance, Nat.add_assoc]
  held := by
    cases wanted with
    | false => simpa [Watch.raiseIf, Signal.raiseIf] using sound.held
    | true =>
        intro r slot
        cases slot
  once := by
    cases wanted with
    | false => simpa [Watch.raiseIf, Signal.raiseIf] using sound.once
    | true =>
        simp only [Watch.raiseIf, Signal.raiseIf, Signal.raise, if_true]
        cases slot : v.signal.waker with
        | none => simpa using sound.once
        | some r =>
            obtain ⟨w, number⟩ := r
            obtain ⟨rfl, asleep⟩ := sound.held _ slot
            exact sound.once.concat asleep w

theorem Sound.take {v : Watch ω} (sound : v.Sound) : v.take.2.Sound :=
  { sound with balance := sound.balance }

theorem Sound.register {v : Watch ω} (sound : v.Sound) (w : ω) (lands : Bool) :
    (v.register w lands).Sound where
  balance := by
    show v.fresh + _ = v.consumed + (v.signal.register _ lands).2.raised.toNat
    rw [raised_register, ← toNat_fresh, sound.balance, Nat.add_assoc]
  held := by
    intro r slot
    cases lands with
    | true => cases slot
    | false =>
        cases slot
        exact ⟨rfl, by simpa [Watch.register, Signal.register] using sound.once.lt_next⟩
  once := by
    cases lands with
    | false => simpa [Watch.register, Signal.register] using sound.once.next
    | true => exact sound.once.next.concat sound.once.lt_next w

theorem Sound.poll {v : Watch ω} (sound : v.Sound) (w : ω) (landing : Landing) :
    (v.poll w landing).2.Sound := by
  have looked := (sound.raiseIf landing.beforeLook).take
  unfold Watch.poll
  dsimp only
  split
  next => exact looked
  next =>
    exact (((looked.raiseIf landing.beforeRegister).register w landing.whileRegistering).raiseIf
      landing.beforeSecondLook).take

theorem Sound.use {v : Watch ω} (sound : v.Sound) (u : Use ω) : (v.use u).Sound := by
  cases u with
  | raise => exact sound.raiseIf true
  | heed kick => exact sound.raiseIf kick.isWanted
  | take => exact sound.take
  | wait w => exact sound
  | drop w => exact sound
  | poll w landing => exact sound.poll w landing

/-! ## What holds between the steps -/

theorem raised_poll (v : Watch ω) (w : ω) (landing : Landing) :
    (v.poll w landing).2.signal.raised = false := by
  unfold poll
  dsimp only
  split <;> rfl

theorem signal_of_pending {v : Watch ω} {w : ω} {landing : Landing}
    (pending : (v.poll w landing).1 = false) :
    (v.poll w landing).2.signal = ⟨false, some ⟨w, v.registered + 1⟩⟩ ∧
      (v.poll w landing).2.registered = v.registered + 1 := by
  unfold poll at pending ⊢
  dsimp only at pending ⊢
  split at pending
  next => cases pending
  next clear =>
    rw [if_neg clear]
    exact ⟨congrArg (Signal.mk false) (waker_of_clear _ _ _ _ pending), rfl⟩

/-- A raised signal holds no waker: the raise took it out, and only a poll leaves one. -/
def Settled (v : Watch ω) : Prop :=
  v.signal.raised = true → v.signal.waker = none

theorem Settled.raiseIf {v : Watch ω} (settled : v.Settled) (wanted : Bool) :
    (v.raiseIf wanted).Settled := by
  cases wanted with
  | false => exact settled
  | true => exact fun _ => rfl

theorem Settled.use {v : Watch ω} (settled : v.Settled) (u : Use ω) : (v.use u).Settled := by
  cases u with
  | raise => exact settled.raiseIf true
  | heed kick => exact settled.raiseIf kick.isWanted
  | take => exact nofun
  | wait w => exact settled
  | drop w => exact settled
  | poll w landing =>
      -- Its last look has cleared the signal, which inside the poll may be raised and held.
      exact fun raised => absurd raised (Bool.eq_false_iff.mp (raised_poll v w landing))

end Watch

example : (Watch.after {} [.poll 'a' {}, .poll 'b' {}, .raise, .raise]).wakes =
    [⟨⟨'b', 2⟩, 2⟩] :=
  rfl

end SlotClock
