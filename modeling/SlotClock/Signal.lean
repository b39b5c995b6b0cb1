import SlotClock.Kick

/-!
The signal between interrupts and a waiting task.

An interrupt raises the signal, and a task either takes it or polls it.  A poll that
finds the signal clear leaves its waker behind, looks once more, and is pending only
if the signal is still clear.  One waker is held at a time: a later one replaces it,
and a raise takes it out and wakes it once.

Interrupts can land inside a poll.  A `Landing` says between which of its steps the
signal is raised, so that a poll is still a function.
-/

namespace SlotClock

structure Signal (ω : Type) where
  raised : Bool := false
  waker : Option ω := none
  deriving DecidableEq, Repr

/-- The points of a poll at which an interrupt raises the signal. -/
structure Landing where
  beforeLook : Bool := false
  beforeRegister : Bool := false
  whileRegistering : Bool := false
  beforeSecondLook : Bool := false
  deriving DecidableEq, Repr

structure Polled (ω : Type) where
  ready : Bool
  signal : Signal ω
  woken : List ω
  deriving DecidableEq, Repr

namespace Signal

variable {ω : Type}

def raise (s : Signal ω) : List ω × Signal ω :=
  (s.waker.toList, ⟨true, none⟩)

def raiseIf (s : Signal ω) (wanted : Bool) : List ω × Signal ω :=
  if wanted then s.raise else ([], s)

def heed (s : Signal ω) (k : Kick) : List ω × Signal ω :=
  s.raiseIf k.isWanted

def take (s : Signal ω) : Bool × Signal ω :=
  (s.raised, { s with raised := false })

/--
Leaves `w` as the waker.  A raise that lands meanwhile wakes `w` itself, which is
then not left behind; the waker that was held before is lost in either case.
-/
def register (s : Signal ω) (w : ω) (lands : Bool) : List ω × Signal ω :=
  if lands then ([w], ⟨true, none⟩) else ([], { s with waker := some w })

def poll (s : Signal ω) (w : ω) (landing : Landing) : Polled ω :=
  let (woken₁, s) := s.raiseIf landing.beforeLook
  let (ready, s) := s.take
  if ready then
    ⟨true, s, woken₁⟩
  else
    let (woken₂, s) := s.raiseIf landing.beforeRegister
    let (woken₃, s) := s.register w landing.whileRegistering
    let (woken₄, s) := s.raiseIf landing.beforeSecondLook
    let (ready, s) := s.take
    ⟨ready, s, woken₁ ++ woken₂ ++ woken₃ ++ woken₄⟩

end Signal

end SlotClock
