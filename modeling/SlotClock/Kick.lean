/-!
What an interrupt asks of the run loop.

The loop sleeps between interrupts.  An interrupt that changed something for the
tasks asks for a kick, which sends the loop round once more.
-/

namespace SlotClock

inductive Kick where
  | unwanted
  | wanted
  deriving DecidableEq, Repr

namespace Kick

def ofBool : Bool → Kick
  | false => unwanted
  | true => wanted

def isWanted : Kick → Bool
  | unwanted => false
  | wanted => true

def or (a b : Kick) : Kick :=
  ofBool (a.isWanted || b.isWanted)

@[simp] theorem isWanted_ofBool (b : Bool) : (ofBool b).isWanted = b := by
  cases b <;> rfl

@[simp] theorem isWanted_or (a b : Kick) : (a.or b).isWanted = (a.isWanted || b.isWanted) :=
  isWanted_ofBool _

end Kick

end SlotClock
