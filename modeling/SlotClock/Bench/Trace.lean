import SlotClock.Fault

/-!
Running a list of steps and noting what each one shows.
-/

namespace SlotClock.Bench

/--
The outcome of every step, from a given state on.  The list ends with the first step
that stops: what would come after it is not run.
-/
def trace {τ χ α : Type} (step : χ → τ → Except Halt (α × τ)) : τ → List χ → List (Except Halt α)
  | _, [] => []
  | state, x :: rest =>
    match step x state with
    | .error halt => [.error halt]
    | .ok (seen, state) => .ok seen :: trace step state rest

end SlotClock.Bench
