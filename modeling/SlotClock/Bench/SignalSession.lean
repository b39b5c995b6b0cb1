import SlotClock.Bench.Trace
import SlotClock.Signal

/-!
Sessions with one signal and any number of waiting tasks.

Each task has one waker, known by the number of the task, and the session counts how
often it was woken.  A wait that is dropped leaves its waker where it is, and one
that is ready can be polled again; so a wait has no state beyond its task.
-/

namespace SlotClock.Bench

inductive SignalStep where
  | ofBool (wanted : Bool)
  | or (a b : Bool)
  | heed (wanted : Bool)
  | raise
  | take
  | wait (task : Int)
  | poll (task : Int)
  /-- Polls, and raises the signal while the waker is being registered. -/
  | pollRaced (task : Int)
  | drop (task : Int)
  deriving DecidableEq, Repr

inductive SignalAnswer where
  | done
  | asked (kick : Kick) (isWanted : Bool)
  | joined (kick : Kick)
  | flag (value : Bool)
  deriving DecidableEq, Repr

structure SignalBench where
  signal : Signal Int := {}
  wakes : List (Int × Nat) := []
  deriving DecidableEq, Repr

namespace SignalBench

def enter (task : Int) : List (Int × Nat) → List (Int × Nat)
  | [] => [(task, 0)]
  | (other, count) :: rest =>
    if task < other then (task, 0) :: (other, count) :: rest
    else if task = other then (other, count) :: rest
    else (other, count) :: enter task rest

def wake (task : Int) (wakes : List (Int × Nat)) : List (Int × Nat) :=
  wakes.map fun (other, count) => if other = task then (other, count + 1) else (other, count)

def wakeAll (woken : List Int) (b : SignalBench) : SignalBench :=
  { b with wakes := woken.foldl (fun wakes task => wake task wakes) b.wakes }

def raised (outcome : List Int × Signal Int) (b : SignalBench) : SignalBench :=
  { b with signal := outcome.2 }.wakeAll outcome.1

def poll (task : Int) (landing : Landing) (b : SignalBench) : SignalAnswer × SignalBench :=
  let polled := b.signal.poll task landing
  (.flag polled.ready, { b with signal := polled.signal }.wakeAll polled.woken)

def apply (b : SignalBench) : SignalStep → SignalAnswer × SignalBench
  | .ofBool wanted => (.asked (.ofBool wanted) (Kick.ofBool wanted).isWanted, b)
  | .or a c => (.joined ((Kick.ofBool a).or (.ofBool c)), b)
  | .heed wanted => (.done, b.raised (b.signal.heed (.ofBool wanted)))
  | .raise => (.done, b.raised b.signal.raise)
  | .take =>
    let (ready, signal) := b.signal.take
    (.flag ready, { b with signal := signal })
  | .wait task => (.done, { b with wakes := enter task b.wakes })
  | .poll task => b.poll task {}
  | .pollRaced task => b.poll task { whileRegistering := true }
  | .drop _ => (.done, b)

def run (steps : List SignalStep) : List (SignalAnswer × List (Int × Nat)) :=
  go {} steps
where
  go (b : SignalBench) : List SignalStep → List (SignalAnswer × List (Int × Nat))
    | [] => []
    | step :: rest =>
      let (answer, b) := b.apply step
      (answer, b.wakes) :: go b rest

end SignalBench

end SlotClock.Bench
