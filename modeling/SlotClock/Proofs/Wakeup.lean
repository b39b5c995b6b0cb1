import SlotClock.Signal

/-!
# No wake is lost

A task waits for the signal with one waker.  Its waits are polled, dropped and begun
anew at will, the foreground takes the signal meanwhile, and interrupts raise it
between any two of these steps or inside a poll.  A raise that lands before the second
look of a poll is found by that look, and one that comes later finds the waker.

## One poll
-/

namespace SlotClock

variable {ω : Type}

def Landing.lands (landing : Landing) : Bool :=
  landing.beforeLook || landing.beforeRegister || landing.whileRegistering ||
    landing.beforeSecondLook

namespace Signal

theorem raised_raiseIf (s : Signal ω) (wanted : Bool) :
    (s.raiseIf wanted).2.raised = (s.raised || wanted) := by
  cases wanted with
  | false => exact (Bool.or_false _).symm
  | true => exact (Bool.or_true _).symm

theorem raised_register (s : Signal ω) (w : ω) (lands : Bool) :
    (s.register w lands).2.raised = (s.raised || lands) := by
  cases lands with
  | false => exact (Bool.or_false _).symm
  | true => exact (Bool.or_true _).symm

theorem waker_of_clear (s : Signal ω) (w : ω) (lands wanted : Bool)
    (clear : (((s.register w lands).2.raiseIf wanted).2).raised = false) :
    (((s.register w lands).2.raiseIf wanted).2).waker = some w := by
  rw [raised_raiseIf, raised_register] at clear
  simp only [Bool.or_eq_false_iff] at clear
  obtain ⟨⟨-, rfl⟩, rfl⟩ := clear
  rfl

private theorem poll_of_clear {s : Signal ω} (w : ω) {landing : Landing} (clear : s.raised = false)
    (quiet : landing.beforeLook = false) :
    let s₁ := (({ s with raised := false } : Signal ω).raiseIf landing.beforeRegister).2
    let s₂ := ((s₁.register w landing.whileRegistering).2.raiseIf landing.beforeSecondLook).2
    (s.poll w landing).ready = s₂.raised ∧
      (s.poll w landing).signal = { s₂ with raised := false } := by
  unfold poll
  simp only [quiet, raiseIf, take, clear, Bool.false_eq_true, if_false, true_and]

private theorem poll_of_raised {s : Signal ω} (w : ω) {landing : Landing}
    (found : (s.raised || landing.beforeLook) = true) :
    (s.poll w landing).ready = true ∧ (s.poll w landing).signal.raised = false := by
  rw [← raised_raiseIf] at found
  unfold poll
  simp only [take, found, if_true, and_self]

theorem ready_poll (s : Signal ω) (w : ω) (landing : Landing) :
    (s.poll w landing).ready = (s.raised || landing.lands) := by
  cases found : s.raised || landing.beforeLook with
  | true =>
      rw [(poll_of_raised w found).1, Landing.lands]
      simp only [← Bool.or_assoc, found, Bool.true_or]
  | false =>
      obtain ⟨clear, quiet⟩ := Bool.or_eq_false_iff.mp found
      rw [(poll_of_clear w clear quiet).1, raised_raiseIf, raised_register, raised_raiseIf]
      simp only [Landing.lands, clear, quiet, Bool.false_or]

theorem raised_poll (s : Signal ω) (w : ω) (landing : Landing) :
    (s.poll w landing).signal.raised = false := by
  cases found : s.raised || landing.beforeLook with
  | true => exact (poll_of_raised w found).2
  | false =>
      obtain ⟨clear, quiet⟩ := Bool.or_eq_false_iff.mp found
      rw [(poll_of_clear w clear quiet).2]

theorem signal_of_pending {s : Signal ω} {w : ω} {landing : Landing}
    (pending : (s.poll w landing).ready = false) :
    (s.poll w landing).signal = ⟨false, some w⟩ := by
  cases found : s.raised || landing.beforeLook with
  | true =>
      rw [(poll_of_raised w found).1] at pending
      cases pending
  | false =>
      obtain ⟨clear, quiet⟩ := Bool.or_eq_false_iff.mp found
      obtain ⟨ready, left⟩ := poll_of_clear w clear quiet
      rw [left, waker_of_clear _ _ _ _ (ready.symm.trans pending)]

/-! ## The waiting task -/

/-- What can happen to the signal.  To begin a wait or to drop one leaves it as it is. -/
inductive Act where
  | raise
  | heed (kick : Kick)
  | take
  | wait
  | drop
  | poll (landing : Landing)
  deriving DecidableEq, Repr

end Signal

/-- The signal, and what has happened to its task since the second look of the latest poll. -/
structure Vigil (ω : Type) where
  signal : Signal ω
  pending : Bool := false
  raises : Nat := 0
  woken : List ω := []
  deriving DecidableEq, Repr

namespace Vigil

open Signal

def raiseIf (v : Vigil ω) (wanted : Bool) : Vigil ω :=
  { v with
    signal := (v.signal.raiseIf wanted).2
    raises := v.raises + wanted.toNat
    woken := v.woken ++ (v.signal.raiseIf wanted).1 }

def act (w : ω) (v : Vigil ω) : Act → Vigil ω
  | .raise => v.raiseIf true
  | .heed kick => v.raiseIf kick.isWanted
  | .take => { v with signal := v.signal.take.2 }
  | .wait => v
  | .drop => v
  | .poll landing =>
    let polled := v.signal.poll w landing
    { signal := polled.signal, pending := !polled.ready }

def after (w : ω) (v : Vigil ω) (acts : List Act) : Vigil ω :=
  acts.foldl (act w) v

def Kept (w : ω) (v : Vigil ω) : Prop :=
  v.pending = true →
    v.raises = 0 ∧ v.signal.waker = some w ∧ v.woken = [] ∨
      0 < v.raises ∧ v.signal.waker = none ∧ v.woken = [w]

theorem Kept.raiseIf {w : ω} {v : Vigil ω} (kept : v.Kept w) (wanted : Bool) :
    (v.raiseIf wanted).Kept w := by
  intro pending
  cases wanted with
  | false => simpa [Vigil.raiseIf, Signal.raiseIf] using kept pending
  | true =>
      refine .inr ⟨Nat.succ_pos _, rfl, ?_⟩
      show v.woken ++ v.signal.waker.toList = [w]
      rcases kept pending with ⟨-, held, none⟩ | ⟨-, gone, once⟩
      · simp [held, none]
      · simp [gone, once]

theorem Kept.act {w : ω} {v : Vigil ω} (kept : v.Kept w) (a : Act) : (v.act w a).Kept w := by
  cases a with
  | raise => exact kept.raiseIf true
  | heed kick => exact kept.raiseIf kick.isWanted
  | take => exact kept
  | wait => exact kept
  | drop => exact kept
  | poll landing =>
      intro pending
      have clear : (v.signal.poll w landing).ready = false := by
        simpa [Vigil.act] using pending
      exact .inl ⟨rfl, congrArg Signal.waker (signal_of_pending clear), rfl⟩

theorem Kept.after {w : ω} {v : Vigil ω} (kept : v.Kept w) (acts : List Act) :
    (v.after w acts).Kept w := by
  induction acts generalizing v with
  | nil => exact kept
  | cons a rest ih => exact ih (kept.act a)

end Vigil

open Signal in
/--
Once the signal is raised after the second look of a pending poll, the waker of the
task has been woken, once, and until then it has not been.  A raise that lands before
the second look makes the same poll ready.
-/
theorem no_wake_lost (w : ω) (signal : Signal ω) (acts : List Act) :
    let v := Vigil.after w { signal := signal } acts
    (v.pending = true → 0 < v.raises → v.woken = [w]) ∧
      (v.pending = true → v.raises = 0 → v.woken = []) ∧
      ∀ landing, (v.act w (.poll landing)).pending = !(v.signal.raised || landing.lands) ∧
        (v.act w (.poll landing)).signal.raised = false := by
  intro v
  have kept : v.Kept w := Vigil.Kept.after (fun pending => by cases pending) acts
  refine ⟨fun pending raised => ?_, fun pending quiet => ?_, fun landing => ⟨?_, ?_⟩⟩
  · rcases kept pending with ⟨none, -⟩ | ⟨-, -, woken⟩
    · omega
    · exact woken
  · rcases kept pending with ⟨-, -, woken⟩ | ⟨some, -⟩
    · exact woken
    · omega
  · rw [← ready_poll v.signal w landing]
    rfl
  · exact raised_poll _ _ _

theorem no_wake_lost_when_stolen :
    (Vigil.after 7 { signal := {} } [.wait, .poll { whileRegistering := true }, .poll {},
        .heed .unwanted]).woken = [] ∧
      (Vigil.after 7 { signal := {} } [.wait, .poll { whileRegistering := true }, .poll {},
        .heed .unwanted, .drop, .raise, .take, .heed .wanted]).woken = [7] :=
  ⟨(no_wake_lost 7 {} [.wait, .poll { whileRegistering := true }, .poll {},
      .heed .unwanted]).2.1 rfl rfl,
    (no_wake_lost 7 {} [.wait, .poll { whileRegistering := true }, .poll {},
      .heed .unwanted, .drop, .raise, .take, .heed .wanted]).1 rfl (by decide)⟩

end SlotClock
