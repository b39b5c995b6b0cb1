import SlotClock.Proofs.Conservation

/-!
# What every operation keeps

A property of schedules that survives each operation holds at every moment of a
run.  It may be indexed by what the actions so far amount to, such as the sum of
the planned delays, and it may rely on a guard that is promised of the source,
such as a period that never changes.
-/

namespace SlotClock

variable {σ κ ι : Type} {S : Source σ}

/-- A source whose period is left alone when an event is disarmed or acknowledged. -/
structure Source.KeepsPeriod (S : Source σ) : Prop where
  disarm (source : σ) : S.period (S.disarm source) = S.period source
  acknowledge (source : σ) : S.period (S.acknowledge source) = S.period source

theorem Clock.keepsPeriod (rate : Rate) (top : UInt32) (latency : Nat) :
    (Clock.tickSource rate top latency).KeepsPeriod :=
  ⟨fun _ => rfl, fun _ => rfl⟩

namespace Schedule

theorem supersede_period (keeps : S.KeepsPeriod) (s : Schedule σ) :
    (s.supersede S).period S = s.period S := by
  unfold supersede period
  split
  · exact keeps.disarm s.source
  · rfl

theorem spent_period (keeps : S.KeepsPeriod) (s : Schedule σ) :
    (s.spent S).period S = s.period S :=
  (keeps.disarm _).trans (keeps.acknowledge _)

end Schedule

/-- Every operation takes `Q i` to `Q j`, where `j` is `i` moved on by the action, if any. -/
structure Kept (S : Source σ) (guard : Schedule σ → Prop) (next : ι → Action σ → ι)
    (Q : ι → Schedule σ → Prop) : Prop where
  apply {i : ι} {a : Action σ} {s s' : Schedule σ} :
    guard s → Q i s → a.apply S s = .ok s' → Q (next i a) s'
  serve {i : ι} {due : Bool} {s s' : Schedule σ} :
    guard s → Q i s → s.serve S = .ok (due, s') → Q i s'
  takeDue {i : ι} {s : Schedule σ} : Q i s → Q i s.takeDue.2
  enter {i : ι} {s : Schedule σ} : s.phase = .idle → Q i s → Q i s.enterCallback
  leave {i : ι} {s : Schedule σ} : Q i s → Q i s.leaveCallback

def Deed.moveOn (next : ι → Action σ → ι) (i : ι) : Deed σ κ → ι
  | act a => next i a
  | _ => i

def moveOn (next : ι → Action σ → ι) (i : ι) (history : List (Entry σ κ)) : ι :=
  history.foldl (fun i e => e.deed.moveOn next i) i

theorem moveOn_cons (next : ι → Action σ → ι) (i : ι) (e : Entry σ κ) (rest : List (Entry σ κ)) :
    moveOn next i (e :: rest) = moveOn next (e.deed.moveOn next i) rest := rfl

theorem moveOn_append (next : ι → Action σ → ι) (i : ι) (first second : List (Entry σ κ)) :
    moveOn next i (first ++ second) = moveOn next (moveOn next i first) second :=
  List.foldl_append

theorem moveOn_of_forall {P : Action σ → Prop} {history : List (Entry σ κ)} {start : Prop}
    (h : start) (all : ∀ e ∈ history, ∀ a, e.deed = .act a → P a) :
    moveOn (fun i a => i ∧ P a) start history := by
  induction history generalizing start with
  | nil => exact h
  | cons e rest ih =>
      rw [moveOn_cons]
      refine ih ?_ fun e mem => all e (List.mem_cons_of_mem _ mem)
      have here := all e List.mem_cons_self
      cases deed : e.deed with
      | act a => exact ⟨h, here a deed⟩
      | _ => exact h

namespace Kept

variable {guard : Schedule σ → Prop} {next : ι → Action σ → ι} {Q : ι → Schedule σ → Prop}

theorem step (kept : Kept S guard next Q) {i : ι} {m m' : Moment σ κ} {deed : Deed σ κ}
    (h : Step S m deed m') (orderly : m.Orderly) (guarded : guard m.schedule)
    (q : Q i m.schedule) : Q (deed.moveOn next i) m'.schedule := by
  cases h with
  | alone h => exact kept.apply guarded q h
  | setCallback t c => exact q
  | refuse delay unset => exact q
  | plan set h =>
      rw [Moment.schedule_settle]
      exact kept.takeDue (kept.apply (a := .plan _) guarded q h)
  | cancel t => exact kept.apply (a := .cancel) guarded q rfl
  | reset t => exact kept.apply (a := .reset) guarded q rfl
  | clear t => exact kept.apply (a := .clear) guarded q rfl
  | @environment t t' effect h =>
      obtain ⟨source, effected, done⟩ := parts_of_bind h
      cases done
      exact kept.apply (a := .environment effect) guarded q
        (by simp [Action.apply, effected, bind, Except.bind, pure, Except.pure])
  | serve h =>
      rw [Moment.schedule_served]
      exact kept.serve guarded q h
  | enter c s => exact kept.enter orderly.1 q
  | inside h => exact kept.apply guarded q h
  | leave c state s =>
      rw [Moment.schedule_settle]
      exact kept.takeDue (kept.leave q)

theorem runs (kept : Kept S guard next Q) {i : ι} {m m' : Moment σ κ}
    {history : List (Entry σ κ)} (h : Runs S m history m') (orderly : m.Orderly)
    (guarded : ∀ e ∈ history, guard e.before.schedule) (q : Q i m.schedule) :
    Q (moveOn next i history) m'.schedule := by
  induction h with
  | start => exact q
  | @step history m₁ m₂ deed past h ih =>
      have earlier := ih fun e mem => guarded e (List.mem_append_left _ mem)
      have latest : guard m₁.schedule := guarded ⟨m₁, deed⟩ (by simp)
      rw [moveOn_append]
      exact kept.step h (past.orderly orderly) latest earlier

end Kept

end SlotClock
