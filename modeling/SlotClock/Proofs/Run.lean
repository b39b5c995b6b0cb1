import SlotClock.Proofs.Clock
import SlotClock.Proofs.Outcome
import SlotClock.Timer

/-!
# Runs of a timer, step by step

A `Moment` is a point at which somebody can look at a schedule: between two
operations of a timer, before and inside a run of its callback, or on a schedule
that has no timer.  A `Step` leads from one moment to the next, and a run is a
sequence of steps together with its history.

`plan` and `interrupt` of a timer are runs from rest to rest, all of whose other
moments belong to the callback.  What holds at every moment of every run
therefore holds between the operations and between the actions of a callback.
-/

namespace SlotClock

variable {σ κ : Type}

inductive Moment (σ κ : Type) where
  | alone (schedule : Schedule σ)
  | rest (timer : Timer σ κ)
  | due (callback : Callback σ κ) (schedule : Schedule σ)
  | inside (callback : Callback σ κ) (program : Program σ κ) (schedule : Schedule σ)

namespace Moment

def schedule : Moment σ κ → Schedule σ
  | alone s => s
  | rest t => t.schedule
  | due _ s => s
  | inside _ _ s => s

def OfCallback : Moment σ κ → Prop
  | due _ _ => True
  | inside _ _ _ => True
  | _ => False

def IsNew : Moment σ κ → Prop
  | alone s => ∃ source, s = { source := source }
  | rest t => ∃ source, t = Timer.ofSource source
  | _ => False

theorem IsNew.schedule_eq {m : Moment σ κ} (new : m.IsNew) :
    ∃ source, m.schedule = { source := source } := by
  cases m with
  | alone s => exact new
  | rest t =>
      obtain ⟨source, rfl⟩ := new
      exact ⟨source, rfl⟩
  | due c s => cases new
  | inside c p s => cases new

/-- After a plan or a run of the callback: once more if a slot is due, else at rest. -/
def settle (c : Callback σ κ) (s : Schedule σ) : Moment σ κ :=
  if s.takeDue.1 then due c s.takeDue.2 else rest ⟨s.takeDue.2, some c⟩

def served (c? : Option (Callback σ κ)) (s : Schedule σ) : Bool → Moment σ κ
  | false => rest ⟨s, c?⟩
  | true =>
    match c? with
    | none => rest ⟨s, none⟩
    | some c => due c s

@[simp] theorem schedule_alone (s : Schedule σ) : (alone s : Moment σ κ).schedule = s := rfl

@[simp] theorem schedule_rest (t : Timer σ κ) : (rest t).schedule = t.schedule := rfl

@[simp] theorem schedule_due (c : Callback σ κ) (s : Schedule σ) : (due c s).schedule = s := rfl

@[simp] theorem schedule_inside (c : Callback σ κ) (p : Program σ κ) (s : Schedule σ) :
    (inside c p s).schedule = s := rfl

@[simp] theorem schedule_settle (c : Callback σ κ) (s : Schedule σ) :
    (settle c s).schedule = s.takeDue.2 := by
  unfold settle
  split <;> rfl

@[simp] theorem schedule_served (c? : Option (Callback σ κ)) (s : Schedule σ) (due : Bool) :
    (served c? s due).schedule = s := by
  cases due <;> cases c? <;> rfl

theorem settle_of_due (c : Callback σ κ) {s : Schedule σ} (late : s.due = true) :
    settle c s = due c s.takeDue.2 :=
  if_pos late

theorem settle_of_clear (c : Callback σ κ) {s : Schedule σ} (clear : ¬ s.due = true) :
    settle c s = rest ⟨s.takeDue.2, some c⟩ :=
  if_neg clear

theorem due_of_settle {c c' : Callback σ κ} {s s' : Schedule σ} (h : settle c s = due c' s') :
    s.due = true ∧ s' = s.takeDue.2 := by
  unfold settle at h
  split at h
  next again =>
    cases h
    exact ⟨again, rfl⟩
  next => cases h

theorem due_of_served {c? : Option (Callback σ κ)} {c : Callback σ κ} {s s' : Schedule σ}
    {again : Bool} (h : served c? s again = due c s') : again = true ∧ s' = s := by
  cases again with
  | false => cases h
  | true =>
      have same := schedule_served c? s true
      rw [h, schedule_due] at same
      exact ⟨rfl, same⟩

end Moment

inductive Deed (σ κ : Type) where
  | act (action : Action σ)
  | refuse (delay : UInt32)
  | setCallback (callback : Callback σ κ)
  | serve
  | enter
  | leave

/-- The steps of a timer, and of a schedule alone. -/
inductive Step (S : Source σ) : Moment σ κ → Deed σ κ → Moment σ κ → Prop where
  | alone {a : Action σ} {s s' : Schedule σ} (h : a.apply S s = .ok s') :
      Step S (.alone s) (.act a) (.alone s')
  | setCallback (t : Timer σ κ) (c : Callback σ κ) :
      Step S (.rest t) (.setCallback c) (.rest (t.setCallback c))
  | refuse {t : Timer σ κ} (delay : UInt32) (unset : t.callback = none) :
      Step S (.rest t) (.refuse delay) (.rest t)
  | plan {t : Timer σ κ} {c : Callback σ κ} {delay : UInt32} {s : Schedule σ}
      (set : t.callback = some c) (h : t.schedule.plan S delay = .ok s) :
      Step S (.rest t) (.act (.plan delay)) (.settle c s)
  | cancel (t : Timer σ κ) : Step S (.rest t) (.act .cancel) (.rest (t.cancel S))
  | reset (t : Timer σ κ) : Step S (.rest t) (.act .reset) (.rest (t.reset S))
  | clear (t : Timer σ κ) : Step S (.rest t) (.act .clear) (.rest (t.clear S))
  | environment {t t' : Timer σ κ} {effect : σ → Except Fault σ}
      (h : t.onSource effect = .ok t') :
      Step S (.rest t) (.act (.environment effect)) (.rest t')
  | serve {t : Timer σ κ} {due : Bool} {s : Schedule σ}
      (h : t.schedule.serve S = .ok (due, s)) :
      Step S (.rest t) .serve (.served t.callback s due)
  | enter (c : Callback σ κ) (s : Schedule σ) :
      Step S (.due c s) .enter (.inside c (c.body c.state s.enterCallback) s.enterCallback)
  | inside {c : Callback σ κ} {a : Action σ} {next : Schedule σ → Program σ κ}
      {s s' : Schedule σ} (h : a.apply S s = .ok s') :
      Step S (.inside c (.act a next) s) (.act a) (.inside c (next s') s')
  | leave (c : Callback σ κ) (state : κ) (s : Schedule σ) :
      Step S (.inside c (.finish state) s) .leave
        (.settle { c with state := state } s.leaveCallback)

structure Entry (σ κ : Type) where
  before : Moment σ κ
  deed : Deed σ κ

/-- The moments that a run from `start` can come to, with what was done on the way. -/
inductive Runs (S : Source σ) (start : Moment σ κ) : List (Entry σ κ) → Moment σ κ → Prop where
  | start : Runs S start [] start
  | step {history : List (Entry σ κ)} {m m' : Moment σ κ} {deed : Deed σ κ}
      (past : Runs S start history m) (h : Step S m deed m') :
      Runs S start (history ++ [⟨m, deed⟩]) m'

namespace Runs

variable {S : Source σ} {m₁ m₂ m₃ : Moment σ κ} {first second : List (Entry σ κ)}

theorem single {deed : Deed σ κ} (h : Step S m₁ deed m₂) : Runs S m₁ [⟨m₁, deed⟩] m₂ :=
  .step .start h

theorem trans (h₁ : Runs S m₁ first m₂) (h₂ : Runs S m₂ second m₃) :
    Runs S m₁ (first ++ second) m₃ := by
  induction h₂ with
  | start => rwa [List.append_nil]
  | step _ h ih =>
      rw [← List.append_assoc]
      exact .step ih h

end Runs

theorem Step.unique {S : Source σ} {m m₁ m₂ : Moment σ κ} {deed : Deed σ κ}
    (h₁ : Step S m deed m₁) (h₂ : Step S m deed m₂) : m₁ = m₂ := by
  cases h₁ with
  | alone h =>
      cases h₂ with
      | alone h' =>
          cases h.symm.trans h'
          rfl
  | plan set h =>
      cases h₂ with
      | plan set' h' =>
          cases set.symm.trans set'
          cases h.symm.trans h'
          rfl
  | environment h =>
      cases h₂ with
      | environment h' =>
          cases h.symm.trans h'
          rfl
  | serve h =>
      cases h₂ with
      | serve h' =>
          cases h.symm.trans h'
          rfl
  | inside h =>
      cases h₂ with
      | inside h' =>
          cases h.symm.trans h'
          rfl
  | _ =>
      cases h₂
      rfl

theorem Runs.unique {S : Source σ} {m m₁ m₂ : Moment σ κ} {first second : List (Entry σ κ)}
    (h₁ : Runs S m first m₁) (h₂ : Runs S m second m₂)
    (same : first.map Entry.deed = second.map Entry.deed) : first = second ∧ m₁ = m₂ := by
  induction h₁ generalizing second m₂ with
  | start =>
      cases h₂ with
      | start => exact ⟨rfl, rfl⟩
      | step => simp at same
  | step past h ih =>
      cases h₂ with
      | start => simp at same
      | step past' h' =>
          simp only [List.map_append, List.map_cons, List.map_nil] at same
          obtain ⟨earlier, last⟩ := List.append_inj' same rfl
          obtain ⟨rfl, rfl⟩ := ih past' earlier
          cases last
          exact ⟨rfl, h.unique h'⟩

/-! ## The operations of a timer are runs -/

/-- A run whose steps all belong to a callback. -/
def CallbackRuns (S : Source σ) (m m' : Moment σ κ) : Prop :=
  ∃ history, Runs S m history m' ∧ ∀ e ∈ history, e.before.OfCallback

namespace CallbackRuns

variable {S : Source σ} {m₁ m₂ m₃ : Moment σ κ}

theorem refl (m : Moment σ κ) : CallbackRuns S m m := ⟨[], .start, by simp⟩

theorem single {deed : Deed σ κ} (h : Step S m₁ deed m₂) (own : m₁.OfCallback) :
    CallbackRuns S m₁ m₂ :=
  ⟨_, .single h, by simpa using own⟩

theorem trans (h₁ : CallbackRuns S m₁ m₂) (h₂ : CallbackRuns S m₂ m₃) :
    CallbackRuns S m₁ m₃ := by
  obtain ⟨first, runs₁, own₁⟩ := h₁
  obtain ⟨second, runs₂, own₂⟩ := h₂
  refine ⟨first ++ second, runs₁.trans runs₂, fun e mem => ?_⟩
  rcases List.mem_append.mp mem with mem | mem
  · exact own₁ e mem
  · exact own₂ e mem

end CallbackRuns

variable (S : Source σ)

private theorem callbackRuns_of_run (c : Callback σ κ) {p : Program σ κ} {s s' : Schedule σ}
    {state : κ}
    (h : p.run S s = .ok (state, s')) :
    CallbackRuns S (.inside c p s) (.inside c (.finish state) s') := by
  induction p generalizing s with
  | finish state =>
      cases h
      exact .refl _
  | fail cause => cases h
  | act action next ih =>
      rw [Program.run] at h
      split at h
      next => cases h
      next s₁ applied =>
        exact (CallbackRuns.single (.inside applied) trivial).trans (ih s₁ h)

theorem callbackRuns_of_runCallback {fuel : Nat} {c c' : Callback σ κ} {s s' : Schedule σ}
    (h : Timer.runCallback S fuel c s = .ok (c', s')) :
    CallbackRuns S (.due c s) (.rest ⟨s', some c'⟩) := by
  induction fuel generalizing c s with
  | zero => cases h
  | succ fuel ih =>
      rw [Timer.runCallback] at h
      split at h
      next => cases h
      next c₁ s₁ invoked =>
        obtain ⟨⟨state, s₂⟩, ran, done⟩ := parts_of_bind invoked
        cases done
        have entered := CallbackRuns.single (S := S) (Step.enter c s) trivial
        have body := callbackRuns_of_run S c ran
        have left := CallbackRuns.single (S := S) (Step.leave c state s₁) trivial
        refine entered.trans (body.trans (left.trans ?_))
        unfold Moment.settle
        simp only at h
        split at h
        next again =>
          rw [if_pos again]
          exact ih h
        next again =>
          cases h
          rw [if_neg again]
          exact .refl _

theorem ok_of_mapError {ε ε' α : Type} {x : Except ε α} {f : ε → ε'} {a : α}
    (h : x.mapError f = .ok a) : x = .ok a := by
  cases x with
  | error cause => cases h
  | ok b =>
      cases h
      rfl

theorem mapError_of_ok {ε ε' α : Type} {x : Except ε α} {a : α} (h : x = .ok a) (f : ε → ε') :
    x.mapError f = .ok a := by
  rw [h]
  rfl

theorem step_of_plan_refused {fuel : Nat} {t t' : Timer σ κ} {delay : UInt32}
    (h : t.plan S fuel delay = .ok (.noCallback, t')) :
    Step S (.rest t) (.refuse delay) (.rest t') := by
  unfold Timer.plan at h
  split at h
  next unset =>
    cases h
    exact .refuse delay unset
  next c set =>
    obtain ⟨s, planned, h⟩ := parts_of_bind h
    simp only at h
    split at h
    next =>
      obtain ⟨next, ran, done⟩ := parts_of_bind h
      cases done
    next => cases h

theorem callbackRuns_of_plan {fuel : Nat} {t t' : Timer σ κ} {delay : UInt32}
    (h : t.plan S fuel delay = .ok (.planned, t')) :
    ∃ m, Step S (.rest t) (.act (.plan delay)) m ∧ CallbackRuns S m (.rest t') := by
  unfold Timer.plan at h
  split at h
  next => cases h
  next c set =>
    obtain ⟨s, planned, h⟩ := parts_of_bind h
    refine ⟨_, .plan set (ok_of_mapError planned), ?_⟩
    simp only at h
    unfold Moment.settle
    split at h
    next again =>
      obtain ⟨⟨c₁, s₁⟩, ran, done⟩ := parts_of_bind h
      cases done
      rw [if_pos again]
      exact callbackRuns_of_runCallback S ran
    next again =>
      cases h
      rw [if_neg again]
      exact .refl _

theorem callbackRuns_of_interrupt {fuel : Nat} {t t' : Timer σ κ} {kick : Kick}
    (h : t.interrupt S fuel = .ok (kick, t')) :
    ∃ m, Step S (.rest t) .serve m ∧ CallbackRuns S m (.rest t') := by
  unfold Timer.interrupt at h
  obtain ⟨⟨due, s⟩, served, h⟩ := parts_of_bind h
  refine ⟨_, .serve (ok_of_mapError served), ?_⟩
  cases due with
  | false =>
      cases h
      exact .refl _
  | true =>
      cases callback : t.callback with
      | none =>
          simp only [callback] at h
          cases h
          exact .refl _
      | some c =>
          simp only [callback] at h
          obtain ⟨⟨c₁, s₁⟩, ran, done⟩ := parts_of_bind h
          cases done
          exact callbackRuns_of_runCallback S ran

/-- An operation of a timer that returns, with whatever fuel and whatever answer. -/
inductive Timer.Operates : Timer σ κ → Timer σ κ → Prop where
  | plan {fuel : Nat} {t t' : Timer σ κ} {delay : UInt32} {reply : Reply}
      (h : t.plan S fuel delay = .ok (reply, t')) : Operates t t'
  | interrupt {fuel : Nat} {t t' : Timer σ κ} {kick : Kick}
      (h : t.interrupt S fuel = .ok (kick, t')) : Operates t t'
  | setCallback (t : Timer σ κ) (c : Callback σ κ) : Operates t (t.setCallback c)
  | cancel (t : Timer σ κ) : Operates t (t.cancel S)
  | reset (t : Timer σ κ) : Operates t (t.reset S)
  | clear (t : Timer σ κ) : Operates t (t.clear S)
  | onSource {t t' : Timer σ κ} {effect : σ → Except Fault σ} (h : t.onSource effect = .ok t') :
      Operates t t'

theorem step_of_operates {t t' : Timer σ κ} (h : t.Operates S t') :
    ∃ deed m, Step S (.rest t) deed m ∧ CallbackRuns S m (.rest t') := by
  cases h with
  | @plan fuel _ _ delay reply h =>
      cases reply with
      | planned =>
          obtain ⟨m, step, runs⟩ := callbackRuns_of_plan S h
          exact ⟨_, m, step, runs⟩
      | noCallback => exact ⟨_, _, step_of_plan_refused S h, .refl _⟩
  | interrupt h =>
      obtain ⟨m, step, runs⟩ := callbackRuns_of_interrupt S h
      exact ⟨_, m, step, runs⟩
  | setCallback t c => exact ⟨_, _, .setCallback t c, .refl _⟩
  | cancel t => exact ⟨_, _, .cancel t, .refl _⟩
  | reset t => exact ⟨_, _, .reset t, .refl _⟩
  | clear t => exact ⟨_, _, .clear t, .refl _⟩
  | onSource h => exact ⟨_, _, .environment h, .refl _⟩

/-! ## What a plan and an interrupt come to -/

section

variable {S} {t : Timer σ κ} {s : Schedule σ}

theorem Timer.plan_eq_run {c : Callback σ κ} {delay : UInt32} (set : t.callback = some c)
    (planned : t.schedule.plan S delay = .ok s) (due : s.due = true) (fuel : Nat) :
    t.plan S fuel delay =
      (runCallback S fuel c s.takeDue.2).map fun after => (.planned, ⟨after.2, some after.1⟩) := by
  have ready := mapError_of_ok planned Halt.fault
  have again : s.takeDue = (true, s.takeDue.2) := due ▸ rfl
  unfold plan
  simp only [set, ready, bind, Except.bind]
  rw [again]
  cases runCallback S fuel c s.takeDue.2 <;> rfl

theorem Timer.plan_eq_rest {c : Callback σ κ} {delay : UInt32} (set : t.callback = some c)
    (planned : t.schedule.plan S delay = .ok s) (clear : s.due = false) (fuel : Nat) :
    t.plan S fuel delay = .ok (.planned, ⟨s.takeDue.2, some c⟩) := by
  have ready := mapError_of_ok planned Halt.fault
  have rest : s.takeDue = (false, s.takeDue.2) := clear ▸ rfl
  unfold plan
  simp only [set, ready, bind, Except.bind]
  rw [rest]
  rfl

theorem Timer.interrupt_eq_run {c : Callback σ κ} (set : t.callback = some c)
    (served : t.schedule.serve S = .ok (true, s)) (fuel : Nat) :
    t.interrupt S fuel =
      (runCallback S fuel c s).map fun after => (.wanted, ⟨after.2, some after.1⟩) := by
  have ready := mapError_of_ok served Halt.fault
  unfold interrupt
  simp only [ready, set, bind, Except.bind]
  cases runCallback S fuel c s <;> rfl

theorem Timer.interrupt_eq_rest (served : t.schedule.serve S = .ok (false, s)) (fuel : Nat) :
    t.interrupt S fuel = .ok (.unwanted, { t with schedule := s }) := by
  have ready := mapError_of_ok served Halt.fault
  unfold interrupt
  simp only [ready, bind, Except.bind]
  rfl

end

/-! ## A run on an 8-bit counter -/

namespace Sample

def source : Source Clock := Clock.tickSource .reference 0xFF 3

def callback : Callback Clock Unit := ⟨(), fun _ _ => .finish ()⟩

def idle : Schedule Clock := { source := ⟨10, 0, none⟩ }

def ahead : Schedule Clock :=
  { source := ⟨13, 138, some 138⟩, anchor := 44, phase := .armed, eventAt := 138, owed := 162 }

def nearer : Schedule Clock :=
  { source := ⟨146, 15, some 271⟩, anchor := 44, phase := .armed, eventAt := 15, owed := 29 }

def history : List (Entry Clock Unit) :=
  [⟨.rest ⟨idle, none⟩, .setCallback callback⟩, ⟨.rest ⟨idle, some callback⟩, .act (.plan 300)⟩,
    ⟨.rest ⟨ahead, some callback⟩, .act (.environment (Clock.wait 130))⟩,
    ⟨.rest ⟨{ ahead with source.time := 143 }, some callback⟩, .serve⟩]

theorem plan_idle : idle.plan source 300 = .ok ahead := by rfl

theorem serve_ahead :
    Schedule.serve source { ahead with source.time := 143 } = .ok (false, nearer) := by rfl

theorem isNew : (Moment.rest ⟨idle, none⟩ : Moment Clock Unit).IsNew := ⟨⟨10, 0, none⟩, rfl⟩

theorem runs : Runs source (.rest ⟨idle, none⟩) history (.rest ⟨nearer, some callback⟩) := by
  have set : Step source (.rest ⟨idle, none⟩) (.setCallback callback)
      (.rest ⟨idle, some callback⟩) := .setCallback _ _
  have plan : Step source (.rest ⟨idle, some callback⟩) (.act (.plan 300))
      (.settle callback ahead) := .plan rfl plan_idle
  have wait : Step source (.rest ⟨ahead, some callback⟩) (.act (.environment (Clock.wait 130)))
      (.rest ⟨{ ahead with source.time := 143 }, some callback⟩) := .environment rfl
  have serve : Step source (.rest ⟨{ ahead with source.time := 143 }, some callback⟩) .serve
      (.served (some callback) nearer false) := .serve serve_ahead
  exact (Runs.single set).trans ((Runs.single plan).trans ((Runs.single wait).trans (.single serve)))

end Sample

end SlotClock
