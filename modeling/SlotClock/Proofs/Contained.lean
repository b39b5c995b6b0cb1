import SlotClock.Proofs.Reliable

/-!
# Schedules from which every operation returns

The carry of a schedule stays below a native tick, which is enough for every plan.
What is owed is bounded by the longest slot, and by the interrupts since its plan that
may have added to it.  Both bounds hold inside a callback as well, so neither a loop of
callbacks nor anything else comes to a fault.

## What may happen
-/

namespace SlotClock

open Counter

variable {σ κ ρ : Type}

section

variable (tends : (σ → Except Fault σ) → Prop)

def Action.Tended : Action σ → Prop
  | environment effect => tends effect
  | _ => True

def Deed.Tended : Deed σ κ → Prop
  | act a => a.Tended tends
  | _ => True

/-- The program does not give up by itself, and it does to the source only what may be done. -/
def Program.Harmless : Program σ κ → Prop
  | finish _ => True
  | fail _ => False
  | act a next => a.Tended tends ∧ ∀ s, (next s).Harmless

def Callback.Harmless (c : Callback σ κ) : Prop :=
  ∀ state s, (c.body state s).Harmless tends

end

/-- The interrupts that may have added to the slot that is pending after the action. -/
def Action.strays (n : Nat) : Action σ → Nat
  | environment _ => n
  | _ => 0

private theorem Action.strays_le (n : Nat) (a : Action σ) : a.strays n ≤ n := by
  cases a with
  | environment effect => exact Nat.le_refl n
  | _ => exact Nat.zero_le n

/--
What a reliable source is worth to its schedule.  `fit` holds between the source and an
event while that event is armed, and an interrupt adds less than half the longest period
to what is owed for each of its `extra` strays.
-/
structure Source.Guarded (S : Source σ) (tends : (σ → Except Fault σ) → Prop)
    (fit : σ → UInt32 → Prop) (extra : Schedule σ → Nat) : Prop where
  reliable : S.Reliable
  returns {effect : σ → Except Fault σ} (x : σ) : tends effect → ∃ y, effect x = .ok y
  arms {x y : σ} {delay covered : UInt64} {event : UInt32} :
    delay.toNat ≤ (S.period x).toNat / 2 →
    S.arm (S.reading x) delay x = .ok (.armed covered, y) →
    advance (S.period x) (S.reading x) covered = .ok event → fit y event
  keeps {effect : σ → Except Fault σ} {x y : σ} {event : UInt32} :
    tends effect → effect x = .ok y → fit x event → fit y event
  grows {s s' : Schedule σ} {due : Bool} :
    (s.phase = .armed → fit s.source s.eventAt) → Schedule.Serves S s due s' →
    s'.owed.toNat ≤ s.owed.toNat + extra s * 0x7FFFFFFF

/-! ## Contained schedules -/

variable {S : Source σ} {tends : (σ → Except Fault σ) → Prop} {fit : σ → UInt32 → Prop}
  {extra : Schedule σ → Nat}

namespace Schedule

/-- At most the longest slot and half a period are owed, and what `n` strays have added. -/
structure Contained (S : Source σ) (fit : σ → UInt32 → Prop) (n : Nat) (s : Schedule σ) :
    Prop where
  carry : s.carry.toNat < (ratio S).den.toNat
  owed : s.owed.toNat ≤ 0x200007FFC0000 + n * 0x7FFFFFFF
  event : s.phase = .armed → fit s.source s.eventAt

variable {n : Nat} {s s' : Schedule σ}

theorem Contained.of_quiet (carry : s.carry.toNat < (ratio S).den.toNat) (none : s.owed = 0)
    (unarmed : s.phase ≠ .armed) : s.Contained S fit n :=
  ⟨carry, by simp [none], fun armed => absurd armed unarmed⟩

theorem Contained.mono {k : Nat} (contained : s.Contained S fit k) (le : k ≤ n) :
    s.Contained S fit n :=
  ⟨contained.carry,
    Nat.le_trans contained.owed (Nat.add_le_add_left (Nat.mul_le_mul_right _ le) _),
    contained.event⟩

theorem Contained.takeDue (contained : s.Contained S fit n) : s.takeDue.2.Contained S fit n :=
  ⟨contained.carry, contained.owed, contained.event⟩

theorem Contained.enter (contained : s.Contained S fit n) : s.enterCallback.Contained S fit n :=
  ⟨contained.carry, contained.owed, nofun⟩

theorem Contained.leave (contained : s.Contained S fit n) : s.leaveCallback.Contained S fit n := by
  unfold leaveCallback
  split
  · exact ⟨contained.carry, contained.owed, nofun⟩
  · exact contained

section

variable (guarded : S.Guarded tends fit extra)

include guarded

private theorem Arms.fit_event {remaining : UInt64} (h : Arms S (s.reading S) remaining s s')
    (unarmed : s.phase ≠ .armed) (armed : s'.phase = .armed) : fit s'.source s'.eventAt := by
  cases h with
  | short => exact absurd armed unarmed
  | missed => exact absurd armed unarmed
  | armed _ _ arm event _ =>
      refine guarded.arms ?_ arm event
      rw [Word.toNat_min_half]
      exact Nat.min_le_right _ _

theorem Plans.contained {delay : UInt32} (h : Plans S delay s s')
    (carry : s.carry.toNat < (ratio S).den.toNat) : s'.Contained S fit 0 := by
  have owed := h.owed_le guarded.reliable carry
  obtain ⟨span, converted, -⟩ := h.converts
  have left := (Ratio.of_nativeOfDelay _ _ carry converted).2
  refine ⟨left ▸ Ratio.left_lt _ _ _ _, by omega, fun armed => ?_⟩
  have unarmed := supersede_unarmed S s
  cases h with
  | due => exact absurd armed unarmed
  | @ahead _ carry _ anchor _ _ _ _ _ _ arms =>
      exact Arms.fit_event (s := s.moved S carry anchor) guarded arms unarmed armed

theorem Serves.contained {due : Bool} (h : Serves S s due s') (contained : s.Contained S fit n) :
    s'.Contained S fit (n + extra s) := by
  have owed := guarded.grows contained.event h
  have before := contained.owed
  refine ⟨h.frame.1 ▸ contained.carry, ?_, fun armed => ?_⟩
  · rw [Nat.add_mul]
    omega
  · cases h with
    | spurious unarmed => exact absurd armed unarmed
    | last => cases armed
    | passed => cases armed
    | @onward _ _ s₁ _ _ _ _ _ arms =>
        have again : fit s₁.source s₁.eventAt :=
          Arms.fit_event (s := s.spent S) guarded arms Phase.noConfusion armed
        exact again

theorem Contained.apply (contained : s.Contained S fit n) {a : Action σ} (tended : a.Tended tends) :
    ∃ s', a.apply S s = .ok s' ∧ s'.Contained S fit (a.strays n) := by
  cases a with
  | plan delay =>
      obtain ⟨s', planned⟩ := plan_of_reliable guarded.reliable contained.carry delay
      exact ⟨s', planned, (plans_of_plan S planned).contained guarded contained.carry⟩
  | cancel => exact ⟨_, rfl, .of_quiet contained.carry rfl (withoutEvent_ne_armed _)⟩
  | reset => exact ⟨_, rfl, .of_quiet (Ratio.den_pos _ _) rfl (withoutEvent_ne_armed _)⟩
  | clear => exact ⟨_, rfl, .of_quiet (Ratio.den_pos _ _) rfl Phase.noConfusion⟩
  | environment effect =>
      obtain ⟨y, effected⟩ := guarded.returns s.source tended
      refine ⟨{ s with source := y }, ?_, contained.carry, contained.owed, fun armed => ?_⟩
      · simp [Action.apply, effected, bind, Except.bind, pure, Except.pure]
      · exact guarded.keeps tended effected (contained.event armed)

theorem Contained.applied (contained : s.Contained S fit n) {a : Action σ}
    (tended : a.Tended tends) (h : a.apply S s = .ok s') : s'.Contained S fit (a.strays n) := by
  obtain ⟨s'', again, contained'⟩ := contained.apply guarded tended
  cases h.symm.trans again
  exact contained'

theorem Contained.serve (contained : s.Contained S fit n) (few : n ≤ 0xFFFC0000) :
    ∃ outcome, s.serve S = .ok outcome := by
  have owed := contained.owed
  exact serve_of_reliable guarded.reliable (by omega)

end

end Schedule

/-! ## Callbacks -/

open Schedule

variable {n : Nat}

theorem Program.run_of_contained (guarded : S.Guarded tends fit extra) {p : Program σ κ}
    {s : Schedule σ} (harmless : p.Harmless tends) (contained : s.Contained S fit n) :
    ∃ state s', p.run S s = .ok (state, s') ∧ s'.Contained S fit n := by
  induction p generalizing s with
  | finish state => exact ⟨state, s, rfl, contained⟩
  | fail cause => cases harmless
  | act a next ih =>
      obtain ⟨tended, later⟩ := harmless
      obtain ⟨s', applied, contained'⟩ := contained.apply guarded tended
      rw [Program.run, applied]
      exact ih s' (later s') (contained'.mono (a.strays_le n))

theorem runCallback_no_fault (guarded : S.Guarded tends fit extra) {c : Callback σ κ}
    {s : Schedule σ} (harmless : c.Harmless tends) (contained : s.Contained S fit n) (fuel : Nat)
    (cause : Fault) : Timer.runCallback S fuel c s ≠ .error (.fault cause) := by
  -- The slot that a run leaves due was planned inside the callback, so the bound still holds.
  induction fuel generalizing c s with
  | zero => exact fun fault => by cases fault
  | succ fuel ih =>
      obtain ⟨state, s', ran, contained'⟩ := Program.run_of_contained guarded
        (harmless c.state s.enterCallback) contained.enter
      have left := contained'.leave.takeDue
      rw [Timer.runCallback]
      simp only [Callback.invoke, ran, bind, Except.bind, pure, Except.pure]
      split
      · exact ih harmless left
      · exact fun fault => by cases fault

theorem plan_no_fault (guarded : S.Guarded tends fit extra) {t : Timer σ κ}
    (harmless : ∀ c, t.callback = some c → c.Harmless tends)
    (contained : t.schedule.Contained S fit n) (fuel : Nat) (delay : UInt32) (cause : Fault) :
    t.plan S fuel delay ≠ .error (.fault cause) := by
  unfold Timer.plan
  split
  next => exact fun fault => by cases fault
  next c set =>
    obtain ⟨s, planned, contained'⟩ := contained.apply (a := .plan delay) guarded trivial
    have ready : (t.schedule.plan S delay).mapError Halt.fault = .ok s :=
      mapError_of_ok planned _
    have loop := runCallback_no_fault guarded (harmless c set) contained'.takeDue fuel cause
    simp only [ready, bind, Except.bind]
    split
    · intro fault
      split at fault
      next other returned =>
        cases fault
        exact loop returned
      next => cases fault
    · exact fun fault => by cases fault

theorem interrupt_no_fault (guarded : S.Guarded tends fit extra) {t : Timer σ κ}
    (harmless : ∀ c, t.callback = some c → c.Harmless tends)
    (contained : t.schedule.Contained S fit n) (few : n ≤ 0xFFFC0000) (fuel : Nat)
    (cause : Fault) : t.interrupt S fuel ≠ .error (.fault cause) := by
  obtain ⟨⟨due, s⟩, served⟩ := contained.serve guarded few
  have contained' := (serves_of_serve S served).contained guarded contained
  have ready := mapError_of_ok served Halt.fault
  unfold Timer.interrupt
  simp only [ready, bind, Except.bind]
  cases due with
  | false => exact fun fault => by cases fault
  | true =>
      cases set : t.callback with
      | none => exact fun fault => by cases fault
      | some c =>
          have loop := runCallback_no_fault guarded (harmless c set) contained' fuel cause
          intro fault
          dsimp only at fault
          split at fault
          next other returned =>
            cases fault
            exact loop returned
          next => cases fault

/-! ## Runs -/

def Entry.strays (extra : Schedule σ → Nat) (n : Nat) (e : Entry σ κ) : Nat :=
  match e.deed with
  | .act a => a.strays n
  | .serve => n + extra e.before.schedule
  | _ => n

def strays (extra : Schedule σ → Nat) (history : List (Entry σ κ)) : Nat :=
  history.foldl (Entry.strays extra) 0

theorem strays_concat (extra : Schedule σ → Nat) (history : List (Entry σ κ)) (e : Entry σ κ) :
    strays extra (history ++ [e]) = e.strays extra (strays extra history) := by
  simp [strays]

theorem strays_eq_zero (history : List (Entry σ κ)) : strays (fun _ => 0) history = 0 := by
  have none : ∀ e : Entry σ κ, e.strays (fun _ => 0) 0 = 0 := by
    rintro ⟨m, deed⟩
    cases deed with
    | act a => exact Nat.le_zero.mp (a.strays_le 0)
    | _ => rfl
  unfold strays
  induction history with
  | nil => rfl
  | cons e rest ih => rw [List.foldl_cons, none, ih]

theorem Moment.IsNew.contained {m : Moment σ κ} (new : m.IsNew) :
    m.schedule.Contained S fit 0 := by
  obtain ⟨source, fresh⟩ := new.schedule_eq
  rw [fresh]
  exact .of_quiet (Ratio.den_pos _ _) rfl Phase.noConfusion

theorem Step.contained (guarded : S.Guarded tends fit extra) {m m' : Moment σ κ}
    {deed : Deed σ κ} (h : Step S m deed m') (tended : deed.Tended tends)
    (contained : m.schedule.Contained S fit n) :
    m'.schedule.Contained S fit ((Entry.mk m deed).strays extra n) := by
  cases h with
  | alone h => exact contained.applied guarded tended h
  | setCallback t c => exact contained
  | refuse delay unset => exact contained
  | plan set h =>
      rw [Moment.schedule_settle]
      exact (contained.applied (a := .plan _) guarded tended h).takeDue
  | cancel t => exact contained.applied (a := .cancel) guarded tended rfl
  | reset t => exact contained.applied (a := .reset) guarded tended rfl
  | clear t => exact contained.applied (a := .clear) guarded tended rfl
  | @environment t t' effect h =>
      obtain ⟨source, effected, done⟩ := parts_of_bind h
      cases done
      exact contained.applied (a := .environment effect) guarded tended
        (by simp [Action.apply, effected, bind, Except.bind, pure, Except.pure])
  | serve h =>
      rw [Moment.schedule_served]
      exact (serves_of_serve S h).contained guarded contained
  | enter c s => exact contained.enter
  | inside h => exact contained.applied guarded tended h
  | leave c state s =>
      rw [Moment.schedule_settle]
      exact contained.leave.takeDue

theorem Runs.contained (guarded : S.Guarded tends fit extra) {m m' : Moment σ κ}
    {history : List (Entry σ κ)} (runs : Runs S m history m')
    (tended : ∀ e ∈ history, e.deed.Tended tends) (contained : m.schedule.Contained S fit 0) :
    m'.schedule.Contained S fit (strays extra history) := by
  induction runs with
  | start => exact contained
  | @step history m₁ m₂ deed past h ih =>
      rw [strays_concat]
      exact h.contained guarded (tended ⟨m₁, deed⟩ (by simp))
        (ih fun e mem => tended e (List.mem_append_left _ mem))

end SlotClock
