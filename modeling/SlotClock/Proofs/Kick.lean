import SlotClock.Proofs.Conservation

/-!
# A kick tells that the callback ran

A slot is armed only by a timer that has a callback, and what takes the callback away
disarms the slot with it.  So an event that was served never looks for a callback in vain.

One call of `interrupt` serves the event, and all its other steps belong to the callback.
These steps follow from one another, so a call has one history, and whether it asked for a
kick can be read off there.

## Where the callback is
-/

namespace SlotClock

variable {σ κ : Type} {S : Source σ}

namespace Moment

def callback? : Moment σ κ → Option (Callback σ κ)
  | alone _ => none
  | rest t => t.callback
  | due c _ => some c
  | inside c _ _ => some c

def OfTimer : Moment σ κ → Prop
  | alone _ => False
  | _ => True

private theorem settle_ofTimer (c : Callback σ κ) (s : Schedule σ) : (settle c s).OfTimer := by
  unfold settle
  split
  · trivial
  · trivial

private theorem served_ofTimer (c? : Option (Callback σ κ)) (s : Schedule σ) (due : Bool) :
    (served c? s due).OfTimer := by
  cases due with
  | false => trivial
  | true => cases c? <;> trivial

theorem Orderly.callback_of_armed {m : Moment σ κ} (orderly : m.Orderly) (owned : m.OfTimer)
    (armed : m.schedule.phase = .armed) : m.callback?.isSome := by
  cases m with
  | alone s => cases owned
  | rest t => exact orderly.2.2 armed
  | due c s => rfl
  | inside c p s => rfl

end Moment

theorem Step.ofTimer {m m' : Moment σ κ} {deed : Deed σ κ} (h : Step S m deed m')
    (owned : m.OfTimer) : m'.OfTimer := by
  cases h with
  | alone => cases owned
  | plan => exact Moment.settle_ofTimer _ _
  | serve => exact Moment.served_ofTimer _ _ _
  | leave => exact Moment.settle_ofTimer _ _
  | _ => trivial

theorem Runs.ofTimer {m m' : Moment σ κ} {history : List (Entry σ κ)} (h : Runs S m history m')
    (owned : m.OfTimer) : m'.OfTimer := by
  induction h with
  | start => exact owned
  | step _ h ih => exact h.ofTimer ih

theorem Schedule.armed_of_serve {s s' : Schedule σ} (h : s.serve S = .ok (true, s')) :
    s.phase = .armed := by
  by_cases armed : s.phase = .armed
  · exact armed
  · cases ((serves_of_serve S h).eq_of_unarmed armed).1

/-! ## The history of a call -/

namespace Runs

variable {m m' : Moment σ κ}

private theorem eq_of_nil (h : Runs S m [] m') : m = m' := by
  generalize none : ([] : List (Entry σ κ)) = history at h
  cases h with
  | start => rfl
  | step => simp at none

private theorem parts_of_cons {e : Entry σ κ} {rest : List (Entry σ κ)}
    (h : Runs S m (e :: rest) m') :
    e.before = m ∧ ∃ m₁, Step S m e.deed m₁ ∧ Runs S m₁ rest m' := by
  generalize whole : e :: rest = history at h
  induction h generalizing rest with
  | start => cases whole
  | @step past m₁ m₂ deed before last ih =>
      cases past with
      | nil =>
          cases whole
          cases before.eq_of_nil
          exact ⟨rfl, _, last, .start⟩
      | cons first later =>
          cases whole
          obtain ⟨same, m₂, step, onward⟩ := ih rfl
          exact ⟨same, m₂, step, .step onward last⟩

end Runs

theorem Step.unique_of_callback {m m₁ m₂ : Moment σ κ} {deed₁ deed₂ : Deed σ κ}
    (own : m.OfCallback) (h₁ : Step S m deed₁ m₁) (h₂ : Step S m deed₂ m₂) :
    deed₁ = deed₂ ∧ m₁ = m₂ := by
  have same : deed₁ = deed₂ := by
    cases m with
    | alone s => cases own
    | rest t => cases own
    | due c s =>
        cases h₁
        cases h₂
        rfl
    | inside c p s =>
        cases h₁ with
        | inside =>
            cases h₂
            rfl
        | leave =>
            cases h₂
            rfl
  subst same
  exact ⟨rfl, h₁.unique h₂⟩

theorem Runs.unique_of_callback {m : Moment σ κ} {first second : List (Entry σ κ)}
    {t u : Timer σ κ} (h₁ : Runs S m first (.rest t)) (h₂ : Runs S m second (.rest u))
    (own₁ : ∀ e ∈ first, e.before.OfCallback) (own₂ : ∀ e ∈ second, e.before.OfCallback) :
    first = second ∧ t = u := by
  induction first generalizing m second with
  | nil =>
      cases h₁.eq_of_nil
      cases second with
      | nil =>
          cases h₂.eq_of_nil
          exact ⟨rfl, rfl⟩
      | cons e later =>
          have own := own₂ e List.mem_cons_self
          rw [h₂.parts_of_cons.1] at own
          cases own
  | cons e later ih =>
      obtain ⟨same, n, step, onward⟩ := h₁.parts_of_cons
      have own : m.OfCallback := same ▸ own₁ e List.mem_cons_self
      cases second with
      | nil =>
          cases h₂.eq_of_nil
          cases own
      | cons e' later' =>
          obtain ⟨same', n', step', onward'⟩ := h₂.parts_of_cons
          obtain ⟨deed, rfl⟩ := step.unique_of_callback own step'
          obtain ⟨rfl, timer⟩ := ih onward onward'
            (fun e mem => own₁ e (List.mem_cons_of_mem _ mem))
            (fun e mem => own₂ e (List.mem_cons_of_mem _ mem))
          refine ⟨?_, timer⟩
          cases e
          cases e'
          cases same
          cases same'
          cases deed
          rfl

/-- The steps of one call of `interrupt`: the event is served, and the callback does the rest. -/
inductive Timer.Handles (S : Source σ) (t : Timer σ κ) :
    List (Entry σ κ) → Timer σ κ → Prop where
  | served {m : Moment σ κ} {during : List (Entry σ κ)} {t' : Timer σ κ}
      (serve : Step S (.rest t) .serve m) (runs : Runs S m during (.rest t'))
      (own : ∀ e ∈ during, e.before.OfCallback) : Handles S t (⟨.rest t, .serve⟩ :: during) t'

theorem Timer.Handles.unique {t t₁ t₂ : Timer σ κ} {first second : List (Entry σ κ)}
    (h₁ : t.Handles S first t₁) (h₂ : t.Handles S second t₂) : first = second ∧ t₁ = t₂ := by
  cases h₁ with
  | served serve₁ runs₁ own₁ =>
      cases h₂ with
      | served serve₂ runs₂ own₂ =>
          cases serve₁ with
          | serve answer₁ =>
              cases serve₂ with
              | serve answer₂ =>
                  cases answer₁.symm.trans answer₂
                  obtain ⟨rfl, rfl⟩ := runs₁.unique_of_callback runs₂ own₁ own₂
                  exact ⟨rfl, rfl⟩

/-! ## Kicks -/

theorem ran_pos_of_due {c : Callback σ κ} {s : Schedule σ} {t : Timer σ κ}
    {history : List (Entry σ κ)} (h : Runs S (.due c s) history (.rest t)) : 1 ≤ ran history := by
  cases history with
  | nil => cases h.eq_of_nil
  | cons e later =>
      obtain ⟨-, m, step, -⟩ := h.parts_of_cons
      have enters : e.deed.enters = true := by
        generalize e.deed = deed at step
        cases step
        rfl
      exact List.countP_pos_iff.mpr ⟨e, List.mem_cons_self, enters⟩

theorem Timer.handles_of_interrupt {fuel : Nat} {t t' : Timer σ κ} {kick : Kick}
    (h : t.interrupt S fuel = .ok (kick, t')) :
    ∃ history, t.Handles S history t' ∧ (kick = .wanted ↔ 1 ≤ ran history) := by
  obtain ⟨schedule, registered⟩ := t
  unfold interrupt at h
  obtain ⟨⟨due, s⟩, served, h⟩ := parts_of_bind h
  have serve := Step.serve (ok_of_mapError served)
  cases due with
  | false =>
      cases h
      exact ⟨_, .served serve .start (by simp), iff_of_false Kick.noConfusion (by simp [ran])⟩
  | true =>
      cases registered with
      | none =>
          cases h
          exact ⟨_, .served serve .start (by simp), iff_of_false Kick.noConfusion (by simp [ran])⟩
      | some c =>
          obtain ⟨⟨c₁, s₁⟩, looped, done⟩ := parts_of_bind h
          cases done
          obtain ⟨during, runs, own⟩ := callbackRuns_of_runCallback S looped
          have entered : 1 ≤ ran (⟨.rest ⟨schedule, some c⟩, .serve⟩ :: during) :=
            Nat.le_trans (ran_pos_of_due runs) (ran_append [_] during ▸ Nat.le_add_left _ _)
          exact ⟨_, .served serve runs own, iff_of_true rfl entered⟩

/--
In every run of a timer from its making on, whatever is armed has a callback.  So an event
after which the callback has to run finds it.  A call of `interrupt` that returns asked for
a kick exactly if the callback ran in it; the history of the call is the only one there is.
-/
theorem kick_iff_ran {source : σ} {m : Moment σ κ} {past : List (Entry σ κ)}
    (runs : Runs S (.rest (Timer.ofSource source)) past m) :
    (m.schedule.phase = .armed → m.callback?.isSome) ∧
      ∀ t, m = .rest t →
        (∀ s, t.schedule.serve S = .ok (true, s) → t.callback.isSome) ∧
        ∀ fuel kick t', t.interrupt S fuel = .ok (kick, t') →
          (∃ history, t.Handles S history t') ∧
            ∀ history u, t.Handles S history u → u = t' ∧ (kick = .wanted ↔ 1 ≤ ran history) := by
  have new : (Moment.rest (Timer.ofSource source) : Moment σ κ).IsNew := ⟨source, rfl⟩
  have registered := (runs.orderly new.orderly).callback_of_armed (runs.ofTimer trivial)
  refine ⟨registered, ?_⟩
  rintro t rfl
  refine ⟨fun s due => registered (Schedule.armed_of_serve due), fun fuel kick t' returns => ?_⟩
  obtain ⟨history, handles, kicked⟩ := Timer.handles_of_interrupt returns
  refine ⟨⟨history, handles⟩, fun history' u handles' => ?_⟩
  obtain ⟨rfl, rfl⟩ := handles.unique handles'
  exact ⟨rfl, kicked⟩

namespace Sample.Thirds

def second : Timer Clock Unit := ⟨{ nearer with source.time := 271 }, some callback⟩

def rearmed : Schedule Clock :=
  { source := ⟨274, 44, some 300⟩, anchor := 44, phase := .armed, eventAt := 44 }

def third : Timer Clock Unit := ⟨{ rearmed with source.time := 300 }, some callback⟩

theorem runs_to_second :
    ∃ past, Runs source (.rest (Timer.ofSource idle.source)) past (.rest second) := by
  have wait : Step source (.rest ⟨nearer, some callback⟩) (.act (.environment (Clock.wait 125)))
      (.rest second) := .environment rfl
  exact ⟨_, runs.step wait⟩

theorem runs_to_third :
    ∃ past, Runs source (.rest (Timer.ofSource idle.source)) past (.rest third) := by
  obtain ⟨past, runs⟩ := runs_to_second
  have serve : Step source (.rest second) .serve (.served (some callback) rearmed false) :=
    .serve rfl
  have wait : Step source (.rest ⟨rearmed, some callback⟩) (.act (.environment (Clock.wait 26)))
      (.rest third) := .environment rfl
  exact ⟨_, (runs.step serve).step wait⟩

end Sample.Thirds

open Sample Sample.Thirds in
theorem kick_iff_ran_sample :
    (∃ t' history, second.interrupt source 1 = .ok (.unwanted, t') ∧
      second.Handles source history t' ∧ ran history = 0) ∧
    ∃ t' history, third.interrupt source 1 = .ok (.wanted, t') ∧
      third.Handles source history t' ∧ 1 ≤ ran history := by
  obtain ⟨past, runs⟩ := runs_to_second
  obtain ⟨past', runs'⟩ := runs_to_third
  constructor
  · have returns : second.interrupt source 1 = .ok (.unwanted, ⟨rearmed, some callback⟩) := rfl
    obtain ⟨⟨history, handles⟩, kicked⟩ := ((kick_iff_ran runs).2 second rfl).2 _ _ _ returns
    have quiet := (kicked history _ handles).2
    exact ⟨_, history, returns, handles, by simpa using quiet⟩
  · have returns : ∃ t', third.interrupt source 1 = .ok (.wanted, t') := ⟨_, rfl⟩
    obtain ⟨t', returns⟩ := returns
    obtain ⟨⟨history, handles⟩, kicked⟩ := ((kick_iff_ran runs').2 third rfl).2 _ _ _ returns
    exact ⟨t', history, returns, handles, (kicked history _ handles).2.mp rfl⟩

end SlotClock
