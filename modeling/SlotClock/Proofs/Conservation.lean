import SlotClock.Proofs.Run

/-!
# Every accepted slot is run, dropped or pending

Planned work is held in two places, the phase of a schedule and its `due` mark,
and at most one of them is in use.  So a slot that is accepted is pending until
its run begins or until the operation that drops it, and at every moment of a run
the accepted slots are those run, those dropped, and the one still pending.
-/

namespace SlotClock

variable {σ κ : Type} {S : Source σ}

namespace Schedule

def pending (s : Schedule σ) : Bool := s.phase = .armed || s.due

@[simp] theorem withoutEvent_ne_armed (phase : Phase) : withoutEvent phase ≠ .armed := by
  cases phase <;> decide

theorem supersede_phase (s : Schedule σ) : (s.supersede S).phase = withoutEvent s.phase := by
  unfold supersede
  cases phase : s.phase <;> simp [withoutEvent, phase]

theorem supersede_unarmed (S : Source σ) (s : Schedule σ) : (s.supersede S).phase ≠ .armed := by
  rw [supersede_phase]
  exact withoutEvent_ne_armed _

theorem Arms.armed_or_due {base : UInt32} {remaining : UInt64} {s s' : Schedule σ}
    (h : Arms S base remaining s s') :
    s'.phase = .armed ∧ s'.due = s.due ∨ s'.phase = s.phase ∧ s'.due = true := by
  cases h with
  | short => exact .inr ⟨rfl, rfl⟩
  | armed => exact .inl ⟨rfl, rfl⟩
  | missed => exact .inr ⟨rfl, rfl⟩

theorem Plans.armed_or_due {delay : UInt32} {s s' : Schedule σ} (h : Plans S delay s s') :
    s'.phase = .armed ∧ s'.due = false ∨ s'.phase = withoutEvent s.phase ∧ s'.due = true := by
  cases h with
  | due => exact .inr ⟨supersede_phase s, rfl⟩
  | ahead _ _ _ _ arms =>
      rw [← supersede_phase (S := S)]
      exact arms.armed_or_due

theorem Serves.due_or_armed {s s' : Schedule σ} {due : Bool} (h : Serves S s due s')
    (clear : s.due = false) (armed : s.phase = .armed) :
    s'.due = false ∧ (due = true ∧ s'.phase = .idle ∨ due = false ∧ s'.phase = .armed) := by
  cases h with
  | spurious unarmed => exact absurd armed unarmed
  | last => exact ⟨clear, .inl ⟨rfl, rfl⟩⟩
  | passed => exact ⟨clear, .inl ⟨rfl, rfl⟩⟩
  | onward _ _ _ _ _ arms =>
      rcases arms.armed_or_due with ⟨phase, due⟩ | ⟨phase, due⟩
      · exact ⟨rfl, .inr ⟨due.trans clear, phase⟩⟩
      · exact ⟨rfl, .inl ⟨due, phase⟩⟩

theorem Serves.eq_of_unarmed {s s' : Schedule σ} {due : Bool} (h : Serves S s due s')
    (unarmed : s.phase ≠ .armed) : due = false ∧ s' = s.acknowledged S := by
  cases h with
  | spurious => exact ⟨rfl, rfl⟩
  | last armed => exact absurd armed unarmed
  | passed armed => exact absurd armed unarmed
  | onward armed => exact absurd armed unarmed

end Schedule

/-! ## Counting -/

namespace Deed

@[simp] def accepts : Deed σ κ → Bool
  | act (.plan _) => true
  | _ => false

@[simp] def enters : Deed σ κ → Bool
  | enter => true
  | _ => false

@[simp] def cancels : Deed σ κ → Bool
  | act .cancel => true
  | act .reset => true
  | act .clear => true
  | _ => false

end Deed

/-- A slot that was pending before the step gave way to it. -/
@[simp] def Entry.drops (e : Entry σ κ) : Bool :=
  (e.deed.accepts || e.deed.cancels) && e.before.schedule.pending

def accepted (history : List (Entry σ κ)) : Nat := history.countP (·.deed.accepts)

def ran (history : List (Entry σ κ)) : Nat := history.countP (·.deed.enters)

theorem ran_append (first second : List (Entry σ κ)) :
    ran (first ++ second) = ran first + ran second :=
  List.countP_append

def dropped (history : List (Entry σ κ)) : Nat := history.countP (·.drops)

private theorem countP_concat {α : Type} (p : α → Bool) (xs : List α) (x : α) :
    (xs ++ [x]).countP p = xs.countP p + (p x).toNat := by
  rw [List.countP_append]
  cases passes : p x <;> simp [passes]

namespace Moment

/-- The runs that the callback is owed. -/
def owes : Moment σ κ → Nat
  | alone s => s.pending.toNat
  | rest t => t.schedule.pending.toNat
  | due _ _ => 1
  | inside _ _ s => s.pending.toNat

@[simp] theorem owes_alone (s : Schedule σ) : (alone s : Moment σ κ).owes = s.pending.toNat := rfl

@[simp] theorem owes_rest (t : Timer σ κ) : (rest t).owes = t.schedule.pending.toNat := rfl

@[simp] theorem owes_due (c : Callback σ κ) (s : Schedule σ) : (due c s).owes = 1 := rfl

@[simp] theorem owes_inside (c : Callback σ κ) (p : Program σ κ) (s : Schedule σ) :
    (inside c p s).owes = s.pending.toNat := rfl

/--
The pending work is in one place, and where it can be served.  At rest no run is
owed, and an armed timer has a callback.
-/
def Orderly : Moment σ κ → Prop
  | alone s => s.phase ≠ .running ∧ (s.phase = .armed → s.due = false)
  | rest t =>
      t.schedule.phase ≠ .running ∧ t.schedule.due = false ∧
        (t.schedule.phase = .armed → t.callback.isSome)
  | due _ s => s.phase = .idle ∧ s.due = false
  | inside _ _ s => s.phase = .armed → s.due = false

theorem IsNew.orderly {m : Moment σ κ} (h : m.IsNew) : m.Orderly := by
  cases m with
  | alone s =>
      obtain ⟨source, rfl⟩ := h
      exact ⟨Phase.noConfusion, fun _ => rfl⟩
  | rest t =>
      obtain ⟨source, rfl⟩ := h
      exact ⟨Phase.noConfusion, rfl, Phase.noConfusion⟩
  | due _ _ => cases h
  | inside _ _ _ => cases h

theorem IsNew.owes {m : Moment σ κ} (h : m.IsNew) : m.owes = 0 := by
  cases m with
  | alone s =>
      obtain ⟨source, rfl⟩ := h
      rfl
  | rest t =>
      obtain ⟨source, rfl⟩ := h
      rfl
  | due _ _ => cases h
  | inside _ _ _ => cases h

end Moment

/-! ## One step -/

namespace Schedule

theorem pending_of_armed {s : Schedule σ} (h : s.phase = .armed) : s.pending = true := by
  simp [pending, h]

private theorem pending_of_due {s : Schedule σ} (h : s.due = true) : s.pending = true := by
  simp [pending, h]

theorem pending_eq_false {s : Schedule σ} :
    s.pending = false ↔ s.phase ≠ .armed ∧ s.due = false := by
  simp [pending]

theorem Plans.pending {delay : UInt32} {s s' : Schedule σ} (h : Plans S delay s s') :
    s'.pending = true ∧ (s'.phase = .armed → s'.due = false) := by
  rcases h.armed_or_due with ⟨phase, due⟩ | ⟨phase, due⟩
  · exact ⟨pending_of_armed phase, fun _ => due⟩
  · exact ⟨pending_of_due due, fun armed => absurd (phase ▸ armed) (withoutEvent_ne_armed _)⟩

private theorem cancel_pending (s : Schedule σ) : (s.cancel S).pending = false :=
  pending_eq_false.mpr ⟨withoutEvent_ne_armed _, rfl⟩

private theorem reset_pending (s : Schedule σ) : (s.reset S).pending = false :=
  pending_eq_false.mpr ⟨withoutEvent_ne_armed _, rfl⟩

private theorem clear_pending (s : Schedule σ) : (s.clear S).pending = false := rfl

private theorem leaveCallback_pending (s : Schedule σ) : s.leaveCallback.pending = s.pending := by
  unfold leaveCallback
  split
  next running => simp [pending, running]
  next => rfl

end Schedule

open Schedule in
theorem pending_of_cancels {a : Action σ} {s s' : Schedule σ} (h : a.apply S s = .ok s')
    (cancels : (Deed.act a : Deed σ κ).cancels = true) : s'.pending = false := by
  cases a with
  | plan delay => cases cancels
  | cancel =>
      injection h with h
      exact h ▸ cancel_pending s
  | reset =>
      injection h with h
      exact h ▸ reset_pending s
  | clear =>
      injection h with h
      exact h ▸ clear_pending s
  | environment effect => cases cancels

open Schedule in
theorem balance_of_apply {a : Action σ} {m n : Moment σ κ}
    (h : a.apply S m.schedule = .ok n.schedule)
    (one : m.schedule.phase = .armed → m.schedule.due = false) :
    (n.schedule.phase = .armed → n.schedule.due = false) ∧
      (Deed.act a : Deed σ κ).accepts.toNat + m.schedule.pending.toNat =
        (Entry.mk m (.act a)).drops.toNat + n.schedule.pending.toNat := by
  by_cases cancels : (Deed.act a : Deed σ κ).cancels = true
  · have none := pending_of_cancels h cancels
    obtain ⟨-, clear⟩ := pending_eq_false.mp none
    refine ⟨fun _ => clear, ?_⟩
    cases a <;> simp_all
  · cases a with
    | plan delay =>
        obtain ⟨pending, one'⟩ := (plans_of_plan S h).pending
        refine ⟨one', ?_⟩
        simp [pending, Nat.add_comm]
    | environment effect =>
        obtain ⟨source, -, done⟩ := parts_of_bind h
        injection done with done
        rw [← done]
        exact ⟨one, by simp [pending]⟩
    | cancel => exact absurd rfl cancels
    | reset => exact absurd rfl cancels
    | clear => exact absurd rfl cancels

namespace Moment

private theorem orderly_of_unarmed {t : Timer σ κ} (left : t.schedule.phase ≠ .running)
    (unarmed : t.schedule.phase ≠ .armed) (clear : t.schedule.due = false) :
    (rest t).Orderly :=
  ⟨left, clear, fun armed => absurd armed unarmed⟩

private theorem settle_orderly (c : Callback σ κ) {s : Schedule σ} (left : s.phase ≠ .running)
    (one : s.phase = .armed → s.due = false) :
    (settle c s).Orderly ∧ (settle c s).owes = s.pending.toNat := by
  unfold settle
  cases due : s.due with
  | false =>
      rw [if_neg (by simp [Schedule.takeDue, due])]
      exact ⟨⟨left, rfl, fun _ => rfl⟩, by simp [owes, Schedule.takeDue, Schedule.pending, due]⟩
  | true =>
      rw [if_pos (by simpa [Schedule.takeDue] using due)]
      have idle : s.phase = .idle := by
        cases phase : s.phase with
        | idle => rfl
        | armed => rw [one phase] at due; cases due
        | running => exact absurd phase left
      exact ⟨⟨idle, rfl⟩, by rw [Schedule.pending_of_due due]; rfl⟩

private theorem served_orderly {t : Timer σ κ} {s : Schedule σ} {due : Bool}
    (h : Schedule.Serves S t.schedule due s) (orderly : (rest t).Orderly) :
    (served t.callback s due).Orderly ∧
      (served t.callback s due).owes = t.schedule.pending.toNat := by
  obtain ⟨left, clear, callback⟩ := orderly
  by_cases armed : t.schedule.phase = .armed
  · obtain ⟨c, set⟩ := Option.isSome_iff_exists.mp (callback armed)
    obtain ⟨clear', ⟨rfl, idle⟩ | ⟨rfl, again⟩⟩ := h.due_or_armed clear armed
    · rw [set, Schedule.pending_of_armed armed]
      exact ⟨⟨idle, clear'⟩, rfl⟩
    · refine ⟨⟨again ▸ Phase.noConfusion, clear', fun _ => callback armed⟩, ?_⟩
      rw [Schedule.pending_of_armed armed, ← Schedule.pending_of_armed again]
      rfl
  · obtain ⟨rfl, rfl⟩ := h.eq_of_unarmed armed
    exact ⟨orderly_of_unarmed left armed clear, rfl⟩

end Moment

open Schedule in
theorem not_running_of_apply {a : Action σ} {s s' : Schedule σ} (h : a.apply S s = .ok s')
    (left : s.phase ≠ .running) : s'.phase ≠ .running := by
  have without : withoutEvent s.phase ≠ .running := by
    cases phase : s.phase with
    | idle => exact Phase.noConfusion
    | armed => exact Phase.noConfusion
    | running => exact absurd phase left
  cases a with
  | plan delay =>
      rcases (plans_of_plan S h).armed_or_due with ⟨phase, -⟩ | ⟨phase, -⟩
      · exact phase ▸ Phase.noConfusion
      · exact phase ▸ without
  | cancel =>
      injection h with h
      exact h ▸ without
  | reset =>
      injection h with h
      exact h ▸ without
  | clear =>
      injection h with h
      exact h ▸ Phase.noConfusion
  | environment effect =>
      obtain ⟨source, -, done⟩ := parts_of_bind h
      injection done with done
      exact done ▸ left

theorem Moment.balance_of_cancels {a : Action σ} {t t' : Timer σ κ}
    (h : a.apply S t.schedule = .ok t'.schedule)
    (cancels : (Deed.act a : Deed σ κ).cancels = true) (orderly : (rest t).Orderly) :
    (rest t').Orderly ∧ (Deed.act a : Deed σ κ).accepts.toNat + (rest t).owes =
      (Deed.act a : Deed σ κ).enters.toNat + (Entry.mk (rest t) (.act a)).drops.toNat +
        (rest t').owes := by
  obtain ⟨unarmed, clear⟩ := Schedule.pending_eq_false.mp (pending_of_cancels h cancels)
  obtain ⟨-, balance⟩ := balance_of_apply (m := rest t) (n := rest t') h fun _ => orderly.2.1
  refine ⟨orderly_of_unarmed (not_running_of_apply h orderly.1) unarmed clear, ?_⟩
  simpa using balance

open Schedule in
theorem Step.balance {m m' : Moment σ κ} {deed : Deed σ κ} (h : Step S m deed m')
    (orderly : m.Orderly) :
    m'.Orderly ∧ deed.accepts.toNat + m.owes =
      deed.enters.toNat + (Entry.mk m deed).drops.toNat + m'.owes := by
  cases h with
  | @alone a s s' h =>
      obtain ⟨one, balance⟩ :=
        balance_of_apply (m := (.alone s : Moment σ κ)) (n := .alone s') h orderly.2
      refine ⟨⟨not_running_of_apply h orderly.1, one⟩, ?_⟩
      simpa using balance
  | setCallback t c =>
      obtain ⟨left, clear, -⟩ := orderly
      refine ⟨⟨left, clear, fun _ => rfl⟩, ?_⟩
      simp [Timer.setCallback]
  | refuse delay unset => exact ⟨orderly, by simp⟩
  | @plan t c delay s set h =>
      -- A slot that is due at once is accepted here and entered by the next step.
      have left : s.phase ≠ .running := not_running_of_apply (a := .plan delay) h orderly.1
      obtain ⟨pending, one⟩ := (plans_of_plan S h).pending
      obtain ⟨settled, owes⟩ := Moment.settle_orderly c left one
      refine ⟨settled, ?_⟩
      rw [owes, pending]
      simp [Nat.add_comm]
  | cancel t => exact Moment.balance_of_cancels (S := S) (a := .cancel) rfl rfl orderly
  | reset t => exact Moment.balance_of_cancels (S := S) (a := .reset) rfl rfl orderly
  | clear t => exact Moment.balance_of_cancels (S := S) (a := .clear) rfl rfl orderly
  | environment h =>
      obtain ⟨source, -, done⟩ := parts_of_bind h
      cases done
      exact ⟨orderly, by simp [pending]⟩
  | serve h =>
      obtain ⟨served, owes⟩ := Moment.served_orderly (serves_of_serve S h) orderly
      refine ⟨served, ?_⟩
      rw [owes]
      simp
  | enter c s =>
      refine ⟨Phase.noConfusion, ?_⟩
      simp [pending, enterCallback, orderly.2]
  | @inside c a next s s' h =>
      obtain ⟨one, balance⟩ := balance_of_apply (m := .inside c (.act a next) s)
        (n := .inside c (next s') s') h orderly
      refine ⟨one, ?_⟩
      simpa using balance
  | leave c state s =>
      have left : s.leaveCallback.phase ≠ .running := by
        unfold leaveCallback
        split
        next => exact Phase.noConfusion
        next gone => exact gone
      have one : s.leaveCallback.phase = .armed → s.leaveCallback.due = false := by
        unfold leaveCallback
        split
        next => exact Phase.noConfusion
        next => exact orderly
      obtain ⟨settled, owes⟩ := Moment.settle_orderly { c with state := state } left one
      refine ⟨settled, ?_⟩
      rw [owes, leaveCallback_pending]
      simp

theorem Step.owes_of_cancels {m m' : Moment σ κ} {deed : Deed σ κ} (h : Step S m deed m')
    (cancels : deed.cancels = true) : m'.owes = 0 := by
  cases h with
  | alone h => simp [pending_of_cancels h cancels]
  | inside h => simp [pending_of_cancels h cancels]
  | cancel t => simp [Timer.cancel, Schedule.cancel_pending]
  | reset t => simp [Timer.reset, Schedule.reset_pending]
  | clear t => rfl
  | setCallback => cases cancels
  | refuse => cases cancels
  | plan => cases cancels
  | environment => cases cancels
  | serve => cases cancels
  | enter => cases cancels
  | leave => cases cancels

theorem Step.owes_of_plan {m m' : Moment σ κ} {delay : UInt32}
    (h : Step S m (.act (.plan delay)) m') (orderly : m.Orderly) : m'.owes = 1 := by
  cases h with
  | alone h => simp [(Schedule.plans_of_plan S h).pending.1]
  | @plan t c _ s set h =>
      obtain ⟨pending, one⟩ := (Schedule.plans_of_plan S h).pending
      have left : s.phase ≠ .running := not_running_of_apply (a := .plan delay) h orderly.1
      rw [(Moment.settle_orderly c left one).2, pending]
      rfl
  | inside h => simp [(Schedule.plans_of_plan S h).pending.1]

/-! ## Whole runs -/

theorem Runs.orderly {m m' : Moment σ κ} {history : List (Entry σ κ)}
    (h : Runs S m history m') (orderly : m.Orderly) : m'.Orderly := by
  induction h with
  | start => exact orderly
  | step _ h ih => exact (h.balance ih).1

theorem Runs.balance {m m' : Moment σ κ} {history : List (Entry σ κ)}
    (h : Runs S m history m') (orderly : m.Orderly) :
    accepted history + m.owes = ran history + dropped history + m'.owes := by
  induction h with
  | start => simp [accepted, ran, dropped]
  | @step history m₁ m₂ deed past h ih =>
      have one := (h.balance (past.orderly orderly)).2
      simp only [accepted, ran, dropped, countP_concat] at ih ⊢
      omega

theorem Runs.owes_of_cancels {m m' : Moment σ κ} {history : List (Entry σ κ)} {e : Entry σ κ}
    (h : Runs S m history m') (last : history.getLast? = some e) (cancels : e.deed.cancels = true) :
    m'.owes = 0 := by
  cases h with
  | start => cases last
  | step past h =>
      rw [List.getLast?_concat] at last
      cases last
      exact h.owes_of_cancels cancels

/--
At every moment of every run from a new timer, the accepted slots are those whose run
has begun, those dropped while pending, and the one that is pending, if there is one.
The same balance holds from any moment on.  In particular nothing runs after a
cancel, a reset or a clear until another slot is accepted.
-/
theorem slots_conserved {m₀ m m' : Moment σ κ} {past history : List (Entry σ κ)}
    (new : m₀.IsNew) (before : Runs S m₀ past m) (after : Runs S m history m') :
    accepted past = ran past + dropped past + m.owes ∧
      accepted history + m.owes = ran history + dropped history + m'.owes ∧
      (∀ e, past.getLast? = some e → e.deed.cancels = true →
        m.owes = 0 ∧ (accepted history = 0 → ran history = 0)) := by
  have start := before.balance new.orderly
  have rest := after.balance (before.orderly new.orderly)
  rw [new.owes] at start
  refine ⟨start, rest, fun e last cancels => ?_⟩
  have none := before.owes_of_cancels last cancels
  exact ⟨none, fun nothing => by omega⟩

theorem cancelled_slot_conserved :
    ∃ past history : List (Entry Clock Unit), accepted past = 1 ∧
      accepted past = ran past + dropped past ∧ history.length = 1 ∧ ran history = 0 := by
  have cancelled := Sample.runs.step (.cancel ⟨Sample.nearer, some Sample.callback⟩)
  have served : Step Sample.source
      (.rest (Timer.cancel Sample.source ⟨Sample.nearer, some Sample.callback⟩)) .serve
      (.served (some Sample.callback) ((Sample.nearer.cancel Sample.source).acknowledged
        Sample.source) false) := .serve rfl
  obtain ⟨balance, -, silent⟩ := slots_conserved Sample.isNew cancelled (.single served)
  obtain ⟨none, quiet⟩ := silent _ rfl rfl
  rw [none] at balance
  refine ⟨_, _, ?_, balance, ?_, quiet rfl⟩
  · rfl
  · rfl

end SlotClock
