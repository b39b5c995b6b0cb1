import SlotClock.Proofs.Invariant

/-!
# What a schedule asks of its source

A source is told to arm an event and to disarm it.  A watched source answers as the
source inside it does and writes down these calls.  Along every run, whatever the
source answers and whatever the callbacks do, an event is armed only while none is
outstanding, and the phase of the schedule tells whether one is.

## Calls
-/

namespace SlotClock

variable {σ κ : Type}

inductive Call where
  | arm (period delay : UInt64) (answer : Arming)
  | disarm
  deriving DecidableEq, Repr

namespace Call

def leaves (before : Bool) : Call → Bool
  | arm _ _ (.armed _) => true
  | arm _ _ .missed => before
  | disarm => false

def outstanding (calls : List Call) : Bool := calls.foldl leaves false

@[simp] theorem outstanding_concat (calls : List Call) (call : Call) :
    outstanding (calls ++ [call]) = call.leaves (outstanding calls) := by
  simp [outstanding]

def Permitted (before : List Call) : Call → Prop
  | arm period delay _ => outstanding before = false ∧ delay.toNat ≤ period.toNat / 2
  | disarm => True

/-- Every call is permitted after the calls before it. -/
inductive Proper : List Call → Prop where
  | nil : Proper []
  | concat {calls : List Call} {call : Call} (h : Proper calls)
      (permitted : Permitted calls call) : Proper (calls ++ [call])

end Call

/-! ## Watching -/

structure Watched (σ : Type) where
  source : σ
  calls : List Call := []

def Watched.note (call : Call) (source : σ) (w : Watched σ) : Watched σ :=
  ⟨source, w.calls ++ [call]⟩

def Source.watched (S : Source σ) : Source (Watched σ) where
  rate := S.rate
  period w := S.period w.source
  reading w := S.reading w.source
  resolution w := S.resolution w.source
  arm base delay w := do
    let (answer, source) ← S.arm base delay w.source
    return (answer, w.note (.arm (S.period w.source) delay answer) source)
  disarm w := w.note .disarm (S.disarm w.source)
  acknowledge w := { w with source := S.acknowledge w.source }

/-- The environment acts on the source itself, and not on what was written down. -/
def Deed.Discreet : Deed (Watched σ) κ → Prop
  | act (.environment effect) => ∀ w w', effect w = .ok w' → w'.calls = w.calls
  | _ => True

open Call

namespace Schedule

variable {S : Source σ}

/-! ## The invariant -/

structure Tidy (s : Schedule (Watched σ)) : Prop where
  calls : Proper s.source.calls
  outstanding : outstanding s.source.calls = true ↔ s.phase = .armed

theorem Tidy.of_quiet {s : Schedule (Watched σ)} (calls : Proper s.source.calls)
    (quiet : Call.outstanding s.source.calls = false) (unarmed : s.phase ≠ .armed) : s.Tidy := by
  refine ⟨calls, ?_⟩
  simp [quiet, unarmed]

theorem Tidy.quiet {s : Schedule (Watched σ)} (tidy : s.Tidy) (unarmed : s.phase ≠ .armed) :
    Call.outstanding s.source.calls = false := by
  rw [← Bool.not_eq_true, tidy.outstanding]
  exact unarmed

private theorem tidy_of_disarmed {s : Schedule (Watched σ)} {w : Watched σ}
    (calls : Proper w.calls) (disarmed : s.source = S.watched.disarm w)
    (unarmed : s.phase ≠ .armed) : s.Tidy := by
  apply Tidy.of_quiet
  · rw [disarmed]
    exact .concat calls trivial
  · rw [disarmed]
    exact outstanding_concat _ _
  · exact unarmed

private theorem toNat_min_half_le (remaining period : UInt64) :
    (min remaining (period / 2)).toNat ≤ period.toNat / 2 := by
  rw [Word.toNat_min_half]
  exact Nat.min_le_right _ _

theorem Arms.tidy {base : UInt32} {remaining : UInt64} {s s' : Schedule (Watched σ)}
    (h : Arms S.watched base remaining s s') (tidy : s.Tidy) (unarmed : s.phase ≠ .armed) :
    s'.Tidy := by
  have quiet := tidy.quiet unarmed
  cases h with
  | short => exact ⟨tidy.calls, tidy.outstanding⟩
  | @armed source resolution covered owed eventAt _ _ arm =>
      obtain ⟨⟨answer, inner⟩, -, done⟩ := parts_of_bind arm
      cases done
      constructor
      · exact .concat tidy.calls ⟨quiet, toNat_min_half_le _ _⟩
      · simp [Watched.note, leaves]
  | @missed source resolution _ _ arm =>
      obtain ⟨⟨answer, inner⟩, -, done⟩ := parts_of_bind arm
      cases done
      have calls : Proper (s.source.calls ++
          [.arm (S.period s.source.source) (min remaining (s.period S.watched / 2)) .missed]) :=
        .concat tidy.calls ⟨quiet, toNat_min_half_le _ _⟩
      exact tidy_of_disarmed (S := S) (w := ⟨inner, _⟩) calls rfl unarmed

private theorem supersede_tidy {s : Schedule (Watched σ)} (tidy : s.Tidy) :
    (s.supersede S.watched).Tidy := by
  unfold supersede
  split
  next => exact tidy_of_disarmed (S := S) tidy.calls rfl Phase.noConfusion
  next unarmed => exact .of_quiet tidy.calls (tidy.quiet unarmed) unarmed

theorem Plans.tidy {delay : UInt32} {s s' : Schedule (Watched σ)}
    (h : Plans S.watched delay s s') (tidy : s.Tidy) : s'.Tidy := by
  have superseded := supersede_tidy (S := S) tidy
  have unarmed : (s.supersede S.watched).phase ≠ .armed := by simp [supersede_phase]
  cases h with
  | due => exact ⟨superseded.calls, superseded.outstanding⟩
  | ahead _ _ _ _ arms =>
      exact arms.tidy ⟨superseded.calls, superseded.outstanding⟩ unarmed

theorem Serves.tidy {due : Bool} {s s' : Schedule (Watched σ)}
    (h : Serves S.watched s due s') (tidy : s.Tidy) : s'.Tidy := by
  have spent : (s.spent S.watched).Tidy :=
    tidy_of_disarmed (S := S) (w := S.watched.acknowledge s.source) tidy.calls rfl
      Phase.noConfusion
  cases h with
  | spurious unarmed =>
      exact tidy_of_disarmed (S := S) (w := S.watched.acknowledge s.source) tidy.calls rfl
        unarmed
  | last => exact spent
  | passed => exact spent
  | onward _ _ _ _ _ arms =>
      have again := arms.tidy spent Phase.noConfusion
      exact ⟨again.calls, again.outstanding⟩

theorem tidy_kept : Kept S.watched (fun _ => True)
    (fun discreet a => discreet ∧ (Deed.act a : Deed (Watched σ) κ).Discreet)
    (fun discreet s => discreet → s.Tidy) where
  apply {discreet a s s'} _ kept h := by
    rintro ⟨earlier, now⟩
    have tidy := kept earlier
    cases a with
    | plan delay => exact (plans_of_plan S.watched h).tidy tidy
    | cancel =>
        cases h
        exact tidy_of_disarmed (S := S) tidy.calls rfl (withoutEvent_ne_armed _)
    | reset =>
        cases h
        exact tidy_of_disarmed (S := S) tidy.calls rfl (withoutEvent_ne_armed _)
    | clear =>
        cases h
        exact tidy_of_disarmed (S := S) tidy.calls rfl Phase.noConfusion
    | environment effect =>
        obtain ⟨source, effected, done⟩ := parts_of_bind h
        cases done
        have same := now _ _ effected
        constructor
        · rw [same]
          exact tidy.calls
        · rw [same]
          exact tidy.outstanding
  serve _ kept h discreet := (serves_of_serve S.watched h).tidy (kept discreet)
  takeDue kept discreet := ⟨(kept discreet).calls, (kept discreet).outstanding⟩
  enter {_ s} idle kept discreet := by
    have tidy := kept discreet
    have unarmed : s.phase ≠ .armed := idle ▸ Phase.noConfusion
    exact .of_quiet tidy.calls (tidy.quiet unarmed) Phase.noConfusion
  leave {_ s} kept discreet := by
    have tidy := kept discreet
    unfold leaveCallback
    split
    next running =>
      have unarmed : s.phase ≠ .armed := running ▸ Phase.noConfusion
      exact .of_quiet tidy.calls (tidy.quiet unarmed) Phase.noConfusion
    next => exact tidy

end Schedule

theorem discreet_of_history {history : List (Entry (Watched σ) κ)} {start : Prop} (h : start)
    (discreet : ∀ e ∈ history, e.deed.Discreet) :
    moveOn (fun i a => i ∧ (Deed.act a : Deed (Watched σ) κ).Discreet) start history :=
  moveOn_of_forall h fun e mem _ deed => deed ▸ discreet e mem

/-! ## Every run -/

/--
At every moment of every run over a source that starts disarmed, the calls so far are
proper, and an event is outstanding exactly if the schedule is armed.  A callback is
entered with nothing outstanding, and at rest no run is going on or owed.
-/
theorem calls_proper {S : Source σ} {m₀ m : Moment (Watched σ) κ}
    {history : List (Entry (Watched σ) κ)} (new : m₀.IsNew)
    (silent : m₀.schedule.source.calls = []) (runs : Runs S.watched m₀ history m)
    (discreet : ∀ e ∈ history, e.deed.Discreet) :
    Proper m.schedule.source.calls ∧
      (outstanding m.schedule.source.calls = true ↔ m.schedule.phase = .armed) ∧
      (∀ e, history.getLast? = some e → e.deed = .enter →
        m.schedule.phase = .running ∧ outstanding m.schedule.source.calls = false) ∧
      (∀ t, m = .rest t → t.schedule.phase ≠ .running ∧ t.schedule.due = false) := by
  have start : m₀.schedule.Tidy := by
    obtain ⟨source, fresh⟩ := new.schedule_eq
    rw [fresh] at silent ⊢
    apply Schedule.Tidy.of_quiet
    · rw [silent]
      exact .nil
    · rw [silent]
      rfl
    · exact Phase.noConfusion
  have tidy : m.schedule.Tidy := (Schedule.tidy_kept (S := S) (κ := κ)).runs (i := True) runs
    new.orderly (fun _ _ => trivial) (fun _ => start) (discreet_of_history trivial discreet)
  refine ⟨tidy.calls, tidy.outstanding, ?_, ?_⟩
  · intro e last enters
    cases runs with
    | start => cases last
    | step past h =>
        rw [List.getLast?_concat] at last
        cases last
        cases enters
        cases h with
        | enter c s => exact ⟨rfl, tidy.quiet Phase.noConfusion⟩
  · rintro t rfl
    obtain ⟨left, clear, -⟩ := runs.orderly new.orderly
    exact ⟨left, clear⟩

/-! ## A slot that is replaced -/

namespace Sample.Replaced

def idle : Schedule (Watched Clock) := { source := ⟨⟨10, 0, none⟩, []⟩ }

def callback : Callback (Watched Clock) Unit := ⟨(), fun _ _ => .finish ()⟩

def armed : Schedule (Watched Clock) :=
  { source := ⟨⟨13, 50, some 50⟩, [.arm 256 40 (.armed 40)]⟩
    anchor := 50, phase := .armed, eventAt := 50 }

def rearmed : Schedule (Watched Clock) :=
  { source := ⟨⟨16, 70, some 70⟩, armed.source.calls ++ [.disarm, .arm 256 57 (.armed 57)]⟩
    anchor := 70, phase := .armed, eventAt := 70 }

def later : Schedule (Watched Clock) := { rearmed with source.source.time := 71 }

def served : Schedule (Watched Clock) :=
  { source := ⟨⟨71, 70, none⟩, rearmed.source.calls ++ [.disarm]⟩, anchor := 70, eventAt := 70 }

def wait (w : Watched Clock) : Except Fault (Watched Clock) :=
  .ok { w with source.time := 71 }

def history : List (Entry (Watched Clock) Unit) :=
  [⟨.rest ⟨idle, none⟩, .setCallback callback⟩, ⟨.rest ⟨idle, some callback⟩, .act (.plan 50)⟩,
    ⟨.rest ⟨armed, some callback⟩, .act (.plan 20)⟩,
    ⟨.rest ⟨rearmed, some callback⟩, .act (.environment wait)⟩,
    ⟨.rest ⟨later, some callback⟩, .serve⟩, ⟨.due callback served, .enter⟩]

theorem runs : Runs source.watched (.rest ⟨idle, none⟩) history
    (.inside callback (.finish ()) served.enterCallback) := by
  have set : Step source.watched (.rest ⟨idle, none⟩) (.setCallback callback)
      (.rest ⟨idle, some callback⟩) := .setCallback _ _
  have plan : Step source.watched (.rest ⟨idle, some callback⟩) (.act (.plan 50))
      (.settle callback armed) := .plan rfl rfl
  have replan : Step source.watched (.rest ⟨armed, some callback⟩) (.act (.plan 20))
      (.settle callback rearmed) := .plan rfl rfl
  have pass : Step source.watched (.rest ⟨rearmed, some callback⟩) (.act (.environment wait))
      (.rest ⟨later, some callback⟩) := .environment rfl
  have serve : Step source.watched (.rest ⟨later, some callback⟩) .serve
      (.served (some callback) served true) := .serve rfl
  have enter : Step source.watched (.due callback served) .enter
      (.inside callback (.finish ()) served.enterCallback) := .enter callback served
  exact (Runs.single set).trans ((Runs.single plan).trans ((Runs.single replan).trans
    ((Runs.single pass).trans ((Runs.single serve).trans (.single enter)))))

theorem discreet : ∀ e ∈ history, e.deed.Discreet := by
  have pass : (Deed.act (.environment wait) : Deed (Watched Clock) Unit).Discreet := by
    rintro w w' ⟨⟩
    rfl
  simp only [history, List.forall_mem_cons]
  exact ⟨trivial, trivial, trivial, pass, trivial, trivial, List.forall_mem_nil _⟩

end Sample.Replaced

theorem calls_proper_when_replaced :
    Proper [.arm 256 40 (.armed 40), .disarm, .arm 256 57 (.armed 57), .disarm] ∧
      Sample.Replaced.served.enterCallback.phase = .running := by
  have new : (Moment.rest ⟨Sample.Replaced.idle, none⟩ : Moment (Watched Clock) Unit).IsNew :=
    ⟨_, rfl⟩
  obtain ⟨calls, -, entered, -⟩ :=
    calls_proper new rfl Sample.Replaced.runs Sample.Replaced.discreet
  exact ⟨calls, (entered _ rfl rfl).1⟩

end SlotClock
