import SlotClock.Proofs.Contained
import SlotClock.Proofs.Simulation

/-!
# Runs that cannot be told apart

A source may have states that its schedule cannot tell apart, such as registers that
differ in a flag nobody reads.  If neither the callbacks nor what else happens to the
source can tell them apart either, every step that a timer takes from one of them it
takes from the other as well, and it comes to schedules that again differ in nothing
but the source.

## Callbacks that cannot tell
-/

namespace SlotClock

variable {σ κ : Type} {S : Source σ}

section

variable (like : σ → σ → Prop)

/-- What happens to the source is the same for states that are alike. -/
def Blind (effect : σ → Except Fault σ) : Prop :=
  ∀ x y, like x y → Agree like (effect x) (effect y)

inductive Program.Alike : Program σ κ → Program σ κ → Prop where
  | finish (state : κ) : Alike (.finish state) (.finish state)
  | fail (cause : Fault) : Alike (.fail cause) (.fail cause)
  | act (a : Action σ) {next next' : Schedule σ → Program σ κ}
      (h : ∀ s s', Schedule.Alike like s s' → Alike (next s) (next' s')) :
      Alike (.act a next) (.act a next')

def Callback.Blind (c : Callback σ κ) : Prop :=
  ∀ state s s', Schedule.Alike like s s' → Program.Alike like (c.body state s) (c.body state s')

def Deed.Blind : Deed σ κ → Prop
  | act a => a.Tended (SlotClock.Blind like)
  | setCallback c => c.Blind like
  | _ => True

inductive Moment.Alike : Moment σ κ → Moment σ κ → Prop where
  | unset {s s' : Schedule σ} (h : Schedule.Alike like s s') :
      Alike (.rest ⟨s, none⟩) (.rest ⟨s', none⟩)
  | set {c : Callback σ κ} {s s' : Schedule σ} (blind : c.Blind like)
      (h : Schedule.Alike like s s') : Alike (.rest ⟨s, some c⟩) (.rest ⟨s', some c⟩)
  | due {c : Callback σ κ} {s s' : Schedule σ} (blind : c.Blind like)
      (h : Schedule.Alike like s s') : Alike (.due c s) (.due c s')
  | inside {c : Callback σ κ} {p p' : Program σ κ} {s s' : Schedule σ} (blind : c.Blind like)
      (same : Program.Alike like p p') (h : Schedule.Alike like s s') :
      Alike (.inside c p s) (.inside c p' s')

end

variable {like : σ → σ → Prop}

namespace Moment.Alike

theorem schedule {m n : Moment σ κ} (h : Alike like m n) :
    Schedule.Alike like m.schedule n.schedule := by
  cases h with
  | unset h => exact h
  | set _ h => exact h
  | due _ h => exact h
  | inside _ _ h => exact h

theorem timer_of_rest {t : Timer σ κ} {n : Moment σ κ} (h : Alike like (.rest t) n) :
    ∃ t', n = .rest t' := by
  cases h with
  | unset => exact ⟨_, rfl⟩
  | set => exact ⟨_, rfl⟩

theorem withSchedule {t t' : Timer σ κ} {s s' : Schedule σ} (h : Alike like (.rest t) (.rest t'))
    (alike : Schedule.Alike like s s') :
    Alike like (.rest { t with schedule := s }) (.rest { t' with schedule := s' }) := by
  cases h with
  | unset => exact .unset alike
  | set blind => exact .set blind alike

theorem settle {c : Callback σ κ} {s s' : Schedule σ} (blind : c.Blind like)
    (h : Schedule.Alike like s s') : Alike like (Moment.settle c s) (Moment.settle c s') := by
  by_cases late : s.due = true
  · rw [settle_of_due c late, settle_of_due c (h.due ▸ late)]
    exact .due blind h.takeDue
  · rw [settle_of_clear c late, settle_of_clear c (h.due ▸ late)]
    exact .set blind h.takeDue

theorem served {t t' : Timer σ κ} {s s' : Schedule σ} (h : Alike like (.rest t) (.rest t'))
    (alike : Schedule.Alike like s s') (due : Bool) :
    Alike like (Moment.served t.callback s due) (Moment.served t'.callback s' due) := by
  cases h with
  | unset => cases due <;> exact .unset alike
  | set blind =>
      cases due with
      | false => exact .set blind alike
      | true => exact .due blind alike

end Moment.Alike

/--
The moments are alike, and nothing that is done next tells them apart: it fails for the
same cause, or it answers the same and leaves them alike.
-/
structure Moment.Indistinct (S : Source σ) (like : σ → σ → Prop) (m n : Moment σ κ) : Prop where
  alike : m.Alike like n
  apply (a : Action σ) : a.Tended (Blind like) →
    Agree (Schedule.Alike like) (a.apply S m.schedule) (a.apply S n.schedule)
  serve : Agree (fun a b => a.1 = b.1 ∧ Schedule.Alike like a.2 b.2) (m.schedule.serve S)
    (n.schedule.serve S)

/-! ## Steps -/

section

variable (sim : S.Simulates S (fun _ _ => True) like)

include sim

theorem Schedule.apply_alike {a : Action σ} {s s' : Schedule σ} (h : Alike like s s')
    (blind : a.Tended (Blind like)) : Agree (Alike like) (a.apply S s) (a.apply S s') := by
  have both : Agree (Alike (Source.Next (fun _ _ => True) like s.source)) (a.apply S s)
      (a.apply S s') := by
    cases a with
    | plan delay => exact plan_agree sim h delay
    | cancel => exact .ok (cancel_alike sim h).next
    | reset => exact .ok (reset_alike sim h).next
    | clear => exact .ok (clear_alike sim h).next
    | environment effect =>
        exact (blind _ _ h.source).bind fun x y same => .ok (h.withSource fun _ => same)
  exact both.mono fun _ _ _ next => next.resume trivial

theorem Schedule.serve_alike {s s' : Schedule σ} (h : Alike like s s') :
    Agree (fun a b => a.1 = b.1 ∧ Alike like a.2 b.2) (s.serve S) (s'.serve S) :=
  (serve_agree sim h).mono fun _ _ _ both => ⟨both.1, both.2.resume trivial⟩

theorem Step.alike {m m' n : Moment σ κ} {deed : Deed σ κ} (h : Step S m deed m')
    (alike : m.Alike like n) (blind : deed.Blind like) :
    ∃ n', Step S n deed n' ∧ m'.Alike like n' := by
  cases h with
  | alone => cases alike
  | setCallback t c =>
      obtain ⟨t', rfl⟩ := alike.timer_of_rest
      exact ⟨_, .setCallback t' c, .set blind alike.schedule⟩
  | refuse delay unset =>
      cases alike with
      | unset h => exact ⟨_, .refuse delay rfl, .unset h⟩
      | set => cases unset
  | plan set planned =>
      cases alike with
      | unset => cases set
      | set same h =>
          cases set
          obtain ⟨s', planned', h'⟩ :=
            (Schedule.apply_alike sim h (a := .plan _) trivial).of_ok planned
          exact ⟨_, .plan rfl planned', .settle same h'⟩
  | cancel t =>
      obtain ⟨t', rfl⟩ := alike.timer_of_rest
      exact ⟨_, .cancel t', alike.withSchedule (Schedule.cancel_alike sim alike.schedule)⟩
  | reset t =>
      obtain ⟨t', rfl⟩ := alike.timer_of_rest
      exact ⟨_, .reset t', alike.withSchedule (Schedule.reset_alike sim alike.schedule)⟩
  | clear t =>
      obtain ⟨t', rfl⟩ := alike.timer_of_rest
      exact ⟨_, .clear t', .unset (Schedule.clear_alike sim alike.schedule)⟩
  | @environment t _ effect effected =>
      obtain ⟨t', rfl⟩ := alike.timer_of_rest
      obtain ⟨x, returned, done⟩ := parts_of_bind effected
      cases done
      have sources : like t.schedule.source t'.schedule.source := alike.schedule.source
      obtain ⟨y, returned', same⟩ := (blind _ _ sources).of_ok returned
      have effected' : t'.onSource effect = .ok { t' with schedule.source := y } := by
        rw [Timer.onSource, returned']
        rfl
      exact ⟨_, .environment effected', alike.withSchedule (alike.schedule.withSource same)⟩
  | serve answer =>
      obtain ⟨t', rfl⟩ := alike.timer_of_rest
      obtain ⟨⟨due, s'⟩, answer', rfl, same⟩ :=
        (Schedule.serve_alike sim alike.schedule).of_ok answer
      exact ⟨_, .serve answer', alike.served same _⟩
  | enter c s =>
      cases alike with
      | due same h => exact ⟨_, .enter c _, .inside same (same _ _ _ h.enter) h.enter⟩
  | inside applied =>
      cases alike with
      | inside same programs h =>
          cases programs with
          | act a next =>
              obtain ⟨s', applied', h'⟩ := (Schedule.apply_alike sim h blind).of_ok applied
              exact ⟨_, .inside applied', .inside same (next _ _ h') h'⟩
  | leave c state s =>
      cases alike with
      | inside same programs h =>
          cases programs with
          | finish => exact ⟨_, .leave c state _, .settle same h.leave⟩

theorem Moment.Alike.indistinct {m n : Moment σ κ} (h : m.Alike like n) :
    m.Indistinct S like n :=
  ⟨h, fun _ blind => Schedule.apply_alike sim h.schedule blind,
    Schedule.serve_alike sim h.schedule⟩

end

end SlotClock
