import SlotClock.Proofs.OnCourse

/-!
# Slots whose events are served on time

Where writing a compare value takes no time and every event is served when it comes, a
slot leaves no doubt about when its callback runs.  Each event is armed ahead of the
time it is for, the chunks add up, and the last event comes at the goal.

## Schedules on time
-/

namespace SlotClock

open Counter Clock

variable {κ : Type} {rate : Rate} {top : UInt32} {goal : Int}

namespace Schedule

/--
The armed event is still to come, and what is owed after it leads to the goal.  A slot
that is due has reached it.
-/
structure OnTime (top : UInt32) (goal : Int) (s : Schedule Clock) : Prop where
  armed : s.phase = .armed → s.owed.toNat < 0x8000000000000000 ∧
    ∃ event, s.source.armed = some event ∧ s.source.time ≤ event ∧
      Shows (top.toNat + 1) s.eventAt event ∧ event + s.owed.toNat = goal
  due : s.due = true → s.source.time = goal

theorem OnTime.of_quiet {s : Schedule Clock} (unarmed : s.phase ≠ .armed) (clear : s.due = false) :
    s.OnTime top goal := by
  refine ⟨fun armed => absurd armed unarmed, fun due => ?_⟩
  rw [clear] at due
  cases due

theorem OnTime.takeDue {s : Schedule Clock} (on : s.OnTime top goal) :
    s.takeDue.2.OnTime top goal :=
  ⟨on.armed, nofun⟩

theorem OnTime.leave {s : Schedule Clock} (on : s.OnTime top goal) :
    s.leaveCallback.OnTime top goal := by
  unfold leaveCallback
  split
  · exact ⟨nofun, on.due⟩
  · exact on

theorem OnTime.waiting {s : Schedule Clock} (on : s.OnTime top goal) (ticks : Nat)
    (calm : s.due = true → ticks = 0)
    (soon : ∀ event, s.source.armed = some event → s.source.time + ticks ≤ event) :
    OnTime top goal { s with source.time := s.source.time + ticks } := by
  constructor
  · intro armed
    obtain ⟨owed, event, comes, -, shown, target⟩ := on.armed armed
    exact ⟨owed, event, comes, soon event comes, shown, target⟩
  · intro due
    rw [calm due]
    exact on.due due

private theorem armChunk_on_time (rate : Rate) (goal : Int) {s : Schedule Clock}
    (two : 2 ≤ top.toNat + 1) (clear : s.due = false) (ahead : s.source.time < goal)
    (near : goal - s.source.time < 0x8000000000000000) :
    ∃ s', s.armChunk (tickSource rate top 0) (readingAt (top.toNat + 1) s.source.time)
        (Word.ofSigned (goal - s.source.time)) = .ok s' ∧ s'.OnTime top goal ∧
      s'.phase = .armed ∧ s'.due = false ∧
      (s'.owed.toNat : Int) = goal - s.source.time - chunk top (goal - s.source.time).toNat := by
  have gap := Word.toNat_ofSigned (z := goal - s.source.time) (by omega) (by omega)
  have whole : (goal - s.source.time).toNat = (Word.ofSigned (goal - s.source.time)).toNat := by
    omega
  rw [whole]
  generalize Word.ofSigned (goal - s.source.time) = remaining at gap ⊢
  have le : chunk top remaining.toNat ≤ remaining.toNat := Nat.min_le_left _ _
  have word := Word.toNat_lt remaining
  have owed := Word.toNat_ofNat (n := remaining.toNat - chunk top remaining.toNat) (by omega)
  refine ⟨_, armChunk_on_clock rate 0 (by omega) remaining (by omega), ?_⟩
  rw [if_neg (by omega)]
  refine ⟨⟨fun _ => ⟨?_, _, rfl, Nat.le_add_right _ _, shows_readingAt top _, ?_⟩, ?_⟩, rfl,
    clear, ?_⟩
  · dsimp only
    omega
  · dsimp only
    omega
  · intro due
    rw [show s.due = true from due] at clear
    cases clear
  · dsimp only
    omega

theorem onTime_of_plan {s : Schedule Clock} {delay : UInt32} {anchor : Int} {span : Nat}
    (two : 2 ≤ top.toNat + 1)
    (carry_lt : s.carry.toNat < (Ratio.between rate Rate.reference).den.toNat)
    (ticks : (Ratio.between rate Rate.reference).ticks s.carry delay = span) (pos : 0 < span)
    (shown : Shows (top.toNat + 1) s.anchor anchor)
    (lo : -((top.toNat + 1 : Nat) : Int) < 2 * (s.source.time - anchor))
    (hi : 2 * (s.source.time - anchor) ≤ (top.toNat + 1 : Nat)) :
    ∃ s', s.plan (tickSource rate top 0) delay = .ok s' ∧
      s'.OnTime top (max s.source.time (anchor + span)) := by
  have top_lt := toNat_top_lt top
  have small := ticks ▸ Ratio.ticks_lt rate carry_lt delay
  obtain ⟨s₁, -, -, phase, clear, -, time, planned⟩ :=
    plan_on_clock rate 0 delay carry_lt ticks shown lo hi
  have unarmed : s₁.phase ≠ .armed := phase ▸ withoutEvent_ne_armed _
  rw [planned]
  by_cases arrived : anchor + span ≤ s.source.time
  · rw [if_pos (.inr arrived)]
    refine ⟨_, rfl, fun armed => absurd armed unarmed, fun _ => ?_⟩
    dsimp only
    omega
  · rw [if_neg (by omega)]
    obtain ⟨s', armed, on, -⟩ := armChunk_on_time rate (anchor + span) two clear
      (by omega) (by omega)
    refine ⟨s', armed, ?_⟩
    rwa [Int.max_eq_right (by omega)]

inductive ServedOnTime (top : UInt32) (goal : Int) (s : Schedule Clock) :
    Except Fault (Bool × Schedule Clock) → Prop where
  | last {s' : Schedule Clock} (whole : s.owed.toNat = 0) (here : s.source.time = goal)
      (idle : s'.phase = .idle) (clear : s'.due = false) (time : s'.source.time = s.source.time) :
      ServedOnTime top goal s (.ok (true, s'))
  | more {s' : Schedule Clock} (part : 0 < s.owed.toNat) (on : s'.OnTime top goal)
      (armed : s'.phase = .armed) (clear : s'.due = false)
      (rest : s'.owed.toNat = s.owed.toNat - chunk top s.owed.toNat) :
      ServedOnTime top goal s (.ok (false, s'))

theorem OnTime.serve (rate : Rate) {s : Schedule Clock} (on : s.OnTime top goal)
    (two : 2 ≤ top.toNat + 1) (armed : s.phase = .armed) (clear : s.due = false)
    (now : s.source.armed = some s.source.time) :
    ServedOnTime top goal s (s.serve (tickSource rate top 0)) := by
  have top_lt := toNat_top_lt top
  obtain ⟨small, event, comes, -, shown, target⟩ := on.armed armed
  obtain rfl : s.source.time = event := Option.some.inj (now.symm.trans comes)
  obtain ⟨s₁, -, -, phase, due, -, time, served⟩ :=
    serve_on_clock rate 0 armed shown (by omega) (by omega) small (by omega)
  have clear₁ : s₁.due = false := due.trans clear
  rw [served]
  rcases Nat.eq_zero_or_pos s.owed.toNat with none | some
  · have whole : s.owed = 0 := UInt64.toNat_inj.mp none
    rw [if_pos (.inl whole)]
    exact .last none (by omega) phase clear₁ time
  · have part : s.owed ≠ 0 := Word.ne_zero_of_pos some
    rw [if_neg (not_or.mpr ⟨part, by omega⟩), target]
    obtain ⟨s', again, on', armed', clear', rest⟩ := armChunk_on_time rate goal two clear₁
      (by omega) (by omega)
    have early : s'.takeDue = (false, s'.takeDue.2) := by
      rw [← clear']
      rfl
    have left : (goal - s₁.source.time).toNat = s.owed.toNat := by omega
    have le : chunk top s.owed.toNat ≤ s.owed.toNat := Nat.min_le_left _ _
    rw [left] at rest
    simp only [again, bind, Except.bind, pure, Except.pure]
    rw [early]
    refine .more some on'.takeDue armed' rfl ?_
    show s'.owed.toNat = _
    omega

/-! ## How many events a slot takes -/

/-- If all are served on time, the `n`-th event comes at the goal and makes the slot due. -/
def DueAt (S : Source Clock) (goal : Int) : Nat → Schedule Clock → Prop
  | 0, _ => False
  | n + 1, s => ∃ event, s.source.armed = some event ∧ s.source.time ≤ event ∧
      ((n = 0 ∧ event = goal ∧
          ∃ s', Schedule.serve S { s with source.time := event } = .ok (true, s')) ∨
        ∃ s', Schedule.serve S { s with source.time := event } = .ok (false, s') ∧
          DueAt S goal n s')

private theorem OnTime.coming {s : Schedule Clock} (on : s.OnTime top goal)
    (armed : s.phase = .armed)
    (clear : s.due = false) :
    ∃ event, s.source.armed = some event ∧ s.source.time ≤ event ∧
      OnTime top goal { s with source.time := event } := by
  obtain ⟨-, event, comes, le, -⟩ := on.armed armed
  obtain ⟨ticks, rfl⟩ := Nat.exists_eq_add_of_le le
  refine ⟨_, comes, le, on.waiting ticks ?_ ?_⟩
  · intro due
    rw [clear] at due
    cases due
  · intro event same
    rw [comes] at same
    cases same
    exact Nat.le_refl _

theorem OnTime.dueAt {s : Schedule Clock} {n : Nat} (on : s.OnTime top goal)
    (two : 2 ≤ top.toNat + 1) (armed : s.phase = .armed) (clear : s.due = false)
    (enough : s.owed.toNat ≤ n * ((top.toNat + 1) / 2))
    (least : n * ((top.toNat + 1) / 2) < s.owed.toNat + (top.toNat + 1) / 2) :
    s.DueAt (tickSource rate top 0) goal (n + 1) := by
  induction n generalizing s with
  | zero =>
      obtain ⟨event, comes, le, now⟩ := on.coming armed clear
      have served := now.serve rate two armed clear comes
      generalize outcome : Schedule.serve _ _ = result at served
      cases served with
      | @last s' whole here => exact ⟨event, comes, le, .inl ⟨rfl, here, s', outcome⟩⟩
      | more part =>
          dsimp only at part
          omega
  | succ n ih =>
      rw [Nat.succ_mul] at enough least
      obtain ⟨event, comes, le, now⟩ := on.coming armed clear
      have served := now.serve rate two armed clear comes
      generalize outcome : Schedule.serve _ _ = result at served
      cases served with
      | last whole =>
          dsimp only at whole
          omega
      | @more s' part on' armed' clear' rest =>
          dsimp only [chunk] at rest
          refine ⟨event, comes, le, .inr ⟨s', outcome, ih on' armed' clear' (by omega) ?_⟩⟩
          rcases Nat.le_total s.owed.toNat ((top.toNat + 1) / 2) with last | more
          · have none : n = 0 := by
              rcases Nat.eq_zero_or_pos n with none | some
              · exact none
              · have := Nat.le_mul_of_pos_left ((top.toNat + 1) / 2) some
                omega
            subst none
            omega
          · omega

theorem OnTime.dueAt_some {s : Schedule Clock} (on : s.OnTime top goal) (two : 2 ≤ top.toNat + 1)
    (armed : s.phase = .armed) (clear : s.due = false) :
    ∃ n, s.DueAt (tickSource rate top 0) goal n := by
  have half : 0 < (top.toNat + 1) / 2 := by omega
  refine ⟨_, on.dueAt (n := (s.owed.toNat + ((top.toNat + 1) / 2 - 1)) / ((top.toNat + 1) / 2))
    two armed clear ?_ ?_⟩
  · have := Nat.lt_div_mul_add (a := s.owed.toNat + ((top.toNat + 1) / 2 - 1)) half
    omega
  · have := Nat.div_mul_le_self (s.owed.toNat + ((top.toNat + 1) / 2 - 1)) ((top.toNat + 1) / 2)
    omega

end Schedule

/-! ## Runs -/

/--
Nothing happens but that time passes and events are served.  No event is let go by
before it is served, and no time passes while a slot is due.
-/
def Entry.OnTime (e : Entry Clock κ) : Prop :=
  let s := e.before.schedule
  match e.deed with
  | .act (.environment effect) => ∃ ticks, effect = wait ticks ∧ (s.due = true → ticks = 0) ∧
      ∀ event, s.source.armed = some event → s.source.time + ticks ≤ event
  | .act _ => False
  | .serve => ∀ event, s.source.armed = some event → event = s.source.time
  | _ => True

open Schedule in
theorem Schedule.OnTime.apply {m : Moment Clock κ} {a : Action Clock} {s' : Schedule Clock}
    (on : m.schedule.OnTime top goal) (prompt : (Entry.mk m (.act a)).OnTime)
    (h : a.apply (tickSource rate top 0) m.schedule = .ok s') : s'.OnTime top goal := by
  cases a with
  | plan delay => cases prompt
  | cancel => cases prompt
  | reset => cases prompt
  | clear => cases prompt
  | environment effect =>
      obtain ⟨ticks, rfl, calm, soon⟩ := prompt
      cases h
      exact on.waiting ticks calm soon

namespace Moment

structure OnTime (top : UInt32) (goal : Int) (m : Moment Clock κ) : Prop where
  schedule : m.schedule.OnTime top goal
  run : ∀ c s, m = .due c s → s.source.time = goal

theorem OnTime.settle {s : Schedule Clock} (on : s.OnTime top goal) (c : Callback Clock κ) :
    (settle c s).OnTime top goal := by
  constructor
  · rw [schedule_settle]
    exact on.takeDue
  · intro c' s' due
    obtain ⟨late, rfl⟩ := due_of_settle due
    exact on.due late

theorem OnTime.served {t : Timer Clock κ} {due : Bool} {s : Schedule Clock}
    (on : (rest t).OnTime top goal) (two : 2 ≤ top.toNat + 1) (clear : t.schedule.due = false)
    (prompt : (Entry.mk (rest t) .serve).OnTime)
    (h : t.schedule.serve (tickSource rate top 0) = .ok (due, s)) :
    (served t.callback s due).OnTime top goal := by
  by_cases armed : t.schedule.phase = .armed
  · obtain ⟨-, event, comes, -⟩ := on.schedule.armed armed
    have now : t.schedule.source.armed = some t.schedule.source.time := prompt event comes ▸ comes
    have outcome := on.schedule.serve rate two armed clear now
    rw [schedule_rest, h] at outcome
    constructor
    · rw [schedule_served]
      cases outcome with
      | last _ _ idle clear' => exact .of_quiet (idle ▸ Phase.noConfusion) clear'
      | more _ on' => exact on'
    · intro c s' run
      obtain ⟨rfl, rfl⟩ := due_of_served run
      cases outcome with
      | last _ here _ _ time => omega
  · rw [Schedule.serve_unarmed _ armed] at h
    cases h
    exact ⟨.of_quiet armed clear, nofun⟩

theorem OnTime.step {m m' : Moment Clock κ} {deed : Deed Clock κ} (on : m.OnTime top goal)
    (two : 2 ≤ top.toNat + 1) (h : Step (tickSource rate top 0) m deed m') (orderly : m.Orderly)
    (prompt : (Entry.mk m deed).OnTime) : m'.OnTime top goal := by
  cases h with
  | alone h => exact ⟨on.schedule.apply prompt h, nofun⟩
  | setCallback t c => exact ⟨on.schedule, nofun⟩
  | refuse delay unset => exact ⟨on.schedule, nofun⟩
  | plan => cases prompt
  | cancel => cases prompt
  | reset => cases prompt
  | clear => cases prompt
  | environment h =>
      obtain ⟨ticks, rfl, calm, soon⟩ := prompt
      cases h
      exact ⟨on.schedule.waiting ticks calm soon, nofun⟩
  | serve h => exact on.served two orderly.2.1 prompt h
  | enter c s => exact ⟨⟨nofun, on.schedule.due⟩, nofun⟩
  | inside h => exact ⟨on.schedule.apply prompt h, nofun⟩
  | leave c state s => exact .settle on.schedule.leave _

theorem OnTime.enters {m m' : Moment Clock κ} (on : m.OnTime top goal)
    (h : Step (tickSource rate top 0) m .enter m') : m.schedule.source.time = goal := by
  cases h with
  | enter c s => exact on.run c s rfl

theorem OnTime.runs {m m' : Moment Clock κ} {history : List (Entry Clock κ)}
    (on : m.OnTime top goal) (two : 2 ≤ top.toNat + 1)
    (runs : Runs (tickSource rate top 0) m history m') (orderly : m.Orderly)
    (prompt : ∀ e ∈ history, e.OnTime) :
    m'.OnTime top goal ∧
      ∀ e ∈ history, e.deed = .enter → e.before.schedule.source.time = goal := by
  induction runs with
  | start => exact ⟨on, by simp⟩
  | @step history m₁ m₂ deed past h ih =>
      obtain ⟨on₁, earlier⟩ := ih fun e mem => prompt e (List.mem_append_left _ mem)
      refine ⟨on₁.step two h (past.orderly orderly) (prompt ⟨m₁, deed⟩ (by simp)), ?_⟩
      intro e mem enters
      rcases List.mem_append.mp mem with mem | mem
      · exact earlier e mem enters
      · cases List.mem_singleton.mp mem
        cases enters
        exact on₁.enters h

theorem OnTime.pending {t : Timer Clock κ} (on : (rest t).OnTime top goal)
    (two : 2 ≤ top.toNat + 1) (orderly : (rest t).Orderly) (pends : t.schedule.pending = true) :
    t.callback.isSome ∧ ∃ n, t.schedule.DueAt (tickSource rate top 0) goal n := by
  obtain ⟨-, clear, callback⟩ := orderly
  have armed : t.schedule.phase = .armed := by simpa [Schedule.pending, clear] using pends
  exact ⟨callback armed, on.schedule.dueAt_some two armed clear⟩

end Moment

end SlotClock
