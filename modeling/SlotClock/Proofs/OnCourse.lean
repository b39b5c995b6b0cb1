import SlotClock.Proofs.Chain

/-!
# Every slot of a chain runs on time

A schedule is on course if the event that it has armed, or the slot that is due,
belongs to the instant of the chain.  Every step of a chain keeps it on course, and
the lateness of one step is not part of what the next one starts from.

## Schedules on course
-/

namespace SlotClock

open Counter Clock

variable {κ : Type}

namespace Schedule

variable {rate : Rate} {top : UInt32} {latency : Nat}

/--
The armed event and what is owed after it add up to the instant of the chain, which
was still ahead when it was planned.  A slot that is due has passed its instant.
-/
structure OnCourse (rate : Rate) (top : UInt32) (chain : Chain) (s : Schedule Clock) : Prop where
  carry : s.carry = chain.carry
  carry_lt : s.carry.toNat < (Ratio.between rate Rate.reference).den.toNat
  anchor : Shows (top.toNat + 1) s.anchor chain.instant
  owed : s.phase = .armed → s.owed.toNat < 0x8000000000000000
  event : s.phase = .armed → chain.plannedAt < chain.instant ∧
    ∃ event, s.source.armed = some event ∧ Shows (top.toNat + 1) s.eventAt event ∧
      event + s.owed.toNat = chain.instant
  late : s.due = true → chain.instant ≤ s.source.time

theorem OnCourse.of_idle {chain : Chain} {s : Schedule Clock} (carry : s.carry = chain.carry)
    (carry_lt : s.carry.toNat < (Ratio.between rate Rate.reference).den.toNat)
    (anchor : Shows (top.toNat + 1) s.anchor chain.instant) (idle : s.phase ≠ .armed)
    (clear : s.due = false) : s.OnCourse rate top chain := by
  refine ⟨carry, carry_lt, anchor, fun armed => absurd armed idle,
    fun armed => absurd armed idle, ?_⟩
  intro due
  rw [clear] at due
  cases due

theorem OnCourse.congr {chain : Chain} {s s' : Schedule Clock} (on : s.OnCourse rate top chain)
    (carry : s'.carry = s.carry) (anchor : s'.anchor = s.anchor)
    (owed : s'.owed = s.owed)
    (event : s'.phase = .armed →
      s.phase = .armed ∧ s'.eventAt = s.eventAt ∧ s'.source.armed = s.source.armed)
    (due : s'.due = true → s.due = true) (time : s.source.time ≤ s'.source.time) :
    s'.OnCourse rate top chain where
  carry := carry.trans on.carry
  carry_lt := carry ▸ on.carry_lt
  anchor := anchor ▸ on.anchor
  owed armed := owed ▸ on.owed (event armed).1
  event armed := by
    obtain ⟨armed, eventAt, event⟩ := event armed
    rw [eventAt, event, owed]
    exact on.event armed
  late late := by
    have := on.late (due late)
    omega

theorem OnCourse.takeDue {chain : Chain} {s : Schedule Clock} (on : s.OnCourse rate top chain) :
    s.takeDue.2.OnCourse rate top chain :=
  on.congr rfl rfl rfl (fun armed => ⟨armed, rfl, rfl⟩) (fun due => by cases due) (Nat.le_refl _)

theorem OnCourse.enter {chain : Chain} {s : Schedule Clock} (on : s.OnCourse rate top chain) :
    s.enterCallback.OnCourse rate top chain :=
  on.congr rfl rfl rfl (fun armed => by cases armed) (fun due => due) (Nat.le_refl _)

theorem OnCourse.leave {chain : Chain} {s : Schedule Clock} (on : s.OnCourse rate top chain) :
    s.leaveCallback.OnCourse rate top chain := by
  unfold leaveCallback
  split
  next => exact on.congr rfl rfl rfl (fun armed => by cases armed) (fun due => due) (Nat.le_refl _)
  next => exact on

theorem OnCourse.waiting {chain : Chain} {s : Schedule Clock} {time : Nat}
    (on : s.OnCourse rate top chain) (le : s.source.time ≤ time) :
    OnCourse rate top chain { s with source.time := time } :=
  on.congr rfl rfl rfl (fun armed => ⟨armed, rfl, rfl⟩) (fun due => due) le

theorem OnCourse.armChunk {chain : Chain} {s : Schedule Clock} (on : s.OnCourse rate top chain)
    (quick : latency < (top.toNat + 1) / 2) (idle : s.phase ≠ .armed) (clear : s.due = false)
    (planned : chain.plannedAt < chain.instant) (ahead : s.source.time < chain.instant)
    (near : chain.instant - s.source.time < 0x8000000000000000) :
    ∃ s', s.armChunk (tickSource rate top latency) (readingAt (top.toNat + 1) s.source.time)
        (Word.ofSigned (chain.instant - s.source.time)) = .ok s' ∧ s'.OnCourse rate top chain ∧
      (s'.due = true ∨ s'.phase = .armed ∧ s'.due = false ∧
        s'.owed.toNat < chain.instant - s.source.time) := by
  have gap := Word.toNat_ofSigned (z := chain.instant - s.source.time) (by omega) (by omega)
  generalize Word.ofSigned (chain.instant - s.source.time) = remaining at gap ⊢
  refine ⟨_, armChunk_on_clock rate latency quick remaining (by omega), ?_⟩
  by_cases missed : remaining.toNat ≤ latency
  · rw [if_pos missed]
    refine ⟨⟨on.carry, on.carry_lt, on.anchor, fun armed => absurd armed idle, ?_, ?_⟩, .inl rfl⟩
    · intro armed
      exact absurd armed idle
    · intro _
      show chain.instant ≤ (s.source.time + latency : Nat)
      omega
  · rw [if_neg missed]
    have le : chunk top remaining.toNat ≤ remaining.toNat := Nat.min_le_left _ _
    have pos : 0 < chunk top remaining.toNat := by
      unfold chunk
      omega
    have word := Word.toNat_lt remaining
    have owed := Word.toNat_ofNat (n := remaining.toNat - chunk top remaining.toNat) (by omega)
    refine ⟨⟨on.carry, on.carry_lt, on.anchor, ?_, ?_, ?_⟩, .inr ⟨rfl, clear, ?_⟩⟩
    · intro _
      dsimp only
      omega
    · intro _
      refine ⟨planned, _, rfl, shows_readingAt top _, ?_⟩
      dsimp only
      omega
    · intro due
      rw [show s.due = true from due] at clear
      cases clear
    · dsimp only
      omega

theorem onCourse_of_plan {s : Schedule Clock} {delay : UInt32} {anchor : Int}
    (quick : latency < (top.toNat + 1) / 2)
    (carry_lt : s.carry.toNat < (Ratio.between rate Rate.reference).den.toNat)
    (shown : Shows (top.toNat + 1) s.anchor anchor)
    (lo : -((top.toNat + 1 : Nat) : Int) < 2 * (s.source.time - anchor))
    (hi : 2 * (s.source.time - anchor) ≤ (top.toNat + 1 : Nat))
    (positive : s.source.time < anchor →
      0 < (Ratio.between rate Rate.reference).ticks s.carry delay) :
    ∃ s', s.plan (tickSource rate top latency) delay = .ok s' ∧
      s'.OnCourse rate top
        ⟨anchor + (Ratio.between rate Rate.reference).ticks s.carry delay,
          UInt64.ofNat ((Ratio.between rate Rate.reference).left s.carry delay),
          s.source.time⟩ := by
  have top_lt := toNat_top_lt top
  have small := Ratio.ticks_lt rate carry_lt delay
  obtain ⟨s₁, carry, next, phase, clear, none, time, planned⟩ :=
    plan_on_clock rate latency delay carry_lt rfl shown lo hi
  have idle : s₁.phase ≠ .armed := phase ▸ withoutEvent_ne_armed _
  have on₁ : s₁.OnCourse rate top
      ⟨anchor + (Ratio.between rate Rate.reference).ticks s.carry delay,
        UInt64.ofNat ((Ratio.between rate Rate.reference).left s.carry delay),
        s.source.time⟩ := by
    refine .of_idle carry ?_ next idle clear
    rw [carry, Ratio.toNat_left _ _ carry_lt]
    exact Ratio.left_lt _ _ _ _
  rw [planned]
  by_cases arrived : (Ratio.between rate Rate.reference).ticks s.carry delay = 0 ∨
      anchor + (Ratio.between rate Rate.reference).ticks s.carry delay ≤ s.source.time
  · rw [if_pos arrived]
    refine ⟨_, rfl, on₁.carry, on₁.carry_lt, on₁.anchor, on₁.owed, on₁.event, ?_⟩
    intro _
    dsimp only
    omega
  · rw [if_neg arrived]
    obtain ⟨s', armed, on', -⟩ := on₁.armChunk quick idle clear
      (by dsimp only; omega) (by dsimp only; omega) (by dsimp only; omega)
    exact ⟨s', armed, on'⟩

theorem OnCourse.plan {chain : Chain} {m : Moment Clock κ} {delay : UInt32}
    (on : m.schedule.OnCourse rate top chain) (quick : latency < (top.toNat + 1) / 2)
    (allows : chain.Allows rate top ⟨m, .act (.plan delay)⟩) :
    ∃ s', m.schedule.plan (tickSource rate top latency) delay = .ok s' ∧
      s'.OnCourse rate top (chain.record rate ⟨m, .act (.plan delay)⟩) := by
  obtain ⟨-, lo, hi, positive⟩ := allows
  have carry_lt := on.carry ▸ on.carry_lt
  rw [Chain.record_plan m delay carry_lt] at positive ⊢
  dsimp only at lo hi positive
  rw [← on.carry] at positive ⊢
  exact onCourse_of_plan quick on.carry_lt on.anchor lo hi fun before => by
    have := positive before
    omega

theorem OnCourse.serve {chain : Chain} {s : Schedule Clock} (on : s.OnCourse rate top chain)
    (quick : latency < (top.toNat + 1) / 2) (clear : s.due = false)
    (punctual : ∀ event, s.source.armed = some event →
      event ≤ s.source.time ∧ s.source.time ≤ event + (top.toNat + 1) / 2) :
    ∃ due s', s.serve (tickSource rate top latency) = .ok (due, s') ∧
      s'.OnCourse rate top chain ∧ s'.due = false ∧
      (due = true → s.phase = .armed ∧ chain.instant ≤ s'.source.time) ∧
      (due = false → s.phase = .armed → s'.phase = .armed ∧ s'.owed.toNat < s.owed.toNat) := by
  by_cases armed : s.phase = .armed
  · obtain ⟨planned, event, comes, shown, target⟩ := on.event armed
    obtain ⟨lo, hi⟩ := punctual event comes
    have top_lt := toNat_top_lt top
    have owed := on.owed armed
    obtain ⟨s₁, carry, anchor, phase, due, none, time, served⟩ :=
      serve_on_clock rate latency armed shown (by omega) (by omega) owed (by omega)
    have idle : s₁.phase ≠ .armed := phase ▸ Phase.noConfusion
    have clear₁ : s₁.due = false := due.trans clear
    have on₁ : s₁.OnCourse rate top chain :=
      .of_idle (carry.trans on.carry) (carry ▸ on.carry_lt) (anchor ▸ on.anchor) idle clear₁
    rw [served]
    by_cases arrived : s.owed = 0 ∨ (event : Int) + s.owed.toNat ≤ s.source.time
    · rw [if_pos arrived]
      have passed : chain.instant ≤ s₁.source.time := by
        rcases arrived with whole | gone
        · have zero : s.owed.toNat = 0 := by simp [whole]
          omega
        · omega
      exact ⟨true, s₁, rfl, on₁, clear₁, fun _ => ⟨armed, passed⟩, fun no => by cases no⟩
    · -- What is left of the slot is measured to its instant, not from the event that was late.
      rw [if_neg arrived, target]
      obtain ⟨s', again, on', way⟩ := on₁.armChunk quick idle clear₁ planned (by omega) (by omega)
      refine ⟨s'.due, s'.takeDue.2, ?_, on'.takeDue, rfl, ?_, ?_⟩
      · rw [again]
        rfl
      · intro late
        exact ⟨armed, on'.late late⟩
      · intro early _
        rcases way with late | ⟨armed', -, less⟩
        · rw [early] at late
          cases late
        · refine ⟨armed', ?_⟩
          show s'.owed.toNat < _
          omega
  · refine ⟨false, _, serve_unarmed _ armed, ?_, clear, ?_, ?_⟩
    · exact on.congr rfl rfl rfl (fun armed' => absurd armed' armed) (fun due => due) (Nat.le_refl _)
    · intro due
      cases due
    · intro _ armed'
      exact absurd armed' armed

/-! ## How long a slot takes -/

/--
However late within `half` ticks each of its events is served, the slot is due after
at most `n` interrupts.
-/
def DueWithin (S : Source Clock) (half : Nat) : Nat → Schedule Clock → Prop
  | 0, _ => False
  | n + 1, s => ∀ time, s.source.time ≤ time →
      (∀ event, s.source.armed = some event → event ≤ time ∧ time ≤ event + half) →
      ∃ due s', Schedule.serve S { s with source.time := time } = .ok (due, s') ∧
        (due = true ∨ DueWithin S half n s')

theorem OnCourse.dueWithin {chain : Chain} {s : Schedule Clock} {n : Nat}
    (on : s.OnCourse rate top chain) (quick : latency < (top.toNat + 1) / 2)
    (clear : s.due = false) (armed : s.phase = .armed) (enough : s.owed.toNat < n) :
    DueWithin (tickSource rate top latency) ((top.toNat + 1) / 2) n s := by
  induction n generalizing s with
  | zero => omega
  | succ n ih =>
      intro time later punctual
      obtain ⟨due, s', served, on', clear', -, onward⟩ :=
        (on.waiting later).serve quick clear punctual
      refine ⟨due, s', served, ?_⟩
      cases due with
      | true => exact .inl rfl
      | false =>
          obtain ⟨armed', less⟩ := onward rfl armed
          exact .inr (ih on' clear' armed' (by dsimp only at less; omega))

end Schedule

/-! ## Steps -/

variable {rate : Rate} {top : UInt32} {latency : Nat}

open Schedule in
theorem Schedule.OnCourse.apply {chain : Chain} {m : Moment Clock κ} {a : Action Clock}
    {s' : Schedule Clock} (on : m.schedule.OnCourse rate top chain)
    (quick : latency < (top.toNat + 1) / 2) (allows : chain.Allows rate top ⟨m, .act a⟩)
    (h : a.apply (tickSource rate top latency) m.schedule = .ok s') :
    s'.OnCourse rate top (chain.record rate ⟨m, .act a⟩) := by
  cases a with
  | plan delay =>
      obtain ⟨s₁, planned, on₁⟩ := on.plan quick allows
      rw [Action.apply, planned] at h
      cases h
      exact on₁
  | cancel => cases allows
  | reset => cases allows
  | clear => cases allows
  | environment effect =>
      obtain ⟨ticks, rfl⟩ := allows
      cases h
      exact on.waiting (Nat.le_add_right _ _)

namespace Moment

structure OnCourse (rate : Rate) (top : UInt32) (chain : Chain) (m : Moment Clock κ) : Prop where
  schedule : m.schedule.OnCourse rate top chain
  run : ∀ c s, m = .due c s → chain.instant ≤ s.source.time

theorem OnCourse.settle {chain : Chain} {s : Schedule Clock} (on : s.OnCourse rate top chain)
    (c : Callback Clock κ) : (settle c s).OnCourse rate top chain := by
  constructor
  · rw [schedule_settle]
    exact on.takeDue
  · intro c' s' due
    obtain ⟨late, rfl⟩ := due_of_settle due
    exact on.late late

theorem OnCourse.step {chain : Chain} {m m' : Moment Clock κ} {deed : Deed Clock κ}
    (on : m.OnCourse rate top chain) (quick : latency < (top.toNat + 1) / 2)
    (h : Step (tickSource rate top latency) m deed m') (orderly : m.Orderly)
    (allows : chain.Allows rate top ⟨m, deed⟩) :
    m'.OnCourse rate top (chain.record rate ⟨m, deed⟩) := by
  cases h with
  | alone h => exact ⟨on.schedule.apply quick allows h, nofun⟩
  | setCallback t c => exact ⟨on.schedule, nofun⟩
  | refuse delay unset => exact ⟨on.schedule, nofun⟩
  | @plan t c delay s set h =>
      exact OnCourse.settle (on.schedule.apply (a := .plan delay) quick allows h) c
  | cancel => cases allows
  | reset => cases allows
  | clear => cases allows
  | environment h =>
      obtain ⟨ticks, rfl⟩ := allows
      cases h
      exact ⟨on.schedule.waiting (Nat.le_add_right _ _), nofun⟩
  | @serve t due s h =>
      obtain ⟨due', s', served, on', -, late, -⟩ := on.schedule.serve quick orderly.2.1 allows
      rw [schedule_rest, h] at served
      cases served
      constructor
      · rw [schedule_served]
        exact on'
      · intro c s' run
        obtain ⟨again, rfl⟩ := due_of_served run
        exact (late again).2
  | enter c s => exact ⟨on.schedule.enter, nofun⟩
  | inside h => exact ⟨on.schedule.apply quick allows h, nofun⟩
  | leave c state s => exact OnCourse.settle on.schedule.leave _

theorem OnCourse.served {chain : Chain} {t : Timer Clock κ} {s : Schedule Clock}
    (on : (rest t).OnCourse rate top chain) (quick : latency < (top.toNat + 1) / 2)
    (orderly : (rest t).Orderly) (allows : chain.Allows rate top ⟨rest t, .serve⟩)
    (h : t.schedule.serve (tickSource rate top latency) = .ok (true, s)) :
    ∃ event, t.schedule.source.armed = some event ∧
      event + t.schedule.owed.toNat = chain.instant := by
  obtain ⟨due, s', served, -, -, late, -⟩ := on.schedule.serve quick orderly.2.1 allows
  rw [schedule_rest, h] at served
  cases served
  obtain ⟨-, event, comes, -, target⟩ := on.schedule.event (late rfl).1
  exact ⟨event, comes, target⟩

theorem OnCourse.pending {chain : Chain} {t : Timer Clock κ}
    (on : (rest t).OnCourse rate top chain) (quick : latency < (top.toNat + 1) / 2)
    (orderly : (rest t).Orderly) (pends : t.schedule.pending = true) :
    t.callback.isSome ∧ chain.plannedAt < chain.instant ∧
      (∃ event, t.schedule.source.armed = some event ∧
        event + t.schedule.owed.toNat = chain.instant) ∧
      t.schedule.DueWithin (tickSource rate top latency) ((top.toNat + 1) / 2)
        (t.schedule.owed.toNat + 1) := by
  obtain ⟨-, clear, callback⟩ := orderly
  have armed : t.schedule.phase = .armed := by simpa [Schedule.pending, clear] using pends
  obtain ⟨planned, event, comes, -, target⟩ := on.schedule.event armed
  refine ⟨callback armed, planned, ⟨event, comes, target⟩, ?_⟩
  exact on.schedule.dueWithin quick clear armed (Nat.lt_succ_self _)

theorem OnCourse.runs {chain : Chain} {m₀ m : Moment Clock κ} {history : List (Entry Clock κ)}
    (on : m₀.OnCourse rate top chain) (quick : latency < (top.toNat + 1) / 2)
    (orderly : m₀.Orderly) (runs : Runs (tickSource rate top latency) m₀ history m)
    (keeps : chain.Keeps rate top history) : m.OnCourse rate top (chain.after rate history) := by
  induction runs with
  | start => exact on
  | @step history m₁ m₂ deed past h ih =>
      obtain ⟨earlier, allows⟩ := Chain.keeps_concat.mp keeps
      rw [Chain.after_concat]
      exact (ih earlier).step quick h (past.orderly orderly) allows

end Moment

/-! ## The promise of a chain -/

/--
What holds at every moment `m` of a chain, reached by `history` from a moment with the
past `before`.  The slot planned last is the one for which the callback is due, or
that is pending, if any is.
-/
structure Chain.KeepsTime (rate : Rate) (top : UInt32) (latency : Nat) (first : Int)
    (before history : List (Entry Clock κ)) (m : Moment Clock κ) (chain : Chain) : Prop where
  instant : chain.instant = first +
    ((booked (before ++ history) * rate.hertz.toNat / 32768 : Nat) -
      (booked before * rate.hertz.toNat / 32768 : Nat) : Int)
  once : accepted history = ran history + m.owes
  run : ∀ c s, m = .due c s → chain.instant ≤ s.source.time
  served : ∀ e, history.getLast? = some e → e.deed = .serve → (∃ c s, m = .due c s) →
    ∃ event, e.before.schedule.source.armed = some event ∧
      event + e.before.schedule.owed.toNat = chain.instant
  /--
  Only a slot that was planned before its instant outlives the call that planned it,
  and its events lead to that instant.
  -/
  pending : ∀ t, m = .rest t → t.schedule.pending = true →
    t.callback.isSome ∧ chain.plannedAt < chain.instant ∧
      (∃ event, t.schedule.source.armed = some event ∧
        event + t.schedule.owed.toNat = chain.instant) ∧
      t.schedule.DueWithin (tickSource rate top latency) ((top.toNat + 1) / 2)
        (t.schedule.owed.toNat + 1)
  plans : ∀ delay, chain.Allows rate top ⟨m, .act (.plan delay)⟩ →
    ∃ s, m.schedule.plan (tickSource rate top latency) delay = .ok s
  serves : ∀ t, m = .rest t → chain.Allows rate top ⟨m, .serve⟩ →
    ∃ due s, t.schedule.serve (tickSource rate top latency) = .ok (due, s)

theorem Chain.instant_of_start {t : Timer Clock κ} {first : Int}
    {before history : List (Entry Clock κ)}
    (books : t.schedule.Booked (tickSource rate top latency)
      (channel rate top latency).period.toNat (booked before))
    (keeps : (start first t.schedule).Keeps rate top history) :
    ((start first t.schedule).after rate history).instant = first +
      ((booked (before ++ history) * rate.hertz.toNat / 32768 : Nat) -
        (booked before * rate.hertz.toNat / 32768 : Nat) : Int) := by
  have sum := keeps.instant_eq books.carry
  have joined : booked (before ++ history) = moveOn book (booked before) history :=
    moveOn_append book 0 before history
  have begins : (start first t.schedule).instant = first := rfl
  rw [joined]
  omega

theorem Chain.start_onCourse {t : Timer Clock κ} {first : Int} {total : Nat}
    (books : t.schedule.Booked (tickSource rate top latency)
      (channel rate top latency).period.toNat total)
    (quiet : t.schedule.pending = false)
    (anchored : Shows (top.toNat + 1) t.schedule.anchor first) :
    (Moment.rest t).OnCourse rate top (start first t.schedule) := by
  obtain ⟨unarmed, clear⟩ := Schedule.pending_eq_false.mp quiet
  exact ⟨.of_idle rfl books.carry_lt anchored unarmed clear, nofun⟩

/--
A chain that begins in any reachable state with nothing pending keeps time, for every
period of at least two ticks, every rate, and every latency below half a period.
-/
theorem chain_keeps_time (quick : latency < (top.toNat + 1) / 2) {m₀ m : Moment Clock κ}
    {t : Timer Clock κ} {before history : List (Entry Clock κ)} {first : Int}
    (new : m₀.IsNew) (earlier : Runs (tickSource rate top latency) m₀ before (.rest t))
    (quiet : t.schedule.pending = false)
    (anchored : Shows (top.toNat + 1) t.schedule.anchor first)
    (runs : Runs (tickSource rate top latency) (.rest t) history m)
    (keeps : (Chain.start first t.schedule).Keeps rate top history) :
    Chain.KeepsTime rate top latency first before history m
      ((Chain.start first t.schedule).after rate history) := by
  have orderly := earlier.orderly new.orderly
  have fresh : m₀.schedule.Booked (tickSource rate top latency)
      (channel rate top latency).period.toNat 0 := by
    obtain ⟨source, same⟩ := new.schedule_eq
    rw [same]
    exact Schedule.booked_zero rfl rfl
  have books := (Schedule.booked_kept (keepsPeriod rate top latency) (period_pos rate top latency)
    (period_le rate top latency)).runs earlier new.orderly (fun _ _ => rfl) fresh
  have on := Chain.start_onCourse books quiet anchored
  have here := on.runs quick orderly runs keeps
  have now := runs.orderly orderly
  constructor
  case instant => exact Chain.instant_of_start books keeps
  case once =>
    have balance := runs.balance orderly
    have calm : (Moment.rest t).owes = 0 := by simp [quiet]
    have none := keeps.dropped_eq
    omega
  case run => exact here.run
  case served =>
    intro e last serves due
    cases runs with
    | start => cases last
    | @step past m₁ _ deed runs h =>
        rw [List.getLast?_concat] at last
        cases last
        cases serves
        obtain ⟨kept, allows⟩ := Chain.keeps_concat.mp keeps
        cases h with
        | @serve t₁ due' s h =>
            cases due' with
            | false =>
                obtain ⟨c, s', run⟩ := due
                cases run
            | true =>
                rw [Chain.after_concat]
                exact (on.runs quick orderly runs kept).served quick (runs.orderly orderly) allows h
  case pending =>
    intro t₁ rests pends
    subst rests
    exact here.pending quick now pends
  case plans =>
    intro delay allows
    obtain ⟨s, planned, -⟩ := here.schedule.plan quick allows
    exact ⟨s, planned⟩
  case serves =>
    intro t₁ rests allows
    subst rests
    obtain ⟨due, s, served, -⟩ := here.schedule.serve quick now.2.1 allows
    exact ⟨due, s, served⟩

namespace Sample.Relay

def callback : Callback Clock Unit := ⟨(), fun _ _ => .act (.plan 300) fun _ => .finish ()⟩

def first : Timer Clock Unit := ⟨ahead, some callback⟩

def onward : Timer Clock Unit := ⟨nearer, some callback⟩

def late : Schedule Clock := { source := ⟨310, 15, none⟩, anchor := 44, eventAt := 15 }

def second : Schedule Clock :=
  { source := ⟨313, 182, some 438⟩, anchor := 88, phase := .armed, eventAt := 182, owed := 162 }

def history : List (Entry Clock Unit) :=
  [⟨.rest ⟨idle, none⟩, .setCallback callback⟩, ⟨.rest ⟨idle, some callback⟩, .act (.plan 300)⟩,
    ⟨.rest first, .act (.environment (wait 130))⟩,
    ⟨.rest { first with schedule.source.time := 143 }, .serve⟩,
    ⟨.rest onward, .act (.environment (wait 164))⟩,
    ⟨.rest { onward with schedule.source.time := 310 }, .serve⟩, ⟨.due callback late, .enter⟩,
    ⟨.inside callback (callback.body () late.enterCallback) late.enterCallback, .act (.plan 300)⟩,
    ⟨.inside callback (.finish ()) second, .leave⟩]

theorem runs :
    Runs source (.rest ⟨idle, none⟩) history (.rest ⟨second, some callback⟩) := by
  have set : Step source (.rest ⟨idle, none⟩) (.setCallback callback)
      (.rest ⟨idle, some callback⟩) := .setCallback _ _
  have plan : Step source (.rest ⟨idle, some callback⟩) (.act (.plan 300))
      (.settle callback ahead) := .plan rfl plan_idle
  have wait : Step source (.rest first) (.act (.environment (wait 130)))
      (.rest { first with schedule.source.time := 143 }) := .environment rfl
  have serve : Step source (.rest { first with schedule.source.time := 143 }) .serve
      (.served (some callback) nearer false) := .serve serve_ahead
  have again : Step source (.rest onward) (.act (.environment (Clock.wait 164)))
      (.rest { onward with schedule.source.time := 310 }) := .environment rfl
  have expire : Step source (.rest { onward with schedule.source.time := 310 }) .serve
      (.served (some callback) late true) := .serve rfl
  have enter : Step source (.due callback late) .enter (.inside callback
      (callback.body () late.enterCallback) late.enterCallback) := .enter _ _
  have inside : Step source (.inside callback (callback.body () late.enterCallback)
      late.enterCallback) (.act (.plan 300)) (.inside callback (.finish ()) second) := .inside rfl
  have leave : Step source (.inside callback (.finish ()) second) .leave
      (.settle callback second) := .leave callback () second
  exact (Runs.single set).trans ((Runs.single plan).trans ((Runs.single wait).trans
    ((Runs.single serve).trans ((Runs.single again).trans ((Runs.single expire).trans
    ((Runs.single enter).trans ((Runs.single inside).trans (.single leave))))))))

end Sample.Relay

open Sample.Relay in
/--
On an 8-bit counter the second slot is aimed at 600, though the first one was served
late twice.
-/
theorem chain_keeps_time_sample :
    Chain.KeepsTime .reference 0xFF 3 0 [] history (.rest ⟨second, some callback⟩)
      ⟨600, 0, 310⟩ := by
  have keeps : (Chain.start 0 Sample.idle).Keeps .reference 0xFF history := by
    refine ⟨trivial, ⟨rfl, by decide, by decide, by decide⟩, ⟨130, rfl⟩, ?_, ⟨164, rfl⟩, ?_,
      trivial, ⟨rfl, by decide, by decide, by decide⟩, trivial, trivial⟩
    · rintro _ ⟨⟩
      decide
    · rintro _ ⟨⟩
      decide
  exact chain_keeps_time (by decide) Sample.isNew .start rfl rfl runs keeps

end SlotClock
