import SlotClock.Proofs.OnTime

/-!
# A slot that takes the place of another

A slot can be planned while the one before it is still awaited.  It is counted from the
instant of that slot, which is the anchor, although the slot itself is given up.  The
anchor lies ahead then, and a reading shows it only while it is less than half a period
away; of an instant further ahead the plan sees another one, whole periods earlier.

## The slot that is given up
-/

namespace SlotClock

open Counter Clock

variable {κ : Type} {rate : Rate} {top : UInt32}

/--
At the moment `m` a slot is awaited that was planned within half a period of its anchor
and lies at `instant`.  Since then, in `history`, every event was served on time.
-/
inductive Awaited (rate : Rate) (top : UInt32) :
    (instant : Int) → (history : List (Entry Clock κ)) → (m : Moment Clock κ) → Prop where
  | mk {m₀ m₁ m₂ m : Moment Clock κ} {before history : List (Entry Clock κ)} {delay : UInt32}
      {anchor : Int} {span carry : UInt64} (new : m₀.IsNew)
      (past : Runs (tickSource rate top 0) m₀ before m₁)
      (shown : Shows (top.toNat + 1) m₁.schedule.anchor anchor)
      (lo : -((top.toNat + 1 : Nat) : Int) < 2 * (m₁.schedule.source.time - anchor))
      (hi : 2 * (m₁.schedule.source.time - anchor) ≤ (top.toNat + 1 : Nat))
      (converted : (Ratio.between rate Rate.reference).nativeOfDelay m₁.schedule.carry delay =
        .ok (span, carry))
      (planned : Step (tickSource rate top 0) m₁ (.act (.plan delay)) m₂)
      (pending : m₂.schedule.phase = .armed)
      (later : Runs (tickSource rate top 0) m₂ history m)
      (prompt : ∀ e ∈ history, e.OnTime) :
      Awaited rate top (anchor + span.toNat) history m

theorem Entry.OnTime.allows (rate : Rate) (top : UInt32) {e : Entry Clock κ} (prompt : e.OnTime)
    (chain : Chain) :
    chain.Allows rate top e ∧ chain.record rate e = chain := by
  obtain ⟨m, deed⟩ := e
  cases deed with
  | act a =>
      cases a with
      | plan delay => cases prompt
      | cancel => cases prompt
      | reset => cases prompt
      | clear => cases prompt
      | environment effect =>
          obtain ⟨ticks, same, -⟩ := prompt
          exact ⟨⟨ticks, same⟩, rfl⟩
  | refuse => exact ⟨trivial, rfl⟩
  | setCallback => exact ⟨trivial, rfl⟩
  | serve =>
      refine ⟨fun event comes => ?_, rfl⟩
      have now : event = m.schedule.source.time := prompt event comes
      dsimp only
      omega
  | enter => exact ⟨trivial, rfl⟩
  | leave => exact ⟨trivial, rfl⟩

theorem keeps_of_onTime (rate : Rate) (top : UInt32) {history : List (Entry Clock κ)}
    (prompt : ∀ e ∈ history, e.OnTime) (chain : Chain) :
    chain.Keeps rate top history ∧ chain.after rate history = chain := by
  induction history with
  | nil => exact ⟨trivial, rfl⟩
  | cons e rest ih =>
      obtain ⟨allows, same⟩ := (prompt e List.mem_cons_self).allows rate top chain
      obtain ⟨keeps, after⟩ := ih fun e mem => prompt e (List.mem_cons_of_mem _ mem)
      refine ⟨⟨allows, ?_⟩, ?_⟩
      · rwa [same]
      · rwa [Chain.after_cons, same]

theorem Moment.OnCourse.on_time {chain : Chain} {m m' : Moment Clock κ}
    {history : List (Entry Clock κ)} (on : m.OnCourse rate top chain) (two : 2 ≤ top.toNat + 1)
    (orderly : m.Orderly) (runs : Runs (tickSource rate top 0) m history m')
    (prompt : ∀ e ∈ history, e.OnTime) : m'.schedule.OnCourse rate top chain := by
  obtain ⟨keeps, after⟩ := keeps_of_onTime rate top prompt chain
  have here := on.runs (by omega) orderly runs keeps
  rw [after] at here
  exact here.schedule

theorem Runs.balance_on_time {S : Source Clock} {m m' : Moment Clock κ}
    {history : List (Entry Clock κ)} (runs : Runs S m history m') (orderly : m.Orderly)
    (prompt : ∀ e ∈ history, e.OnTime) : ran history + m'.owes = m.owes := by
  have balance := runs.balance orderly
  have dropped := (keeps_of_onTime .reference 0 prompt ⟨0, 0, 0⟩).1.dropped_eq
  have accepted : accepted history = 0 := by
    refine List.countP_eq_zero.mpr fun e mem accepts => ?_
    obtain ⟨m, deed⟩ := e
    have none := prompt _ mem
    cases deed with
    | act a =>
        cases a with
        | plan delay => cases none
        | _ => cases accepts
    | _ => cases accepts
  omega

private theorem Moment.owes_of_armed {σ : Type} {m : Moment σ κ}
    (armed : m.schedule.phase = .armed) :
    m.owes = 1 := by
  have pending := Schedule.pending_of_armed armed
  cases m with
  | due c s => rfl
  | _ => exact congrArg Bool.toNat pending

private theorem ticks_pos_of_armed {s s' : Schedule Clock} {delay : UInt32} {anchor : Int}
    (carry_lt : s.carry.toNat < (Ratio.between rate Rate.reference).den.toNat)
    (shown : Shows (top.toNat + 1) s.anchor anchor)
    (lo : -((top.toNat + 1 : Nat) : Int) < 2 * (s.source.time - anchor))
    (hi : 2 * (s.source.time - anchor) ≤ (top.toNat + 1 : Nat))
    (planned : s.plan (tickSource rate top 0) delay = .ok s') (armed : s'.phase = .armed) :
    0 < (Ratio.between rate Rate.reference).ticks s.carry delay := by
  refine Nat.pos_of_ne_zero fun none => ?_
  obtain ⟨s₁, -, -, phase, -, -, -, again⟩ :=
    Schedule.plan_on_clock rate 0 delay carry_lt none shown lo hi
  rw [if_pos (.inl rfl)] at again
  cases planned.symm.trans again
  exact absurd (phase ▸ armed) (Schedule.withoutEvent_ne_armed _)

theorem Step.schedule_of_plan {σ : Type} {S : Source σ} {m m' : Moment σ κ} {delay : UInt32}
    (h : Step S m (.act (.plan delay)) m') :
    ∃ s, m.schedule.plan S delay = .ok s ∧
      (m'.schedule = s ∧ (∀ c s', m' ≠ .due c s') ∨ ∃ c, m' = .settle c s) := by
  cases h with
  | alone h => exact ⟨_, h, .inl ⟨rfl, nofun⟩⟩
  | plan set h => exact ⟨_, h, .inr ⟨_, rfl⟩⟩
  | inside h => exact ⟨_, h, .inl ⟨rfl, nofun⟩⟩

theorem Step.onCourse_of_plan {chain : Chain} {m m' : Moment Clock κ} {delay : UInt32}
    {s : Schedule Clock} (h : Step (tickSource rate top 0) m (.act (.plan delay)) m')
    (planned : m.schedule.plan (tickSource rate top 0) delay = .ok s)
    (on : s.OnCourse rate top chain) : m'.OnCourse rate top chain := by
  obtain ⟨s', again, same⟩ := h.schedule_of_plan
  cases planned.symm.trans again
  rcases same with ⟨rfl, none⟩ | ⟨c, rfl⟩
  · exact ⟨on, fun c s due => absurd due (none c s)⟩
  · exact .settle on c

theorem Step.onTime_of_plan {goal : Int} {m m' : Moment Clock κ} {delay : UInt32}
    {s : Schedule Clock} (h : Step (tickSource rate top 0) m (.act (.plan delay)) m')
    (planned : m.schedule.plan (tickSource rate top 0) delay = .ok s) (on : s.OnTime top goal) :
    m'.OnTime top goal := by
  obtain ⟨s', again, same⟩ := h.schedule_of_plan
  cases planned.symm.trans again
  rcases same with ⟨rfl, none⟩ | ⟨c, rfl⟩
  · exact ⟨on, fun c s due => absurd due (none c s)⟩
  · exact .settle on c

theorem onCourse_of_awaited {instant : Int} {history : List (Entry Clock κ)} {m : Moment Clock κ}
    (slot : Awaited rate top instant history m) (two : 2 ≤ top.toNat + 1) :
    m.Orderly ∧ ran history + m.owes = 1 ∧
      ∃ chain : Chain, chain.instant = instant ∧ m.schedule.OnCourse rate top chain := by
  obtain ⟨new, past, shown, lo, hi, converted, planned, pending, later, prompt⟩ := slot
  rename_i m₀ m₁ m₂ before delay anchor span carry
  have orderly := past.orderly new.orderly
  have orderly₂ := (planned.balance orderly).1
  have fresh : m₀.schedule.Booked (tickSource rate top 0) (channel rate top 0).period.toNat 0 := by
    obtain ⟨source, same⟩ := new.schedule_eq
    rw [same]
    exact Schedule.booked_zero rfl rfl
  have books := (Schedule.booked_kept (keepsPeriod rate top 0) (period_pos rate top 0)
    (period_le rate top 0)).runs past new.orderly (fun _ _ => rfl) fresh
  have carry_lt : m₁.schedule.carry.toNat < (Ratio.between rate Rate.reference).den.toNat :=
    books.carry_lt
  obtain ⟨s, made, same⟩ := planned.schedule_of_plan
  have armed : s.phase = .armed := by
    rcases same with ⟨rfl, -⟩ | ⟨c, rfl⟩
    · exact pending
    · simpa [Schedule.takeDue] using pending
  have ahead := ticks_pos_of_armed carry_lt shown lo hi made armed
  obtain ⟨s', again, on⟩ := Schedule.onCourse_of_plan (show 0 < (top.toNat + 1) / 2 by omega)
    carry_lt shown lo hi fun _ => ahead
  cases made.symm.trans again
  obtain ⟨exact, -⟩ := Ratio.of_nativeOfDelay _ _ carry_lt converted
  have on₂ := planned.onCourse_of_plan made on
  refine ⟨later.orderly orderly₂, ?_, _, ?_, on₂.on_time two orderly₂ later prompt⟩
  · rw [later.balance_on_time orderly₂ prompt, planned.owes_of_plan orderly]
  · rw [exact]

/-! ## The slot that takes its place -/

/-- The instant that a plan made at `now` sees in an anchor for `instant`. -/
def seen (top : UInt32) (instant : Int) (now : Nat) : Int :=
  now - centred (top.toNat + 1) (now - instant)

private theorem seen_window (top : UInt32) (instant : Int) (now : Nat) :
    -((top.toNat + 1 : Nat) : Int) < 2 * (now - seen top instant now) ∧
      2 * (now - seen top instant now) ≤ (top.toNat + 1 : Nat) := by
  have window := centred_window (p := top.toNat + 1) (by omega) (now - instant)
  unfold seen
  omega

/-- When a slot runs that is planned at `now`, `span` ticks from an anchor for `instant`. -/
def runsAt (top : UInt32) (instant : Int) (span now : Nat) : Int :=
  max now (seen top instant now + span)

private theorem runsAt_of_near {instant : Int} {span now : Nat} (ahead : now < instant)
    (near : 2 * (instant - now) < (top.toNat + 1 : Nat)) :
    runsAt top instant span now = instant + span := by
  rw [runsAt, seen, centred_of_window (by omega) (by omega)]
  omega

private theorem runsAt_lt_of_far {instant : Int} {span now : Nat} (ahead : now < instant)
    (far : (top.toNat + 1 : Nat) ≤ 2 * (instant - now)) :
    runsAt top instant span now < instant + span := by
  have window := seen_window top instant now
  unfold runsAt
  omega

private theorem shows_seen {r : UInt32} {instant : Int} (shown : Shows (top.toNat + 1) r instant)
    (now : Nat) : Shows (top.toNat + 1) r (seen top instant now) := by
  unfold Shows seen at *
  rw [shown, Int.sub_emod, centred_emod, ← Int.sub_emod]
  congr 1
  omega

/--
The slot of which another one takes the place never runs.  The new one runs exactly
once, at its goal, if all events are served on time.  The goal is the instant of the
slot before it plus its own delay exactly if that instant was less than half a period
away; otherwise it comes earlier.
-/
theorem replaced_slot_on_time (two : 2 ≤ top.toNat + 1) {instant : Int}
    {history : List (Entry Clock κ)} {m : Moment Clock κ}
    (slot : Awaited rate top instant history m) (armed : m.schedule.phase = .armed)
    (ahead : m.schedule.source.time < instant) {delay : UInt32} {span carry : UInt64}
    (converted : (Ratio.between rate Rate.reference).nativeOfDelay m.schedule.carry delay =
      .ok (span, carry)) (pos : 0 < span.toNat) :
    let S := tickSource rate top 0
    let now := m.schedule.source.time
    let goal := runsAt top instant span.toNat now
    ran history = 0 ∧
      (2 * (instant - now) < (top.toNat + 1 : Nat) → goal = instant + span.toNat) ∧
      ((top.toNat + 1 : Nat) ≤ 2 * (instant - now) → goal < instant + span.toNat) ∧
      (∃ s, m.schedule.plan S delay = .ok s) ∧
      ∀ m₁ later m₂, Step S m (.act (.plan delay)) m₁ → Runs S m₁ later m₂ →
        (∀ e ∈ later, e.OnTime) →
        ran later + m₂.owes = 1 ∧
          (∀ e ∈ later, e.deed = .enter → (e.before.schedule.source.time : Int) = goal) ∧
          ∀ t, m₂ = .rest t → t.schedule.pending = true →
            t.callback.isSome ∧ ∃ n, t.schedule.DueAt S goal n := by
  intro S now goal
  obtain ⟨orderly, once, chain, rfl, on⟩ := onCourse_of_awaited slot two
  have owed := Moment.owes_of_armed armed
  obtain ⟨exact, -⟩ := Ratio.of_nativeOfDelay _ _ on.carry_lt converted
  obtain ⟨lo, hi⟩ := seen_window top chain.instant now
  obtain ⟨s, planned, there⟩ := Schedule.onTime_of_plan two on.carry_lt exact.symm pos
    (shows_seen on.anchor now) lo hi
  refine ⟨by omega, runsAt_of_near ahead, runsAt_lt_of_far ahead, ⟨s, planned⟩, ?_⟩
  · intro m₁ later m₂ step runs prompt
    have orderly₁ := (step.balance orderly).1
    obtain ⟨on, enters⟩ := (step.onTime_of_plan planned there).runs two runs orderly₁ prompt
    refine ⟨?_, enters, ?_⟩
    · rw [runs.balance_on_time orderly₁ prompt, step.owes_of_plan orderly]
    · rintro t rfl pends
      exact on.pending two (runs.orderly orderly₁) pends

/-! ## A slot that is put off -/

namespace Sample.Postponed

def source : Source Clock := tickSource .reference 0xFF 0

def ahead : Schedule Clock :=
  { source := ⟨10, 138, some 138⟩, anchor := 44, phase := .armed, eventAt := 138, owed := 162 }

def nearer : Schedule Clock :=
  { source := ⟨138, 10, some 266⟩, anchor := 44, phase := .armed, eventAt := 10, owed := 34 }

def replaced : Schedule Clock :=
  { source := ⟨200, 72, some 328⟩, anchor := 104, phase := .armed, eventAt := 72, owed := 32 }

def last : Schedule Clock :=
  { source := ⟨328, 104, some 360⟩, anchor := 104, phase := .armed, eventAt := 104 }

def arrived : Schedule Clock := { source := ⟨360, 104, none⟩, anchor := 104, eventAt := 104 }

def before : List (Entry Clock Unit) :=
  [⟨.rest ⟨ahead, some callback⟩, .act (.environment (wait 128))⟩,
    ⟨.rest ⟨{ ahead with source.time := 138 }, some callback⟩, .serve⟩,
    ⟨.rest ⟨nearer, some callback⟩, .act (.environment (wait 62))⟩]

def after : List (Entry Clock Unit) :=
  [⟨.rest ⟨replaced, some callback⟩, .act (.environment (wait 128))⟩,
    ⟨.rest ⟨{ replaced with source.time := 328 }, some callback⟩, .serve⟩,
    ⟨.rest ⟨last, some callback⟩, .act (.environment (wait 32))⟩,
    ⟨.rest ⟨{ last with source.time := 360 }, some callback⟩, .serve⟩,
    ⟨.due callback arrived, .enter⟩]

theorem runs_before : Runs source (.rest ⟨ahead, some callback⟩) before
    (.rest ⟨{ nearer with source.time := 200 }, some callback⟩) := by
  have pass : Step source (.rest ⟨ahead, some callback⟩) (.act (.environment (wait 128)))
      (.rest ⟨{ ahead with source.time := 138 }, some callback⟩) := .environment rfl
  have serve : Step source (.rest ⟨{ ahead with source.time := 138 }, some callback⟩) .serve
      (.served (some callback) nearer false) := .serve rfl
  have pass' : Step source (.rest ⟨nearer, some callback⟩) (.act (.environment (wait 62)))
      (.rest ⟨{ nearer with source.time := 200 }, some callback⟩) := .environment rfl
  exact (Runs.single pass).trans ((Runs.single serve).trans (.single pass'))

theorem runs_after : Runs source (.rest ⟨replaced, some callback⟩) after
    (.inside callback (.finish ()) arrived.enterCallback) := by
  have pass : Step source (.rest ⟨replaced, some callback⟩) (.act (.environment (wait 128)))
      (.rest ⟨{ replaced with source.time := 328 }, some callback⟩) := .environment rfl
  have serve : Step source (.rest ⟨{ replaced with source.time := 328 }, some callback⟩) .serve
      (.served (some callback) last false) := .serve rfl
  have pass' : Step source (.rest ⟨last, some callback⟩) (.act (.environment (wait 32)))
      (.rest ⟨{ last with source.time := 360 }, some callback⟩) := .environment rfl
  have serve' : Step source (.rest ⟨{ last with source.time := 360 }, some callback⟩) .serve
      (.served (some callback) arrived true) := .serve rfl
  have enter : Step source (.due callback arrived) .enter
      (.inside callback (.finish ()) arrived.enterCallback) := .enter callback arrived
  exact (Runs.single pass).trans ((Runs.single serve).trans ((Runs.single pass').trans
    ((Runs.single serve').trans (.single enter))))

private theorem onTime_wait (t : Timer Clock Unit) (ticks : Nat) {event : Nat}
    (comes : t.schedule.source.armed = some event) (clear : t.schedule.due = false)
    (before : t.schedule.source.time + ticks ≤ event) :
    (Entry.mk (.rest t) (.act (.environment (wait ticks)))).OnTime := by
  refine ⟨ticks, rfl, fun due => ?_, fun event' comes' => ?_⟩
  · cases clear.symm.trans due
  · cases comes.symm.trans comes'
    exact before

private theorem onTime_serve (t : Timer Clock Unit)
    (comes : t.schedule.source.armed = some t.schedule.source.time) :
    (Entry.mk (.rest t) .serve).OnTime := by
  intro event comes'
  cases comes.symm.trans comes'
  rfl

theorem prompt_before : ∀ e ∈ before, e.OnTime := by
  have half := onTime_wait ⟨ahead, some callback⟩ 128 rfl rfl (by decide)
  have serve := onTime_serve ⟨{ ahead with source.time := 138 }, some callback⟩ rfl
  have rest := onTime_wait ⟨nearer, some callback⟩ 62 rfl rfl (by decide)
  simp only [before, List.forall_mem_cons]
  exact ⟨half, serve, rest, List.forall_mem_nil _⟩

theorem prompt_after : ∀ e ∈ after, e.OnTime := by
  have half := onTime_wait ⟨replaced, some callback⟩ 128 rfl rfl (by decide)
  have serve := onTime_serve ⟨{ replaced with source.time := 328 }, some callback⟩ rfl
  have rest := onTime_wait ⟨last, some callback⟩ 32 rfl rfl (by decide)
  have arrive := onTime_serve ⟨{ last with source.time := 360 }, some callback⟩ rfl
  simp only [after, List.forall_mem_cons]
  exact ⟨half, serve, rest, arrive, trivial, List.forall_mem_nil _⟩

theorem awaited : Awaited .reference 0xFF ((0 : Int) + (300 : UInt64).toNat) before
    (.rest ⟨{ nearer with source.time := 200 }, some callback⟩) := by
  have set : Step source (.rest ⟨idle, none⟩) (.setCallback callback)
      (.rest ⟨idle, some callback⟩) := .setCallback _ _
  have plan : Step source (.rest ⟨idle, some callback⟩) (.act (.plan 300))
      (.settle callback ahead) := .plan rfl rfl
  exact .mk isNew (Runs.single set) rfl (by decide) (by decide) rfl plan rfl runs_before
    prompt_before

end Sample.Postponed

open Sample.Postponed in
theorem replaced_slot_on_time_sample :
    ran before = 0 ∧ ran after = 1 ∧
      ∀ e ∈ after, e.deed = .enter → (e.before.schedule.source.time : Int) = 360 := by
  have plan : Step source (.rest ⟨{ nearer with source.time := 200 }, some Sample.callback⟩)
      (.act (.plan 60)) (.settle Sample.callback replaced) := .plan rfl rfl
  have converted : (Ratio.between .reference Rate.reference).nativeOfDelay nearer.carry 60 =
      .ok (60, 0) := rfl
  obtain ⟨given, near, -, -, runs⟩ := replaced_slot_on_time (by decide) awaited rfl (by decide)
    converted (by decide)
  obtain ⟨once, time, -⟩ := runs _ _ _ plan runs_after prompt_after
  exact ⟨given, once, fun e mem enters => (time e mem enters).trans (near (by decide))⟩

/-! ## An instant that is not seen -/

namespace Sample.FarAhead

def source : Source Clock := tickSource .reference 0xFFFF 0

def idle : Schedule Clock := { source := { time := 0 } }

def ahead : Schedule Clock :=
  { source := ⟨0, 32768, some 32768⟩, anchor := 40000, phase := .armed, eventAt := 32768
    owed := 7232 }

def early : Schedule Clock :=
  { source := ⟨0, 32768, none⟩, anchor := 40100, eventAt := 32768 }

end Sample.FarAhead

open Sample.FarAhead in
/-- A slot at 40000 is put off by 100 at the time 0, and runs at once instead of at 40100. -/
theorem runs_at_once_when_replaced :
    Awaited .reference 0xFFFF ((0 : Int) + (40000 : UInt64).toNat) []
        (.rest ⟨ahead, some Sample.callback⟩) ∧
      ahead.phase = .armed ∧ ahead.source.time < 40000 ∧
      (Ratio.between .reference Rate.reference).nativeOfDelay ahead.carry 100 = .ok (100, 0) ∧
      Step source (.rest ⟨ahead, some Sample.callback⟩) (.act (.plan 100))
        (.due Sample.callback early) ∧
      Runs source (.due Sample.callback early) [⟨.due Sample.callback early, .enter⟩]
        (.inside Sample.callback (.finish ()) early.enterCallback) ∧
      early.source.time = 0 := by
  have set : Step source (.rest ⟨idle, none⟩) (.setCallback Sample.callback)
      (.rest ⟨idle, some Sample.callback⟩) := .setCallback _ _
  have plan : Step source (.rest ⟨idle, some Sample.callback⟩) (.act (.plan 40000))
      (.settle Sample.callback ahead) := .plan rfl rfl
  have again : Step source (.rest ⟨ahead, some Sample.callback⟩) (.act (.plan 100))
      (.due Sample.callback early) := .plan (s := { early with due := true }) rfl rfl
  have new : (Moment.rest ⟨idle, none⟩ : Moment Clock Unit).IsNew := ⟨_, rfl⟩
  refine ⟨?_, rfl, by decide, rfl, again, .single (.enter _ _), rfl⟩
  exact .mk new (Runs.single set) rfl (by decide) (by decide) rfl plan rfl .start
    fun _ mem => absurd mem List.not_mem_nil

end SlotClock
