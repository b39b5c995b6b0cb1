import SlotClock.Proofs.TimedHost

/-!
# No slot runs before its instant

A slot that is planned within half a period of its anchor has an instant in absolute
time.  While its events are served no later than half a period after they came, every
chunk of it is measured to that instant, and the callback is not due before it.

This needs a latency below half a period.  A chunk of half a period is missed by a
latency just as long, and a chunk that is missed makes the slot due, whatever is owed
after it.

## Chunks
-/

namespace SlotClock

open Counter

variable {σ κ : Type} {H : Host σ} {p start latency : Nat} {fit : σ → Prop}

namespace Schedule

inductive Chunks (H : Host σ) (p start latency : Nat) (fit : σ → Prop) (remaining : Nat)
    (s : Schedule σ) : Schedule σ → Prop where
  | none (arrived : remaining = 0) : Chunks H p start latency fit remaining s { s with due := true }
  | armed {x : σ} {eventAt : UInt32} {owed : UInt64}
      (event : H.armed x = some (H.time s.source + min remaining (p / 2)))
      (shown : Shows p eventAt ((H.time s.source : Int) + min remaining (p / 2) - start))
      (rest : owed.toNat + min remaining (p / 2) = remaining)
      (fits : H.lawful s.source x = true → fit x) :
      Chunks H p start latency fit remaining s
        { s with source := x, eventAt := eventAt, owed := owed, phase := .armed }
  | missed {x : σ} (gone : min remaining (p / 2) ≤ latency)
      (time : H.time x = H.time s.source + latency)
      (fits : H.lawful s.source x = true → fit x) :
      Chunks H p start latency fit remaining s { s with source := x, due := true }

theorem Arms.chunks {remaining : UInt64} {s s' : Schedule σ}
    (h : Arms H.source (s.reading H.source) remaining s s') (timed : H.Timed p start latency fit)
    (fits : fit s.source) : Chunks H p start latency fit remaining.toNat s s' := by
  have two := timed.two
  have le := timed.le
  have period : (s.period H.source).toNat = p := timed.period fits
  have size : (min remaining (s.period H.source / 2)).toNat = min remaining.toNat (p / 2) := by
    rw [Word.toNat_min_half, period]
  have one : (1 : UInt64).toNat = 1 := rfl
  cases h with
  | short below lt =>
      rw [timed.resolution] at below
      cases below
      rw [UInt64.lt_iff_toNat_lt] at lt
      exact .none (by omega)
  | @armed x resolution covered owed eventAt reached enough arm event rest =>
      rw [timed.resolution] at reached
      cases reached
      rw [UInt64.le_iff_toNat_le] at enough
      obtain ⟨next, answered, arms⟩ := timed.arm fits
        (show 0 < (min remaining (s.period H.source / 2)).toNat by omega) (by omega)
      cases answered.symm.trans arm
      cases arms with
      | armed ahead comes fits' =>
          obtain ⟨covers, left⟩ := Word.toNat_of_sub_ok rest
          have shown := Shows.advance (p := s.period H.source) (by omega) (by omega)
            (by rw [period]; exact timed.shows fits) event
          rw [period, size] at shown
          rw [size] at comes left covers
          refine .armed comes ?_ (by omega) fits'
          rw [show (H.time s.source : Int) + (min remaining.toNat (p / 2) : Nat) - start =
            (H.time s.source - start) + (min remaining.toNat (p / 2) : Nat) by omega]
          exact shown
  | @missed x resolution reached enough arm =>
      rw [timed.resolution] at reached
      cases reached
      rw [UInt64.le_iff_toNat_le] at enough
      obtain ⟨next, answered, arms⟩ := timed.arm fits
        (show 0 < (min remaining (s.period H.source / 2)).toNat by omega) (by omega)
      cases answered.symm.trans arm
      cases arms with
      | missed gone time fits' =>
          rw [size] at gone
          exact .missed gone ((timed.time_disarm x).trans time) fits'

theorem Chunks.stays {remaining : Nat} {s s' : Schedule σ}
    (h : Chunks H p start latency fit remaining s s') (fits : fit s.source)
    (lawful : H.lawful s.source s'.source = true) : fit s'.source := by
  cases h with
  | none => exact fits
  | armed _ _ _ fits' => exact fits' lawful
  | missed _ _ fits' => exact fits' lawful

private theorem Chunks.carry_eq {remaining : Nat} {s s' : Schedule σ}
    (h : Chunks H p start latency fit remaining s s') : s'.carry = s.carry := by
  cases h <;> rfl

/-! ## Sound schedules -/

structure Sound (H : Host σ) (fit : σ → Prop) (s : Schedule σ) : Prop where
  source : fit s.source
  carry : s.carry.toNat < (ratio H.source).den.toNat

theorem Sound.leave {s : Schedule σ} (sound : s.Sound H fit) : s.leaveCallback.Sound H fit := by
  unfold leaveCallback
  split
  · exact ⟨sound.source, sound.carry⟩
  · exact sound

private theorem supersede_source (S : Source σ) (s : Schedule σ) :
    (s.supersede S).source = S.disarm s.source ∨ (s.supersede S).source = s.source := by
  unfold supersede
  split
  · exact .inl rfl
  · exact .inr rfl

section

variable (timed : H.Timed p start latency fit) {s s' : Schedule σ}

include timed

theorem fit_supersede (fits : fit s.source) : fit (s.supersede H.source).source := by
  rcases supersede_source H.source s with same | same
  · exact same ▸ timed.disarm fits
  · exact same ▸ fits

private theorem time_supersede (s : Schedule σ) :
    H.time (s.supersede H.source).source = H.time s.source := by
  rcases supersede_source H.source s with same | same
  · exact same ▸ timed.time_disarm _
  · exact same ▸ rfl

private theorem lawful_of_supersede {x : σ} (lawful : H.lawful s.source x = true) :
    H.lawful (s.supersede H.source).source x = true := by
  rcases supersede_source H.source s with same | same
  · exact same ▸ timed.lawful_disarm lawful
  · exact same ▸ lawful

theorem spent_source (s : Schedule σ) :
    (s.spent H.source).source = H.source.disarm s.source := by
  show H.source.disarm (H.source.acknowledge s.source) = _
  rw [timed.acknowledge]

theorem Plans.sound {delay : UInt32} (h : Plans H.source delay s s') (sound : s.Sound H fit)
    (lawful : H.lawful s.source s'.source = true) : s'.Sound H fit := by
  have fits := fit_supersede timed sound.source
  have kept := lawful_of_supersede timed lawful
  cases h with
  | due converted =>
      obtain ⟨-, left⟩ := Ratio.of_nativeOfDelay _ _ sound.carry converted
      exact ⟨fits, left ▸ Ratio.left_lt _ _ _ _⟩
  | @ahead native carry remaining anchor elapsed s' converted _ _ _ arms =>
      obtain ⟨-, left⟩ := Ratio.of_nativeOfDelay _ _ sound.carry converted
      have chunks := Arms.chunks (s := s.moved H.source carry anchor) arms timed fits
      refine ⟨chunks.stays fits kept, ?_⟩
      rw [chunks.carry_eq]
      exact left ▸ Ratio.left_lt _ _ _ _

theorem Serves.sound {due : Bool} (h : Serves H.source s due s') (sound : s.Sound H fit)
    (lawful : H.lawful s.source s'.source = true) : s'.Sound H fit := by
  have same := spent_source timed s
  have fits : fit (s.spent H.source).source := same ▸ timed.disarm sound.source
  have kept : ∀ x, H.lawful s.source x = true → H.lawful (s.spent H.source).source x = true :=
    fun x lawful => same ▸ timed.lawful_disarm lawful
  cases h with
  | spurious => exact ⟨fits, sound.carry⟩
  | last => exact ⟨fits, sound.carry⟩
  | passed => exact ⟨fits, sound.carry⟩
  | onward _ _ _ _ _ arms =>
      have chunks := arms.chunks timed fits
      exact ⟨chunks.stays fits (kept _ lawful), chunks.carry_eq ▸ sound.carry⟩

theorem Sound.apply {a : Action σ} (h : a.apply H.source s = .ok s') (sound : s.Sound H fit)
    (own : (Deed.act a : Deed σ κ).OfHost H) (lawful : H.lawful s.source s'.source = true) :
    s'.Sound H fit := by
  cases a with
  | plan delay => exact (plans_of_plan _ h).sound timed sound lawful
  | cancel =>
      cases h
      exact ⟨timed.disarm sound.source, sound.carry⟩
  | reset =>
      cases h
      exact ⟨timed.disarm sound.source, Ratio.den_pos _ _⟩
  | clear =>
      cases h
      exact ⟨timed.disarm sound.source, Ratio.den_pos _ _⟩
  | environment effect =>
      obtain ⟨e, rfl⟩ := own
      cases h
      exact ⟨timed.effect e sound.source lawful, sound.carry⟩

end

end Schedule

section

variable (timed : H.Timed p start latency fit) {m m' : Moment σ κ}

include timed

theorem Host.Step.sound {deed : Deed σ κ} (h : H.Step m deed m')
    (sound : m.schedule.Sound H fit) : m'.schedule.Sound H fit := by
  obtain ⟨step, own, lawful⟩ := h
  cases step with
  | alone h => exact sound.apply timed h own lawful
  | setCallback t c => exact sound
  | refuse delay unset => exact sound
  | @plan t c delay s set h =>
      rw [Moment.schedule_settle] at lawful ⊢
      have planned := (Schedule.plans_of_plan _ h).sound timed sound lawful
      exact ⟨planned.source, planned.carry⟩
  | cancel t => exact sound.apply (a := .cancel) timed rfl own lawful
  | reset t => exact sound.apply (a := .reset) timed rfl own lawful
  | clear t => exact sound.apply (a := .clear) timed rfl own lawful
  | @environment t t' effect h =>
      obtain ⟨e, rfl⟩ := own
      cases h
      exact ⟨timed.effect e sound.source lawful, sound.carry⟩
  | serve h =>
      rw [Moment.schedule_served] at lawful ⊢
      exact (Schedule.serves_of_serve _ h).sound timed sound lawful
  | enter c s => exact ⟨sound.source, sound.carry⟩
  | inside h => exact sound.apply timed h own lawful
  | leave c state s =>
      rw [Moment.schedule_settle]
      exact ⟨sound.leave.source, sound.leave.carry⟩

theorem Host.Runs.sound {history : List (Entry σ κ)} (runs : H.Runs m history m')
    (sound : m.schedule.Sound H fit) : m'.schedule.Sound H fit := by
  induction runs with
  | start => exact sound
  | step _ h ih => exact h.sound timed ih

end

/-! ## Punctual schedules -/

namespace Schedule

/--
An armed event and what is owed after it add up to the instant, which has come if the
slot is due.  Nothing is owed if the latency may use up a whole chunk.
-/
structure Punctual (H : Host σ) (p start latency : Nat) (instant : Int) (s : Schedule σ) :
    Prop where
  armed : s.phase = .armed → s.owed.toNat < 0x8000000000000000 ∧
    (latency < p / 2 ∨ s.owed = 0) ∧ ∃ event, H.armed s.source = some event ∧
      Shows p s.eventAt ((event : Int) - start) ∧ event + s.owed.toNat = instant
  late : s.due = true → instant ≤ H.time s.source

variable {instant : Int} {s s' : Schedule σ}

theorem Punctual.of_quiet (unarmed : s.phase ≠ .armed) (clear : s.due = false) :
    s.Punctual H p start latency instant := by
  refine ⟨fun armed => absurd armed unarmed, fun due => ?_⟩
  rw [clear] at due
  cases due

theorem Punctual.takeDue (on : s.Punctual H p start latency instant) :
    s.takeDue.2.Punctual H p start latency instant :=
  ⟨on.armed, nofun⟩

theorem Punctual.leave (on : s.Punctual H p start latency instant) :
    s.leaveCallback.Punctual H p start latency instant := by
  unfold leaveCallback
  split
  · exact ⟨nofun, on.late⟩
  · exact on

theorem Chunks.punctual {remaining : Nat} (h : Chunks H p start latency fit remaining s s')
    (idle : s.phase ≠ .armed) (clear : s.due = false) (small : remaining < 0x8000000000000000)
    (target : instant = H.time s.source + remaining)
    (calm : latency < p / 2 ∨ remaining ≤ p / 2) : s'.Punctual H p start latency instant := by
  cases h with
  | none arrived =>
      refine ⟨fun armed => absurd armed idle, fun _ => ?_⟩
      dsimp only
      omega
  | @armed x eventAt owed event shown rest =>
      refine ⟨fun _ => ⟨?_, ?_, _, event, ?_, ?_⟩, fun due => ?_⟩
      · dsimp only
        omega
      · rcases calm with quick | near
        · exact .inl quick
        · refine .inr (UInt64.toNat_inj.mp ?_)
          show owed.toNat = 0
          omega
      · rw [Int.natCast_add]
        exact shown
      · dsimp only
        omega
      · rw [show s.due = true from due] at clear
        cases clear
  | missed gone time =>
      refine ⟨fun armed => absurd armed idle, fun _ => ?_⟩
      dsimp only
      omega

section

variable (timed : H.Timed p start latency fit)

include timed

theorem Plans.punctual {delay : UInt32} (h : Plans H.source delay s s') (sound : s.Sound H fit)
    {anchor : Int} {span carry : UInt64} (shown : Shows p s.anchor (anchor - start))
    (lo : -(p : Int) < 2 * (H.time s.source - anchor)) (hi : 2 * (H.time s.source - anchor) ≤ p)
    (converted : (ratio H.source).nativeOfDelay s.carry delay = .ok (span, carry))
    (pos : 0 < span.toNat)
    (calm : latency < p / 2 ∨ anchor + span.toNat ≤ H.time s.source + (p / 2 : Nat)) :
    s'.Punctual H p start latency (anchor + span.toNat) := by
  have two := timed.two
  have le := timed.le
  have fits := fit_supersede timed sound.source
  have time := time_supersede timed s
  have period : ((s.supersede H.source).period H.source).toNat = p := timed.period fits
  have now : Shows p ((s.supersede H.source).reading H.source) (H.time s.source - start) :=
    time ▸ timed.shows fits
  have away : Counter.distance ((s.supersede H.source).period H.source) s.anchor
      ((s.supersede H.source).reading H.source) = .ok (H.time s.source - anchor) := by
    rw [distance_of_shows (s := anchor - start) (t := H.time s.source - start) (by omega) (by omega)
      (by rw [period]; exact shown) (by rw [period]; exact now), period,
      centred_of_window (by omega) (by omega)]
    congr 1
    omega
  have unarmed := supersede_unarmed H.source s
  have bound := (Ratio.of_nativeOfDelay _ _ sound.carry converted).1 ▸
    Ratio.ticks_lt _ sound.carry delay
  have approach := Approach.of_eq span (H.time s.source - anchor) bound (by omega) (by omega)
  cases h with
  | due converted' _ passed located =>
      cases converted.symm.trans converted'
      cases away.symm.trans passed
      rw [approach] at located
      refine ⟨fun armed => absurd armed unarmed, fun _ => ?_⟩
      show anchor + span.toNat ≤ H.time (s.supersede H.source).source
      split at located
      next gone => omega
      next => cases located
  | @ahead _ _ remaining anchor' _ _ converted' _ passed located arms =>
      cases converted.symm.trans converted'
      cases away.symm.trans passed
      rw [approach] at located
      split at located
      next => cases located
      next future =>
        cases located
        have gap := Word.toNat_ofSigned (z := span.toNat - (H.time s.source - anchor)) (by omega)
          (by omega)
        have chunks := Arms.chunks (s := s.moved H.source carry anchor') arms timed fits
        have same : H.time (s.moved H.source carry anchor').source = H.time s.source := time
        exact chunks.punctual unarmed rfl (by omega) (by omega) (by omega)

theorem Serves.punctual {due : Bool} (h : Serves H.source s due s') (sound : s.Sound H fit)
    (on : s.Punctual H p start latency instant) (clear : s.due = false)
    (prompt : ∀ event, H.armed s.source = some event →
      event ≤ H.time s.source ∧ H.time s.source ≤ event + p / 2) :
    s'.Punctual H p start latency instant ∧ (due = true → instant ≤ H.time s'.source) := by
  have two := timed.two
  have le := timed.le
  have same := spent_source timed s
  have fits : fit (s.spent H.source).source := same ▸ timed.disarm sound.source
  have time : H.time (s.spent H.source).source = H.time s.source :=
    same ▸ timed.time_disarm s.source
  have idle : (s.spent H.source).phase ≠ .armed := Phase.noConfusion
  by_cases armed : s.phase = .armed
  · obtain ⟨fit, calm, event, comes, shown, target⟩ := on.armed armed
    obtain ⟨early, soon⟩ := prompt event comes
    have period : ((s.spent H.source).period H.source).toNat = p := timed.period fits
    have now : Shows p ((s.spent H.source).reading H.source) (H.time s.source - start) :=
      time ▸ timed.shows fits
    have away : Counter.distance ((s.spent H.source).period H.source) s.eventAt
        ((s.spent H.source).reading H.source) = .ok (H.time s.source - event) := by
      rw [distance_of_shows (s := event - start) (t := H.time s.source - start) (by omega)
        (by omega) (by rw [period]; exact shown) (by rw [period]; exact now), period,
        centred_of_window (by omega) (by omega)]
      congr 1
      omega
    cases h with
    | spurious unarmed => exact absurd armed unarmed
    | last _ whole =>
        have none : s.owed.toNat = 0 := by simp [whole]
        exact ⟨.of_quiet idle clear, fun _ => by omega⟩
    | @passed late rest _ part served exact gone =>
        cases away.symm.trans served
        rw [Word.toSigned_of_lt fit] at exact
        have left := (Signed.of_sub_ok exact).1
        exact ⟨.of_quiet idle clear, fun _ => by omega⟩
    | @onward late rest s' _ part served exact remains arms =>
        cases away.symm.trans served
        rw [Word.toSigned_of_lt fit] at exact
        have left := (Signed.of_sub_ok exact).1
        have gap := Word.toNat_ofSigned (z := rest) (by omega) (by omega)
        have quick : latency < p / 2 := calm.resolve_right part
        have again : s'.Punctual H p start latency instant :=
          (arms.chunks timed fits).punctual idle clear (by omega) (by omega) (.inl quick)
        exact ⟨again.takeDue, again.late⟩
  · obtain ⟨rfl, rfl⟩ := h.eq_of_unarmed armed
    exact ⟨.of_quiet armed clear, nofun⟩

end

end Schedule

/-! ## Every run -/

/-- While a slot is awaited no other one is planned, and its events are served promptly. -/
def Host.Awaits (H : Host σ) (p : Nat) (e : Entry σ κ) : Prop :=
  match e.deed with
  | .act (.plan _) => False
  | .serve => ∀ event, H.armed e.before.schedule.source = some event →
      event ≤ H.time e.before.schedule.source ∧ H.time e.before.schedule.source ≤ event + p / 2
  | _ => True

open Schedule in
theorem Schedule.Punctual.apply {a : Action σ} {m : Moment σ κ} {s' : Schedule σ} {instant : Int}
    (on : m.schedule.Punctual H p start latency instant) (timed : H.Timed p start latency fit)
    (h : a.apply H.source m.schedule = .ok s') (own : (Deed.act a : Deed σ κ).OfHost H)
    (awaits : H.Awaits p ⟨m, .act a⟩) : s'.Punctual H p start latency instant := by
  cases a with
  | plan delay => cases awaits
  | cancel =>
      cases h
      exact .of_quiet (withoutEvent_ne_armed _) rfl
  | reset =>
      cases h
      exact .of_quiet (withoutEvent_ne_armed _) rfl
  | clear =>
      cases h
      exact .of_quiet Phase.noConfusion rfl
  | environment effect =>
      obtain ⟨e, rfl⟩ := own
      cases h
      refine ⟨fun armed => ?_, fun due => ?_⟩
      · rw [timed.armed_effect]
        exact on.armed armed
      · have passed := on.late due
        have later := timed.time_effect m.schedule.source e
        dsimp only
        omega

namespace Moment

structure Punctual (H : Host σ) (p start latency : Nat) (instant : Int) (m : Moment σ κ) :
    Prop where
  schedule : m.schedule.Punctual H p start latency instant
  run : ∀ c s, m = .due c s → instant ≤ H.time s.source

variable {instant : Int}

theorem Punctual.settle {s : Schedule σ} (on : s.Punctual H p start latency instant)
    (c : Callback σ κ) : (settle c s).Punctual H p start latency instant := by
  constructor
  · rw [schedule_settle]
    exact on.takeDue
  · intro c' s' due
    obtain ⟨late, rfl⟩ := due_of_settle due
    exact on.late late

theorem Punctual.served {t : Timer σ κ} {s : Schedule σ} {due : Bool}
    (on : s.Punctual H p start latency instant) (late : due = true → instant ≤ H.time s.source) :
    (served t.callback s due).Punctual H p start latency instant := by
  constructor
  · rw [schedule_served]
    exact on
  · intro c s' run
    obtain ⟨again, rfl⟩ := due_of_served run
    exact late again

end Moment

section

variable (timed : H.Timed p start latency fit) {m m' : Moment σ κ} {instant : Int}

include timed

theorem Host.Step.punctual {deed : Deed σ κ} (h : H.Step m deed m') (orderly : m.Orderly)
    (sound : m.schedule.Sound H fit) (awaits : H.Awaits p ⟨m, deed⟩)
    (on : m.Punctual H p start latency instant) : m'.Punctual H p start latency instant := by
  obtain ⟨step, own, -⟩ := h
  cases step with
  | alone h => exact ⟨on.schedule.apply timed h own awaits, nofun⟩
  | setCallback t c => exact ⟨on.schedule, nofun⟩
  | refuse delay unset => exact ⟨on.schedule, nofun⟩
  | plan => cases awaits
  | cancel t => exact ⟨on.schedule.apply (a := .cancel) timed rfl own awaits, nofun⟩
  | reset t => exact ⟨on.schedule.apply (a := .reset) timed rfl own awaits, nofun⟩
  | clear t => exact ⟨on.schedule.apply (a := .clear) timed rfl own awaits, nofun⟩
  | @environment t t' effect h =>
      obtain ⟨e, rfl⟩ := own
      cases h
      exact ⟨on.schedule.apply (a := .environment fun x => .ok (H.effect e x)) timed rfl ⟨e, rfl⟩
        awaits, nofun⟩
  | serve h =>
      obtain ⟨on', late⟩ := (Schedule.serves_of_serve _ h).punctual timed sound on.schedule
        orderly.2.1 awaits
      exact .served on' late
  | enter c s => exact ⟨⟨nofun, on.schedule.late⟩, nofun⟩
  | inside h => exact ⟨on.schedule.apply timed h own awaits, nofun⟩
  | leave c state s => exact .settle on.schedule.leave _

theorem Host.Runs.punctual {history : List (Entry σ κ)} (runs : H.Runs m history m')
    (orderly : m.Orderly) (sound : m.schedule.Sound H fit) (awaits : ∀ e ∈ history, H.Awaits p e)
    (on : m.Punctual H p start latency instant) : m'.Punctual H p start latency instant := by
  induction runs with
  | start => exact on
  | @step history m₁ m₂ deed past h ih =>
      have earlier := ih fun e mem => awaits e (List.mem_append_left _ mem)
      exact h.punctual timed (past.runs.orderly orderly) (past.sound timed sound)
        (awaits ⟨m₁, deed⟩ (by simp)) earlier

theorem Host.Step.punctual_of_plan {delay : UInt32} (h : H.Step m (.act (.plan delay)) m')
    (sound : m.schedule.Sound H fit) {anchor : Int} {span carry : UInt64}
    (shown : Shows p m.schedule.anchor (anchor - start))
    (lo : -(p : Int) < 2 * (H.time m.schedule.source - anchor))
    (hi : 2 * (H.time m.schedule.source - anchor) ≤ p)
    (converted : (Schedule.ratio H.source).nativeOfDelay m.schedule.carry delay = .ok (span, carry))
    (pos : 0 < span.toNat)
    (calm : latency < p / 2 ∨
      anchor + span.toNat ≤ H.time m.schedule.source + (p / 2 : Nat)) :
    m'.Punctual H p start latency (anchor + span.toNat) := by
  obtain ⟨step, -, -⟩ := h
  cases step with
  | alone h =>
      exact ⟨(Schedule.plans_of_plan _ h).punctual timed sound shown lo hi converted pos calm, nofun⟩
  | @plan t c _ s set h =>
      exact .settle
        ((Schedule.plans_of_plan _ h).punctual timed sound shown lo hi converted pos calm) c
  | inside h =>
      exact ⟨(Schedule.plans_of_plan _ h).punctual timed sound shown lo hi converted pos calm, nofun⟩

end

/--
At the moment `m` of a run that began with a new timer, a slot of at least one tick is
awaited.  It was planned at the time `plannedAt`, within half a period of its anchor,
and it lies at `instant`.
-/
inductive Host.Slot (H : Host σ) (x : σ) (p start : Nat) :
    (instant : Int) → (plannedAt : Nat) → (m : Moment σ κ) → Prop where
  | mk {before after : List (Entry σ κ)} {m₀ m₁ m : Moment σ κ} {delay : UInt32} {anchor : Int}
      {span carry : UInt64} (past : H.Runs (.rest (.ofSource x)) before m₀)
      (shown : Shows p m₀.schedule.anchor (anchor - start))
      (lo : -(p : Int) < 2 * (H.time m₀.schedule.source - anchor))
      (hi : 2 * (H.time m₀.schedule.source - anchor) ≤ p)
      (converted : (Schedule.ratio H.source).nativeOfDelay m₀.schedule.carry delay =
        .ok (span, carry))
      (pos : 0 < span.toNat) (planned : H.Step m₀ (.act (.plan delay)) m₁)
      (later : H.Runs m₁ after m) (awaits : ∀ e ∈ after, H.Awaits p e) :
      Slot H x p start (anchor + span.toNat) (H.time m₀.schedule.source) m

/--
On either counter the callback is never due before the instant of its slot, if the
latency is below half a period or the slot was no more than half a period ahead when
it was planned.
-/
theorem never_early {x : σ} (begun : H.Started x p start latency) (two : 2 ≤ p)
    (short : latency ≤ p / 2) {instant : Int} {plannedAt : Nat} {m : Moment σ κ}
    (slot : H.Slot x p start instant plannedAt m)
    (calm : latency < p / 2 ∨ instant ≤ plannedAt + (p / 2 : Nat)) :
    ∀ c s, m = .due c s → instant ≤ H.time s.source := by
  obtain ⟨fit, timed, fits⟩ := begun.timed two short
  obtain ⟨past, shown, lo, hi, converted, pos, planned, later, awaits⟩ := slot
  have new : (Moment.rest (.ofSource x) : Moment σ κ).IsNew := ⟨x, rfl⟩
  have sound := past.sound timed ⟨fits, Ratio.den_pos _ _⟩
  have orderly := past.runs.orderly new.orderly
  have on := planned.punctual_of_plan timed sound shown lo hi converted pos calm
  exact (later.punctual timed ((Runs.single planned.step).orderly orderly)
    (planned.sound timed sound) awaits on).run

/-! ## A slot in two chunks -/

namespace Sample.TwoChunks

open Beacons

def callback : Callback (SymbolCounter SymbolClock) Unit := ⟨(), fun _ _ => .finish ()⟩

def idle : Schedule (SymbolCounter SymbolClock) := { source := started }

def ahead : Schedule (SymbolCounter SymbolClock) :=
  { source := SymbolClock.expecting 0xFFFFF63C 500 2003 (some 2500) started
    anchor := 700, phase := .armed, eventAt := 500, owed := 200 }

def nearer : Schedule (SymbolCounter SymbolClock) :=
  { source := SymbolClock.expecting 0xFFFFF63C 197 2506 (some 2700)
      (SymbolClock.wait 500 ahead.source)
    anchor := 700, phase := .armed, eventAt := 700 }

def arrived : Schedule (SymbolCounter SymbolClock) :=
  { source := radio.source.disarm (SymbolClock.wait 194 nearer.source)
    anchor := 700, eventAt := 700 }

def history : List (Entry (SymbolCounter SymbolClock) Unit) :=
  [⟨.rest ⟨ahead, some callback⟩,
      .act (.environment fun c => .ok (radio.effect (.pass 500) c))⟩,
    ⟨.rest ⟨{ ahead with source := SymbolClock.wait 500 ahead.source }, some callback⟩, .serve⟩,
    ⟨.rest ⟨nearer, some callback⟩,
      .act (.environment fun c => .ok (radio.effect (.pass 194) c))⟩,
    ⟨.rest ⟨{ nearer with source := SymbolClock.wait 194 nearer.source }, some callback⟩, .serve⟩]

theorem runs : radio.Runs (.rest ⟨ahead, some callback⟩) history (.due callback arrived) := by
  have pass : radio.Step (.rest ⟨ahead, some callback⟩)
      (.act (.environment fun c => .ok (radio.effect (.pass 500) c)))
      (.rest ⟨{ ahead with source := SymbolClock.wait 500 ahead.source }, some callback⟩) :=
    ⟨.environment rfl, ⟨_, rfl⟩, by decide⟩
  have serve : radio.Step
      (.rest ⟨{ ahead with source := SymbolClock.wait 500 ahead.source }, some callback⟩) .serve
      (.served (some callback) nearer false) := ⟨.serve rfl, trivial, by decide⟩
  have pass' : radio.Step (.rest ⟨nearer, some callback⟩)
      (.act (.environment fun c => .ok (radio.effect (.pass 194) c)))
      (.rest ⟨{ nearer with source := SymbolClock.wait 194 nearer.source }, some callback⟩) :=
    ⟨.environment rfl, ⟨_, rfl⟩, by decide⟩
  have serve' : radio.Step
      (.rest ⟨{ nearer with source := SymbolClock.wait 194 nearer.source }, some callback⟩) .serve
      (.served (some callback) arrived true) := ⟨.serve rfl, trivial, by decide⟩
  exact (Host.Runs.single pass).trans ((Host.Runs.single serve).trans
    ((Host.Runs.single pass').trans (.single serve')))

theorem slot : radio.Slot started 1000 2000 ((2000 : Int) + (700 : UInt64).toNat) 2000
    (.due callback arrived) := by
  have set : radio.Step (.rest ⟨idle, none⟩) (.setCallback callback)
      (.rest ⟨idle, some callback⟩) := ⟨.setCallback _ _, trivial, by decide⟩
  have plan : radio.Step (.rest ⟨idle, some callback⟩) (.act (.plan 700))
      (.settle callback ahead) := ⟨.plan rfl rfl, trivial, by decide⟩
  have half : radio.Awaits 1000 (Entry.mk (κ := Unit)
      (.rest ⟨{ ahead with source := SymbolClock.wait 500 ahead.source }, some callback⟩)
      .serve) := by
    rintro _ ⟨⟩
    decide
  have rest : radio.Awaits 1000 (Entry.mk (κ := Unit)
      (.rest ⟨{ nearer with source := SymbolClock.wait 194 nearer.source }, some callback⟩)
      .serve) := by
    rintro _ ⟨⟩
    decide
  refine .mk (Host.Runs.single set) rfl (by decide) (by decide) rfl (by decide) plan runs ?_
  simp only [history, List.forall_mem_cons]
  exact ⟨trivial, half, trivial, rest, List.forall_mem_nil _⟩

end Sample.TwoChunks

open Sample.Beacons Sample.TwoChunks in
theorem never_early_in_two_chunks :
    radio.Started started 1000 2000 3 ∧ 3 < 1000 / 2 ∧
      radio.Slot started 1000 2000 ((2000 : Int) + (700 : UInt64).toNat) 2000
        (.due callback arrived) ∧
      (2000 : Int) + (700 : UInt64).toNat ≤ radio.time arrived.source := by
  have made : SymbolCounter.ofPeriod { time := 2000 } 1000 = .ok counter := rfl
  have begun : radio.Started started 1000 2000 3 := .symbol .reference 0xFFFFF63C 3 made
  refine ⟨begun, by decide, slot, ?_⟩
  exact never_early begun (by decide) (by decide) slot (.inl (by decide)) _ _ rfl

/-! ## A latency of half a period -/

namespace Sample.SlowWrite

def host : Host Clock := Clock.host .reference 0xFFFF 32768

def idle : Schedule Clock := { source := { time := 0 } }

def early : Schedule Clock := { source := ⟨32768, 32768, none⟩, anchor := 40000 }

end Sample.SlowWrite

open Sample.SlowWrite in
/-- The chunk of half a period is missed, and the callback runs 7232 ticks early. -/
theorem early_after_missed_chunk :
    host.Started { time := 0 } 65536 0 32768 ∧ 32768 ≤ 65536 / 2 ∧
      host.Slot { time := 0 } 65536 0 ((0 : Int) + (40000 : UInt64).toNat) 0
        (.due Sample.callback early) ∧
      (host.time early.source : Int) < (0 : Int) + (40000 : UInt64).toNat := by
  have set : host.Step (.rest ⟨idle, none⟩) (.setCallback Sample.callback)
      (.rest ⟨idle, some Sample.callback⟩) := ⟨.setCallback _ _, trivial, rfl⟩
  have plan : host.Step (.rest ⟨idle, some Sample.callback⟩) (.act (.plan 40000))
      (.due Sample.callback early) :=
    ⟨.plan (s := { early with due := true }) rfl rfl, trivial, rfl⟩
  refine ⟨.compare .reference 0xFFFF 32768 _, by decide, ?_, by decide⟩
  exact .mk (Host.Runs.single set) rfl (by decide) (by decide) rfl (by decide) plan .start
    fun _ mem => absurd mem List.not_mem_nil

end SlotClock
