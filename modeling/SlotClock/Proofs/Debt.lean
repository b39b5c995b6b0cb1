import Mathlib.Algebra.Group.Nat.Defs
import SlotClock.Proofs.Conversion
import SlotClock.Proofs.Conservation
import SlotClock.Proofs.Interval

/-!
# Early runs do not add up

An interval timer drops what is left of a slot below the shortest interval, so its
callback runs early, and the ticks that were planned are ahead of those that have
expired.  The next slot is counted from the instant that was intended: the debt is
part of what it has to cover, and what it drops again is below one interval.

## Planned and expired ticks
-/

namespace SlotClock

open Counter

variable {σ ρ κ : Type}

def Entry.span (S : Source σ) (e : Entry σ κ) : Nat :=
  match e.deed with
  | .act (.plan delay) =>
    match (Schedule.ratio S).nativeOfDelay e.before.schedule.carry delay with
    | .ok (span, _) => span.toNat
    | .error _ => 0
  | _ => 0

def Entry.expires (e : Entry (IntervalTimer ρ) κ) : Nat :=
  match e.deed with
  | .serve => (e.before.schedule.source.running.map UInt64.toNat).getD 0
  | _ => 0

def planned (S : Source σ) (history : List (Entry σ κ)) : Nat :=
  history.foldl (fun total e => total + e.span S) 0

def expired (history : List (Entry (IntervalTimer ρ) κ)) : Nat :=
  history.foldl (fun total e => total + e.expires) 0

@[simp] theorem planned_concat (S : Source σ) (history : List (Entry σ κ)) (e : Entry σ κ) :
    planned S (history ++ [e]) = planned S history + e.span S := by
  simp [planned]

@[simp] theorem expired_concat (history : List (Entry (IntervalTimer ρ) κ))
    (e : Entry (IntervalTimer ρ) κ) : expired (history ++ [e]) = expired history + e.expires := by
  simp [expired]

/--
What may happen in a chain: a slot is planned while no event is armed, none is given
up, and the environment leaves the count of the timer alone.
-/
def Entry.Chained (e : Entry (IntervalTimer ρ) κ) : Prop :=
  match e.deed with
  | .act (.plan _) => e.before.schedule.phase ≠ .armed
  | .act (.environment effect) =>
    ∀ t t', effect t = .ok t' → t'.counted = t.counted ∧ t'.running = t.running
  | .act _ => False
  | _ => True

namespace Schedule

variable {R : IntervalRegisters ρ} {range : IntervalRange}

/-! ## The debt of a schedule -/

/-- The count shows the expired ticks, and the anchor shows the planned ones. -/
structure Counted (R : IntervalRegisters ρ) (range : IntervalRange) (planned expired : Nat)
    (s : Schedule (IntervalTimer ρ)) : Prop where
  carry : s.carry.toNat < (ratio (IntervalTimer.source R range)).den.toNat
  count : Shows 0x100000000 s.source.counted expired
  anchor : Shows 0x100000000 s.anchor planned

structure Stopped (R : IntervalRegisters ρ) (range : IntervalRange) (planned expired : Nat)
    (s : Schedule (IntervalTimer ρ)) : Prop extends Counted R range planned expired s where
  unarmed : s.phase ≠ .armed
  running : s.source.running = none

/--
An armed event and the ticks owed after it will pay the whole debt.  While nothing is
armed, the debt is less than the shortest interval.
-/
structure Indebted (R : IntervalRegisters ρ) (range : IntervalRange) (planned expired : Nat)
    (s : Schedule (IntervalTimer ρ)) : Prop extends Counted R range planned expired s where
  armed : s.phase = .armed → s.owed.toNat < 0x8000000000000000 ∧
    ∃ interval, s.source.running = some interval ∧
      Shows 0x100000000 s.eventAt (expired + interval.toNat) ∧
      planned = expired + interval.toNat + s.owed.toNat
  unarmed : s.phase ≠ .armed → s.source.running = none ∧ expired ≤ planned ∧
    planned < expired + 2 ^ range.minShift

variable {planned expired : Nat}

private theorem Stopped.indebted {s : Schedule (IntervalTimer ρ)}
    (h : s.Stopped R range planned expired)
    (le : expired ≤ planned) (lt : planned < expired + 2 ^ range.minShift) :
    s.Indebted R range planned expired :=
  ⟨h.toCounted, fun armed => absurd armed h.unarmed, fun _ => ⟨h.running, le, lt⟩⟩

theorem Indebted.stopped {s : Schedule (IntervalTimer ρ)} (h : s.Indebted R range planned expired)
    (unarmed : s.phase ≠ .armed) : s.Stopped R range planned expired :=
  ⟨h.toCounted, unarmed, (h.unarmed unarmed).1⟩

private theorem Indebted.rephase {s : Schedule (IntervalTimer ρ)} {phase : Phase} {due : Bool}
    (h : s.Indebted R range planned expired) (before : s.phase ≠ .armed) (after : phase ≠ .armed) :
    Indebted R range planned expired { s with phase := phase, due := due } := by
  obtain ⟨running, le, lt⟩ := h.unarmed before
  exact Stopped.indebted ⟨⟨h.carry, h.count, h.anchor⟩, after, running⟩ le lt

theorem Indebted.takeDue {s : Schedule (IntervalTimer ρ)} (h : s.Indebted R range planned expired) :
    s.takeDue.2.Indebted R range planned expired :=
  ⟨⟨h.carry, h.count, h.anchor⟩, h.armed, h.unarmed⟩

theorem Indebted.leave {s : Schedule (IntervalTimer ρ)} (h : s.Indebted R range planned expired) :
    s.leaveCallback.Indebted R range planned expired := by
  unfold leaveCallback
  split
  next running => exact h.rephase (running ▸ Phase.noConfusion) Phase.noConfusion
  next => exact h

theorem toNat_shortest (small : range.minShift < 64) {shortest : UInt64}
    (h : range.shortest = .ok shortest) : shortest.toNat = 2 ^ range.minShift := by
  obtain ⟨w, shifted, exact⟩ := Word.shiftLeft_one small
  rw [IntervalRange.shortest, shifted] at h
  cases h
  exact exact

theorem shortest_le_chunk (ordered : range.minShift ≤ range.maxShift) (small : range.maxShift < 32)
    {remaining period : UInt64} (whole : period.toNat = 0x100000000)
    (le : 2 ^ range.minShift ≤ remaining.toNat) :
    2 ^ range.minShift ≤ (min remaining (period / 2)).toNat := by
  have cap : 2 ^ range.minShift ≤ 2 ^ 31 := Nat.pow_le_pow_right (by decide) (by omega)
  rw [Word.toNat_min_half, whole]
  omega

theorem Arms.indebted {remaining : UInt64} {s s' : Schedule (IntervalTimer ρ)}
    (h : Arms (IntervalTimer.source R range) s.source.counted remaining s s')
    (ordered : range.minShift ≤ range.maxShift) (small : range.maxShift < 32)
    (stopped : s.Stopped R range planned expired) (fits : remaining.toNat < 0x8000000000000000)
    (target : planned = expired + remaining.toNat) : s'.Indebted R range planned expired := by
  cases h with
  | @short resolution below lt =>
      have shortest := toNat_shortest (by omega) below
      rw [UInt64.lt_iff_toNat_lt, shortest] at lt
      exact Stopped.indebted ⟨⟨stopped.carry, stopped.count, stopped.anchor⟩, stopped.unarmed,
        stopped.running⟩ (by omega) (by omega)
  | @armed source resolution covered owed eventAt reached le arm event rest =>
      have shortest := toNat_shortest (by omega) reached
      rw [UInt64.le_iff_toNat_le, shortest] at le
      obtain ⟨covers, left⟩ := Word.toNat_of_sub_ok rest
      obtain ⟨interval, ⟨rfl⟩, -, same, running⟩ := IntervalTimer.covered_of_arm R ordered
        (by omega) (shortest_le_chunk ordered small rfl le) arm
      have count : Shows 0x100000000 source.counted expired := same ▸ stopped.count
      refine ⟨⟨stopped.carry, count, stopped.anchor⟩, fun _ => ⟨?_, covered, running, ?_, ?_⟩, ?_⟩
      · show owed.toNat < _
        omega
      · exact Shows.advance (p := 0x100000000) (by decide) (by decide) stopped.count event
      · show planned = expired + covered.toNat + owed.toNat
        omega
      · exact fun armed => absurd rfl armed
  | @missed source resolution reached le arm =>
      have shortest := toNat_shortest (by omega) reached
      rw [UInt64.le_iff_toNat_le, shortest] at le
      obtain ⟨interval, never, -⟩ := IntervalTimer.covered_of_arm R ordered (by omega)
        (shortest_le_chunk ordered small rfl le) arm
      cases never

theorem Plans.indebted {delay : UInt32} {s s' : Schedule (IntervalTimer ρ)}
    (h : Plans (IntervalTimer.source R range) delay s s')
    (ordered : range.minShift ≤ range.maxShift) (small : range.maxShift < 32)
    (owing : s.Indebted R range planned expired) (unarmed : s.phase ≠ .armed) :
    ∃ span carry, (ratio (IntervalTimer.source R range)).nativeOfDelay s.carry delay =
        .ok (span, carry) ∧ s'.Indebted R range (planned + span.toNat) expired := by
  obtain ⟨running, le, lt⟩ := owing.unarmed unarmed
  have same := supersede_of_unarmed (IntervalTimer.source R range) unarmed
  have cap : 2 ^ range.minShift ≤ 2 ^ 31 := Nat.pow_le_pow_right (by decide) (by omega)
  have debt : Counter.distance 0x100000000 s.anchor s.source.counted =
      .ok ((expired : Int) - planned) := by
    rw [distance_of_shows (p := 0x100000000) (by decide) (by decide) owing.anchor owing.count]
    congr 1
    apply centred_of_window
    · show -(0x100000000 : Int) < _
      omega
    · show _ ≤ (0x100000000 : Int)
      omega
  have books : ∀ {span carry : UInt64} {anchor : UInt32},
      (ratio (IntervalTimer.source R range)).nativeOfDelay s.carry delay = .ok (span, carry) →
      Counter.advance 0x100000000 s.anchor span = .ok anchor →
      (s.moved (IntervalTimer.source R range) carry anchor).Stopped R range
        (planned + span.toNat) expired := by
    intro span carry anchor converted advanced
    obtain ⟨-, left⟩ := Ratio.of_nativeOfDelay _ _ owing.carry converted
    rw [moved, same]
    refine ⟨⟨?_, owing.count, ?_⟩, unarmed, running⟩
    · show carry.toNat < _
      rw [left]
      exact Ratio.left_lt _ _ _ _
    · exact Shows.advance (p := 0x100000000) (by decide) (by decide) owing.anchor advanced
  cases h with
  | @due span carry anchor elapsed late converted advanced passed approach =>
      have bound := (Ratio.of_nativeOfDelay _ _ owing.carry converted).1 ▸
        Ratio.ticks_lt _ owing.carry delay
      rw [same] at passed
      obtain rfl : elapsed = expired - planned := Except.ok.inj (passed.symm.trans debt)
      rw [Approach.of_eq _ _ bound (by omega) (by omega)] at approach
      split at approach
      next none =>
        have books := books converted advanced
        refine ⟨span, carry, converted, ?_⟩
        exact Stopped.indebted ⟨⟨books.carry, books.count, books.anchor⟩, books.unarmed,
          books.running⟩ (by omega) (by omega)
      next => cases approach
  | @ahead span carry remaining anchor elapsed s' converted advanced passed approach arms =>
      have bound := (Ratio.of_nativeOfDelay _ _ owing.carry converted).1 ▸
        Ratio.ticks_lt _ owing.carry delay
      rw [same] at passed
      obtain rfl : elapsed = expired - planned := Except.ok.inj (passed.symm.trans debt)
      rw [Approach.of_eq _ _ bound (by omega) (by omega)] at approach
      split at approach
      next => cases approach
      next =>
        cases approach
        have gap := Word.toNat_ofSigned (z := span.toNat - ((expired : Int) - planned))
          (by omega) (by omega)
        have books := books converted advanced
        refine ⟨span, carry, converted, ?_⟩
        exact Arms.indebted (s := s.moved _ carry anchor) arms ordered small books (by omega) (by omega)

private theorem shows_count {count : UInt32} {interval : UInt64}
    (shown : Shows 0x100000000 count expired) :
    Shows 0x100000000 (count + interval.toUInt32) (expired + interval.toNat) := by
  unfold Shows at shown ⊢
  rw [UInt32.toNat_add, UInt64.toNat_toUInt32]
  omega

private theorem shows_spent {s : Schedule (IntervalTimer ρ)} {interval : UInt64}
    (running : s.source.running = some interval)
    (count : Shows 0x100000000 s.source.counted expired) :
    Shows 0x100000000 (s.spent (IntervalTimer.source R range)).source.counted
      (expired + interval.toNat) := by
  have ended : (s.spent (IntervalTimer.source R range)).source.counted =
      s.source.counted + interval.toUInt32 := by
    show (IntervalTimer.acknowledge s.source).counted = _
    simp [IntervalTimer.acknowledge, running]
  rw [ended]
  exact shows_count count

theorem distance_of_running {s : Schedule (IntervalTimer ρ)} {interval : UInt64}
    (running : s.source.running = some interval)
    (count : Shows 0x100000000 s.source.counted expired)
    (event : Shows 0x100000000 s.eventAt (expired + interval.toNat)) :
    Counter.distance 0x100000000 s.eventAt
      (s.spent (IntervalTimer.source R range)).source.counted = .ok 0 := by
  rw [distance_of_shows (p := 0x100000000) (by decide) (by decide) event
    (shows_spent running count), Int.sub_self]
  rfl

theorem Serves.indebted {due : Bool} {s s' : Schedule (IntervalTimer ρ)}
    (h : Serves (IntervalTimer.source R range) s due s')
    (ordered : range.minShift ≤ range.maxShift) (small : range.maxShift < 32)
    (owing : s.Indebted R range planned expired) :
    s'.Indebted R range planned (expired + (s.source.running.map UInt64.toNat).getD 0) := by
  by_cases armed : s.phase = .armed
  · obtain ⟨fits, interval, running, event, target⟩ := owing.armed armed
    have spent : (s.spent (IntervalTimer.source R range)).Stopped R range planned
        (expired + interval.toNat) :=
      ⟨⟨owing.carry, shows_spent running owing.count, owing.anchor⟩, Phase.noConfusion, rfl⟩
    simp only [running, Option.map_some, Option.getD_some]
    have onTime : Counter.distance 0x100000000 s.eventAt
        (s.spent (IntervalTimer.source R range)).source.counted = .ok 0 :=
      distance_of_running running owing.count event
    cases h with
    | spurious unarmed => exact absurd armed unarmed
    | last _ whole =>
        have none : s.owed.toNat = 0 := by simp [whole]
        have pos := Nat.two_pow_pos range.minShift
        exact spent.indebted (by omega) (by omega)
    | @passed late rest _ part served exact gone =>
        obtain rfl : late = 0 := Except.ok.inj (served.symm.trans onTime)
        rw [Word.toSigned_of_lt fits] at exact
        have left := (Signed.of_sub_ok exact).1
        have some : s.owed.toNat ≠ 0 := fun none => part (UInt64.toNat_inj.mp none)
        omega
    | @onward late rest s' _ part served exact remains arms =>
        obtain rfl : late = 0 := Except.ok.inj (served.symm.trans onTime)
        rw [Word.toSigned_of_lt fits] at exact
        have left := (Signed.of_sub_ok exact).1
        have gap := Word.toNat_ofSigned (z := rest) (by omega) (by omega)
        have again := Arms.indebted (s := s.spent _) arms ordered small spent (by omega) (by omega)
        exact again.takeDue
  · obtain ⟨running, le, lt⟩ := owing.unarmed armed
    obtain ⟨-, rfl⟩ := h.eq_of_unarmed armed
    have count : (s.acknowledged (IntervalTimer.source R range)).source.counted = s.source.counted := by
      show (IntervalTimer.acknowledge s.source).counted = _
      simp [IntervalTimer.acknowledge, running]
    simp only [running, Option.map_none, Option.getD_none, Nat.add_zero]
    exact Stopped.indebted ⟨⟨owing.carry, count ▸ owing.count, owing.anchor⟩, armed, rfl⟩ le lt

end Schedule

/-! ## Every chain -/

open Schedule in
theorem Schedule.Indebted.apply {R : IntervalRegisters ρ} {range : IntervalRange}
    {planned expired : Nat} {m : Moment (IntervalTimer ρ) κ} {a : Action (IntervalTimer ρ)}
    {s' : Schedule (IntervalTimer ρ)} (owing : m.schedule.Indebted R range planned expired)
    (ordered : range.minShift ≤ range.maxShift) (small : range.maxShift < 32)
    (chained : (Entry.mk m (.act a)).Chained)
    (h : a.apply (IntervalTimer.source R range) m.schedule = .ok s') :
    s'.Indebted R range (planned + (Entry.mk m (.act a)).span (IntervalTimer.source R range))
      expired := by
  cases a with
  | plan delay =>
      obtain ⟨span, carry, converted, later⟩ :=
        (plans_of_plan _ h).indebted ordered small owing chained
      simp only [Entry.span, converted]
      exact later
  | cancel => cases chained
  | reset => cases chained
  | clear => cases chained
  | environment effect =>
      obtain ⟨source, effected, done⟩ := parts_of_bind h
      cases done
      obtain ⟨counted, running⟩ := chained _ _ effected
      refine ⟨⟨owing.carry, counted ▸ owing.count, owing.anchor⟩, ?_, ?_⟩
      · rw [running]
        exact owing.armed
      · rw [running]
        exact owing.unarmed

theorem Step.indebted {R : IntervalRegisters ρ} {range : IntervalRange} {planned expired : Nat}
    {m m' : Moment (IntervalTimer ρ) κ} {deed : Deed (IntervalTimer ρ) κ}
    (h : Step (IntervalTimer.source R range) m deed m')
    (ordered : range.minShift ≤ range.maxShift) (small : range.maxShift < 32)
    (orderly : m.Orderly) (chained : (Entry.mk m deed).Chained)
    (owing : m.schedule.Indebted R range planned expired) :
    m'.schedule.Indebted R range
      (planned + (Entry.mk m deed).span (IntervalTimer.source R range))
      (expired + (Entry.mk m deed).expires) := by
  cases h with
  | alone h => exact owing.apply ordered small chained h
  | setCallback t c => exact owing
  | refuse delay unset => exact owing
  | plan set h =>
      rw [Moment.schedule_settle]
      exact (owing.apply (a := .plan _) ordered small chained h).takeDue
  | cancel t => cases chained
  | reset t => cases chained
  | clear t => cases chained
  | @environment t t' effect h =>
      obtain ⟨source, effected, done⟩ := parts_of_bind h
      cases done
      exact owing.apply (a := .environment effect) ordered small chained
        (by simp [Action.apply, effected, bind, Except.bind, pure, Except.pure])
  | serve h =>
      rw [Moment.schedule_served]
      exact (Schedule.serves_of_serve _ h).indebted ordered small owing
  | enter c s => exact owing.rephase (orderly.1 ▸ Phase.noConfusion) Phase.noConfusion
  | inside h => exact owing.apply ordered small chained h
  | leave c state s =>
      rw [Moment.schedule_settle]
      exact owing.leave.takeDue

theorem Runs.indebted {R : IntervalRegisters ρ} {range : IntervalRange}
    {m₀ m : Moment (IntervalTimer ρ) κ} {history : List (Entry (IntervalTimer ρ) κ)}
    (runs : Runs (IntervalTimer.source R range) m₀ history m)
    (ordered : range.minShift ≤ range.maxShift) (small : range.maxShift < 32)
    (orderly : m₀.Orderly) (chained : ∀ e ∈ history, e.Chained)
    (owing : m₀.schedule.Indebted R range 0 0) :
    m.schedule.Indebted R range (planned (IntervalTimer.source R range) history)
      (expired history) := by
  induction runs with
  | start => exact owing
  | @step history m₁ m₂ deed past h ih =>
      have earlier := ih fun e mem => chained e (List.mem_append_left _ mem)
      rw [planned_concat, expired_concat]
      exact h.indebted ordered small (past.orderly orderly) (chained ⟨m₁, deed⟩ (by simp)) earlier

/--
In every chain of slots on a new interval timer, the callback is due for a slot before
all its ticks have expired, by less than the shortest interval, and never after.  The
ticks are counted in full, though the counter and the anchor show them modulo a word.
-/
theorem early_by_less_than_shortest {R : IntervalRegisters ρ} {range : IntervalRange}
    {minShift maxShift : Nat} (checked : IntervalRange.checked minShift maxShift = .ok range)
    {regs : ρ} {m : Moment (IntervalTimer ρ) κ} {history : List (Entry (IntervalTimer ρ) κ)}
    (runs : Runs (IntervalTimer.source R range) (.rest (Timer.ofSource { regs := regs })) history m)
    (chained : ∀ e ∈ history, e.Chained) :
    m.schedule.source.counted.toNat = expired history % 2 ^ 32 ∧
      m.schedule.anchor.toNat = planned (IntervalTimer.source R range) history % 2 ^ 32 ∧
      ∀ c s, m = .due c s →
        expired history ≤ planned (IntervalTimer.source R range) history ∧
          planned (IntervalTimer.source R range) history < expired history + 2 ^ minShift := by
  obtain ⟨rfl, ordered, small⟩ := IntervalRange.of_checked checked
  have new : (Moment.rest (Timer.ofSource { regs := regs }) : Moment (IntervalTimer ρ) κ).IsNew :=
    ⟨_, rfl⟩
  have pos : 0 < 0 + 2 ^ minShift := by
    rw [Nat.zero_add]
    exact Nat.two_pow_pos minShift
  have fresh : (Timer.ofSource { regs := regs } : Timer (IntervalTimer ρ) κ).schedule.Indebted R
      ⟨minShift, maxShift⟩ 0 0 :=
    Schedule.Stopped.indebted ⟨⟨Ratio.den_pos _ _, rfl, rfl⟩, Phase.noConfusion, rfl⟩
      (Nat.le_refl 0) pos
  have owing := runs.indebted ordered small new.orderly chained fresh
  refine ⟨?_, ?_, ?_⟩
  · have shown := owing.count
    have count := Word.reading_lt m.schedule.source.counted
    unfold Shows at shown
    omega
  · have shown := owing.anchor
    have anchor := Word.reading_lt m.schedule.anchor
    unfold Shows at shown
    omega
  · rintro c s rfl
    obtain ⟨idle, -⟩ := runs.orderly new.orderly
    exact (owing.unarmed (idle ▸ Phase.noConfusion)).2

/-! ## Two slots of 5000 ticks in intervals of at least 2048 -/

namespace Sample.Intervals

def registers : IntervalRegisters (List Nat) where
  rate := .reference
  start shift started := .ok (shift :: started)
  stop started := started

def source : Source (IntervalTimer (List Nat)) := IntervalTimer.source registers .atmega

def callback : Callback (IntervalTimer (List Nat)) Unit :=
  ⟨(), fun _ _ => .act (.plan 5000) fun _ => .finish ()⟩

def idle : Schedule (IntervalTimer (List Nat)) := { source := { regs := [] } }

def armed : Schedule (IntervalTimer (List Nat)) :=
  { source := ⟨[12], 0, some 4096⟩, anchor := 5000, phase := .armed, eventAt := 4096, owed := 904 }

def early : Schedule (IntervalTimer (List Nat)) :=
  { source := ⟨[12], 4096, none⟩, anchor := 5000, eventAt := 4096 }

def rearmed : Schedule (IntervalTimer (List Nat)) :=
  { source := ⟨[12, 12], 4096, some 4096⟩
    anchor := 10000, phase := .armed, eventAt := 8192, owed := 1808 }

def earlyAgain : Schedule (IntervalTimer (List Nat)) :=
  { source := ⟨[12, 12], 8192, none⟩, anchor := 10000, eventAt := 8192 }

def history : List (Entry (IntervalTimer (List Nat)) Unit) :=
  [⟨.rest ⟨idle, none⟩, .setCallback callback⟩, ⟨.rest ⟨idle, some callback⟩, .act (.plan 5000)⟩,
    ⟨.rest ⟨armed, some callback⟩, .serve⟩, ⟨.due callback early, .enter⟩,
    ⟨.inside callback (.act (.plan 5000) fun _ => .finish ()) early.enterCallback,
      .act (.plan 5000)⟩,
    ⟨.inside callback (.finish ()) rearmed, .leave⟩, ⟨.rest ⟨rearmed, some callback⟩, .serve⟩]

theorem runs : Runs source (.rest ⟨idle, none⟩) history (.due callback earlyAgain) := by
  have set : Step source (.rest ⟨idle, none⟩) (.setCallback callback)
      (.rest ⟨idle, some callback⟩) := .setCallback _ _
  have plan : Step source (.rest ⟨idle, some callback⟩) (.act (.plan 5000))
      (.settle callback armed) := .plan rfl rfl
  have serve : Step source (.rest ⟨armed, some callback⟩) .serve
      (.served (some callback) early true) := .serve rfl
  have enter : Step source (.due callback early) .enter
      (.inside callback (callback.body callback.state early.enterCallback) early.enterCallback) :=
    .enter callback early
  have replan : Step source
      (.inside callback (.act (.plan 5000) fun _ => .finish ()) early.enterCallback)
      (.act (.plan 5000)) (.inside callback (.finish ()) rearmed) := .inside rfl
  have leave : Step source (.inside callback (.finish ()) rearmed) .leave
      (.settle callback rearmed.leaveCallback) := .leave callback () rearmed
  have again : Step source (.rest ⟨rearmed, some callback⟩) .serve
      (.served (some callback) earlyAgain true) := .serve rfl
  exact (Runs.single set).trans ((Runs.single plan).trans ((Runs.single serve).trans
    ((Runs.single enter).trans ((Runs.single replan).trans ((Runs.single leave).trans
      (.single again))))))

theorem chained : ∀ e ∈ history, e.Chained := by
  have first : idle.phase ≠ .armed := Phase.noConfusion
  have again : early.enterCallback.phase ≠ .armed := Phase.noConfusion
  simp only [history, List.forall_mem_cons]
  exact ⟨trivial, first, trivial, trivial, again, trivial, trivial, List.forall_mem_nil _⟩

end Sample.Intervals

/-- The second run is 1808 ticks early, not 1808 and the 904 of the first one. -/
theorem early_by_1808_after_904 :
    planned Sample.Intervals.source Sample.Intervals.history = 10000 ∧
      expired Sample.Intervals.history = 8192 ∧
      planned Sample.Intervals.source Sample.Intervals.history <
        expired Sample.Intervals.history + 2 ^ 11 := by
  have checked : IntervalRange.checked 11 20 = .ok .atmega := rfl
  obtain ⟨-, -, early⟩ :=
    early_by_less_than_shortest checked Sample.Intervals.runs Sample.Intervals.chained
  exact ⟨rfl, rfl, (early _ _ rfl).2⟩

end SlotClock
