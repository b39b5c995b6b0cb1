import SlotClock.Proofs.FramePeriods

/-!
# How far ahead the end of a period is marked

A period ends when the raw counter comes to the overflow compare.  A start marks an end
that is a whole period ahead, and the service of an end marks the next one, which is
ahead if the last one came less than a period ago.  A change of the period marks an end
that is counted from the origin.  If as many ticks have gone by since then, that mark is
not ahead: the raw counter has to come round again first, and until then no period ends.

## The mark
-/

namespace SlotClock

open SymbolClock

variable {κ : Type}

namespace SymbolClock

variable {bias : UInt32} {c : SymbolCounter SymbolClock}

def ticksToEnd (bias : UInt32) (c : SymbolCounter SymbolClock) : Nat :=
  (c.regs.overflow - rawAt bias c.regs.time).toNat

/-- The current period is still to end, and within the ticks that it lasts. -/
def EndsAhead (bias : UInt32) (c : SymbolCounter SymbolClock) : Prop :=
  0 < ticksToEnd bias c ∧ ticksToEnd bias c ≤ c.period.toNat

private theorem lag_lt (bias : UInt32) (c : SymbolCounter SymbolClock) : lag bias c < 0x100000000 :=
  Word.reading_lt _

private theorem ticksToEnd_of_marked (marked : c.regs.overflow = c.origin + c.period) :
    ticksToEnd bias c = if lag bias c ≤ c.period.toNat then c.period.toNat - lag bias c
      else c.period.toNat + 0x100000000 - lag bias c := by
  have origin := Word.reading_lt c.origin
  have period := Word.reading_lt c.period
  have raw := Word.reading_lt (rawAt bias c.regs.time)
  rw [ticksToEnd, lag, marked, UInt32.toNat_sub, UInt32.toNat_sub, UInt32.toNat_add]
  split <;> omega

private theorem ticksToEnd_of_overrun (bias : UInt32)
    (marked : c.regs.overflow = c.origin + c.period)
    (late : c.period.toNat < lag bias c) :
    ticksToEnd bias c = 0x100000000 - (lag bias c - c.period.toNat) := by
  have bound := lag_lt bias c
  rw [ticksToEnd_of_marked marked, if_neg (Nat.not_le_of_lt late)]
  omega

private theorem endsAhead_iff_of_marked (marked : c.regs.overflow = c.origin + c.period) :
    EndsAhead bias c ↔ lag bias c < c.period.toNat := by
  have bound := lag_lt bias c
  rw [EndsAhead, ticksToEnd_of_marked marked]
  split <;> omega

theorem endsAhead_of_since (since : Nat) (marked : c.regs.overflow = c.origin + c.period)
    (origin : c.origin = rawAt bias since) (begun : since ≤ c.regs.time)
    (soon : c.regs.time < since + c.period.toNat) : EndsAhead bias c := by
  have small := Word.reading_lt c.period
  rw [endsAhead_iff_of_marked marked, lag, origin, toNat_rawAt_sub begun (by omega)]
  omega

end SymbolClock

/-! ## Ends that are served in time -/

theorem SymbolCounter.Turns.keeps_beacon {bias : UInt32} {c c' : SymbolCounter SymbolClock}
    {deed : FrameDeed} (turns : c.Turns bias deed c') (unlatched : deed ≠ .latch) :
    c'.regs.beacon = c.regs.beacon ∧ c.regs.time ≤ c'.regs.time := by
  cases turns with
  | start _ _ _ beacon time => exact ⟨beacon, Nat.le_of_eq time.symm⟩
  | setPeriod _ _ _ beacon time => exact ⟨beacon, Nat.le_of_eq time.symm⟩
  | latch => exact absurd rfl unlatched
  | rollOver _ _ _ beacon later => exact ⟨beacon, later⟩
  | still _ _ _ clock => exact ⟨clock.beacon, clock.later⟩

namespace FrameTimer

variable (rate : Rate) (bias : UInt32) (latency : Nat)

/--
What can become of a timer when every match of the overflow compare is latched, and is
served less than a period later.  The index is the time of the match that waits.
-/
inductive Timely : Option Nat → FrameTimer SymbolClock κ → Prop where
  | made {t : FrameTimer SymbolClock κ} (spares : t.Spares) : Timely none t
  | onward {waiting : Option Nat} {t t' : FrameTimer SymbolClock κ}
      (before : Timely waiting t) (deed : FrameDeed) (positive : deed.Positive)
      (unlatched : deed ≠ .latch) (unserved : deed ≠ .interrupt .periodEnd)
      (applied : t.apply (registers rate bias latency) deed = .ok t') : Timely waiting t'
  | latch {waiting : Option Nat} {t : FrameTimer SymbolClock κ}
      (before : Timely waiting t) (moment : Nat) (past : moment ≤ t.counter.regs.time)
      (hit : rawAt bias moment = t.counter.regs.overflow) :
      Timely (some moment) { t with counter := SymbolClock.latch t.counter }
  | serve {t : FrameTimer SymbolClock κ} {moment : Nat} (before : Timely (some moment) t)
      (soon : t.counter.regs.time < moment + t.period.toNat) :
      Timely none (t.interrupt (registers rate bias latency) .periodEnd).2

variable {rate bias latency} {waiting : Option Nat} {t : FrameTimer SymbolClock κ}

theorem Timely.latched (timely : Timely rate bias latency waiting t) :
    t.Spares ∧ ∀ moment ∈ waiting,
      t.counter.regs.beacon = rawAt bias moment ∧ moment ≤ t.counter.regs.time := by
  induction timely with
  | made spares => exact ⟨spares, nofun⟩
  | @onward waiting t t' before deed positive unlatched unserved applied ih =>
      obtain ⟨spares, held⟩ := ih
      obtain ⟨t'', applied', turns, spares'⟩ := apply_turns rate bias latency spares deed positive
      obtain rfl : t'' = t' := Except.ok.inj (applied'.symm.trans applied)
      obtain ⟨kept, later⟩ := turns.keeps_beacon unlatched
      refine ⟨spares', fun moment waits => ?_⟩
      obtain ⟨beacon, past⟩ := held moment waits
      exact ⟨kept.trans beacon, Nat.le_trans past later⟩
  | latch before moment past hit ih =>
      refine ⟨ih.1.withCounter _, ?_⟩
      rintro _ ⟨⟩
      exact ⟨hit.symm, past⟩
  | serve before soon ih =>
      exact ⟨(interrupt_turns rate bias latency ih.1 .periodEnd).2, nofun⟩

/--
A start marks an end that is ahead, and so does the service of an end that came less
than a period ago.  A change of the period does so exactly if fewer ticks have gone by
since the origin than the new period lasts; when more have gone by, the mark is behind
by the difference, and a word of ticks less that difference ahead.
-/
theorem period_end_ahead (timely : Timely rate bias latency waiting t) :
    let R := registers rate bias latency
    (∀ period, 0 < period → ∃ t', t.start R period = .ok t' ∧ t'.period = period ∧
      EndsAhead bias t'.counter) ∧
    (∀ period, 0 < period → ∃ t', t.setPeriod R period = .ok t' ∧ t'.period = period ∧
      (EndsAhead bias t'.counter ↔ lag bias t.counter < period.toNat) ∧
      (period.toNat < lag bias t.counter → ticksToEnd bias t'.counter =
        0x100000000 - (lag bias t.counter - period.toNat))) ∧
    (∀ moment ∈ waiting, t.counter.regs.time < moment + t.period.toNat →
      EndsAhead bias (t.counter.rollOver R) ∧
      ((t.interrupt R .periodEnd).2.counter.regs.time < moment + t.period.toNat →
        EndsAhead bias (t.interrupt R .periodEnd).2.counter)) := by
  intro R
  obtain ⟨spares, held⟩ := timely.latched
  refine ⟨fun period pos => ?_, fun period pos => ?_, fun moment waits soon => ?_⟩
  · refine ⟨_, start_eq rate bias latency t pos, rfl, ?_⟩
    have ticks : 0 < period.toNat := UInt32.lt_iff_toNat_lt.mp pos
    exact endsAhead_of_since t.counter.regs.time rfl rfl (Nat.le_refl _)
      (Nat.lt_add_of_pos_right ticks)
  · have behind := ticksToEnd_of_overrun bias
      (c := { t.counter with period := period, period_pos := pos }.markEnd R) rfl
    exact ⟨_, setPeriod_eq rate bias latency t pos, rfl, endsAhead_iff_of_marked rfl, behind⟩
  · obtain ⟨beacon, past⟩ := held moment waits
    refine ⟨endsAhead_of_since moment rfl beacon past soon, fun soon' => ?_⟩
    obtain ⟨turns, -⟩ := interrupt_turns rate bias latency spares .periodEnd
    cases turns with
    | rollOver force origin overflow _ later =>
        rw [period, ← force] at soon'
        exact endsAhead_of_since moment overflow (origin.trans beacon) (Nat.le_trans past later)
          soon'
    | still quiet => exact absurd rfl quiet

end FrameTimer

/-! ## A period that is made shorter -/

namespace Sample.Shortened

def timer : FrameTimer SymbolClock Unit := { counter := ⟨{ time := 0 }, 300, by decide, 0⟩ }

def waiting : FrameTimer SymbolClock Unit :=
  { counter := ⟨{ time := 920, overflow := 900, beacon := 900 }, 900, by decide, 0⟩ }

theorem timely : FrameTimer.Timely .reference 0 3 (some 900) waiting := by
  have started : FrameTimer.Timely .reference 0 3 none
      ({ counter := ⟨{ time := 0, overflow := 900 }, 900, by decide, 0⟩ } :
        FrameTimer SymbolClock Unit) :=
    .onward (.made (t := timer) ⟨nofun, nofun, nofun, nofun⟩) (.start 900)
      (show (0 : UInt32) < 900 by decide) nofun nofun rfl
  have ended := (started.onward (.pass 900) trivial nofun nofun rfl).latch 900
    (Nat.le_refl _) (by decide)
  exact ended.onward (.pass 20) trivial nofun nofun rfl

end Sample.Shortened

open Sample.Shortened in
theorem FrameTimer.period_end_ahead_sample :
    920 < 900 + waiting.period.toNat ∧
      EndsAhead 0 (waiting.counter.rollOver (registers .reference 0 3)) ∧
      ∃ t, waiting.setPeriod (registers .reference 0 3) 1500 = .ok t ∧
        EndsAhead 0 t.counter := by
  obtain ⟨-, changed, served⟩ := FrameTimer.period_end_ahead timely
  obtain ⟨t, set, -, ahead, -⟩ := changed 1500 (by decide)
  exact ⟨by decide, (served 900 rfl (by decide)).1, t, set, ahead.mpr (by decide)⟩

open Sample.Shortened in
/-- After 450 of 1000 ticks the period is made 100 ticks long, and its end is not ahead. -/
theorem FrameTimer.period_end_behind_after_shortening :
    ∃ t t', timer.run (registers .reference 0 3) [.start 1000, .pass 450] = .ok t ∧
      t.setPeriod (registers .reference 0 3) 100 = .ok t' ∧ t'.period = 100 ∧
      (registers .reference 0 3).raw t'.counter.regs = 450 ∧ t'.counter.regs.overflow = 100 ∧
      ticksToEnd 0 t'.counter = 0x100000000 - 350 ∧ ¬ EndsAhead 0 t'.counter :=
  ⟨_, _, rfl, rfl, rfl, by decide, rfl, by decide, fun ahead => absurd ahead.2 (by decide)⟩

end SlotClock
