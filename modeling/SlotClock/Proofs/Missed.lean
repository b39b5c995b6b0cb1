import SlotClock.Proofs.Clock
import SlotClock.Proofs.SymbolClock

/-!
# What is missed while it is armed

An event is wanted `delay` ticks after a reading that was taken a while ago.  It has to be
reported as missed exactly if its time comes before the write is in force, and it has to
come at its own time otherwise: one that is missed without a report comes a whole period
later.

A compare channel measures from the reading to the counter, and is right for as long as
half a period.  A symbol counter measures from the counter back to the reading.  The
window of a distance has its end ahead, so a reading that was taken exactly half a period
ago is looked for half a period ahead.

## Compare channels
-/

namespace SlotClock

open Counter

/--
Arming from the reading at `start`, `elapsed` ticks after it.  Half a period bounds the
ticks until the compare value is in force, and the delay.
-/
theorem Clock.misses_what_has_passed (rate : Rate) {top : UInt32} {latency start elapsed : Nat}
    {base : UInt32} {delay : UInt64} {c : Clock} (read : base.toNat = start % (top.toNat + 1))
    (called : c.time = start + elapsed) (soon : elapsed + latency ≤ (top.toNat + 1) / 2)
    (short : delay.toNat ≤ (top.toNat + 1) / 2) :
    ∃ answer c', (tickSource rate top latency).arm base delay c = .ok (answer, c') ∧
      c'.time = start + elapsed + latency ∧
      (answer = .missed ∧ c'.armed = c.armed ↔ delay.toNat ≤ elapsed + latency) ∧
      (elapsed + latency < delay.toNat →
        answer = .armed delay ∧ c'.armed = some (start + delay.toNat) ∧
          c'.time < start + delay.toNat) := by
  have shown : Shows (top.toNat + 1) base start := by
    unfold Shows
    rw [read, Int.natCast_emod, Int.emod_emod_of_dvd _ (Int.dvd_refl _)]
  have armed := arm_eq rate latency elapsed delay shown called soon short
  by_cases gone : delay.toNat ≤ elapsed + latency
  · rw [if_pos gone] at armed
    refine ⟨_, _, armed, congrArg (· + latency) called, ⟨fun _ => gone, fun _ => ⟨rfl, rfl⟩⟩, ?_⟩
    exact fun ahead => absurd gone (Nat.not_le.mpr ahead)
  · rw [if_neg gone] at armed
    refine ⟨_, _, armed, congrArg (· + latency) called, ⟨fun missed => ?_, fun passed => ?_⟩,
      fun ahead => ⟨rfl, rfl, ?_⟩⟩
    · cases missed.1
    · exact absurd passed gone
    · show c.time + latency < start + delay.toNat
      omega

theorem Clock.misses_four_of_five_across_wrap :
    (∃ c', (tickSource .reference 9 1).arm 8 4 ⟨101, 0, none⟩ = .ok (.missed, c') ∧
      c'.armed = none) ∧
      ∃ c', (tickSource .reference 9 1).arm 8 5 ⟨101, 0, none⟩ = .ok (.armed 5, c') ∧
        c'.armed = some 103 := by
  have read : (8 : UInt32).toNat = 98 % ((9 : UInt32).toNat + 1) := by decide
  have called : (⟨101, 0, none⟩ : Clock).time = 98 + 3 := rfl
  have soon : 3 + 1 ≤ ((9 : UInt32).toNat + 1) / 2 := by decide
  have four : (4 : UInt64).toNat ≤ ((9 : UInt32).toNat + 1) / 2 := by decide
  have five : (5 : UInt64).toNat ≤ ((9 : UInt32).toNat + 1) / 2 := by decide
  constructor
  · obtain ⟨answer, c', armed, -, gone, -⟩ :=
      misses_what_has_passed .reference read called soon four
    obtain ⟨rfl, none⟩ := gone.mpr (by decide)
    exact ⟨c', armed, none⟩
  · obtain ⟨answer, c', armed, -, -, ahead⟩ :=
      misses_what_has_passed .reference read called soon five
    obtain ⟨rfl, event, -⟩ := ahead (by decide)
    exact ⟨c', armed, event⟩

/-! ## Symbol counters -/

namespace SymbolClock

variable {bias : UInt32} {since : Int} {c : SymbolCounter SymbolClock}

/--
The origin was captured at `since`, less than a word ago.  The raw counter may have been
running before the time zero.
-/
structure Captured (bias : UInt32) (since : Int) (c : SymbolCounter SymbolClock) : Prop where
  begun : since ≤ c.regs.time
  recent : c.regs.time < since + 0x100000000
  origin : Shows 0x100000000 c.origin (since + bias.toNat)

variable (rate : Rate) (latency : Nat)

theorem Captured.shows_value (captured : Captured bias since c) :
    Shows c.period.toNat (c.value (registers rate bias latency)) (c.regs.time - since) := by
  obtain ⟨begun, recent, origin⟩ := captured
  have gone : ((rawAt bias c.regs.time - c.origin).toNat : Int) = c.regs.time - since := by
    have word := Word.reading_lt c.origin
    unfold Shows at origin
    rw [UInt32.toNat_sub, toNat_rawAt]
    omega
  unfold Shows
  change (((rawAt bias c.regs.time - c.origin) % c.period).toNat : Int) % _ = _
  rw [UInt32.toNat_mod, Int.natCast_emod, Int.emod_emod_of_dvd _ (Int.dvd_refl _), gone]

theorem Captured.distance_to_base (captured : Captured bias since c) {base : UInt32} {elapsed : Nat}
    (shown : Shows c.period.toNat base (c.regs.time - elapsed - since))
    (near : elapsed ≤ c.period.toNat / 2) :
    distance c.period.toUInt64 (c.value (registers rate bias latency)) base =
      .ok (if 2 * elapsed = c.period.toNat then (elapsed : Int) else -elapsed) := by
  have pos := period_pos c
  have small := Word.reading_lt c.period
  rw [distance_of_shows (s := c.regs.time - since) (t := c.regs.time - elapsed - since)
    (by rw [toNat_period]; exact pos) (by rw [toNat_period]; omega)
    (by rw [toNat_period]; exact captured.shows_value rate latency)
    (by rw [toNat_period]; exact shown), toNat_period]
  congr 1
  split
  next half =>
    rw [centred_congr (z := elapsed)]
    · exact centred_of_window (by omega) (by omega)
    · rw [← Int.add_emod_right]
      congr 1
      omega
  next =>
    rw [centred_of_window (by omega) (by omega)]
    omega

/--
Arming from the value at `start`, `elapsed` ticks after it.  The origin may have been
captured between the two.  The deadline is `delay` ticks after `start`, but a value of
exactly half a period ago counts as the next time that it is shown, a period later.
-/
theorem misses_within_half_a_period (rate : Rate) {latency start elapsed : Nat} {base : UInt32}
    {delay : UInt64} (captured : Captured bias since c)
    (called : c.regs.time = start + elapsed)
    (visible : Shows c.period.toNat base (start - since)) (near : elapsed ≤ c.period.toNat / 2)
    (short : delay.toNat ≤ c.period.toNat / 2) (soon : latency < 0x100000000) :
    let instant := if 2 * elapsed = c.period.toNat then start + c.period.toNat else start
    ∃ answer c', (tickSource rate bias latency).arm base delay c = .ok (answer, c') ∧
      (answer = .missed ∧ (c.regs.armed = none → c'.regs.armed = none) ↔
        instant + delay.toNat ≤ start + elapsed + latency) ∧
      (start + elapsed + latency < instant + delay.toNat →
        answer = .armed delay ∧ c'.regs.armed = some (instant + delay.toNat) ∧
          c'.regs.time = start + elapsed + latency) := by
  intro instant
  have pos := period_pos c
  have back : (c.regs.time : Int) - elapsed - since = start - since := by omega
  have led := captured.distance_to_base rate latency (back ▸ visible) near
  generalize placed : (if 2 * elapsed = c.period.toNat then (elapsed : Int) else -elapsed) = lead
    at led
  have ahead : (start : Int) + elapsed + lead = instant := by
    rw [← placed]
    dsimp only [instant]
    split <;> omega
  have armed := arm_of_lead rate latency led (by split at placed <;> omega)
    (by split at placed <;> omega) short soon
  change (tickSource rate bias latency).arm base delay c = _ at armed
  by_cases gone : lead + delay.toNat ≤ 0
  · rw [if_pos gone] at armed
    have passed : instant + delay.toNat ≤ start + elapsed + latency := by omega
    exact ⟨_, _, armed, ⟨fun _ => passed, fun _ => ⟨rfl, id⟩⟩,
      fun future => absurd passed (Nat.not_le.mpr future)⟩
  · rw [if_neg gone] at armed
    by_cases late : lead + delay.toNat ≤ latency
    · rw [if_pos late] at armed
      have passed : instant + delay.toNat ≤ start + elapsed + latency := by omega
      exact ⟨_, _, armed, ⟨fun _ => passed, fun _ => ⟨rfl, fun _ => rfl⟩⟩,
        fun future => absurd passed (Nat.not_le.mpr future)⟩
    · rw [if_neg late] at armed
      have future : start + elapsed + latency < instant + delay.toNat := by omega
      have event : c.regs.time + (lead + delay.toNat).toNat = instant + delay.toNat := by omega
      refine ⟨_, _, armed, ⟨fun missed => ?_, fun passed => ?_⟩,
        fun _ => ⟨rfl, congrArg some event, congrArg (· + latency) called⟩⟩
      · cases missed.1
      · exact absurd future (Nat.not_lt.mpr passed)

def Sample.pendingEnd : SymbolCounter SymbolClock :=
  ⟨{ time := 770 }, 640, by decide, 0xFFFFFF64⟩

theorem misses_across_pending_end :
    (∃ c', (tickSource .symbol 0xFFFFFF00 30).arm 550 150 Sample.pendingEnd =
        .ok (.missed, c') ∧ c'.regs.armed = none) ∧
      ∃ c', (tickSource .symbol 0xFFFFFF00 30).arm 550 200 Sample.pendingEnd =
          .ok (.armed 200, c') ∧ c'.regs.armed = some 850 := by
  have captured : Captured 0xFFFFFF00 100 Sample.pendingEnd := ⟨by decide, by decide, rfl⟩
  have called : Sample.pendingEnd.regs.time = 650 + 120 := rfl
  have visible : Shows Sample.pendingEnd.period.toNat 550 ((650 : Nat) - 100) := rfl
  have near : 120 ≤ Sample.pendingEnd.period.toNat / 2 := by decide
  have soon : 30 < 0x100000000 := by decide
  have short : (150 : UInt64).toNat ≤ Sample.pendingEnd.period.toNat / 2 := by decide
  have longer : (200 : UInt64).toNat ≤ Sample.pendingEnd.period.toNat / 2 := by decide
  constructor
  · obtain ⟨answer, c', armed, gone, -⟩ :=
      misses_within_half_a_period .symbol captured called visible near short soon
    obtain ⟨rfl, none⟩ := gone.mpr (by decide)
    exact ⟨c', armed, none rfl⟩
  · obtain ⟨answer, c', armed, -, ahead⟩ :=
      misses_within_half_a_period .symbol captured called visible near longer soon
    obtain ⟨rfl, event, -⟩ := ahead (by decide)
    exact ⟨c', armed, event⟩

private theorem Sample.thousand_pos : (0 : UInt32) < 1000 := by decide

def Sample.halfway : SymbolCounter SymbolClock := ⟨{ time := 500 }, 1000, thousand_pos, 0⟩

/--
The value 0 was shown at 0, and the event 100 ticks after it is asked for at 500.  It is
not reported as missed, and comes at 1100.
-/
theorem armed_a_period_late_from_half_a_period_ago :
    Captured 0 0 Sample.halfway ∧ Sample.halfway.regs.time = 0 + 500 ∧
      Shows Sample.halfway.period.toNat 0 ((0 : Nat) - 0) ∧
      500 ≤ Sample.halfway.period.toNat / 2 ∧
      (100 : UInt64).toNat ≤ Sample.halfway.period.toNat / 2 ∧ (100 : UInt64).toNat ≤ 500 + 0 ∧
      ∃ c', (tickSource .reference 0 0).arm 0 100 Sample.halfway = .ok (.armed 100, c') ∧
        c'.regs.armed = some 1100 :=
  ⟨⟨by decide, by decide, rfl⟩, rfl, rfl, by decide, by decide, by decide, _, rfl, rfl⟩

end SymbolClock

end SlotClock
