import SlotClock.Proofs.FramePeriods

/-!
# From where a compare event is counted

The offset of a compare event is counted from the origin, the beginning of the period
whose end is served next.  The value of the counter is the part of the current period
that has gone by.  The two mean the same period until its end comes.  From then on,
until that end is served, the value is ahead by whole periods, and a compare event
that is asked for within the current period lies behind the raw counter, which has to
come round again first.

## Periods of one length
-/

namespace SlotClock

open SymbolClock

variable {κ : Type}

namespace PeriodLedger

structure Uniform (length : UInt32) (l : PeriodLedger) : Prop where
  period : l.period = length
  ended : ∀ x ∈ l.ended, x = length
  served : ∀ x ∈ l.served, x = length

def Constant (length : UInt32) (deeds : List FrameDeed) : Prop :=
  ∀ period, .setPeriod period ∈ deeds → period = length

variable {length : UInt32} {l : PeriodLedger} {deeds : List FrameDeed}

theorem Uniform.record (uniform : l.Uniform length) {deed : FrameDeed}
    (constant : Constant length [deed]) : (l.record deed).Uniform length := by
  obtain ⟨period, ended, served⟩ := uniform
  cases deed with
  | setPeriod next => exact ⟨constant next (by simp), ended, served⟩
  | latch =>
      refine ⟨period, ?_, served⟩
      rintro _ ⟨⟩
      exact period
  | interrupt cause =>
      cases cause with
      | periodEnd =>
          refine ⟨period, nofun, fun x mem => ?_⟩
          rcases List.mem_append.mp mem with mem | mem
          · exact served x mem
          · exact ended x (Option.mem_toList.mp mem)
      | _ => exact ⟨period, ended, served⟩
  | _ => exact ⟨period, ended, served⟩

theorem Uniform.after (uniform : l.Uniform length) (constant : Constant length deeds) :
    (l.after deeds).Uniform length := by
  induction deeds generalizing l with
  | nil => exact uniform
  | cons deed rest ih =>
      refine ih (uniform.record fun period mem => constant period ?_)
        fun period mem => constant period (List.mem_cons_of_mem _ mem)
      rw [List.mem_singleton.mp mem]
      exact List.mem_cons_self

end PeriodLedger

namespace SymbolClock

private theorem rawAt_add_periods (bias : UInt32) (time count : Nat) (length : UInt32) :
    rawAt bias time + (List.replicate count length).sum =
      rawAt bias (time + count * length.toNat) := by
  induction count generalizing time with
  | zero => simp
  | succ count ih =>
      rw [List.replicate_succ, List.sum_cons, ← UInt32.add_assoc, rawAt_add, ih, Nat.succ_mul]
      congr 1
      omega

private theorem rawAt_word (bias : UInt32) (time : Nat) :
    rawAt bias (time + 0x100000000) = rawAt bias time := by
  apply UInt32.toNat_inj.mp
  rw [toNat_rawAt, toNat_rawAt]
  omega

/-! ## A compare event -/

variable {bias : UInt32} {since : Nat} {c : SymbolCounter SymbolClock}

theorem toNat_value_of_origin (rate : Rate) (latency : Nat) (origin : c.origin = rawAt bias since)
    (begun : since ≤ c.regs.time) (recent : c.regs.time < since + 0x100000000) :
    (c.value (registers rate bias latency)).toNat = (c.regs.time - since) % c.period.toNat := by
  change ((rawAt bias c.regs.time - c.origin) % c.period).toNat = _
  rw [UInt32.toNat_mod, origin, toNat_rawAt_sub begun recent]

theorem ticks_to_compare (origin : c.origin = rawAt bias since) (begun : since ≤ c.regs.time)
    (recent : c.regs.time < since + 0x100000000) (offset : UInt32) :
    c.regs.time + (c.origin + offset - rawAt bias c.regs.time).toNat =
      if c.regs.time ≤ since + offset.toNat then since + offset.toNat
      else since + offset.toNat + 0x100000000 := by
  have small := Word.reading_lt offset
  rw [origin, rawAt_add]
  split
  next ahead =>
    rw [toNat_rawAt_sub ahead (by omega)]
    omega
  next behind =>
    rw [← rawAt_word, toNat_rawAt_sub (by omega) (by omega)]
    omega

theorem compareAt_within_period (rate : Rate) (latency : Nat) (origin : c.origin = rawAt bias since)
    (begun : since ≤ c.regs.time) (recent : c.regs.time < since + 0x100000000) {offset : UInt32}
    (ahead : c.value (registers rate bias latency) < offset) (within : offset < c.period) :
    ∃ c', c.compareAt (registers rate bias latency) offset = .ok c' ∧
      c'.regs.armed = some (if c.regs.time < since + c.period.toNat
        then c.regs.time + (offset.toNat - (c.value (registers rate bias latency)).toNat)
        else since + offset.toNat + 0x100000000) := by
  have value := toNat_value_of_origin rate latency origin begun recent
  rw [UInt32.lt_iff_toNat_lt] at ahead within
  refine ⟨_, rfl, congrArg some ((ticks_to_compare origin begun recent offset).trans ?_)⟩
  by_cases waits : c.regs.time < since + c.period.toNat
  · rw [Nat.mod_eq_of_lt (by omega)] at value
    rw [if_pos waits, if_pos (by omega)]
    omega
  · rw [if_neg waits, if_neg (by omega)]

end SymbolClock

namespace FrameTimer

variable (rate : Rate) (bias : UInt32) (latency : Nat)

/--
A compare event within the current period, asked for while the raw counter is less than
a word past the origin.  It comes as far into the period as it was asked for exactly if
the end of the period that began at the origin has yet to come; otherwise it comes a
word later than that, counted from the origin.
-/
theorem compare_counts_from_origin {t : FrameTimer SymbolClock κ} (spares : t.Spares)
    {period : UInt32} (pos : 0 < period) {deeds : List FrameDeed}
    (admitted : PeriodLedger.admitsAll { period := period } deeds)
    (constant : PeriodLedger.Constant period deeds) :
    let R := registers rate bias latency
    let origin := t.counter.regs.time + deeds.count (.interrupt .periodEnd) * period.toNat
    ∃ t', t.run R (.start period :: deeds) = .ok t' ∧ t'.period = period ∧
      ∀ now, t'.counter.regs.time = now → origin ≤ now → now < origin + 0x100000000 →
        ∀ offset, t'.value R < offset → offset < period →
          ∃ t'', t'.compareAt R offset = .ok t'' ∧
            t''.counter.regs.armed = some
              (if now < origin + period.toNat then now + (offset.toNat - (t'.value R).toNat)
                else origin + offset.toNat + 0x100000000) ∧
            (t''.counter.regs.armed = some (now + (offset.toNat - (t'.value R).toNat)) ↔
              now < origin + period.toNat) := by
  intro R origin
  obtain ⟨t', run, follows⟩ := started_follows rate bias latency spares pos admitted
  have uniform : PeriodLedger.Uniform period (PeriodLedger.after { period := period } deeds) :=
    PeriodLedger.Uniform.after ⟨rfl, nofun, nofun⟩ constant
  have force : t'.counter.period = period := follows.period.trans uniform.period
  have begins : t'.counter.origin = rawAt bias origin := by
    rw [follows.origin, List.eq_replicate_of_mem uniform.served,
      PeriodLedger.length_served_after admitted, rawAt_add_periods, List.length_nil, Nat.zero_add]
  refine ⟨t', run, force, ?_⟩
  rintro now rfl begun recent offset ahead within
  obtain ⟨c, compared, armed⟩ := compareAt_within_period rate latency begins begun recent ahead
    (force ▸ within)
  rw [force] at armed
  refine ⟨{ t' with counter := c }, ?_, armed, ?_⟩
  · rw [compareAt, compared]
    rfl
  · rw [UInt32.lt_iff_toNat_lt] at within
    change c.regs.armed = some (_ + (_ - (t'.counter.value R).toNat)) ↔ _
    rw [armed]
    split
    next comes => exact iff_of_true rfl comes
    next gone =>
      refine iff_of_false (fun same => ?_) gone
      have := Option.some.inj same
      omega

end FrameTimer

/-! ## An end of a period that waits -/

namespace Sample.Waiting

def timer : FrameTimer SymbolClock Unit := { counter := ⟨{ time := 0 }, 500, by decide, 0⟩ }

theorem spares : timer.Spares := ⟨nofun, nofun, nofun, nofun⟩

def deeds : List FrameDeed := [.pass 500, .latch, .pass 20]

end Sample.Waiting

open Sample.Waiting in
theorem FrameTimer.compare_counts_from_origin_sample :
    PeriodLedger.admitsAll { period := 500 } (deeds ++ [.interrupt .periodEnd]) = true ∧
      ∃ t t', timer.run (registers .reference 0 3)
          (.start 500 :: (deeds ++ [.interrupt .periodEnd])) = .ok t ∧
        t.compareAt (registers .reference 0 3) 100 = .ok t' ∧
        t'.counter.regs.armed = some (520 + (100 - 20)) := by
  have admitted :
      PeriodLedger.admitsAll { period := 500 } (deeds ++ [.interrupt .periodEnd]) = true := by
    decide
  have constant : PeriodLedger.Constant 500 (deeds ++ [.interrupt .periodEnd]) := by
    intro period mem
    simp [deeds] at mem
  obtain ⟨t, run, -, arms⟩ := FrameTimer.compare_counts_from_origin .reference 0 3 spares
    (show 0 < 500 by decide) admitted constant
  cases run
  obtain ⟨t', compared, armed, -⟩ :=
    arms 520 rfl (by decide) (by decide) 100 (by decide) (by decide)
  exact ⟨admitted, _, t', rfl, compared, armed⟩

open Sample.Waiting in
/-- Before it is served, the same event lies 420 ticks behind the raw counter. -/
theorem FrameTimer.compare_behind_while_end_waits :
    ∃ t t', timer.run (registers .reference 0 3) (.start 500 :: deeds) = .ok t ∧
      t.counter.regs.time = 520 ∧ t.value (registers .reference 0 3) = 20 ∧ t.period = 500 ∧
      t.compareAt (registers .reference 0 3) 100 = .ok t' ∧
      t'.counter.regs.armed = some (520 - 420 + 0x100000000) ∧
      t'.counter.regs.armed ≠ some (520 + (100 - 20)) :=
  ⟨_, _, rfl, rfl, by decide, rfl, rfl, by decide, by decide⟩

end SlotClock
