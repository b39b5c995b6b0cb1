import SlotClock.Proofs.Counter
import SlotClock.Source.SymbolCounter

/-!
# A symbol counter in absolute time

A `SymbolClock` is the radio hardware below a symbol counter, with a time that never
wraps.  Its raw counter runs `bias` ahead of the time, modulo a word.  Periods end
when the overflow compare matches; the match is latched, and some time later it is
served.  As long as the raw counter stays within a word of the origin, none of this
shows in the value of the counter.

## Registers
-/

namespace SlotClock

open Counter

structure SymbolClock where
  time : Nat
  compare : UInt32 := 0
  armed : Option Nat := none
  beacon : UInt32 := 0
  overflow : UInt32 := 0
  deriving DecidableEq, Repr

namespace SymbolClock

def rawAt (bias : UInt32) (time : Nat) : UInt32 := UInt32.ofNat time + bias

/-- The symbol counter of a clock; enabling the compare interrupt takes `latency` ticks. -/
def registers (rate : Rate) (bias : UInt32) (latency : Nat) : SymbolRegisters SymbolClock where
  rate := rate
  raw c := rawAt bias c.time
  beacon c := c.beacon
  writeCompare value c := .ok { c with compare := value }
  enableCompare c :=
    { c with
      time := c.time + latency
      armed := some (c.time + (c.compare - rawAt bias c.time).toNat) }
  disableCompare c := { c with armed := none }
  writeOverflow value c := { c with overflow := value }
  enableOverflow c := c
  disableOverflow c := c

def tickSource (rate : Rate) (bias : UInt32) (latency : Nat) : Source (SymbolCounter SymbolClock) :=
  SymbolCounter.source (registers rate bias latency)

def wait (ticks : Nat) (c : SymbolCounter SymbolClock) : SymbolCounter SymbolClock :=
  { c with regs.time := c.regs.time + ticks }

def latch (c : SymbolCounter SymbolClock) : SymbolCounter SymbolClock :=
  { c with regs.beacon := c.regs.overflow }

/-! ## Raw readings -/

variable {bias : UInt32}

theorem toNat_rawAt (bias : UInt32) (time : Nat) :
    (rawAt bias time).toNat = (time + bias.toNat) % 0x100000000 := by
  rw [rawAt, UInt32.toNat_add, UInt32.toNat_ofNat']
  omega

theorem rawAt_add (time : Nat) (ticks : UInt32) :
    rawAt bias time + ticks = rawAt bias (time + ticks.toNat) := by
  apply UInt32.toNat_inj.mp
  rw [UInt32.toNat_add, toNat_rawAt, toNat_rawAt]
  omega

theorem toNat_rawAt_sub {since time : Nat} (le : since ≤ time) (lt : time < since + 0x100000000) :
    (rawAt bias time - rawAt bias since).toNat = time - since := by
  rw [UInt32.toNat_sub, toNat_rawAt, toNat_rawAt]
  omega

/-! ## Periods -/

variable {start since : Nat} {c : SymbolCounter SymbolClock}

/-- The counter was started at `start`, and the period that it counts began at `since`. -/
structure Counts (bias : UInt32) (start since : Nat) (c : SymbolCounter SymbolClock) : Prop where
  started : start ≤ since
  whole : c.period.toNat ∣ since - start
  begun : since ≤ c.regs.time
  recent : c.regs.time < since + 0x100000000
  origin : c.origin = rawAt bias since
  overflow : c.regs.overflow = c.origin + c.period

def lag (bias : UInt32) (c : SymbolCounter SymbolClock) : Nat :=
  (rawAt bias c.regs.time - c.origin).toNat

/--
What the radio promises of a transition.  The raw counter stays within a word of the
origin, the overflow compare is latched at or after its match, and the end of a
period is served after it was latched.
-/
structure Lawful (bias : UInt32) (before after : SymbolCounter SymbolClock) : Prop where
  within : lag bias before + (after.regs.time - before.regs.time) < 0x100000000
  latched : after.regs.beacon = before.regs.beacon ∨ before.period.toNat ≤ lag bias before
  served : after.origin = before.origin ∨
    before.period.toNat ≤ lag bias before ∧ before.regs.beacon = before.regs.overflow

instance (before after : SymbolCounter SymbolClock) : Decidable (Lawful bias before after) :=
  decidable_of_iff
    (lag bias before + (after.regs.time - before.regs.time) < 0x100000000 ∧
      (after.regs.beacon = before.regs.beacon ∨ before.period.toNat ≤ lag bias before) ∧
      (after.origin = before.origin ∨
        before.period.toNat ≤ lag bias before ∧ before.regs.beacon = before.regs.overflow))
    ⟨fun ⟨within, latched, served⟩ => ⟨within, latched, served⟩,
      fun ⟨within, latched, served⟩ => ⟨within, latched, served⟩⟩

theorem Counts.lag_eq (counts : Counts bias start since c) : lag bias c = c.regs.time - since := by
  rw [lag, counts.origin]
  exact toNat_rawAt_sub counts.begun counts.recent

theorem Counts.onward {c' : SymbolCounter SymbolClock} (counts : Counts bias start since c)
    (lawful : Lawful bias c c') (period : c'.period = c.period) (origin : c'.origin = c.origin)
    (overflow : c'.regs.overflow = c.regs.overflow) (le : c.regs.time ≤ c'.regs.time) :
    Counts bias start since c' where
  started := counts.started
  whole := period ▸ counts.whole
  begun := Nat.le_trans counts.begun le
  recent := by
    have within := lawful.within
    have begun := counts.begun
    rw [counts.lag_eq] at within
    omega
  origin := origin.trans counts.origin
  overflow := by rw [overflow, origin, period, counts.overflow]

variable (rate : Rate) (latency : Nat)

theorem Counts.disarm (counts : Counts bias start since c) :
    Counts bias start since (c.disarm (registers rate bias latency)) :=
  ⟨counts.started, counts.whole, counts.begun, counts.recent, counts.origin, counts.overflow⟩

theorem Lawful.of_disarm {c' : SymbolCounter SymbolClock} (lawful : Lawful bias c c') :
    Lawful bias (c.disarm (registers rate bias latency)) c' :=
  ⟨lawful.within, lawful.latched, lawful.served⟩

theorem Counts.rollOver (counts : Counts bias start since c)
    (lawful : Lawful bias c (c.rollOver (registers rate bias latency))) :
    ∃ since, Counts bias start since (c.rollOver (registers rate bias latency)) := by
  have started := counts.started
  have begun := counts.begun
  have recent := counts.recent
  rcases lawful.served with stays | ⟨ended, latched⟩
  · exact ⟨since, started, counts.whole, begun, recent, stays.trans counts.origin, rfl⟩
  · rw [counts.lag_eq] at ended
    refine ⟨since + c.period.toNat, ?_, ?_, ?_, ?_, ?_, rfl⟩
    · omega
    · rw [show since + c.period.toNat - start = since - start + c.period.toNat by omega]
      exact (Nat.dvd_add_right counts.whole).mpr (Nat.dvd_refl _)
    · show since + c.period.toNat ≤ c.regs.time
      omega
    · show c.regs.time < since + c.period.toNat + 0x100000000
      omega
    · show c.regs.beacon = _
      rw [latched, counts.overflow, counts.origin, rawAt_add]

theorem counts_of_start (bias : UInt32) (c : SymbolCounter SymbolClock) :
    Counts bias c.regs.time c.regs.time (c.start (registers rate bias latency)) := by
  refine ⟨Nat.le_refl _, ?_, Nat.le_refl _, Nat.lt_add_of_pos_right (by decide), rfl, rfl⟩
  rw [Nat.sub_self]
  exact Nat.dvd_zero _

theorem counts_start (bias : UInt32) {regs : SymbolClock} {c : SymbolCounter SymbolClock}
    {period : UInt32} (made : SymbolCounter.ofPeriod regs period = .ok c) :
    Counts bias regs.time regs.time (c.start (registers rate bias latency)) ∧
      (c.start (registers rate bias latency)).period = period ∧
      (c.start (registers rate bias latency)).regs.time = regs.time ∧
      (c.start (registers rate bias latency)).regs.armed = regs.armed := by
  unfold SymbolCounter.ofPeriod at made
  split at made
  next pos =>
    cases made
    exact ⟨counts_of_start rate latency bias ⟨regs, period, pos, 0⟩, rfl, rfl, rfl⟩
  next => cases made

/-! ## The value -/

theorem Counts.toNat_value (counts : Counts bias start since c) :
    (c.value (registers rate bias latency)).toNat = (c.regs.time - start) % c.period.toNat := by
  obtain ⟨periods, whole⟩ := counts.whole
  have started := counts.started
  have begun := counts.begun
  have split : c.regs.time - start = c.regs.time - since + c.period.toNat * periods := by omega
  change ((rawAt bias c.regs.time - c.origin) % c.period).toNat = _
  rw [UInt32.toNat_mod, counts.origin, toNat_rawAt_sub begun counts.recent, split,
    Nat.add_mul_mod_self_left]

theorem Counts.shows_value (counts : Counts bias start since c) :
    Shows c.period.toNat (c.value (registers rate bias latency)) (c.regs.time - start) := by
  have started := counts.started
  have begun := counts.begun
  unfold Shows
  rw [counts.toNat_value, Int.natCast_emod, Int.emod_emod_of_dvd _ (Int.dvd_refl _)]
  congr 1
  omega

/-! ## Arming -/

@[simp] theorem toNat_period : c.period.toUInt64.toNat = c.period.toNat :=
  UInt32.toNat_toUInt64 _

theorem period_pos (c : SymbolCounter SymbolClock) : 0 < c.period.toNat :=
  UInt32.lt_iff_toNat_lt.mp c.period_pos

theorem Counts.distance_to_base (counts : Counts bias start since c) {base : UInt32} {elapsed : Nat}
    (shown : Shows c.period.toNat base (c.regs.time - elapsed - start))
    (near : 2 * elapsed < c.period.toNat) :
    distance c.period.toUInt64 (c.value (registers rate bias latency)) base =
      .ok (-(elapsed : Int)) := by
  have pos := period_pos c
  have small := Word.reading_lt c.period
  rw [distance_of_shows (s := c.regs.time - start) (t := c.regs.time - elapsed - start)
    (by rw [toNat_period]; exact pos) (by rw [toNat_period]; omega)
    (by rw [toNat_period]; exact counts.shows_value rate latency)
    (by rw [toNat_period]; exact shown), toNat_period, centred_of_window (by omega) (by omega)]
  congr 1
  omega

def expecting (bias : UInt32) (ahead : Nat) (time : Nat) (armed : Option Nat)
    (c : SymbolCounter SymbolClock) : SymbolCounter SymbolClock :=
  { c with
    regs.time := time
    regs.compare := rawAt bias (c.regs.time + ahead)
    regs.armed := armed }

theorem arm_of_lead {base : UInt32} {delay : UInt64} {lead : Int}
    (led : distance c.period.toUInt64 (c.value (registers rate bias latency)) base = .ok lead)
    (lo : -(c.period.toNat : Int) < 2 * lead) (hi : 2 * lead ≤ c.period.toNat)
    (short : delay.toNat ≤ c.period.toNat / 2) (soon : latency < 0x100000000) :
    c.arm (registers rate bias latency) base delay =
      .ok (if lead + delay.toNat ≤ 0 then (.missed, c)
        else if lead + delay.toNat ≤ latency then
          (.missed, expecting bias (lead + delay.toNat).toNat (c.regs.time + latency) none c)
        else
          (.armed delay, expecting bias (lead + delay.toNat).toNat (c.regs.time + latency)
            (some (c.regs.time + (lead + delay.toNat).toNat)) c)) := by
  have small := Word.reading_lt c.period
  have ahead : Signed.add lead (Word.toSigned delay) = .ok (lead + delay.toNat) := by
    rw [Word.toSigned_of_lt (by omega), Signed.add, Signed.fit_of_mem (by omega) (by omega)]
  have bound : lead + delay.toNat < 0x100000000 := by omega
  unfold SymbolCounter.arm
  simp only [led, ahead, bind, Except.bind]
  generalize lead + (delay.toNat : Int) = ticks at bound ⊢
  by_cases gone : ticks ≤ 0
  · rw [if_pos gone, if_pos gone]
    rfl
  · rw [if_neg gone, if_neg gone]
    have target : (registers rate bias latency).raw c.regs + Signed.low32 ticks =
        rawAt bias (c.regs.time + ticks.toNat) := by
      have word : (Signed.low32 ticks).toNat = ticks.toNat := by
        rw [Signed.low32, UInt32.toNat_ofNat_of_lt' (by rw [UInt32.size]; omega)]
        omega
      change rawAt bias c.regs.time + _ = _
      rw [rawAt_add, word]
    have settled : (rawAt bias (c.regs.time + latency) - rawAt bias c.regs.time).toNat = latency := by
      rw [toNat_rawAt_sub (by omega) (by omega)]
      omega
    have event : c.regs.time +
        (rawAt bias (c.regs.time + ticks.toNat) - rawAt bias c.regs.time).toNat =
          c.regs.time + ticks.toNat := by
      rw [toNat_rawAt_sub (by omega) (by omega)]
      omega
    rw [target]
    change (if ticks ≤
        ((rawAt bias (c.regs.time + latency) - rawAt bias c.regs.time).toNat : Int) then _ else
      (.ok (.armed delay, expecting bias ticks.toNat (c.regs.time + latency)
        (some (c.regs.time + (rawAt bias (c.regs.time + ticks.toNat) -
          rawAt bias c.regs.time).toNat)) c) : Except Fault (Arming × SymbolCounter SymbolClock))) = _
    rw [settled, event]
    split
    · rfl
    · rfl

theorem Counts.arm_eq (counts : Counts bias start since c) {base : UInt32} (elapsed : Nat)
    (delay : UInt64) (shown : Shows c.period.toNat base (c.regs.time - elapsed - start))
    (near : 2 * elapsed < c.period.toNat) (short : delay.toNat ≤ c.period.toNat / 2)
    (soon : latency < 0x100000000) :
    c.arm (registers rate bias latency) base delay =
      .ok (if delay.toNat ≤ elapsed then (.missed, c)
        else if delay.toNat ≤ elapsed + latency then
          (.missed, expecting bias (delay.toNat - elapsed) (c.regs.time + latency) none c)
        else
          (.armed delay, expecting bias (delay.toNat - elapsed) (c.regs.time + latency)
            (some (c.regs.time + (delay.toNat - elapsed))) c)) := by
  have lead := counts.distance_to_base rate latency shown near
  rw [arm_of_lead rate latency lead (by omega) (by omega) short soon,
    show (-(elapsed : Int) + delay.toNat).toNat = delay.toNat - elapsed by omega]
  by_cases gone : delay.toNat ≤ elapsed
  · rw [if_pos (by omega), if_pos gone]
  · rw [if_neg (by omega), if_neg gone]
    by_cases late : delay.toNat ≤ elapsed + latency
    · rw [if_pos (by omega), if_pos late]
    · rw [if_neg (by omega), if_neg late]

end SymbolClock

end SlotClock
