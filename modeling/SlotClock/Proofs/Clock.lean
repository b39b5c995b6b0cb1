import SlotClock.Proofs.Counter
import SlotClock.Source.OutputCompare

/-!
# A compare channel in absolute time

A `Clock` is hardware whose time never wraps: its counter reads the time modulo the
period, and an event is armed for an absolute time.  An event that is enabled comes
when the counter next reads the compare value.  A match that goes by before that is
lost, and the counter has to come round again.

## Periods
-/

namespace SlotClock

open Counter

namespace CompareChannel

variable {ρ : Type} (C : CompareChannel ρ)

theorem toNat_period : C.period.toNat = C.top.toNat + 1 := by
  have top := Word.reading_lt C.top
  have one : (1 : UInt64).toNat = 1 := rfl
  unfold period
  rw [UInt64.toNat_add, UInt32.toNat_toUInt64, one, Nat.mod_eq_of_lt (by omega)]

theorem period_pos : 0 < C.period.toNat := by
  rw [toNat_period]
  omega

theorem period_le : C.period.toNat ≤ 0x100000000 := by
  rw [toNat_period]
  exact Word.reading_lt C.top

end CompareChannel

/-! ## Registers -/

structure Clock where
  time : Nat
  compare : UInt32 := 0
  armed : Option Nat := none
  deriving DecidableEq, Repr

namespace Clock

/-- The first time, from `time` on, at which a counter of period `p` reads `value`. -/
def nextShowing (p value time : Nat) : Nat := time + (value + p - time % p) % p

def wait (ticks : Nat) (c : Clock) : Except Fault Clock := .ok { c with time := c.time + ticks }

def readingAt (p time : Nat) : UInt32 := UInt32.ofNat (time % p)

/-- The compare channel of a clock; `latency` ticks go by before a written value is in force. -/
def channel (rate : Rate) (top : UInt32) (latency : Nat) : CompareChannel Clock where
  rate := rate
  top := top
  writeCycles := 0
  reading c := readingAt (top.toNat + 1) c.time
  writeCompare value c := .ok { c with compare := value }
  enable c := { c with armed := some (nextShowing (top.toNat + 1) c.compare.toNat c.time) }
  disable c := { c with armed := none }
  clearFlag c := c
  spend _ c := .ok { c with time := c.time + latency }

def tickSource (rate : Rate) (top : UInt32) (latency : Nat) : Source Clock :=
  (channel rate top latency).source

/-! ## Readings and matches -/

private theorem nextShowing_eq {p value time t : Nat} (le : time ≤ t) (lt : t < time + p)
    (shown : t % p = value) : nextShowing p value time = t := by
  obtain ⟨ahead, rfl⟩ := Nat.exists_eq_add_of_le le
  have within : time % p < p := Nat.mod_lt _ (by omega)
  have reading : (time % p + ahead) % p = value := by rw [Nat.mod_add_mod, shown]
  have gap : (value + p - time % p) % p = ahead := by
    by_cases wraps : time % p + ahead < p
    · rw [Nat.mod_eq_of_lt wraps] at reading
      have whole : value + p - time % p = ahead + p := by omega
      rw [whole, Nat.add_mod_right, Nat.mod_eq_of_lt (by omega)]
    · rw [Nat.mod_eq_sub_mod (by omega), Nat.mod_eq_of_lt (by omega)] at reading
      have rest : value + p - time % p = ahead := by omega
      rw [rest, Nat.mod_eq_of_lt (by omega)]
  unfold nextShowing
  rw [gap]

variable (rate : Rate) (top : UInt32) (latency : Nat)

theorem toNat_top_lt : top.toNat + 1 ≤ 0x100000000 := Word.reading_lt top

@[simp] theorem toNat_period : (channel rate top latency).period.toNat = top.toNat + 1 :=
  (channel rate top latency).toNat_period

theorem period_pos : 0 < (channel rate top latency).period.toNat :=
  (channel rate top latency).period_pos

theorem period_le : (channel rate top latency).period.toNat ≤ 0x100000000 :=
  (channel rate top latency).period_le

theorem toNat_readingAt (time : Nat) :
    (readingAt (top.toNat + 1) time).toNat = time % (top.toNat + 1) := by
  have lt : time % (top.toNat + 1) < top.toNat + 1 := Nat.mod_lt _ (by omega)
  exact UInt32.toNat_ofNat_of_lt' (Nat.lt_of_lt_of_le lt (toNat_top_lt top))

theorem shows_readingAt (time : Nat) :
    Shows (top.toNat + 1) (readingAt (top.toNat + 1) time) time := by
  unfold Shows
  rw [toNat_readingAt, Int.natCast_emod, Int.emod_emod_of_dvd _ (Int.dvd_refl _)]

variable {top}

private theorem toNat_mod_of_shows {r : UInt32} {time : Nat}
    (shown : Shows (top.toNat + 1) r time) :
    r.toNat % (top.toNat + 1) = time % (top.toNat + 1) := by
  unfold Shows at shown
  exact_mod_cast shown

theorem advance_of_shows {base : UInt32} {start : Nat} (delay : UInt64)
    (shown : Shows (top.toNat + 1) base start) :
    advance (channel rate top latency).period base delay =
      .ok (readingAt (top.toNat + 1) (start + delay.toNat)) := by
  rw [advance_eq (period_pos rate top latency) (period_le rate top latency), toNat_period,
    ← Nat.mod_add_mod, toNat_mod_of_shows shown, Nat.mod_add_mod]
  rfl

theorem distance_to_now {base : UInt32} {start : Int} {time : Nat}
    (shown : Shows (top.toNat + 1) base start)
    (lo : -((top.toNat + 1 : Nat) : Int) < 2 * (time - start))
    (hi : 2 * (time - start) ≤ (top.toNat + 1 : Nat)) :
    distance (channel rate top latency).period base (readingAt (top.toNat + 1) time) =
      .ok (time - start) := by
  have top_lt := toNat_top_lt top
  have now := shows_readingAt top time
  have exact := toNat_period rate top latency
  rw [distance_of_shows (s := start) (t := time) (period_pos rate top latency) (by omega)
    (by rw [exact]; exact shown) (by rw [exact]; exact now), exact, centred_of_window lo hi]

theorem shows_of_distance {base : UInt32} {time : Nat} {elapsed : Int}
    (passed : distance (channel rate top latency).period base (readingAt (top.toNat + 1) time) =
      .ok elapsed) :
    -((top.toNat + 1 : Nat) : Int) < 2 * elapsed ∧ 2 * elapsed ≤ (top.toNat + 1 : Nat) ∧
      Shows (top.toNat + 1) base (time - elapsed) := by
  have le := period_le rate top latency
  rw [distance_eq (period_pos rate top latency) (by omega), toNat_period] at passed
  cases passed
  obtain ⟨lo, hi⟩ := centred_window (p := top.toNat + 1) (by omega)
    ((readingAt (top.toNat + 1) time).toNat - (base.toNat : Int))
  have now := shows_readingAt top time
  refine ⟨lo, hi, ?_⟩
  unfold Shows at now ⊢
  rw [Int.sub_emod, centred_emod, ← now, ← Int.sub_emod]
  congr 1
  omega

theorem arm_eq {base : UInt32} {start : Nat} (elapsed : Nat) (delay : UInt64) {c : Clock}
    (shown : Shows (top.toNat + 1) base start) (time : c.time = start + elapsed)
    (soon : elapsed + latency ≤ (top.toNat + 1) / 2) (short : delay.toNat ≤ (top.toNat + 1) / 2) :
    (channel rate top latency).arm base delay c =
      .ok (if delay.toNat ≤ elapsed + latency
        then (.missed,
          ⟨c.time + latency, readingAt (top.toNat + 1) (start + delay.toNat), c.armed⟩)
        else (.armed delay,
          ⟨c.time + latency, readingAt (top.toNat + 1) (start + delay.toNat),
            some (start + delay.toNat)⟩)) := by
  have top_lt := toNat_top_lt top
  have passed : distance (channel rate top latency).period base
      (readingAt (top.toNat + 1) (c.time + latency)) = .ok (elapsed + latency : Nat) := by
    rw [distance_to_now rate latency shown (by omega) (by omega)]
    congr 1
    omega
  have word := Word.toNat_ofSigned (z := (elapsed + latency : Nat)) (by omega) (by omega)
  have gone : (0 ≤ ((elapsed + latency : Nat) : Int) ∧
      delay ≤ Word.ofSigned (elapsed + latency : Nat)) ↔ delay.toNat ≤ elapsed + latency := by
    rw [UInt64.le_iff_toNat_le]
    omega
  unfold CompareChannel.arm
  rw [advance_of_shows rate latency delay shown]
  change (distance (channel rate top latency).period base
      (readingAt (top.toNat + 1) (c.time + latency)) >>= fun passed =>
    if 0 ≤ passed ∧ delay ≤ Word.ofSigned passed then
      (.ok (Arming.missed,
        Clock.mk (c.time + latency) (readingAt (top.toNat + 1) (start + delay.toNat)) c.armed) :
          Except Fault (Arming × Clock))
    else
      .ok (.armed delay,
        ⟨c.time + latency, readingAt (top.toNat + 1) (start + delay.toNat),
          some (nextShowing (top.toNat + 1)
            (readingAt (top.toNat + 1) (start + delay.toNat)).toNat (c.time + latency))⟩)) = _
  rw [passed]
  simp only [bind, Except.bind]
  simp only [gone]
  split
  next => rfl
  next ahead =>
    have comes : nextShowing (top.toNat + 1)
        (readingAt (top.toNat + 1) (start + delay.toNat)).toNat (c.time + latency) =
          start + delay.toNat := by
      apply nextShowing_eq
      · omega
      · omega
      · rw [toNat_readingAt]
    rw [comes]

end Clock

end SlotClock
