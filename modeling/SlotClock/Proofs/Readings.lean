import SlotClock.Proofs.Clock
import SlotClock.Proofs.Conversion
import SlotClock.Schedule

/-!
# Readings in reference ticks

A reading is shown in reference ticks, rounded down, in a word of 32 bits.  What is shown
depends on the reading alone.  A counter that is slower than the reference shows more than
it counts, and if it is wide as well, the word is too narrow: what is shown then goes back
to zero while the counter still goes on.
-/

namespace SlotClock

namespace Schedule

variable {σ : Type} {S : Source σ}

theorem referenceReading_eq (s : Schedule σ) :
    s.referenceReading S =
      .ok (UInt32.ofNat ((s.reading S).toNat * 32768 / S.rate.hertz.toNat)) :=
  Ratio.reading_in_reference_eq S.rate (s.reading S)

theorem referenceReading_mono {s s' : Schedule σ} (le : s.reading S ≤ s'.reading S)
    (fits : (s'.reading S).toNat * 32768 / S.rate.hertz.toNat < 0x100000000) :
    ∃ shown shown', s.referenceReading S = .ok shown ∧ s'.referenceReading S = .ok shown' ∧
      shown.toNat = (s.reading S).toNat * 32768 / S.rate.hertz.toNat ∧
      shown'.toNat = (s'.reading S).toNat * 32768 / S.rate.hertz.toNat ∧ shown ≤ shown' := by
  have order : (s.reading S).toNat * 32768 / S.rate.hertz.toNat ≤
      (s'.reading S).toNat * 32768 / S.rate.hertz.toNat :=
    Nat.div_le_div_right (Nat.mul_le_mul_right _ (UInt32.le_iff_toNat_le.mp le))
  have exact := UInt32.toNat_ofNat_of_lt' (Nat.lt_of_le_of_lt order fits)
  have exact' := UInt32.toNat_ofNat_of_lt' fits
  refine ⟨_, _, referenceReading_eq s, referenceReading_eq s', exact, exact', ?_⟩
  rw [UInt32.le_iff_toNat_le, exact, exact']
  exact order

end Schedule

namespace Clock

variable (rate : Rate) {top : UInt32} (latency : Nat)

private theorem reading_of_le {reading : Nat} (le : reading ≤ top.toNat) :
    (({ source := ⟨reading, 0, none⟩ } : Schedule Clock).reading
      (tickSource rate top latency)).toNat = reading :=
  (toNat_readingAt top reading).trans (Nat.mod_eq_of_lt (Nat.lt_succ_of_le le))

/--
A compare channel shows its readings in their order exactly if the highest one fits into 32
bits of reference ticks.
-/
theorem readings_in_order_iff :
    (∀ s s' : Schedule Clock,
      s.reading (tickSource rate top latency) ≤ s'.reading (tickSource rate top latency) →
      ∃ shown shown', s.referenceReading (tickSource rate top latency) = .ok shown ∧
        s'.referenceReading (tickSource rate top latency) = .ok shown' ∧ shown ≤ shown') ↔
      top.toNat * 32768 / rate.hertz.toNat < 0x100000000 := by
  have pos := rate.toNat_pos
  constructor
  · intro ordered
    refine Nat.lt_of_not_le fun wide => ?_
    rw [Nat.le_div_iff_mul_le pos] at wide
    -- The first reading that comes to 2^32 reference ticks, and the one before it.
    have high : 131072 * rate.hertz.toNat ≤ top.toNat := by omega
    have before := reading_of_le rate latency (Nat.le_trans (Nat.sub_le _ 1) high)
    have first := reading_of_le rate latency high
    obtain ⟨shown, shown', converted, converted', le⟩ :=
      ordered { source := ⟨131072 * rate.hertz.toNat - 1, 0, none⟩ }
        { source := ⟨131072 * rate.hertz.toNat, 0, none⟩ }
        (by rw [UInt32.le_iff_toNat_le, before, first]; exact Nat.sub_le _ 1)
    rw [Schedule.referenceReading_eq, before] at converted
    rw [Schedule.referenceReading_eq, first] at converted'
    change Except.ok (UInt32.ofNat (_ / rate.hertz.toNat)) = _ at converted converted'
    have zero : shown' = 0 := by
      have whole : 131072 * rate.hertz.toNat * 32768 / rate.hertz.toNat = 0x100000000 := by
        rw [Nat.mul_right_comm, Nat.mul_div_cancel _ pos]
      rw [whole] at converted'
      exact (Except.ok.inj converted').symm
    have nonzero : 1 ≤ (131072 * rate.hertz.toNat - 1) * 32768 / rate.hertz.toNat := by
      rw [Nat.le_div_iff_mul_le pos]
      omega
    have fits : (131072 * rate.hertz.toNat - 1) * 32768 / rate.hertz.toNat < 0x100000000 := by
      rw [Nat.div_lt_iff_lt_mul pos]
      omega
    have exact := UInt32.toNat_ofNat_of_lt' fits
    rw [Except.ok.inj converted] at exact
    rw [zero, UInt32.le_iff_toNat_le, exact] at le
    exact absurd (Nat.le_trans nonzero le) (by decide)
  · intro fits s s' le
    have below : (s'.reading (tickSource rate top latency)).toNat ≤ top.toNat := by
      have lt := Nat.mod_lt s'.source.time (Nat.succ_pos top.toNat)
      rw [← toNat_readingAt top] at lt
      exact Nat.le_of_lt_succ lt
    obtain ⟨shown, shown', converted, converted', -, -, order⟩ :=
      Schedule.referenceReading_mono le (Nat.lt_of_le_of_lt
        (Nat.div_le_div_right (Nat.mul_le_mul_right _ below)) fits)
    exact ⟨shown, shown', converted, converted', order⟩

end Clock

end SlotClock
