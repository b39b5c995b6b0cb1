import SlotClock.Proofs.Clock
import SlotClock.Proofs.Conservation
import SlotClock.Proofs.Conversion

/-!
# Schedules on a clock

On a `Clock` the operations that read the counter can be told in absolute time.
Each of them has one equation: where the reading lies within half a period of what
it is measured from, the distance is the true difference of the two times.

## Arming
-/

namespace SlotClock

open Counter Clock

namespace Schedule

variable (rate : Rate) {top : UInt32} (latency : Nat)

@[simp] theorem reading_on_clock (s : Schedule Clock) :
    s.reading (tickSource rate top latency) = readingAt (top.toNat + 1) s.source.time := rfl

@[simp] theorem period_on_clock (s : Schedule Clock) :
    s.period (tickSource rate top latency) = (channel rate top latency).period := rfl

def chunk (top : UInt32) (remaining : Nat) : Nat := min remaining ((top.toNat + 1) / 2)

theorem toNat_chunk (top : UInt32) (latency : Nat) (remaining : UInt64) :
    (min remaining ((channel rate top latency).period / 2)).toNat = chunk top remaining.toNat := by
  rw [Word.toNat_min_half, toNat_period, chunk]

/--
With a latency below half a period only the last chunk of a slot can be missed, and
then the slot is late.
-/
theorem armChunk_on_clock (quick : latency < (top.toNat + 1) / 2) {s : Schedule Clock}
    (remaining : UInt64) (pos : 0 < remaining.toNat) :
    s.armChunk (tickSource rate top latency) (readingAt (top.toNat + 1) s.source.time) remaining =
      .ok (if remaining.toNat ≤ latency
        then { s with
          source := ⟨s.source.time + latency,
            readingAt (top.toNat + 1) (s.source.time + chunk top remaining.toNat), none⟩
          due := true }
        else { s with
          source := ⟨s.source.time + latency,
            readingAt (top.toNat + 1) (s.source.time + chunk top remaining.toNat),
            some (s.source.time + chunk top remaining.toNat)⟩
          eventAt := readingAt (top.toNat + 1) (s.source.time + chunk top remaining.toNat)
          owed := UInt64.ofNat (remaining.toNat - chunk top remaining.toNat)
          phase := .armed }) := by
  have base := shows_readingAt top s.source.time
  have size := toNat_chunk rate top latency remaining
  have enough : ¬ remaining < 1 := by
    rw [UInt64.lt_iff_toNat_lt]
    exact Nat.not_lt.mpr pos
  have armed := arm_eq rate latency 0 (min remaining ((channel rate top latency).period / 2))
    (c := s.source) base rfl (by omega) (by rw [size, chunk]; omega)
  rw [size, Nat.zero_add] at armed
  have event := advance_of_shows rate latency
    (min remaining ((channel rate top latency).period / 2)) base
  rw [size] at event
  have le : min remaining ((channel rate top latency).period / 2) ≤ remaining := by
    rw [UInt64.le_iff_toNat_le, size, chunk]
    omega
  have rest : remaining - min remaining ((channel rate top latency).period / 2) =
      UInt64.ofNat (remaining.toNat - chunk top remaining.toNat) := by
    apply UInt64.toNat_inj.mp
    have whole := Word.toNat_lt remaining
    rw [UInt64.toNat_sub_of_le _ _ le, size, Word.toNat_ofNat (by omega)]
  have last : chunk top remaining.toNat ≤ latency ↔ remaining.toNat ≤ latency := by
    unfold chunk
    omega
  unfold armChunk
  change (if remaining < 1 then _ else (channel rate top latency).arm _ _ _ >>= _) = _
  rw [if_neg enough, period_on_clock, armed]
  simp only [last]
  by_cases missed : remaining.toNat ≤ latency
  · rw [if_pos missed, if_pos missed]
    rfl
  · rw [if_neg missed, if_neg missed]
    simp only [bind, Except.bind, event, Word.sub_of_le le, rest, pure, Except.pure]

/-! ## Planning -/

@[simp] theorem supersede_time (s : Schedule Clock) :
    (s.supersede (tickSource rate top latency)).source.time = s.source.time := by
  unfold supersede
  split <;> rfl

@[simp] theorem moved_time (carry : UInt64) (anchor : UInt32) (s : Schedule Clock) :
    (s.moved (tickSource rate top latency) carry anchor).source.time = s.source.time :=
  supersede_time rate latency s

theorem plan_on_clock {s : Schedule Clock} (delay : UInt32) {anchor : Int} {span : Nat}
    (carry : s.carry.toNat < (Ratio.between rate Rate.reference).den.toNat)
    (ticks : (Ratio.between rate Rate.reference).ticks s.carry delay = span)
    (shown : Shows (top.toNat + 1) s.anchor anchor)
    (lo : -((top.toNat + 1 : Nat) : Int) < 2 * (s.source.time - anchor))
    (hi : 2 * (s.source.time - anchor) ≤ (top.toNat + 1 : Nat)) :
    ∃ s₁ : Schedule Clock,
      s₁.carry = UInt64.ofNat ((Ratio.between rate Rate.reference).left s.carry delay) ∧
      Shows (top.toNat + 1) s₁.anchor (anchor + span) ∧
      s₁.phase = withoutEvent s.phase ∧ s₁.due = false ∧ s₁.owed = 0 ∧
      s₁.source.time = s.source.time ∧
      s.plan (tickSource rate top latency) delay =
        if span = 0 ∨ anchor + span ≤ s.source.time then .ok { s₁ with due := true }
        else
          s₁.armChunk (tickSource rate top latency) (readingAt (top.toNat + 1) s₁.source.time)
            (Word.ofSigned (anchor + span - s₁.source.time)) := by
  have pos := period_pos rate top latency
  have top_lt := toNat_top_lt top
  have word := Ratio.toNat_ticks rate Rate.reference carry delay
  have small := Ratio.ticks_lt rate carry delay
  have converted := Ratio.nativeOfDelay_eq rate Rate.reference carry delay
  rw [ticks] at word small converted
  have passed := distance_to_now rate latency shown lo hi
  have approach := Approach.of_eq (UInt64.ofNat span) (s.source.time - anchor) (by omega) (by omega) (by omega)
  have advanced := advance_eq pos (period_le rate top latency) s.anchor (UInt64.ofNat span)
  have onward : Shows (channel rate top latency).period.toNat _ (anchor + _) :=
    Shows.advance pos (period_le rate top latency) (by rw [toNat_period]; exact shown) advanced
  rw [toNat_period, word] at onward
  have gone : (span : Int) ≤ s.source.time - anchor ↔ anchor + span ≤ s.source.time := by
    omega
  have gap : (span : Int) - (s.source.time - anchor) = anchor + span - s.source.time := by
    omega
  refine ⟨s.moved (tickSource rate top latency) _ _, rfl, onward, supersede_phase s, rfl, rfl,
    supersede_time rate latency s, ?_⟩
  unfold plan
  simp only [supersede_carry, supersede_anchor, reading_on_clock, period_on_clock, supersede_time]
  rw [show (ratio (tickSource rate top latency)).nativeOfDelay s.carry delay = _ from converted]
  simp only [bind, Except.bind, passed, advanced, approach, word, gone, gap, toNat_period]
  by_cases arrived : span = 0 ∨ anchor + span ≤ s.source.time
  · rw [if_pos arrived, if_pos arrived]
    rfl
  · rw [if_neg arrived, if_neg arrived, moved_time]
    rfl

/-! ## Serving -/

theorem serve_on_clock {s : Schedule Clock} {event : Int} (armed : s.phase = .armed)
    (shown : Shows (top.toNat + 1) s.eventAt event)
    (lo : -((top.toNat + 1 : Nat) : Int) < 2 * (s.source.time - event))
    (hi : 2 * (s.source.time - event) ≤ (top.toNat + 1 : Nat))
    (small : s.owed.toNat < 0x8000000000000000)
    (fits : event + s.owed.toNat - s.source.time < 0x8000000000000000) :
    ∃ s₁, s₁.carry = s.carry ∧ s₁.anchor = s.anchor ∧ s₁.phase = .idle ∧ s₁.due = s.due ∧
      s₁.owed = 0 ∧ s₁.source.time = s.source.time ∧
      s.serve (tickSource rate top latency) =
        if s.owed = 0 ∨ event + s.owed.toNat ≤ s.source.time then .ok (true, s₁)
        else do
          return (← s₁.armChunk (tickSource rate top latency)
            (readingAt (top.toNat + 1) s₁.source.time)
            (Word.ofSigned (event + s.owed.toNat - s₁.source.time))).takeDue := by
  have pos := period_pos rate top latency
  have top_lt := toNat_top_lt top
  have late := distance_to_now rate latency shown lo hi
  have rest : Signed.sub (Word.toSigned s.owed) (s.source.time - event) =
      .ok (event + s.owed.toNat - s.source.time) := by
    rw [Word.toSigned_of_lt small, Signed.sub_of_mem (by omega) (by omega)]
    congr 1
    omega
  have gone : event + s.owed.toNat - s.source.time ≤ 0 ↔
      event + s.owed.toNat ≤ s.source.time := by omega
  refine ⟨s.spent (tickSource rate top latency), rfl, rfl, rfl, rfl, rfl, rfl, ?_⟩
  unfold serve
  simp only [armed, if_true]
  by_cases whole : s.owed = 0
  · rw [if_pos whole, if_pos (Or.inl whole)]
    rfl
  · rw [if_neg whole]
    unfold continueWith
    change (distance (channel rate top latency).period s.eventAt
      (readingAt (top.toNat + 1) s.source.time) >>= _) = _
    rw [late]
    simp only [bind, Except.bind, rest, whole, false_or, gone]
    rfl

end Schedule

end SlotClock
