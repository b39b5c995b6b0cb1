import Mathlib.Algebra.Group.Nat.Defs
import Mathlib.Order.Bounds.Basic
import SlotClock.Proofs.Outcome
import SlotClock.Source.IntervalTimer

/-!
# The longest interval within a delay

The doubling search stops at the greatest shift of the range whose interval is
within the delay, and no bit is lost on the way.  So an interval timer misses a
delay exactly if it is below the shortest interval, and otherwise it covers a power
of two that is within the delay.
-/

namespace SlotClock

private theorem Word.shiftLeft_of_lt {a : UInt64} {shift : Nat} (small : shift < 64)
    (fits : a.toNat * 2 ^ shift < 0x10000000000000000) :
    ∃ w, shiftLeft a shift = .ok w ∧ w.toNat = a.toNat * 2 ^ shift := by
  refine ⟨_, if_pos small, ?_⟩
  rw [Nat.shiftLeft_eq]
  exact toNat_ofNat fits

private theorem two_pow_lt_word {shift : Nat} (small : shift < 64) :
    2 ^ shift < 0x10000000000000000 :=
  Nat.pow_lt_pow_right (by decide) small

theorem Word.shiftLeft_one {shift : Nat} (small : shift < 64) :
    ∃ w, shiftLeft 1 shift = .ok w ∧ w.toNat = 2 ^ shift := by
  have one : (1 : UInt64).toNat = 1 := rfl
  have fits := two_pow_lt_word small
  simpa [one] using shiftLeft_of_lt (a := 1) small (by simpa [one] using fits)

namespace IntervalRange

private theorem grow_eq {delay : UInt64} {room shift : Nat} (within : 2 ^ shift ≤ delay.toNat)
    (small : shift + room < 64) :
    ∃ s, grow delay room shift = .ok s ∧ shift ≤ s ∧ s ≤ shift + room ∧ 2 ^ s ≤ delay.toNat ∧
      (s < shift + room → delay.toNat < 2 ^ (s + 1)) := by
  induction room generalizing shift with
  | zero => exact ⟨shift, rfl, Nat.le_refl _, Nat.le_refl _, within, by omega⟩
  | succ room ih =>
      have two : (2 : UInt64).toNat * 2 ^ shift = 2 ^ (shift + 1) := by
        rw [Nat.pow_succ, Nat.mul_comm]
        rfl
      have fits : 2 ^ (shift + 1) < 0x10000000000000000 := two_pow_lt_word (by omega)
      obtain ⟨double, shifted, exact⟩ :=
        Word.shiftLeft_of_lt (show shift < 64 by omega) (two ▸ fits)
      rw [two] at exact
      rw [grow, shifted]
      simp only [bind, Except.bind, UInt64.le_iff_toNat_le, exact]
      by_cases again : 2 ^ (shift + 1) ≤ delay.toNat
      · obtain ⟨s, found, lo, hi, le, greatest⟩ := ih again (by omega)
        rw [if_pos again]
        exact ⟨s, found, by omega, by omega, le, fun lt => greatest (by omega)⟩
      · rw [if_neg again]
        exact ⟨shift, rfl, Nat.le_refl _, by omega, within, fun _ => Nat.not_le.mp again⟩

variable {range : IntervalRange}

theorem longest?_of_lt (ordered : range.minShift ≤ range.maxShift) (small : range.maxShift < 64)
    {delay : UInt64} (below : delay.toNat < 2 ^ range.minShift) :
    range.longest? delay = .ok none := by
  obtain ⟨shortest, found, exact⟩ := Word.shiftLeft_one (show range.minShift < 64 by omega)
  rw [longest?, if_neg (by omega), IntervalRange.shortest, found]
  simp only [bind, Except.bind, UInt64.lt_iff_toNat_lt, exact, if_pos below]
  rfl

theorem longest?_of_le (ordered : range.minShift ≤ range.maxShift) (small : range.maxShift < 64)
    {delay : UInt64} (enough : 2 ^ range.minShift ≤ delay.toNat) :
    ∃ s, range.longest? delay = .ok (some s) ∧ range.minShift ≤ s ∧ s ≤ range.maxShift ∧
      2 ^ s ≤ delay.toNat ∧ (s < range.maxShift → delay.toNat < 2 ^ (s + 1)) := by
  obtain ⟨shortest, found, exact⟩ := Word.shiftLeft_one (show range.minShift < 64 by omega)
  obtain ⟨s, grown, lo, hi, le, greatest⟩ := grow_eq enough
    (show range.minShift + (range.maxShift - range.minShift) < 64 by omega)
  refine ⟨s, ?_, lo, by omega, le, fun lt => greatest (by omega)⟩
  rw [longest?, if_neg (by omega), IntervalRange.shortest, found]
  simp only [bind, Except.bind, UInt64.lt_iff_toNat_lt, exact, if_neg (Nat.not_lt.mpr enough), grown]
  rfl

theorem of_checked {minShift maxShift : Nat} (h : checked minShift maxShift = .ok range) :
    range = ⟨minShift, maxShift⟩ ∧ minShift ≤ maxShift ∧ maxShift < 32 := by
  unfold checked at h
  split at h
  next => cases h
  next ordered =>
    split at h
    next => cases h
    next short =>
      cases h
      exact ⟨rfl, Nat.not_lt.mp ordered, Nat.not_le.mp short⟩

/-- The doubling search from `shift` to `s`, in which every double is formed exactly. -/
inductive Doubles (delay : UInt64) : (room shift s : Nat) → Prop where
  | full (shift : Nat) : Doubles delay 0 shift shift
  | over {room shift : Nat} {double : UInt64} (doubled : Word.shiftLeft 2 shift = .ok double)
      (exact : double.toNat = 2 * 2 ^ shift) (gt : delay < double) :
      Doubles delay (room + 1) shift shift
  | within {room shift s : Nat} {double : UInt64} (doubled : Word.shiftLeft 2 shift = .ok double)
      (exact : double.toNat = 2 * 2 ^ shift) (le : double ≤ delay)
      (rest : Doubles delay room (shift + 1) s) : Doubles delay (room + 1) shift s

private theorem doubles_of_grow {delay : UInt64} {room shift s : Nat} (small : shift + room < 64)
    (h : grow delay room shift = .ok s) : Doubles delay room shift s := by
  induction room generalizing shift with
  | zero =>
      cases h
      exact .full _
  | succ room ih =>
      have fits : (2 : UInt64).toNat * 2 ^ shift < 0x10000000000000000 := by
        rw [UInt64.toNat_ofNat, Nat.mul_comm, ← Nat.pow_succ]
        exact two_pow_lt_word (by omega)
      obtain ⟨double, doubled, exact⟩ := Word.shiftLeft_of_lt (show shift < 64 by omega) fits
      rw [grow, doubled] at h
      simp only [bind, Except.bind] at h
      split at h
      next le => exact .within doubled exact le (ih (by omega) h)
      next gt =>
        cases h
        exact .over doubled exact (UInt64.not_le.mp gt)

theorem grow_of_longest? {delay : UInt64} {s : Nat} (found : range.longest? delay = .ok (some s)) :
    grow delay (range.maxShift - range.minShift) range.minShift = .ok s := by
  unfold longest? at found
  split at found
  next => cases found
  next =>
    obtain ⟨shortest, -, found⟩ := parts_of_bind found
    split at found
    next => cases found
    next =>
      obtain ⟨shift, grown, same⟩ := parts_of_bind found
      cases same
      exact grown

def fitting (range : IntervalRange) (delay : UInt64) : Set Nat :=
  {s | range.minShift ≤ s ∧ s ≤ range.maxShift ∧ 2 ^ s ≤ delay.toNat}

theorem fitting_mono (range : IntervalRange) {delay longer : UInt64} (le : delay ≤ longer) :
    range.fitting delay ⊆ range.fitting longer := by
  rintro s ⟨lo, hi, within⟩
  exact ⟨lo, hi, Nat.le_trans within (UInt64.le_iff_toNat_le.mp le)⟩

theorem longest?_isGreatest (ordered : range.minShift ≤ range.maxShift)
    (small : range.maxShift < 64) {delay : UInt64} (enough : 2 ^ range.minShift ≤ delay.toNat) :
    ∃ s, range.longest? delay = .ok (some s) ∧ IsGreatest (range.fitting delay) s := by
  obtain ⟨s, found, lo, hi, le, next⟩ := longest?_of_le ordered small enough
  refine ⟨s, found, ⟨lo, hi, le⟩, ?_⟩
  rintro r ⟨-, hi', le'⟩
  by_contra longer
  have double : 2 ^ (s + 1) ≤ 2 ^ r := Nat.pow_le_pow_right (by decide) (by omega)
  have short := next (by omega)
  omega

theorem lt_double_of_isGreatest {delay : UInt64} {s : Nat}
    (greatest : IsGreatest (range.fitting delay) s) (shorter : s ≠ range.maxShift) :
    delay.toNat < 2 * 2 ^ s := by
  obtain ⟨⟨lo, hi, -⟩, bound⟩ := greatest
  by_contra twice
  rw [Nat.mul_comm, ← Nat.pow_succ, Nat.not_lt] at twice
  have next : s + 1 ≤ s := bound ⟨by omega, by omega, twice⟩
  omega

/--
The search comes to an end on every delay, and loses no bit on the way.  It finds nothing
exactly if the delay is below the shortest interval.  Otherwise it finds the greatest shift
of the range whose interval is within the delay: this grows with the delay, and the interval
covers more than half of the delay unless it is the longest one.
-/
theorem longest_interval_found (ordered : range.minShift ≤ range.maxShift)
    (small : range.maxShift < 64) (delay : UInt64) :
    ∃ found, range.longest? delay = .ok found ∧
      (∃ shortest, range.shortest = .ok shortest ∧ shortest.toNat = 2 ^ range.minShift) ∧
      (found = none ↔ delay.toNat < 2 ^ range.minShift) ∧
      ∀ s, found = some s →
        IsGreatest (range.fitting delay) s ∧
        Doubles delay (range.maxShift - range.minShift) range.minShift s ∧
        (s ≠ range.maxShift → delay.toNat < 2 * 2 ^ s) ∧
        ∀ longer, delay ≤ longer → ∃ s', range.longest? longer = .ok (some s') ∧ s ≤ s' := by
  have shortest := Word.shiftLeft_one (show range.minShift < 64 by omega)
  rcases Nat.lt_or_ge delay.toNat (2 ^ range.minShift) with below | enough
  · exact ⟨none, longest?_of_lt ordered small below, shortest, iff_of_true rfl below, nofun⟩
  · obtain ⟨s, found, greatest⟩ := longest?_isGreatest ordered small enough
    refine ⟨some s, found, shortest, iff_of_false nofun (Nat.not_lt.mpr enough), ?_⟩
    intro r same
    obtain rfl := Option.some.inj same
    have doubles := doubles_of_grow (by omega) (grow_of_longest? found)
    refine ⟨greatest, doubles, lt_double_of_isGreatest greatest, fun longer le => ?_⟩
    obtain ⟨s', found', greatest'⟩ := longest?_isGreatest ordered small
      (Nat.le_trans enough (UInt64.le_iff_toNat_le.mp le))
    exact ⟨s', found', greatest.mono greatest' (fitting_mono range le)⟩

theorem longest_interval_of_63_bits :
    longest? ⟨0, 63⟩ 0xFFFFFFFFFFFFFFFF = .ok (some 63) := by
  have small : (⟨0, 63⟩ : IntervalRange).maxShift < 64 := by decide
  obtain ⟨found, returned, -, none, greatest⟩ :=
    longest_interval_found (by decide) small 0xFFFFFFFFFFFFFFFF
  cases found with
  | none => exact absurd (none.mp rfl) (by decide)
  | some s =>
      obtain ⟨⟨-, hi, -⟩, bound⟩ := (greatest s rfl).1
      have reached : 63 ≤ s := bound ⟨by decide, by decide, by decide⟩
      rwa [show s = 63 from Nat.le_antisymm hi reached] at returned

end IntervalRange

namespace IntervalTimer

variable {ρ : Type} (R : IntervalRegisters ρ) {range : IntervalRange}

theorem started_of_arm (ordered : range.minShift ≤ range.maxShift) (small : range.maxShift < 64)
    {delay : UInt64} (enough : 2 ^ range.minShift ≤ delay.toNat) {answer : Arming}
    {t t' : IntervalTimer ρ} (h : arm R range delay t = .ok (answer, t')) :
    ∃ shift interval regs, range.minShift ≤ shift ∧ shift ≤ range.maxShift ∧
      2 ^ shift ≤ delay.toNat ∧ (shift < range.maxShift → delay.toNat < 2 ^ (shift + 1)) ∧
      R.start shift t.regs = .ok regs ∧ interval.toNat = 2 ^ shift ∧ answer = .armed interval ∧
      t' = { t with regs := regs, running := some interval } := by
  obtain ⟨shift, found, lo, hi, le, greatest⟩ := IntervalRange.longest?_of_le ordered small enough
  obtain ⟨interval, shifted, exact⟩ := Word.shiftLeft_one (show shift < 64 by omega)
  simp only [arm, found, bind, Except.bind] at h
  obtain ⟨regs, started, h⟩ := parts_of_bind h
  rw [shifted] at h
  cases h
  exact ⟨shift, interval, regs, lo, hi, le, greatest, started, exact, rfl, rfl⟩

theorem covered_of_arm (ordered : range.minShift ≤ range.maxShift) (small : range.maxShift < 64)
    {delay : UInt64} (enough : 2 ^ range.minShift ≤ delay.toNat) {answer : Arming}
    {t t' : IntervalTimer ρ} (h : arm R range delay t = .ok (answer, t')) :
    ∃ interval, answer = .armed interval ∧ interval.toNat ≤ delay.toNat ∧
      t'.counted = t.counted ∧ t'.running = some interval := by
  obtain ⟨shift, interval, regs, -, -, le, -, -, exact, rfl, rfl⟩ :=
    started_of_arm R ordered small enough h
  exact ⟨interval, rfl, exact ▸ le, rfl, rfl⟩

end IntervalTimer

end SlotClock
