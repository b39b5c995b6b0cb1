import Mathlib.Algebra.GroupWithZero.Nat
import SlotClock.Bench.RateSession
import SlotClock.Proofs.Conversion

/-!
# What delays add up to

Each delay is rounded down to native ticks, and the carry keeps what the rounding takes
away.  So a list of delays comes to the native ticks of its sum, rounded down once, and it
makes no difference into which delays the sum is divided.

There and back again a number is rounded down twice.  It never grows, and what it loses is
less than a tick of the one clock and a tick of the other.

## Lowest terms
-/

namespace SlotClock.Ratio

open Bench

def euclid (a b : UInt64) : UInt64 :=
  if b = 0 then a else euclid b (a % b)
termination_by b.toNat
decreasing_by
  rename_i rest
  rw [UInt64.toNat_mod]
  exact Nat.mod_lt _ (Nat.pos_of_ne_zero fun none => rest (UInt64.toNat_inj.mp none))

private theorem toNat_euclid (a b : UInt64) : (euclid a b).toNat = Nat.gcd a.toNat b.toNat := by
  fun_induction euclid a b with
  | case1 a => exact (Nat.gcd_zero_right _).symm
  | case2 a b rest ih => rw [ih, UInt64.toNat_mod, Nat.gcd_comm, ← Nat.gcd_rec, Nat.gcd_comm]

variable (native reference : Rate)

private theorem between_eq_euclid :
    between native reference =
      ⟨native.hertz.toUInt64 / euclid native.hertz.toUInt64 reference.hertz.toUInt64,
        reference.hertz.toUInt64 / euclid native.hertz.toUInt64 reference.hertz.toUInt64⟩ := by
  have divisor : (euclid native.hertz.toUInt64 reference.hertz.toUInt64).toNat =
      common native reference := by
    rw [toNat_euclid, UInt32.toNat_toUInt64, UInt32.toNat_toUInt64, common]
  have whole (rate : Rate) :
      (UInt64.ofNat (rate.hertz.toNat / common native reference)) =
        rate.hertz.toUInt64 / euclid native.hertz.toUInt64 reference.hertz.toUInt64 := by
    have small : rate.hertz.toNat / common native reference < 0x10000000000000000 :=
      Nat.lt_of_le_of_lt (Nat.div_le_self _ _) (by have := rate.toNat_lt; omega)
    apply UInt64.toNat_inj.mp
    rw [Word.toNat_ofNat small, UInt64.toNat_div, divisor, UInt32.toNat_toUInt64]
  rw [← whole native, ← whole reference]
  rfl

/-! ## Delays -/

/-- The native ticks of a list of delays, each converted with the carry of those before it. -/
def nativeOfDelays (r : Ratio) (carry : UInt64) : List UInt32 → Except Fault (Nat × UInt64)
  | [] => .ok (0, carry)
  | delay :: rest => do
    let (native, carry) ← r.nativeOfDelay carry delay
    let (later, carry) ← nativeOfDelays r carry rest
    return (native.toNat + later, carry)

theorem nativeOfDelays_sum {carry : UInt64}
    (h : carry.toNat < (between native reference).den.toNat) (delays : List UInt32) :
    (between native reference).nativeOfDelays carry delays =
      .ok ((carry.toNat + (delays.map UInt32.toNat).sum * (between native reference).num.toNat) /
          (between native reference).den.toNat,
        UInt64.ofNat ((carry.toNat + (delays.map UInt32.toNat).sum *
          (between native reference).num.toNat) % (between native reference).den.toNat)) := by
  induction delays generalizing carry with
  | nil => simp [nativeOfDelays, Nat.div_eq_of_lt h, Nat.mod_eq_of_lt h]
  | cons delay rest ih =>
      have pos := den_pos native reference
      have whole := toNat_ticks native reference h delay
      have kept := toNat_left native reference h delay
      have later := ih (kept ▸ left_lt native reference carry delay)
      have sum : carry.toNat + ((delay :: rest).map UInt32.toNat).sum *
            (between native reference).num.toNat =
          left (between native reference) carry delay +
            (rest.map UInt32.toNat).sum * (between native reference).num.toNat +
            (between native reference).den.toNat *
              ticks (between native reference) carry delay := by
        have parts := Nat.mod_add_div (scaled (between native reference) carry delay)
          (between native reference).den.toNat
        rw [List.map_cons, List.sum_cons, Nat.add_mul, ticks, left]
        unfold scaled at parts ⊢
        omega
      rw [sum, Nat.add_mul_div_left _ _ pos, Nat.add_mul_mod_self_left, nativeOfDelays,
        nativeOfDelay_eq native reference h]
      simp only [bind, Except.bind, later, pure, Except.pure, whole, kept]
      rw [Nat.add_comm]

private theorem nativeOfDelays_zero (delays : List UInt32) :
    (between native reference).nativeOfDelays 0 delays =
      .ok ((delays.map UInt32.toNat).sum * native.hertz.toNat / reference.hertz.toNat,
        UInt64.ofNat ((delays.map UInt32.toNat).sum * (between native reference).num.toNat %
          (between native reference).den.toNat)) := by
  have none : (0 : UInt64).toNat = 0 := rfl
  have start : (0 : UInt64).toNat < (between native reference).den.toNat :=
    den_pos native reference
  rw [nativeOfDelays_sum native reference start, none, Nat.zero_add, mul_num_div_den]

/--
No list of delays overflows a word on the way.  It comes to the native ticks of its sum,
like every other list of that sum, and leaves less than a native tick as the carry.  A
reset begins all over again, whatever the carry.
-/
theorem delays_add_up (delays : List UInt32) :
    let ratio := between native reference
    let divisor := euclid native.hertz.toUInt64 reference.hertz.toUInt64
    let sum := (delays.map UInt32.toNat).sum
    ratio = ⟨native.hertz.toUInt64 / divisor, reference.hertz.toUInt64 / divisor⟩ ∧
      ∃ total carry, ratio.nativeOfDelays 0 delays = .ok (total, carry) ∧
        carry.toNat < ratio.den.toNat ∧ carry.toNat = sum * ratio.num.toNat % ratio.den.toNat ∧
        total = sum * native.hertz.toNat / reference.hertz.toNat ∧
        (∀ others : List UInt32, (others.map UInt32.toNat).sum = sum →
          ratio.nativeOfDelays 0 others = .ok (total, carry)) ∧
        ∀ (left : UInt64) (later : List RateStep),
          trace (RateStep.run ratio) left (.reset :: later) = .ok none :: runRates ratio later := by
  intro ratio divisor sum
  have below : sum * ratio.num.toNat % ratio.den.toNat < ratio.den.toNat :=
    Nat.mod_lt _ (den_pos native reference)
  have kept : (UInt64.ofNat (sum * ratio.num.toNat % ratio.den.toNat)).toNat =
      sum * ratio.num.toNat % ratio.den.toNat :=
    Word.toNat_ofNat (Nat.lt_trans below (Word.toNat_lt _))
  refine ⟨between_eq_euclid native reference, _, _, nativeOfDelays_zero native reference delays,
    ?_, kept, rfl, fun others same => ?_, fun left later => rfl⟩
  · rw [kept]
    exact below
  · rw [nativeOfDelays_zero, same]

theorem thousand_delays_add_up :
    ∃ carry,
      (between .symbol .reference).nativeOfDelays 0 (List.replicate 1000 492) =
        .ok (938415, carry) ∧
      (between .symbol .reference).nativeOfDelays 0 [492000] = .ok (938415, carry) := by
  have sum : ((List.replicate 1000 (492 : UInt32)).map UInt32.toNat).sum = 492000 := by
    rw [List.map_replicate, List.sum_replicate_nat]
    rfl
  obtain ⟨-, total, carry, converted, -, -, exact, others, -⟩ :=
    delays_add_up .symbol .reference (List.replicate 1000 492)
  rw [sum] at exact others
  obtain rfl : total = 938415 := exact
  exact ⟨carry, converted, others [492000] rfl⟩

/-! ## There and back -/

theorem there_and_back (x : Nat) {a b : Nat} (there : 0 < a) (back : 0 < b) :
    x * a / b * b / a ≤ x ∧ (x - x * a / b * b / a) * a < a + b := by
  have first_le := Nat.div_mul_le_self (x * a) b
  have first_lt := Nat.lt_div_mul_add back (a := x * a)
  have second_le := Nat.div_mul_le_self (x * a / b * b) a
  have second_lt := Nat.lt_div_mul_add there (a := x * a / b * b)
  constructor
  · exact Nat.le_of_mul_le_mul_right (Nat.le_trans second_le first_le) there
  · rw [Nat.sub_mul]
    omega

private theorem den_le_num (fast : reference.hertz ≤ native.hertz) :
    (between native reference).den.toNat ≤ (between native reference).num.toNat := by
  refine Nat.le_of_mul_le_mul_right ?_ (common_pos native reference)
  rw [num_mul_common, den_mul_common]
  exact UInt32.le_iff_toNat_le.mp fast

variable {native reference}

private theorem referenceOfReading_of_fits {reading : UInt64}
    (fits : reading.toNat * (between native reference).den.toNat < 0x10000000000000000) :
    ∃ delay, (between native reference).referenceOfReading reading = .ok delay ∧
      delay.toNat = reading.toNat * (between native reference).den.toNat /
        (between native reference).num.toNat :=
  ⟨_, referenceOfReading_eq native reference fits,
    Word.toNat_ofNat (Nat.lt_of_le_of_lt (Nat.div_le_self _ _) fits)⟩

theorem referenceOfReading_mono {x y : UInt64} (le : x ≤ y)
    (fits : y.toNat * (between native reference).den.toNat < 0x10000000000000000) :
    ∃ x' y', (between native reference).referenceOfReading x = .ok x' ∧
      (between native reference).referenceOfReading y = .ok y' ∧ x' ≤ y' := by
  have scaled := Nat.mul_le_mul_right (between native reference).den.toNat
    (UInt64.le_iff_toNat_le.mp le)
  obtain ⟨x', converted, exact⟩ := referenceOfReading_of_fits (Nat.lt_of_le_of_lt scaled fits)
  obtain ⟨y', converted', exact'⟩ := referenceOfReading_of_fits fits
  refine ⟨x', y', converted, converted', ?_⟩
  rw [UInt64.le_iff_toNat_le, exact, exact']
  exact Nat.div_le_div_right scaled

theorem nativeOfDelay_mono {carry : UInt64} {delay delay' : UInt32}
    (h : carry.toNat < (between native reference).den.toNat) (le : delay ≤ delay') :
    ∃ span left span' left',
      (between native reference).nativeOfDelay carry delay = .ok (span, left) ∧
      (between native reference).nativeOfDelay carry delay' = .ok (span', left') ∧
      span ≤ span' := by
  refine ⟨_, _, _, _, nativeOfDelay_eq native reference h delay,
    nativeOfDelay_eq native reference h delay', ?_⟩
  rw [UInt64.le_iff_toNat_le, toNat_ticks native reference h, toNat_ticks native reference h]
  refine Nat.div_le_div_right (Nat.add_le_add_right (Nat.mul_le_mul_right _ ?_) _)
  exact UInt32.le_iff_toNat_le.mp le

theorem back_of_total (delays : List UInt32) {total : UInt64}
    (exact : total.toNat = (delays.map UInt32.toNat).sum * (between native reference).num.toNat /
      (between native reference).den.toNat)
    (fits : total.toNat * (between native reference).den.toNat < 0x10000000000000000) :
    ∃ back, (between native reference).referenceOfReading total = .ok back ∧
      back.toNat ≤ (delays.map UInt32.toNat).sum ∧
      ((delays.map UInt32.toNat).sum - back.toNat) * (between native reference).num.toNat <
        (between native reference).num.toNat + (between native reference).den.toNat ∧
      (reference.hertz ≤ native.hertz →
        back.toNat = (delays.map UInt32.toNat).sum ∨
          back.toNat + 1 = (delays.map UInt32.toNat).sum) := by
  obtain ⟨back, converted, floor⟩ := referenceOfReading_of_fits fits
  obtain ⟨le, near⟩ := there_and_back (delays.map UInt32.toNat).sum (num_pos native reference)
    (den_pos native reference)
  rw [← exact, ← floor] at le near
  refine ⟨back, converted, le, near, fun fast => ?_⟩
  have two : (delays.map UInt32.toNat).sum - back.toNat < 2 := by
    refine Nat.lt_of_mul_lt_mul_right (Nat.lt_of_lt_of_le near ?_)
    rw [Nat.two_mul]
    exact Nat.add_le_add_left (den_le_num native reference fast) _
  omega

theorem back_of_reading {reading : UInt64}
    (fits : reading.toNat * (between native reference).den.toNat < 0x10000000000000000) :
    ∃ delay, (between native reference).referenceOfReading reading = .ok delay ∧
      (delay.toNat < 0x100000000 →
        ∃ back carry,
          (between native reference).nativeOfDelay 0 delay.toUInt32 = .ok (back, carry) ∧
          back.toNat ≤ reading.toNat ∧
          (reading.toNat - back.toNat) * (between native reference).den.toNat <
            (between native reference).num.toNat + (between native reference).den.toNat) := by
  obtain ⟨delay, converted, floor⟩ := referenceOfReading_of_fits fits
  refine ⟨delay, converted, fun short => ?_⟩
  have start : (0 : UInt64).toNat < (between native reference).den.toNat :=
    den_pos native reference
  have whole : (ticks (between native reference) 0 delay.toUInt32) =
      delay.toNat * (between native reference).num.toNat /
        (between native reference).den.toNat := by
    rw [ticks, scaled, UInt64.toNat_toUInt32, Nat.mod_eq_of_lt short]
    rfl
  obtain ⟨le, near⟩ := there_and_back reading.toNat (den_pos native reference)
    (num_pos native reference)
  rw [← floor, ← whole, ← toNat_ticks native reference start] at le near
  refine ⟨_, _, nativeOfDelay_eq native reference start delay.toUInt32, le, ?_⟩
  rwa [Nat.add_comm]

theorem nativeOfDelays_mono {shorter longer : List UInt32}
    (le : (shorter.map UInt32.toNat).sum ≤ (longer.map UInt32.toNat).sum) :
    ∃ total carry total' carry',
      (between native reference).nativeOfDelays 0 shorter = .ok (total, carry) ∧
      (between native reference).nativeOfDelays 0 longer = .ok (total', carry') ∧
      total ≤ total' :=
  ⟨_, _, _, _, nativeOfDelays_zero native reference shorter,
    nativeOfDelays_zero native reference longer,
    Nat.div_le_div_right (Nat.mul_le_mul_right _ le)⟩

/--
The native total of a list of delays leads back to its sum, and the reference ticks of a
reading lead back to the reading, up to what is rounded away: less than one tick of each
clock.  On a counter that is not slower than the reference this is at most one reference
tick.  Neither direction reverses an order.
-/
theorem conversions_agree (native reference : Rate) :
    let ratio := between native reference
    (∀ delays : List UInt32, ∃ total carry,
      ratio.nativeOfDelays 0 delays = .ok (total, carry) ∧
      (total * ratio.den.toNat < 0x10000000000000000 →
        let sum := (delays.map UInt32.toNat).sum
        ∃ back, ratio.referenceOfReading (UInt64.ofNat total) = .ok back ∧ back.toNat ≤ sum ∧
          (sum - back.toNat) * ratio.num.toNat < ratio.num.toNat + ratio.den.toNat ∧
          (reference.hertz ≤ native.hertz → back.toNat = sum ∨ back.toNat + 1 = sum))) ∧
    (∀ reading : UInt64, reading.toNat * ratio.den.toNat < 0x10000000000000000 →
      ∃ delay, ratio.referenceOfReading reading = .ok delay ∧
        (delay.toNat < 0x100000000 →
          ∃ back carry, ratio.nativeOfDelay 0 delay.toUInt32 = .ok (back, carry) ∧
            back.toNat ≤ reading.toNat ∧
            (reading.toNat - back.toNat) * ratio.den.toNat <
              ratio.num.toNat + ratio.den.toNat)) ∧
    (∀ x y : UInt64, x ≤ y → y.toNat * ratio.den.toNat < 0x10000000000000000 →
      ∃ x' y', ratio.referenceOfReading x = .ok x' ∧ ratio.referenceOfReading y = .ok y' ∧
        x' ≤ y') ∧
    (∀ (carry : UInt64) (delay delay' : UInt32), carry.toNat < ratio.den.toNat → delay ≤ delay' →
      ∃ span left span' left', ratio.nativeOfDelay carry delay = .ok (span, left) ∧
        ratio.nativeOfDelay carry delay' = .ok (span', left') ∧ span ≤ span') ∧
    ∀ shorter longer : List UInt32,
      (shorter.map UInt32.toNat).sum ≤ (longer.map UInt32.toNat).sum →
      ∃ total carry total' carry', ratio.nativeOfDelays 0 shorter = .ok (total, carry) ∧
        ratio.nativeOfDelays 0 longer = .ok (total', carry') ∧ total ≤ total' := by
  intro ratio
  refine ⟨fun delays => ?_, fun reading fits => back_of_reading fits,
    fun x y le fits => referenceOfReading_mono le fits,
    fun carry delay delay' below le => nativeOfDelay_mono below le,
    fun shorter longer le => nativeOfDelays_mono le⟩
  refine ⟨_, _, nativeOfDelays_zero native reference delays, fun fits => ?_⟩
  rw [← mul_num_div_den] at fits ⊢
  have small := Nat.lt_of_le_of_lt (Nat.le_mul_of_pos_right _ (den_pos native reference)) fits
  have word := Word.toNat_ofNat small
  exact back_of_total delays word (by rwa [word])

theorem conversions_agree_on_three_slots :
    (∃ carry back,
      (between .symbol .reference).nativeOfDelays 0 [492, 492, 492] = .ok (2815, carry) ∧
      (between .symbol .reference).referenceOfReading 2815 = .ok back ∧
      (back.toNat = 1476 ∨ back.toNat + 1 = 1476)) ∧
    ∃ delay back carry, (between .symbol .reference).referenceOfReading 2815 = .ok delay ∧
      (between .symbol .reference).nativeOfDelay 0 delay.toUInt32 = .ok (back, carry) ∧
      (2815 - back.toNat) * 8192 < 15625 + 8192 := by
  obtain ⟨sums, readings, -⟩ := conversions_agree .symbol .reference
  constructor
  · obtain ⟨total, carry, converted, leads⟩ := sums [492, 492, 492]
    obtain rfl : 2815 = total := congrArg Prod.fst (Except.ok.inj converted)
    obtain ⟨back, returned, -, -, near⟩ := leads (by decide)
    exact ⟨carry, back, converted, returned, near (by decide)⟩
  · obtain ⟨delay, converted, leads⟩ := readings 2815 (by decide)
    have short : delay.toNat < 0x100000000 := by
      obtain rfl : (1475 : UInt64) = delay := Except.ok.inj converted
      decide
    obtain ⟨back, carry, returned, -, near⟩ := leads short
    exact ⟨delay, back, carry, converted, returned, near⟩

end SlotClock.Ratio
