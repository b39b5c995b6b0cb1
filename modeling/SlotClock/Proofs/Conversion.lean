import SlotClock.Proofs.Counter
import SlotClock.Rate

/-!
# Exact conversion between rates

A delay is converted together with the carry of the delays before it.  No step
overflows, the two results are the quotient and the remainder of one division,
and so the native ticks of a sequence of delays are those of its sum.
-/

namespace SlotClock

namespace Rate

theorem toNat_pos (r : Rate) : 0 < r.hertz.toNat := by
  have pos := r.hertz_pos
  rwa [UInt32.lt_iff_toNat_lt] at pos

theorem toNat_lt (r : Rate) : r.hertz.toNat < 0x100000000 := r.hertz.toNat_lt

end Rate

namespace Ratio

variable (native reference : Rate)

def common : Nat := Nat.gcd native.hertz.toNat reference.hertz.toNat

theorem common_pos : 0 < common native reference :=
  Nat.gcd_pos_of_pos_left _ native.toNat_pos

theorem num_mul_common :
    (between native reference).num.toNat * common native reference = native.hertz.toNat := by
  have divides : common native reference ∣ native.hertz.toNat := Nat.gcd_dvd_left _ _
  have small : native.hertz.toNat / common native reference < 0x10000000000000000 :=
    Nat.lt_of_le_of_lt (Nat.div_le_self _ _) (by have := native.toNat_lt; omega)
  change (UInt64.ofNat (native.hertz.toNat / common native reference)).toNat * _ = _
  rw [Word.toNat_ofNat small, Nat.div_mul_cancel divides]

theorem den_mul_common :
    (between native reference).den.toNat * common native reference = reference.hertz.toNat := by
  have divides : common native reference ∣ reference.hertz.toNat := Nat.gcd_dvd_right _ _
  have small : reference.hertz.toNat / common native reference < 0x10000000000000000 :=
    Nat.lt_of_le_of_lt (Nat.div_le_self _ _) (by have := reference.toNat_lt; omega)
  change (UInt64.ofNat (reference.hertz.toNat / common native reference)).toNat * _ = _
  rw [Word.toNat_ofNat small, Nat.div_mul_cancel divides]

theorem den_pos : 0 < (between native reference).den.toNat :=
  Nat.pos_of_mul_pos_right (den_mul_common native reference ▸ reference.toNat_pos)

theorem num_pos : 0 < (between native reference).num.toNat :=
  Nat.pos_of_mul_pos_right (num_mul_common native reference ▸ native.toNat_pos)

private theorem num_lt : (between native reference).num.toNat < 0x100000000 :=
  Nat.lt_of_le_of_lt (Nat.le_mul_of_pos_right _ (common_pos native reference))
    (num_mul_common native reference ▸ native.toNat_lt)

theorem den_le : (between native reference).den.toNat ≤ reference.hertz.toNat :=
  Nat.le_trans (Nat.le_mul_of_pos_right _ (common_pos native reference))
    (Nat.le_of_eq (den_mul_common native reference))

private theorem eq_one_of_isIdentity (h : (between native reference).isIdentity = true) :
    (between native reference).num.toNat = 1 ∧ (between native reference).den.toNat = 1 := by
  have same : (between native reference).num = (between native reference).den := eq_of_beq h
  have rates : native.hertz.toNat = reference.hertz.toNat := by
    rw [← num_mul_common native reference, same, den_mul_common]
  have whole : common native reference = native.hertz.toNat := by
    rw [common, ← rates, Nat.gcd_self]
  have one : (between native reference).num.toNat = 1 :=
    Nat.eq_of_mul_eq_mul_right native.toNat_pos
      (by rw [Nat.one_mul, ← whole, num_mul_common, whole])
  exact ⟨one, same ▸ one⟩

theorem mul_num_div_den (total : Nat) :
    total * (between native reference).num.toNat / (between native reference).den.toNat =
      total * native.hertz.toNat / reference.hertz.toNat := by
  rw [← num_mul_common native reference, ← den_mul_common native reference, ← Nat.mul_assoc,
    Nat.mul_div_mul_right _ _ (common_pos native reference)]

theorem mul_den_div_num (total : Nat) :
    total * (between native reference).den.toNat / (between native reference).num.toNat =
      total * reference.hertz.toNat / native.hertz.toNat := by
  rw [← num_mul_common native reference, ← den_mul_common native reference, ← Nat.mul_assoc,
    Nat.mul_div_mul_right _ _ (common_pos native reference)]

/-- The exact number of fractions of a native tick that a delay and the carry before it make. -/
def scaled (ratio : Ratio) (carry : UInt64) (delay : UInt32) : Nat :=
  delay.toNat * ratio.num.toNat + carry.toNat

def ticks (ratio : Ratio) (carry : UInt64) (delay : UInt32) : Nat :=
  scaled ratio carry delay / ratio.den.toNat

def left (ratio : Ratio) (carry : UInt64) (delay : UInt32) : Nat :=
  scaled ratio carry delay % ratio.den.toNat

theorem left_lt (carry : UInt64) (delay : UInt32) :
    left (between native reference) carry delay < (between native reference).den.toNat :=
  Nat.mod_lt _ (den_pos native reference)

private theorem scaled_lt {carry : UInt64} (h : carry.toNat < (between native reference).den.toNat)
    (delay : UInt32) :
    scaled (between native reference) carry delay < 0x10000000000000000 := by
  have product : delay.toNat * (between native reference).num.toNat ≤ 0xFFFFFFFF * 0xFFFFFFFF :=
    Nat.mul_le_mul (Nat.le_of_lt_succ (Word.reading_lt delay))
      (Nat.le_of_lt_succ (num_lt native reference))
  have den := den_le native reference
  have rate := reference.toNat_lt
  unfold scaled
  omega

theorem toNat_ticks {carry : UInt64} (h : carry.toNat < (between native reference).den.toNat)
    (delay : UInt32) :
    (UInt64.ofNat (ticks (between native reference) carry delay)).toNat =
      ticks (between native reference) carry delay :=
  Word.toNat_ofNat (Nat.lt_of_le_of_lt (Nat.div_le_self _ _) (scaled_lt native reference h delay))

theorem toNat_left {carry : UInt64} (h : carry.toNat < (between native reference).den.toNat)
    (delay : UInt32) :
    (UInt64.ofNat (left (between native reference) carry delay)).toNat =
      left (between native reference) carry delay :=
  Word.toNat_ofNat (Nat.lt_of_le_of_lt (Nat.mod_le _ _) (scaled_lt native reference h delay))

theorem nativeOfDelay_eq {carry : UInt64}
    (h : carry.toNat < (between native reference).den.toNat) (delay : UInt32) :
    (between native reference).nativeOfDelay carry delay =
      .ok (UInt64.ofNat (ticks (between native reference) carry delay),
        UInt64.ofNat (left (between native reference) carry delay)) := by
  have bound := scaled_lt native reference h delay
  have whole := toNat_ticks native reference h delay
  have rest := toNat_left native reference h delay
  unfold nativeOfDelay
  split
  next identity =>
    obtain ⟨num, den⟩ := eq_one_of_isIdentity native reference identity
    have zero : carry.toNat = 0 := by omega
    congr 2
    · apply UInt64.toNat_inj.mp
      rw [whole, UInt32.toNat_toUInt64, ticks, scaled, num, den, zero, Nat.mul_one, Nat.add_zero,
        Nat.div_one]
    · apply UInt64.toNat_inj.mp
      rw [rest, left, zero, den, Nat.mod_one]
  next =>
    have product : delay.toUInt64.toNat * (between native reference).num.toNat <
        0x10000000000000000 := by
      rw [UInt32.toNat_toUInt64]
      exact Nat.lt_of_le_of_lt (Nat.le_add_right _ _) bound
    have exact : (UInt64.ofNat (delay.toUInt64.toNat * (between native reference).num.toNat)).toNat +
        carry.toNat = scaled (between native reference) carry delay := by
      rw [Word.toNat_ofNat product, UInt32.toNat_toUInt64, scaled]
    have sum := Word.add_of_lt (by rw [exact]; exact bound)
    simp only [Word.mul_of_lt product, sum, exact, bind, Except.bind, pure, Except.pure]
    congr 2
    · apply UInt64.toNat_inj.mp
      rw [UInt64.toNat_div, Word.toNat_ofNat bound, whole, ticks]
    · apply UInt64.toNat_inj.mp
      rw [UInt64.toNat_mod, Word.toNat_ofNat bound, rest, left]

theorem of_nativeOfDelay {carry ticks' carry' : UInt64} {delay : UInt32}
    (h : carry.toNat < (between native reference).den.toNat)
    (ok : (between native reference).nativeOfDelay carry delay = .ok (ticks', carry')) :
    ticks'.toNat = ticks (between native reference) carry delay ∧
      carry'.toNat = left (between native reference) carry delay := by
  rw [nativeOfDelay_eq native reference h] at ok
  cases ok
  constructor
  · exact toNat_ticks native reference h delay
  · exact toNat_left native reference h delay

private theorem ticks_le {carry : UInt64} (h : carry.toNat < (between native reference).den.toNat)
    (delay : UInt32) :
    ticks (between native reference) carry delay ≤
      delay.toNat * native.hertz.toNat / reference.hertz.toNat + 1 := by
  rw [← mul_num_div_den native reference, ← Nat.add_div_right _ (den_pos native reference)]
  exact Nat.div_le_div_right (Nat.add_le_add_left (Nat.le_of_lt h) _)

theorem ticks_le_longest {carry : UInt64}
    (h : carry.toNat < (between native Rate.reference).den.toNat) (delay : UInt32) :
    ticks (between native Rate.reference) carry delay ≤ 0x1FFFFFFFC0001 := by
  have le := ticks_le native Rate.reference h delay
  have product : delay.toNat * native.hertz.toNat ≤ 0xFFFFFFFF * 0xFFFFFFFF :=
    Nat.mul_le_mul (Nat.le_of_lt_succ (Word.reading_lt delay)) (Nat.le_of_lt_succ native.toNat_lt)
  have hertz : Rate.reference.hertz.toNat = 32768 := rfl
  rw [hertz] at le
  omega

theorem ticks_lt {carry : UInt64}
    (h : carry.toNat < (between native Rate.reference).den.toNat) (delay : UInt32) :
    ticks (between native Rate.reference) carry delay < 0x4000000000000000 :=
  Nat.lt_of_le_of_lt (ticks_le_longest native h delay) (by decide)

/-! ## Sums of delays -/

theorem carry_lt {carry : UInt64} {sum : Nat}
    (carried : carry.toNat = sum % (between native reference).den.toNat) :
    carry.toNat < (between native reference).den.toNat := by
  rw [carried]
  exact Nat.mod_lt _ (den_pos native reference)

theorem div_add_ticks {carry : UInt64} {sum : Nat} (delay : UInt32)
    (carried : carry.toNat = sum % (between native reference).den.toNat) :
    sum / (between native reference).den.toNat + ticks (between native reference) carry delay =
      (sum + delay.toNat * (between native reference).num.toNat) /
        (between native reference).den.toNat := by
  have parts := Nat.mod_add_div sum (between native reference).den.toNat
  have whole : sum + delay.toNat * (between native reference).num.toNat =
      delay.toNat * (between native reference).num.toNat +
        sum % (between native reference).den.toNat +
        (between native reference).den.toNat *
          (sum / (between native reference).den.toNat) := by omega
  rw [whole, Nat.add_mul_div_left _ _ (den_pos native reference), Nat.add_comm, ticks, scaled,
    carried]

theorem left_of_sum {carry : UInt64} {sum : Nat} (delay : UInt32)
    (carried : carry.toNat = sum % (between native reference).den.toNat) :
    left (between native reference) carry delay =
      (sum + delay.toNat * (between native reference).num.toNat) %
        (between native reference).den.toNat := by
  rw [left, scaled, carried, Nat.add_mod_mod, Nat.add_comm]

/-! ## Back to reference ticks -/

theorem referenceOfReading_eq {reading : UInt64}
    (h : reading.toNat * (between native reference).den.toNat < 0x10000000000000000) :
    (between native reference).referenceOfReading reading =
      .ok (UInt64.ofNat (reading.toNat * (between native reference).den.toNat /
        (between native reference).num.toNat)) := by
  unfold referenceOfReading
  split
  next identity =>
    obtain ⟨num, den⟩ := eq_one_of_isIdentity native reference identity
    rw [num, den, Nat.mul_one, Nat.div_one, UInt64.ofNat_toNat]
  next =>
    simp only [Word.mul_of_lt h, bind, Except.bind, pure, Except.pure]
    congr 1
    apply UInt64.toNat_inj.mp
    rw [UInt64.toNat_div, Word.toNat_ofNat h, Word.toNat_ofNat]
    exact Nat.lt_of_le_of_lt (Nat.div_le_self _ _) h

theorem reading_in_reference_eq (reading : UInt32) :
    (between native Rate.reference).referenceOfReading reading.toUInt64 >>=
        (fun word => pure word.toUInt32) =
      .ok (UInt32.ofNat (reading.toNat * 32768 / native.hertz.toNat)) := by
  have fits : reading.toUInt64.toNat * (between native Rate.reference).den.toNat <
      0x10000000000000000 := by
    have reading := Word.reading_lt reading
    have den : (between native Rate.reference).den.toNat ≤ 32768 := den_le _ _
    have product := Nat.mul_le_mul (Nat.le_of_lt reading) den
    rw [UInt32.toNat_toUInt64]
    omega
  have small : reading.toNat * (between native Rate.reference).den.toNat /
      (between native Rate.reference).num.toNat < 0x10000000000000000 :=
    Nat.lt_of_le_of_lt (Nat.div_le_self _ _) fits
  have whole := mul_den_div_num native Rate.reference reading.toNat
  rw [referenceOfReading_eq _ _ fits, UInt32.toNat_toUInt64, whole]
  simp only [bind, Except.bind, pure, Except.pure]
  congr 1
  rw [whole] at small
  apply UInt32.toNat_inj.mp
  rw [UInt64.toNat_toUInt32, UInt32.toNat_ofNat', Word.toNat_ofNat small]
  rfl

end Ratio

end SlotClock
