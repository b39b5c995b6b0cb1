import SlotClock.Counter

/-!
# Readings modulo the period

The checked arithmetic of `Counter` is exact.  `advance` is addition modulo the
period, and `distance` picks, among the integers congruent to the difference of
two readings, the one in the window above `-p / 2` and up to `p / 2`.  From this the two
obey the laws of addition and difference on a circle, where only the points opposite
each other are special.
-/

namespace SlotClock

namespace Word

theorem toNat_ofNat {n : Nat} (h : n < 0x10000000000000000) : (UInt64.ofNat n).toNat = n :=
  UInt64.toNat_ofNat_of_lt' h

theorem toNat_lt (w : UInt64) : w.toNat < 0x10000000000000000 := w.toNat_lt

theorem reading_lt (r : UInt32) : r.toNat < 0x100000000 := r.toNat_lt

theorem ne_zero_of_pos {w : UInt64} (pos : 0 < w.toNat) : w ≠ 0 := by
  rintro rfl
  exact absurd pos (by decide)

private theorem toNat_min (a b : UInt64) : (min a b).toNat = min a.toNat b.toNat := by
  show (if a ≤ b then a else b).toNat = _
  split
  next le =>
    rw [UInt64.le_iff_toNat_le] at le
    omega
  next gt =>
    rw [UInt64.le_iff_toNat_le] at gt
    omega

private theorem toNat_half (w : UInt64) : (w / 2).toNat = w.toNat / 2 := by
  rw [UInt64.toNat_div, UInt64.toNat_ofNat]

theorem toNat_min_half (a b : UInt64) : (min a (b / 2)).toNat = min a.toNat (b.toNat / 2) := by
  rw [toNat_min, toNat_half]

theorem add_of_lt {a b : UInt64} (h : a.toNat + b.toNat < 0x10000000000000000) :
    add a b = .ok (UInt64.ofNat (a.toNat + b.toNat)) :=
  fit_of_lt h

theorem mul_of_lt {a b : UInt64} (h : a.toNat * b.toNat < 0x10000000000000000) :
    mul a b = .ok (UInt64.ofNat (a.toNat * b.toNat)) :=
  fit_of_lt h

theorem toNat_of_sub_ok {a b c : UInt64} (h : sub a b = .ok c) :
    b.toNat ≤ a.toNat ∧ c.toNat = a.toNat - b.toNat := by
  unfold sub at h
  split at h
  next le =>
    cases h
    exact ⟨UInt64.le_iff_toNat_le.mp le, UInt64.toNat_sub_of_le _ _ le⟩
  next => cases h

theorem toNat_ofSigned {z : Int} (lo : 0 ≤ z) (hi : z < 0x10000000000000000) :
    ((ofSigned z).toNat : Int) = z := by
  have small : z % 0x10000000000000000 = z := Int.emod_eq_of_lt lo hi
  have bound : z.toNat < 0x10000000000000000 := by omega
  unfold ofSigned
  rw [small, toNat_ofNat bound]
  omega

end Word

namespace Signed

theorem sub_of_mem {a b : Int} (lo : -0x8000000000000000 ≤ a - b)
    (hi : a - b < 0x8000000000000000) : sub a b = .ok (a - b) :=
  fit_of_mem lo hi

theorem of_sub_ok {a b c : Int} (h : sub a b = .ok c) :
    c = a - b ∧ -0x8000000000000000 ≤ c ∧ c < 0x8000000000000000 := by
  unfold sub fit at h
  split at h
  next mem =>
    cases h
    exact ⟨rfl, mem⟩
  next => cases h

end Signed

namespace Counter

/-- The integer congruent to `z` modulo `p` that is above `-p / 2` and at most `p / 2`. -/
def centred (p : Nat) (z : Int) : Int :=
  if z % p ≤ (p / 2 : Nat) then z % p else z % p - p

theorem centred_window {p : Nat} (pos : 0 < p) (z : Int) :
    -(p : Int) < 2 * centred p z ∧ 2 * centred p z ≤ p := by
  have lo := Int.emod_nonneg z (show (p : Int) ≠ 0 by omega)
  have hi := Int.emod_lt_of_pos z (show (0 : Int) < p by omega)
  unfold centred
  split <;> omega

@[simp] theorem centred_emod (p : Nat) (z : Int) : centred p z % p = z % p := by
  unfold centred
  split
  next => exact Int.emod_emod_of_dvd z (Int.dvd_refl p)
  next => rw [Int.sub_emod_right, Int.emod_emod_of_dvd z (Int.dvd_refl p)]

theorem centred_of_window {p : Nat} {z : Int} (lo : -(p : Int) < 2 * z) (hi : 2 * z ≤ p) :
    centred p z = z := by
  unfold centred
  rcases Int.lt_or_le z 0 with negative | nonneg
  · have wrapped : z % p = z + p := by
      rw [← Int.add_emod_right]
      exact Int.emod_eq_of_lt (by omega) (by omega)
    rw [wrapped, if_neg (by omega)]
    omega
  · have small : z % p = z := Int.emod_eq_of_lt nonneg (by omega)
    rw [small, if_pos (by omega)]

theorem centred_congr {p : Nat} {y z : Int} (h : y % p = z % p) : centred p y = centred p z := by
  simp only [centred, h]

theorem advance_eq {p : UInt64} (pos : 0 < p.toNat) (le : p.toNat ≤ 0x100000000)
    (base : UInt32) (delta : UInt64) :
    advance p base delta = .ok (UInt32.ofNat ((base.toNat + delta.toNat) % p.toNat)) := by
  have within : (delta % p).toNat < p.toNat := by
    rw [UInt64.toNat_mod]
    exact Nat.mod_lt _ pos
  have reading := Word.reading_lt base
  have total : base.toUInt64.toNat + (delta % p).toNat < 0x10000000000000000 := by
    rw [UInt32.toNat_toUInt64]
    omega
  have nonzero := Word.ne_zero_of_pos pos
  simp only [advance, Word.rem_of_ne_zero nonzero, Word.add_of_lt total, bind, Except.bind,
    pure, Except.pure]
  congr 1
  apply UInt32.toNat_inj.mp
  rw [UInt64.toNat_toUInt32, UInt64.toNat_mod, Word.toNat_ofNat total, UInt64.toNat_mod,
    UInt32.toNat_toUInt64, Nat.add_mod_mod, UInt32.toNat_ofNat']

theorem distance_eq {p : UInt64} (pos : 0 < p.toNat) (lt : p.toNat < 0x8000000000000000)
    (start finish : UInt32) :
    distance p start finish = .ok (centred p.toNat (finish.toNat - start.toNat)) := by
  have nonzero := Word.ne_zero_of_pos pos
  have reading := Word.reading_lt finish
  have lift : finish.toUInt64.toNat + p.toNat < 0x10000000000000000 := by
    rw [UInt32.toNat_toUInt64]
    omega
  have back : (start.toUInt64 % p).toNat = start.toNat % p.toNat := by
    rw [UInt64.toNat_mod, UInt32.toNat_toUInt64]
  have backLt : start.toNat % p.toNat < p.toNat := Nat.mod_lt _ pos
  have lifted : (UInt64.ofNat (finish.toUInt64.toNat + p.toNat)).toNat =
      finish.toNat + p.toNat := by
    rw [Word.toNat_ofNat lift, UInt32.toNat_toUInt64]
  have gap : start.toUInt64 % p ≤ UInt64.ofNat (finish.toUInt64.toNat + p.toNat) := by
    rw [UInt64.le_iff_toNat_le, back, lifted]
    omega
  have forward : ((UInt64.ofNat (finish.toUInt64.toNat + p.toNat) - start.toUInt64 % p) % p).toNat =
      (finish.toNat + p.toNat - start.toNat % p.toNat) % p.toNat := by
    rw [UInt64.toNat_mod, UInt64.toNat_sub_of_le _ _ gap, back, lifted]
  have residue : (((finish.toNat + p.toNat - start.toNat % p.toNat) % p.toNat : Nat) : Int) =
      ((finish.toNat : Int) - start.toNat) % p.toNat := by
    rw [Int.natCast_emod, Int.ofNat_sub (by omega), Int.natCast_add, Int.natCast_emod,
      Int.sub_emod, Int.emod_emod_of_dvd _ (Int.dvd_refl _), Int.add_emod_right, ← Int.sub_emod]
  have half := Word.toNat_half p
  have forwardLt := Nat.mod_lt (finish.toNat + p.toNat - start.toNat % p.toNat) pos
  simp only [distance, Word.add_of_lt lift, Word.rem_of_ne_zero nonzero, Word.sub_of_le gap, bind,
    Except.bind, pure, Except.pure]
  unfold centred
  rw [← residue]
  split
  next far =>
    rw [gt_iff_lt, UInt64.lt_iff_toNat_lt, forward, half] at far
    rw [if_neg (by omega), Word.toSigned_of_lt (by omega), Word.toSigned_of_lt lt, forward,
      Signed.sub_of_mem (by omega) (by omega)]
  next near =>
    rw [gt_iff_lt, UInt64.lt_iff_toNat_lt, forward, half] at near
    rw [if_pos (by omega), Word.toSigned_of_lt (by omega), forward]

/-! ## Readings of an absolute time -/

/-- A counter of period `p` reads `r` at the absolute time `t`. -/
def Shows (p : Nat) (r : UInt32) (t : Int) : Prop :=
  (r.toNat : Int) % p = t % p

theorem shows_toNat (p : Nat) (r : UInt32) : Shows p r r.toNat := rfl

theorem Shows.trans {p : Nat} {r r' : UInt32} {t z : Int} (h : Shows p r (r'.toNat + z))
    (h' : Shows p r' t) : Shows p r (t + z) := by
  unfold Shows at h h' ⊢
  rw [h, Int.add_emod, h', ← Int.add_emod]

theorem Shows.rebase {p : Nat} {r base base' : UInt32} {t y z : Int}
    (moved : Shows p base' (base.toNat + y)) (h : Shows p r (base.toNat + t)) (same : t = y + z) :
    Shows p r (base'.toNat + z) := by
  unfold Shows at moved h ⊢
  rw [h, same, ← Int.add_assoc, Int.add_emod, ← moved, ← Int.add_emod]

theorem Shows.advance {p : UInt64} (pos : 0 < p.toNat) (le : p.toNat ≤ 0x100000000)
    {base r : UInt32} {delta : UInt64} {t : Int} (h : Shows p.toNat base t)
    (advanced : advance p base delta = .ok r) : Shows p.toNat r (t + delta.toNat) := by
  rw [advance_eq pos le] at advanced
  cases advanced
  have lt : (base.toNat + delta.toNat) % p.toNat < p.toNat := Nat.mod_lt _ pos
  have exact : (UInt32.ofNat ((base.toNat + delta.toNat) % p.toNat)).toNat =
      (base.toNat + delta.toNat) % p.toNat :=
    UInt32.toNat_ofNat_of_lt' (Nat.lt_of_lt_of_le lt le)
  unfold Shows at h ⊢
  rw [exact, Int.natCast_emod, Int.natCast_add, Int.emod_emod_of_dvd _ (Int.dvd_refl _),
    Int.add_emod, h, ← Int.add_emod]

theorem distance_of_shows {p : UInt64} (pos : 0 < p.toNat) (lt : p.toNat < 0x8000000000000000)
    {start finish : UInt32} {s t : Int} (hs : Shows p.toNat start s)
    (ht : Shows p.toNat finish t) : distance p start finish = .ok (centred p.toNat (t - s)) := by
  rw [distance_eq pos lt]
  congr 1
  apply centred_congr
  unfold Shows at hs ht
  rw [Int.sub_emod, hs, ht, ← Int.sub_emod]

theorem Shows.of_centred {p : Nat} {r : UInt32} {s t : Int} (h : Shows p r t) :
    Shows p r (s + centred p (t - s)) := by
  unfold Shows at h ⊢
  rw [Int.add_emod, centred_emod, ← Int.add_emod, show s + (t - s) = t by omega, h]

/-! ## The laws of the distance -/

theorem eq_centred_iff {p : Nat} (pos : 0 < p) (y z : Int) :
    z = centred p y ↔ -(p : Int) < 2 * z ∧ 2 * z ≤ p ∧ z % p = y % p := by
  constructor
  · rintro rfl
    obtain ⟨lo, hi⟩ := centred_window pos y
    exact ⟨lo, hi, centred_emod p y⟩
  · rintro ⟨lo, hi, same⟩
    rw [← centred_of_window lo hi, centred_congr same]

/-- The window is open below, so half a period is its own opposite. -/
theorem centred_neg {p : Nat} (pos : 0 < p) (z : Int) :
    centred p (-z) = if 2 * centred p z = p then centred p z else -centred p z := by
  obtain ⟨lo, hi⟩ := centred_window pos z
  have opposite : -z % p = -centred p z % p := by
    rw [← Int.zero_sub, ← Int.zero_sub (centred p z), ← Int.sub_emod_emod 0 z,
      ← Int.sub_emod_emod 0 (centred p z), centred_emod]
  symm
  rw [eq_centred_iff pos]
  split
  next half =>
    refine ⟨lo, hi, ?_⟩
    rw [opposite, ← Int.add_emod_right (-centred p z), show -centred p z + p = centred p z by omega]
  next inner => exact ⟨by omega, by omega, opposite.symm⟩

theorem toNat_of_advance {p : UInt64} (pos : 0 < p.toNat) (le : p.toNat ≤ 0x100000000)
    (base : UInt32) (delta : UInt64) :
    ∃ r, advance p base delta = .ok r ∧ r.toNat = (base.toNat + delta.toNat) % p.toNat := by
  have lt : (base.toNat + delta.toNat) % p.toNat < p.toNat := Nat.mod_lt _ pos
  exact ⟨_, advance_eq pos le base delta, UInt32.toNat_ofNat_of_lt' (Nat.lt_of_lt_of_le lt le)⟩

theorem distance_swap {p : UInt64} (pos : 0 < p.toNat) (lt : p.toNat < 0x8000000000000000)
    {start finish : UInt32} {d : Int} (apart : distance p start finish = .ok d) :
    distance p finish start = .ok (if 2 * d = p.toNat then d else -d) := by
  rw [distance_eq pos lt] at apart
  cases apart
  rw [distance_eq pos lt, ← centred_neg pos, Int.neg_sub]

theorem advance_by_distance {p : UInt64} (pos : 0 < p.toNat) (le : p.toNat ≤ 0x100000000)
    {start finish : UInt32} {d : Int} (apart : distance p start finish = .ok d) :
    ∃ r, advance p start (Word.ofSigned (d % p.toNat)) = .ok r ∧
      r.toNat = finish.toNat % p.toNat := by
  rw [distance_eq pos (by omega)] at apart
  cases apart
  have nonneg := Int.emod_nonneg ((finish.toNat : Int) - start.toNat) (b := p.toNat) (by omega)
  have below := Int.emod_lt_of_pos ((finish.toNat : Int) - start.toNat) (b := p.toNat) (by omega)
  have ticks := Word.toNat_ofSigned nonneg (by omega)
  obtain ⟨r, advanced, exact⟩ := toNat_of_advance pos le start
    (Word.ofSigned (((finish.toNat : Int) - start.toNat) % p.toNat))
  rw [centred_emod]
  refine ⟨r, advanced, ?_⟩
  apply Int.ofNat_inj.mp
  rw [exact, Int.natCast_emod, Int.natCast_add, ticks, Int.add_emod_emod, Int.natCast_emod]
  congr 1
  omega

theorem distance_of_advanced {p : UInt64} (pos : 0 < p.toNat) (le : p.toNat ≤ 0x100000000)
    {start finish start' finish' : UInt32} {delta : UInt64}
    (moved : advance p start delta = .ok start') (moved' : advance p finish delta = .ok finish') :
    distance p start' finish' = distance p start finish := by
  have lt : p.toNat < 0x8000000000000000 := by omega
  have shown := (shows_toNat p.toNat start).advance pos le moved
  have shown' := (shows_toNat p.toNat finish).advance pos le moved'
  rw [distance_of_shows pos lt shown shown', distance_eq pos lt,
    show (finish.toNat : Int) + delta.toNat - (start.toNat + delta.toNat) =
      finish.toNat - start.toNat by omega]

theorem distance_to_advanced {p : UInt64} (pos : 0 < p.toNat) (le : p.toNat ≤ 0x100000000)
    {start start' : UInt32} {delta : UInt64} (moved : advance p start delta = .ok start')
    (near : delta.toNat ≤ p.toNat / 2) : distance p start start' = .ok delta.toNat := by
  have shown := (shows_toNat p.toNat start).advance pos le moved
  rw [distance_of_shows pos (by omega) (shows_toNat _ _) shown,
    centred_of_window (by omega) (by omega)]
  congr 1
  omega

/--
The distance of any two readings is the one integer of the window that is congruent to
their difference.  It changes its sign with the direction, but for the half of an even
period.  For a period that fits the counter, moving both readings on leaves the distance
as it is, the distance leads from one reading to the other, and it tells how far a
reading was moved on.  The readings may lie beyond the period.
-/
theorem readings_modulo_period {p : UInt64} (pos : 0 < p.toNat)
    (lt : p.toNat < 0x8000000000000000) (start finish : UInt32) :
    ∃ d, distance p start finish = .ok d ∧
      (∀ z : Int, z = d ↔ -(p.toNat : Int) < 2 * z ∧ 2 * z ≤ p.toNat ∧
        z % p.toNat = (finish.toNat - start.toNat) % p.toNat) ∧
      (distance p finish start = .ok (-d) ↔ 2 * d ≠ p.toNat) ∧
      (p.toNat ≤ 0x100000000 →
        (∃ r, advance p start (Word.ofSigned (d % p.toNat)) = .ok r ∧
          r.toNat = finish.toNat % p.toNat) ∧
        ∀ delta : UInt64, ∃ start' finish', advance p start delta = .ok start' ∧
          advance p finish delta = .ok finish' ∧
          start'.toNat = (start.toNat + delta.toNat) % p.toNat ∧
          finish'.toNat = (finish.toNat + delta.toNat) % p.toNat ∧
          distance p start' finish' = .ok d ∧
          (delta.toNat ≤ p.toNat / 2 → distance p start start' = .ok delta.toNat)) := by
  have apart := distance_eq pos lt start finish
  refine ⟨_, apart, eq_centred_iff pos _, ?_, fun le => ⟨advance_by_distance pos le apart, ?_⟩⟩
  · rw [distance_swap pos lt apart, Except.ok.injEq]
    split
    next half => exact iff_of_false (by omega) (not_not_intro half)
    next inner => exact iff_of_true rfl inner
  · intro delta
    obtain ⟨start', moved, exact⟩ := toNat_of_advance pos le start delta
    obtain ⟨finish', moved', exact'⟩ := toNat_of_advance pos le finish delta
    refine ⟨start', finish', moved, moved', exact, exact', ?_, distance_to_advanced pos le moved⟩
    rw [distance_of_advanced pos le moved moved', apart]

theorem readings_half_a_period_apart :
    distance 10 0xFFFFFFFF 0 = .ok 5 ∧ distance 10 0 0xFFFFFFFF ≠ .ok (-5) := by
  obtain ⟨d, apart, -, opposite, -⟩ :=
    readings_modulo_period (p := 10) (by decide) (by decide) 0xFFFFFFFF 0
  have half : distance 10 0xFFFFFFFF 0 = .ok 5 := rfl
  obtain rfl : d = 5 := Except.ok.inj (apart.symm.trans half)
  exact ⟨half, fun swapped => opposite.mp swapped rfl⟩

end Counter

end SlotClock
