import SlotClock.Proofs.Anchor

/-!
# Operations on a reliable source return

A source is reliable if its period fits the counter, if it answers whenever it is
asked as it may be, and if it never covers more than it was asked for.  That is all
that a plan needs.  To serve an event needs room to subtract as well, and the ticks
that are owed can only grow by an interrupt that comes before its event.

## Reliable sources
-/

namespace SlotClock

open Counter

variable {σ : Type} {S : Source σ}

structure Source.Reliable (S : Source σ) : Prop where
  period_pos (x : σ) : 0 < (S.period x).toNat
  period_le (x : σ) : (S.period x).toNat ≤ 0x100000000
  resolution (x : σ) : ∃ resolution, S.resolution x = .ok resolution
  arm (x : σ) (base : UInt32) {delay : UInt64} (short : delay.toNat ≤ (S.period x).toNat / 2) :
    ∃ answer y, S.arm base delay x = .ok (answer, y) ∧
      ∀ covered, answer = .armed covered → covered.toNat ≤ delay.toNat

def Source.Full (S : Source σ) : Prop :=
  ∀ {base : UInt32} {delay covered : UInt64} {x y : σ},
    S.arm base delay x = .ok (.armed covered, y) → covered = delay

private theorem Word.toSigned_le (w : UInt64) : toSigned w ≤ w.toNat := by
  unfold toSigned
  split <;> omega

namespace Schedule

theorem distance_of_reliable (reliable : S.Reliable) (s : Schedule σ) (start : UInt32) :
    ∃ ticks, distance (s.period S) start (s.reading S) = .ok ticks ∧
      -((s.period S).toNat : Int) < 2 * ticks ∧ 2 * ticks ≤ (s.period S).toNat := by
  have pos : 0 < (s.period S).toNat := reliable.period_pos _
  have le : (s.period S).toNat ≤ 0x100000000 := reliable.period_le _
  exact ⟨_, distance_eq pos (by omega) start _, centred_window pos _⟩

theorem armChunk_of_reliable (reliable : S.Reliable) (s : Schedule σ) (base : UInt32)
    (remaining : UInt64) : ∃ s', s.armChunk S base remaining = .ok s' := by
  obtain ⟨resolution, reached⟩ := reliable.resolution s.source
  unfold armChunk
  simp only [reached, bind, Except.bind]
  split
  next => exact ⟨_, rfl⟩
  next =>
    have size := Word.toNat_min_half remaining (S.period s.source)
    have short : (min remaining (S.period s.source / 2)).toNat ≤
        (S.period s.source).toNat / 2 := by omega
    obtain ⟨answer, source, arm, covers⟩ := reliable.arm s.source base short
    simp only [period, arm]
    cases answer with
    | missed => exact ⟨_, rfl⟩
    | armed covered =>
        have within := covers covered rfl
        have le : covered ≤ remaining := by
          rw [UInt64.le_iff_toNat_le]
          omega
        have event := advance_eq (reliable.period_pos s.source) (reliable.period_le _) base covered
        simp only [event, Word.sub_of_le le]
        exact ⟨_, rfl⟩

theorem plan_of_reliable (reliable : S.Reliable) {s : Schedule σ}
    (carry : s.carry.toNat < (ratio S).den.toNat) (delay : UInt32) :
    ∃ s', s.plan S delay = .ok s' := by
  have long := Ratio.ticks_lt S.rate carry delay
  have word := Ratio.toNat_ticks S.rate Rate.reference carry delay
  have converted := Ratio.nativeOfDelay_eq S.rate Rate.reference carry delay
  obtain ⟨elapsed, passed, lo, hi⟩ := distance_of_reliable reliable (s.supersede S) s.anchor
  have le : ((s.supersede S).period S).toNat ≤ 0x100000000 := reliable.period_le _
  have advanced := advance_eq (reliable.period_pos (s.supersede S).source) le s.anchor
    (UInt64.ofNat ((Ratio.between S.rate Rate.reference).ticks s.carry delay))
  have located := Approach.of_eq
    (UInt64.ofNat ((Ratio.between S.rate Rate.reference).ticks s.carry delay)) elapsed
    (by rw [word]; exact long) (by omega) (by omega)
  unfold plan
  simp only [supersede_carry, supersede_anchor]
  rw [show (ratio S).nativeOfDelay s.carry delay = _ from converted]
  simp only [bind, Except.bind, passed]
  rw [show advance ((s.supersede S).period S) s.anchor _ = _ from advanced]
  simp only [located]
  split
  next => exact ⟨_, rfl⟩
  next => exact armChunk_of_reliable reliable _ _ _

theorem serve_of_reliable (reliable : S.Reliable) {s : Schedule σ}
    (room : s.owed.toNat ≤ 0x7FFFFFFF80000000) : ∃ outcome, s.serve S = .ok outcome := by
  unfold serve
  simp only
  split
  next armed =>
    split
    next => exact ⟨_, rfl⟩
    next =>
      obtain ⟨late, served, lo, hi⟩ := distance_of_reliable reliable (s.spent S) s.eventAt
      have le : ((s.spent S).period S).toNat ≤ 0x100000000 := reliable.period_le _
      have rest := Signed.sub_of_mem (a := Word.toSigned s.owed) (b := late)
        (by rw [Word.toSigned_of_lt (by omega)]; omega)
        (by rw [Word.toSigned_of_lt (by omega)]; omega)
      change ∃ outcome, (s.spent S).continueWith S s.owed = .ok outcome
      have passed : distance ((s.spent S).period S) (s.spent S).eventAt ((s.spent S).reading S) =
          .ok late := served
      unfold continueWith
      simp only [passed, bind, Except.bind, rest]
      split
      next => exact ⟨_, rfl⟩
      next =>
        obtain ⟨s', armed⟩ := armChunk_of_reliable reliable (s.spent S) ((s.spent S).reading S)
          (Word.ofSigned (Word.toSigned s.owed - late))
        rw [armed]
        exact ⟨_, rfl⟩
  next => exact ⟨_, rfl⟩

/-! ## What is owed afterwards -/

theorem Arms.owed_le {base : UInt32} {remaining : UInt64} {s s' : Schedule σ}
    (h : Arms S base remaining s s') (none : s.owed = 0) : s'.owed.toNat ≤ remaining.toNat := by
  cases h with
  | short =>
      show s.owed.toNat ≤ _
      simp [none]
  | armed _ _ _ _ rest =>
      have left := (Word.toNat_of_sub_ok rest).2
      dsimp only
      omega
  | missed =>
      show s.owed.toNat ≤ _
      simp [none]

theorem Arms.owed_of_full {base : UInt32} {remaining : UInt64} {s s' : Schedule σ}
    (h : Arms S base remaining s s') (full : S.Full) (none : s.owed = 0) :
    s'.owed.toNat ≤ remaining.toNat - (s.period S).toNat / 2 := by
  cases h with
  | short =>
      show s.owed.toNat ≤ _
      simp [none]
  | armed _ _ arm _ rest =>
      cases full arm
      have left := (Word.toNat_of_sub_ok rest).2
      rw [Word.toNat_min_half] at left
      dsimp only
      omega
  | missed =>
      show s.owed.toNat ≤ _
      simp [none]

theorem Plans.owed_le {delay : UInt32} {s s' : Schedule σ} (h : Plans S delay s s')
    (reliable : S.Reliable) (carry : s.carry.toNat < (ratio S).den.toNat) :
    s'.owed.toNat ≤ 0x200007FFC0000 := by
  cases h with
  | due =>
      show (0 : UInt64).toNat ≤ _
      decide
  | @ahead native carry' remaining anchor elapsed s' converted _ passed located arms =>
      have long := (Ratio.of_nativeOfDelay _ _ carry converted).1 ▸
        Ratio.ticks_le_longest S.rate carry delay
      obtain ⟨ticks, again, lo, hi⟩ := distance_of_reliable reliable (s.supersede S) s.anchor
      cases passed.symm.trans again
      have le : ((s.supersede S).period S).toNat ≤ 0x100000000 := reliable.period_le _
      rw [Approach.of_eq _ _ (by omega) (by omega) (by omega)] at located
      split at located
      next => cases located
      next =>
        cases located
        have gap := Word.toNat_ofSigned (z := native.toNat - elapsed) (by omega) (by omega)
        have owed := arms.owed_le rfl
        omega

/-- The counter has yet to reach the armed event whose interrupt is served. -/
def early (S : Source σ) (s : Schedule σ) : Bool :=
  s.phase = .armed &&
    match distance ((s.spent S).period S) s.eventAt ((s.spent S).reading S) with
    | .ok late => decide (late < 0)
    | .error _ => false

theorem early_eq {s : Schedule σ} {late : Int} (armed : s.phase = .armed)
    (served : distance ((s.spent S).period S) s.eventAt ((s.spent S).reading S) = .ok late) :
    s.early S = decide (late < 0) := by
  simp [early, armed, served]

theorem Serves.owed_le {due : Bool} {s s' : Schedule σ} (h : Serves S s due s')
    (reliable : S.Reliable) :
    s'.owed.toNat ≤ s.owed.toNat + (s.early S).toNat * 0x7FFFFFFF := by
  cases h with
  | spurious => exact Nat.le_add_right _ _
  | last => exact Nat.zero_le _
  | passed => exact Nat.zero_le _
  | @onward late rest s' armed _ served exact remains arms =>
      obtain ⟨ticks, again, lo, hi⟩ := distance_of_reliable reliable (s.spent S) s.eventAt
      cases served.symm.trans again
      have le : ((s.spent S).period S).toNat ≤ 0x100000000 := reliable.period_le _
      obtain ⟨difference, -, small⟩ := Signed.of_sub_ok exact
      have signed := Word.toSigned_le s.owed
      have gap := Word.toNat_ofSigned (z := rest) (by omega) (by omega)
      have owed : s'.owed.toNat ≤ _ := arms.owed_le rfl
      show s'.owed.toNat ≤ _
      rw [early_eq armed served]
      by_cases before : late < 0
      · rw [decide_eq_true before, Bool.toNat_true]
        omega
      · rw [decide_eq_false before, Bool.toNat_false]
        omega

theorem Serves.owed_of_full {due : Bool} {s s' : Schedule σ} (h : Serves S s due s')
    (reliable : S.Reliable) (full : S.Full) : s'.owed.toNat ≤ s.owed.toNat := by
  cases h with
  | spurious => exact Nat.le_refl _
  | last => exact Nat.zero_le _
  | passed => exact Nat.zero_le _
  | @onward late rest s' _ _ served exact remains arms =>
      obtain ⟨ticks, again, lo, hi⟩ := distance_of_reliable reliable (s.spent S) s.eventAt
      cases served.symm.trans again
      obtain ⟨difference, -, small⟩ := Signed.of_sub_ok exact
      have signed := Word.toSigned_le s.owed
      have gap := Word.toNat_ofSigned (z := rest) (by omega) (by omega)
      -- An early interrupt adds less than half a period, and the next chunk covers that much.
      have owed := arms.owed_of_full full rfl
      show s'.owed.toNat ≤ _
      omega

end Schedule

end SlotClock
