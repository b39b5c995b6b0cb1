import SlotClock.Proofs.Conversion
import SlotClock.Proofs.Invariant

/-!
# The anchor is the conversion of a sum

The anchor moves when a slot is planned, and at no other time unless it is set back
to zero.  It moves by the conversion of the delay and of the carry before it, so it
stands where one conversion of the whole sum would put it.  What the counter reads,
what the source answers, and what becomes of the slots have no part in it.
-/

namespace SlotClock

variable {σ κ : Type} {S : Source σ}

namespace Schedule

/-! ## What moves the anchor -/

theorem Arms.frame {base : UInt32} {remaining : UInt64} {s s' : Schedule σ}
    (h : Arms S base remaining s s') : s'.carry = s.carry ∧ s'.anchor = s.anchor := by
  cases h <;> exact ⟨rfl, rfl⟩

theorem Serves.frame {due : Bool} {s s' : Schedule σ} (h : Serves S s due s') :
    s'.carry = s.carry ∧ s'.anchor = s.anchor := by
  cases h with
  | spurious => exact ⟨rfl, rfl⟩
  | last => exact ⟨rfl, rfl⟩
  | passed => exact ⟨rfl, rfl⟩
  | onward _ _ _ _ _ arms => exact arms.frame

theorem Plans.converts {delay : UInt32} {s s' : Schedule σ} (h : Plans S delay s s') :
    ∃ span, (ratio S).nativeOfDelay s.carry delay = .ok (span, s'.carry) ∧
      Counter.advance ((s.supersede S).period S) s.anchor span = .ok s'.anchor := by
  cases h with
  | @due span carry anchor _ _ converted advanced => exact ⟨span, converted, advanced⟩
  | @ahead span carry remaining anchor _ _ converted advanced _ _ arms =>
      obtain ⟨sameCarry, sameAnchor⟩ := arms.frame
      rw [sameCarry, sameAnchor]
      exact ⟨span, converted, advanced⟩

theorem carry_kept : Kept S (fun _ => True) (fun _ _ => ())
    fun (_ : Unit) s => s.carry.toNat < (ratio S).den.toNat where
  apply {_ a s s'} _ carry h := by
    cases a with
    | plan delay =>
        obtain ⟨span, converted, -⟩ := (plans_of_plan S h).converts
        rw [(Ratio.of_nativeOfDelay _ _ carry converted).2]
        exact Ratio.left_lt _ _ _ _
    | cancel =>
        cases h
        exact carry
    | reset =>
        cases h
        exact Ratio.den_pos _ _
    | clear =>
        cases h
        exact Ratio.den_pos _ _
    | environment effect =>
        obtain ⟨source, -, done⟩ := parts_of_bind h
        cases done
        exact carry
  serve _ carry h := (serves_of_serve S h).frame.1 ▸ carry
  takeDue carry := carry
  enter _ carry := carry
  leave {_ s} carry := by
    unfold leaveCallback
    split
    next => exact carry
    next => exact carry

/-! ## The books -/

/-- Carry and anchor after `total` reference ticks were planned from zero. -/
structure Booked (S : Source σ) (p total : Nat) (s : Schedule σ) : Prop where
  carry : s.carry.toNat = total * (ratio S).num.toNat % (ratio S).den.toNat
  anchor : s.anchor.toNat = total * (ratio S).num.toNat / (ratio S).den.toNat % p

variable {p : UInt64}

theorem booked_zero {s : Schedule σ} (carry : s.carry = 0) (anchor : s.anchor = 0) :
    Booked S p.toNat 0 s := by
  constructor
  · simp [carry]
  · simp [anchor]

theorem Booked.congr {total : Nat} {s s' : Schedule σ} (booked : Booked S p.toNat total s)
    (same : s'.carry = s.carry ∧ s'.anchor = s.anchor) : Booked S p.toNat total s' := by
  obtain ⟨carry, anchor⟩ := same
  constructor
  · rw [carry]
    exact booked.carry
  · rw [anchor]
    exact booked.anchor

theorem Booked.carry_lt {total : Nat} {s : Schedule σ} (booked : Booked S p.toNat total s) :
    s.carry.toNat < (ratio S).den.toNat :=
  Ratio.carry_lt S.rate Rate.reference booked.carry

theorem Plans.booked {total : Nat} {delay : UInt32} {s s' : Schedule σ}
    (h : Plans S delay s s') (keeps : S.KeepsPeriod) (pos : 0 < p.toNat)
    (le : p.toNat ≤ 0x100000000) (period : s.period S = p)
    (booked : Booked S p.toNat total s) : Booked S p.toNat (total + delay.toNat) s' := by
  obtain ⟨span, converted, advanced⟩ := h.converts
  obtain ⟨ticks, left⟩ := Ratio.of_nativeOfDelay _ _ booked.carry_lt converted
  rw [supersede_period keeps, period, Counter.advance_eq pos le] at advanced
  constructor
  · rw [left, Nat.add_mul]
    exact Ratio.left_of_sum S.rate Rate.reference delay booked.carry
  · have within : (s.anchor.toNat + span.toNat) % p.toNat < p.toNat := Nat.mod_lt _ pos
    have sum : total * (ratio S).num.toNat / (ratio S).den.toNat + span.toNat =
        (total + delay.toNat) * (ratio S).num.toNat / (ratio S).den.toNat := by
      rw [ticks, Nat.add_mul]
      exact Ratio.div_add_ticks S.rate Rate.reference delay booked.carry
    injection advanced with moved
    rw [← moved, UInt32.toNat_ofNat_of_lt' (Nat.lt_of_lt_of_le within le), booked.anchor,
      Nat.mod_add_mod, sum]

end Schedule

def book (total : Nat) : Action σ → Nat
  | .plan delay => total + delay.toNat
  | .reset => 0
  | .clear => 0
  | .cancel => total
  | .environment _ => total

/-- The reference ticks of all slots accepted since the anchor was last set to zero. -/
def booked (history : List (Entry σ κ)) : Nat := moveOn book 0 history

namespace Schedule

variable {p : UInt64}

theorem booked_kept (keeps : S.KeepsPeriod) (pos : 0 < p.toNat) (le : p.toNat ≤ 0x100000000) :
    Kept S (fun s => s.period S = p) book (Booked S p.toNat) where
  apply {total a s s'} period booked h := by
    cases a with
    | plan delay => exact (plans_of_plan S h).booked keeps pos le period booked
    | cancel =>
        cases h
        exact booked.congr ⟨rfl, rfl⟩
    | reset =>
        cases h
        exact booked_zero rfl rfl
    | clear =>
        cases h
        exact booked_zero rfl rfl
    | environment effect =>
        obtain ⟨source, -, done⟩ := parts_of_bind h
        cases done
        exact booked.congr ⟨rfl, rfl⟩
  serve _ booked h := booked.congr (serves_of_serve S h).frame
  takeDue booked := booked.congr ⟨rfl, rfl⟩
  enter _ booked := booked.congr ⟨rfl, rfl⟩
  leave {total s} booked := by
    unfold leaveCallback
    split
    next => exact booked.congr ⟨rfl, rfl⟩
    next => exact booked

theorem referenceAnchor_eq (s : Schedule σ) :
    s.referenceAnchor S =
      .ok (UInt32.ofNat (s.anchor.toNat * 32768 / S.rate.hertz.toNat)) :=
  Ratio.reading_in_reference_eq S.rate s.anchor

end Schedule

/-! ## Every run -/

theorem Runs.carry_lt {m₀ m : Moment σ κ} {history : List (Entry σ κ)} (new : m₀.IsNew)
    (runs : Runs S m₀ history m) :
    m.schedule.carry.toNat < (Schedule.ratio S).den.toNat := by
  refine Schedule.carry_kept.runs (i := ()) runs new.orderly (fun _ _ => trivial) ?_
  obtain ⟨source, fresh⟩ := new.schedule_eq
  rw [fresh]
  exact Ratio.den_pos _ _

/--
On a source of constant period the anchor is the floor of the whole sum in native
ticks, and it is reported as the floor of that in reference ticks.
-/
theorem anchor_of_booked (keeps : S.KeepsPeriod) {p : UInt64} (pos : 0 < p.toNat)
    (le : p.toNat ≤ 0x100000000) {m₀ m : Moment σ κ} {history : List (Entry σ κ)}
    (new : m₀.IsNew) (runs : Runs S m₀ history m)
    (constant : ∀ e ∈ history, e.before.schedule.period S = p) :
    m.schedule.anchor.toNat = booked history * S.rate.hertz.toNat / 32768 % p.toNat ∧
      m.schedule.referenceAnchor S = .ok (UInt32.ofNat
        (booked history * S.rate.hertz.toNat / 32768 % p.toNat * 32768 /
          S.rate.hertz.toNat)) := by
  have start : m₀.schedule.Booked S p.toNat 0 := by
    obtain ⟨source, fresh⟩ := new.schedule_eq
    rw [fresh]
    exact Schedule.booked_zero rfl rfl
  have books := (Schedule.booked_kept keeps pos le).runs runs new.orderly constant start
  have anchor : m.schedule.anchor.toNat =
      booked history * S.rate.hertz.toNat / 32768 % p.toNat := by
    rw [books.anchor, Schedule.ratio, Ratio.mul_num_div_den]
    rfl
  constructor
  · exact anchor
  · rw [Schedule.referenceAnchor_eq, anchor]

namespace Sample.Carried

def source : Source Clock := Clock.tickSource .symbol 0xFF 0

def idle : Schedule Clock := { source := { time := 40 } }

def first : Schedule Clock :=
  { source := ⟨40, 168, some 168⟩, carry := 6020, anchor := 190, phase := .armed, eventAt := 168
    owed := 22 }

def second : Schedule Clock :=
  { source := ⟨100, 228, some 228⟩, carry := 4686, anchor := 155, phase := .armed, eventAt := 228
    owed := 439 }

def third : Schedule Clock :=
  { source := ⟨100, 157, some 157⟩, carry := 3927, anchor := 157, phase := .armed, eventAt := 157 }

def history : List (Entry Clock Unit) :=
  [⟨.alone idle, .act (.plan 100)⟩, ⟨.alone first, .act (.environment (Clock.wait 60))⟩,
    ⟨.alone { first with source.time := 100 }, .act (.plan 250)⟩, ⟨.alone second, .act .cancel⟩,
    ⟨.alone (second.cancel source), .act (.plan 1)⟩]

theorem runs : Runs source (.alone idle) history (.alone third) := by
  have plan : Step (κ := Unit) source (.alone idle) (.act (.plan 100)) (.alone first) :=
    .alone rfl
  have wait : Step (κ := Unit) source (.alone first) (.act (.environment (Clock.wait 60)))
      (.alone { first with source.time := 100 }) := .alone rfl
  have replace : Step (κ := Unit) source (.alone { first with source.time := 100 })
      (.act (.plan 250)) (.alone second) := .alone rfl
  have cancel : Step (κ := Unit) source (.alone second) (.act .cancel)
      (.alone (second.cancel source)) := .alone rfl
  have again : Step (κ := Unit) source (.alone (second.cancel source)) (.act (.plan 1))
      (.alone third) := .alone rfl
  exact (Runs.single plan).trans ((Runs.single wait).trans ((Runs.single replace).trans
    ((Runs.single cancel).trans (.single again))))

end Sample.Carried

open Sample.Carried in
/-- Converted one by one, the three delays would make two ticks less. -/
theorem anchor_of_booked_sample :
    booked history = 351 ∧ third.anchor.toNat = 351 * 62500 / 32768 % 256 ∧
      third.referenceAnchor source =
        .ok (UInt32.ofNat (351 * 62500 / 32768 % 256 * 32768 / 62500)) := by
  have new : (.alone idle : Moment Clock Unit).IsNew := ⟨{ time := 40 }, rfl⟩
  have books := anchor_of_booked (Clock.keepsPeriod .symbol 0xFF 0) (p := 256)
    (by decide) (by decide) new runs (fun _ _ => rfl)
  exact ⟨rfl, books⟩

end SlotClock
