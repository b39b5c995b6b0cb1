import SlotClock.Proofs.Counter
import SlotClock.Schedule

/-!
# What the operations of a schedule can do

`plan`, `armChunk` and `serve` check their arithmetic and ask the source, so each
of them can end in several ways.  An outcome lists those ways once, with what was
checked and what the source answered, and an operation that returns has one of
its outcomes.
-/

namespace SlotClock

theorem parts_of_bind {ε α β : Type} {first : Except ε α} {second : α → Except ε β} {b : β}
    (h : first >>= second = .ok b) : ∃ a, first = .ok a ∧ second a = .ok b := by
  cases first with
  | error cause => cases h
  | ok a => exact ⟨a, rfl, h⟩

namespace Approach

theorem of_eq (delay : UInt64) (elapsed : Int) (small : delay.toNat < 0x4000000000000000)
    (lo : -0x4000000000000000 ≤ elapsed) (hi : elapsed < 0x4000000000000000) :
    of delay elapsed = .ok (if delay.toNat = 0 ∨ (delay.toNat : Int) ≤ elapsed
      then due (elapsed - delay.toNat) else ahead (Word.ofSigned (delay.toNat - elapsed))) := by
  have signed : Word.toSigned delay = delay.toNat := Word.toSigned_of_lt (by omega)
  have none : delay = 0 ↔ delay.toNat = 0 := UInt64.toNat_inj.symm
  have gone : 0 ≤ elapsed ∧ delay ≤ Word.ofSigned elapsed ↔ (delay.toNat : Int) ≤ elapsed := by
    rw [UInt64.le_iff_toNat_le]
    constructor
    · rintro ⟨forward, le⟩
      have exact := Word.toNat_ofSigned forward (by omega)
      omega
    · intro le
      have exact := Word.toNat_ofSigned (z := elapsed) (by omega) (by omega)
      omega
  unfold of
  simp only [none, gone, signed, bind, Except.bind, pure, Except.pure]
  split
  next => rw [Signed.sub_of_mem (by omega) (by omega)]
  next => rw [Signed.sub_of_mem (by omega) (by omega)]

end Approach

namespace Schedule

variable {σ : Type} (S : Source σ)

/-- The ways in which arming `remaining` ticks from the reading `base` can end. -/
inductive Arms (base : UInt32) (remaining : UInt64) (s : Schedule σ) : Schedule σ → Prop where
  | short {resolution : UInt64} (below : S.resolution s.source = .ok resolution)
      (lt : remaining < resolution) : Arms base remaining s { s with due := true }
  | armed {source : σ} {resolution covered owed : UInt64} {eventAt : UInt32}
      (reached : S.resolution s.source = .ok resolution) (le : resolution ≤ remaining)
      (arm : S.arm base (min remaining (s.period S / 2)) s.source = .ok (.armed covered, source))
      (event : Counter.advance (s.period S) base covered = .ok eventAt)
      (rest : Word.sub remaining covered = .ok owed) :
      Arms base remaining s
        { s with source := source, eventAt := eventAt, owed := owed, phase := .armed }
  | missed {source : σ} {resolution : UInt64}
      (reached : S.resolution s.source = .ok resolution) (le : resolution ≤ remaining)
      (arm : S.arm base (min remaining (s.period S / 2)) s.source = .ok (.missed, source)) :
      Arms base remaining s { s with source := S.disarm source, due := true }

theorem arms_of_armChunk {base : UInt32} {remaining : UInt64} {s s' : Schedule σ}
    (h : s.armChunk S base remaining = .ok s') : Arms S base remaining s s' := by
  unfold armChunk at h
  obtain ⟨resolution, below, h⟩ := parts_of_bind h
  split at h
  next lt =>
    cases h
    exact .short below lt
  next enough =>
    have le : resolution ≤ remaining := UInt64.not_lt.mp enough
    obtain ⟨⟨arming, source⟩, arm, h⟩ := parts_of_bind h
    cases arming with
    | armed covered =>
        obtain ⟨eventAt, event, h⟩ := parts_of_bind h
        obtain ⟨owed, rest, h⟩ := parts_of_bind h
        cases h
        exact .armed below le arm event rest
    | missed =>
        cases h
        exact .missed below le arm

def moved (carry : UInt64) (anchor : UInt32) (s : Schedule σ) : Schedule σ :=
  { s.supersede S with carry := carry, anchor := anchor }

inductive Plans (delay : UInt32) (s : Schedule σ) : Schedule σ → Prop where
  | due {native carry : UInt64} {anchor : UInt32} {elapsed late : Int}
      (converted : (ratio S).nativeOfDelay s.carry delay = .ok (native, carry))
      (advanced : Counter.advance ((s.supersede S).period S) s.anchor native = .ok anchor)
      (passed : Counter.distance ((s.supersede S).period S) s.anchor
        ((s.supersede S).reading S) = .ok elapsed)
      (approach : Approach.of native elapsed = .ok (.due late)) :
      Plans delay s { moved S carry anchor s with due := true }
  | ahead {native carry remaining : UInt64} {anchor : UInt32} {elapsed : Int} {s' : Schedule σ}
      (converted : (ratio S).nativeOfDelay s.carry delay = .ok (native, carry))
      (advanced : Counter.advance ((s.supersede S).period S) s.anchor native = .ok anchor)
      (passed : Counter.distance ((s.supersede S).period S) s.anchor
        ((s.supersede S).reading S) = .ok elapsed)
      (approach : Approach.of native elapsed = .ok (.ahead remaining))
      (arms : Arms S ((s.supersede S).reading S) remaining (moved S carry anchor s) s') :
      Plans delay s s'

@[simp] theorem supersede_carry (s : Schedule σ) : (s.supersede S).carry = s.carry := by
  unfold supersede
  split <;> rfl

@[simp] theorem supersede_anchor (s : Schedule σ) : (s.supersede S).anchor = s.anchor := by
  unfold supersede
  split <;> rfl

theorem supersede_of_unarmed {s : Schedule σ} (unarmed : s.phase ≠ .armed) :
    s.supersede S = { s with owed := 0, due := false } := by
  unfold supersede
  rw [if_neg unarmed]

theorem plans_of_plan {delay : UInt32} {s s' : Schedule σ} (h : s.plan S delay = .ok s') :
    Plans S delay s s' := by
  unfold plan at h
  obtain ⟨⟨native, carry⟩, converted, h⟩ := parts_of_bind h
  obtain ⟨elapsed, passed, h⟩ := parts_of_bind h
  obtain ⟨anchor, advanced, h⟩ := parts_of_bind h
  obtain ⟨approach, located, h⟩ := parts_of_bind h
  rw [supersede_carry] at converted
  rw [supersede_anchor] at passed advanced
  cases approach with
  | due late =>
      cases h
      exact .due converted advanced passed located
  | ahead remaining => exact .ahead converted advanced passed located (arms_of_armChunk S h)

def acknowledged (s : Schedule σ) : Schedule σ :=
  { s with source := S.disarm (S.acknowledge s.source) }

theorem serve_unarmed {s : Schedule σ} (unarmed : s.phase ≠ .armed) :
    s.serve S = .ok (false, s.acknowledged S) := by
  unfold serve
  exact if_neg unarmed

/-- An acknowledged schedule whose armed event is used up. -/
def spent (s : Schedule σ) : Schedule σ := { s.acknowledged S with phase := .idle, owed := 0 }

/-- The ways in which serving an event can end, and whether the callback has to run. -/
inductive Serves (s : Schedule σ) : Bool → Schedule σ → Prop where
  | spurious (unarmed : s.phase ≠ .armed) : Serves s false (s.acknowledged S)
  | last (armed : s.phase = .armed) (whole : s.owed = 0) : Serves s true (s.spent S)
  | passed {late rest : Int} (armed : s.phase = .armed) (part : s.owed ≠ 0)
      (served : Counter.distance ((s.spent S).period S) s.eventAt
        ((s.spent S).reading S) = .ok late)
      (exact : Signed.sub (Word.toSigned s.owed) late = .ok rest) (gone : rest ≤ 0) :
      Serves s true (s.spent S)
  | onward {late rest : Int} {s' : Schedule σ} (armed : s.phase = .armed) (part : s.owed ≠ 0)
      (served : Counter.distance ((s.spent S).period S) s.eventAt
        ((s.spent S).reading S) = .ok late)
      (exact : Signed.sub (Word.toSigned s.owed) late = .ok rest) (remains : 0 < rest)
      (arms : Arms S ((s.spent S).reading S) (Word.ofSigned rest) (s.spent S) s') :
      Serves s s'.due { s' with due := false }

theorem serves_of_serve {s s' : Schedule σ} {due : Bool} (h : s.serve S = .ok (due, s')) :
    Serves S s due s' := by
  unfold serve at h
  simp only at h
  split at h
  next armed =>
    split at h
    next whole =>
      cases h
      exact .last armed whole
    next part =>
      unfold continueWith at h
      obtain ⟨late, served, h⟩ := parts_of_bind h
      obtain ⟨rest, exact, h⟩ := parts_of_bind h
      split at h
      next gone =>
        cases h
        exact .passed armed part served exact gone
      next remains =>
        obtain ⟨s'', arms, h⟩ := parts_of_bind h
        cases h
        exact .onward armed part served exact (Int.not_le.mp remains) (arms_of_armChunk S arms)
  next unarmed =>
    cases h
    exact .spurious unarmed

end Schedule

end SlotClock
