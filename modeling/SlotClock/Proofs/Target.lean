import SlotClock.Proofs.Conversion
import SlotClock.Proofs.Invariant

/-!
# The armed event leads to the anchor

A slot that is armed lies `owed` ticks after its event, and its instant is the
anchor.  Both are known up to whole periods only.  Every chunk is measured from a
fresh reading, but that reading is placed by its distance from a point that is
already known, so no chunk adds an error of its own.

## The invariant
-/

namespace SlotClock

open Counter

variable {σ κ : Type} {S : Source σ}

namespace Schedule

structure Aimed (S : Source σ) (p : Nat) (s : Schedule σ) : Prop where
  carry : s.carry.toNat < (ratio S).den.toNat
  owed : s.owed.toNat < 0x8000000000000000
  armed : s.phase = .armed → Shows p s.eventAt (s.anchor.toNat - s.owed.toNat)
  unarmed : s.phase ≠ .armed → s.owed = 0

variable {p : UInt64}

theorem aimed_of_idle {s : Schedule σ} (carry : s.carry.toNat < (ratio S).den.toNat)
    (unarmed : s.phase ≠ .armed) (none : s.owed = 0) : Aimed S p.toNat s where
  carry := carry
  owed := by simp [none]
  armed armed := absurd armed unarmed
  unarmed _ := none

private theorem aimed_of_new (source : σ) : Aimed S p.toNat { source := source } :=
  aimed_of_idle (Ratio.den_pos _ _) Phase.noConfusion rfl

theorem Arms.aimed {base : UInt32} {remaining : UInt64} {s s' : Schedule σ}
    (h : Arms S base remaining s s') (pos : 0 < p.toNat) (le : p.toNat ≤ 0x100000000)
    (period : s.period S = p) (small : remaining.toNat < 0x8000000000000000)
    (idle : s.phase ≠ .armed) (aimed : Aimed S p.toNat s)
    (leads : Shows p.toNat base (s.anchor.toNat - remaining.toNat)) : Aimed S p.toNat s' := by
  have none := aimed.unarmed idle
  cases h with
  | short => exact aimed_of_idle aimed.carry idle none
  | missed => exact aimed_of_idle aimed.carry idle none
  | @armed source resolution covered owed eventAt _ _ _ event rest =>
      obtain ⟨covers, left⟩ := Word.toNat_of_sub_ok rest
      rw [period] at event
      have shown := leads.advance pos le event
      constructor
      · exact aimed.carry
      · show owed.toNat < _
        omega
      · intro _
        have target : (s.anchor.toNat : Int) - owed.toNat =
            s.anchor.toNat - remaining.toNat + covered.toNat := by omega
        show Shows p.toNat eventAt (s.anchor.toNat - owed.toNat)
        rw [target]
        exact shown
      · intro unarmed
        exact absurd rfl unarmed

private theorem supersede_owed (s : Schedule σ) : (s.supersede S).owed = 0 := rfl

theorem Plans.aimed {delay : UInt32} {s s' : Schedule σ} (h : Plans S delay s s')
    (keeps : S.KeepsPeriod) (pos : 0 < p.toNat) (le : p.toNat ≤ 0x100000000)
    (period : s.period S = p) (aimed : Aimed S p.toNat s) : Aimed S p.toNat s' := by
  have unarmed := supersede_unarmed S s
  have same := (supersede_period keeps s).trans period
  cases h with
  | @due native carry anchor elapsed late converted advanced passed approach =>
      obtain ⟨-, exact⟩ := Ratio.of_nativeOfDelay _ _ aimed.carry converted
      refine aimed_of_idle ?_ unarmed (supersede_owed (S := S) s)
      show carry.toNat < _
      rw [exact]
      exact Ratio.left_lt _ _ _ _
  | @ahead native carry remaining anchor elapsed s' converted advanced passed approach arms =>
      obtain ⟨exact, left⟩ := Ratio.of_nativeOfDelay _ _ aimed.carry converted
      have small := Ratio.ticks_lt S.rate aimed.carry delay
      rw [same, distance_eq pos (by omega)] at passed
      cases passed
      obtain ⟨lo, hi⟩ := centred_window pos
        (((s.supersede S).reading S).toNat - (s.anchor.toNat : Int))
      rw [Approach.of_eq _ _ (by rw [exact]; exact small) (by omega) (by omega)] at approach
      split at approach
      next => cases approach
      next future =>
        cases approach
        have gap := Word.toNat_ofSigned (z := native.toNat -
          centred p.toNat (((s.supersede S).reading S).toNat - (s.anchor.toNat : Int)))
          (by omega) (by omega)
        apply arms.aimed pos le same (by omega) unarmed
        · refine aimed_of_idle ?_ unarmed (supersede_owed (S := S) s)
          show carry.toNat < _
          rw [left]
          exact Ratio.left_lt _ _ _ _
        · have placed := (shows_toNat p.toNat ((s.supersede S).reading S)).of_centred
            (s := s.anchor.toNat)
          rw [same] at advanced
          have onward := (shows_toNat p.toNat s.anchor).advance pos le advanced
          unfold Shows at placed onward ⊢
          show _ = ((anchor.toNat : Int) - _) % _
          rw [placed, gap, Int.sub_emod, onward, ← Int.sub_emod]
          congr 1
          omega

theorem Serves.aimed {due : Bool} {s s' : Schedule σ} (h : Serves S s due s')
    (keeps : S.KeepsPeriod) (pos : 0 < p.toNat) (le : p.toNat ≤ 0x100000000)
    (period : s.period S = p) (aimed : Aimed S p.toNat s) : Aimed S p.toNat s' := by
  have spent : Aimed S p.toNat (s.spent S) := aimed_of_idle aimed.carry Phase.noConfusion rfl
  have same := (spent_period keeps s).trans period
  cases h with
  | spurious unarmed => exact aimed_of_idle aimed.carry unarmed (aimed.unarmed unarmed)
  | last => exact spent
  | passed => exact spent
  | @onward late rest s' armed part served exact remains arms =>
      rw [same, distance_eq pos (by omega)] at served
      cases served
      rw [Word.toSigned_of_lt aimed.owed] at exact
      obtain ⟨difference, -, hi⟩ := Signed.of_sub_ok exact
      have gap := Word.toNat_ofSigned (z := rest) (by omega) (by omega)
      have again : Aimed S p.toNat s' := by
        apply arms.aimed pos le same (by omega) Phase.noConfusion spent
        have placed := (shows_toNat p.toNat ((s.spent S).reading S)).of_centred
          (s := s.eventAt.toNat)
        have leads := placed.trans (aimed.armed armed)
        have target : (s.anchor.toNat : Int) - (Word.ofSigned rest).toNat = s.anchor.toNat -
            s.owed.toNat + centred p.toNat (((s.spent S).reading S).toNat - (s.eventAt.toNat : Int)) := by
          omega
        show Shows p.toNat _ ((s.anchor.toNat : Int) - _)
        rw [target]
        exact leads
      exact ⟨again.carry, again.owed, again.armed, again.unarmed⟩

theorem aimed_kept (keeps : S.KeepsPeriod) (pos : 0 < p.toNat) (le : p.toNat ≤ 0x100000000) :
    Kept S (fun s => s.period S = p) (fun (i : Unit) _ => i) (fun _ => Aimed S p.toNat) where
  apply {i a s s'} period aimed h := by
    cases a with
    | plan delay => exact (plans_of_plan S h).aimed keeps pos le period aimed
    | cancel =>
        cases h
        exact aimed_of_idle aimed.carry (withoutEvent_ne_armed _) rfl
    | reset =>
        cases h
        exact aimed_of_idle (Ratio.den_pos _ _) (withoutEvent_ne_armed _) rfl
    | clear =>
        cases h
        exact aimed_of_new _
    | environment effect =>
        obtain ⟨source, -, done⟩ := parts_of_bind h
        cases done
        exact ⟨aimed.carry, aimed.owed, aimed.armed, aimed.unarmed⟩
  serve period aimed h := (serves_of_serve S h).aimed keeps pos le period aimed
  takeDue aimed := ⟨aimed.carry, aimed.owed, aimed.armed, aimed.unarmed⟩
  enter idle aimed := by
    have unarmed := aimed.unarmed (idle ▸ Phase.noConfusion)
    exact aimed_of_idle aimed.carry Phase.noConfusion unarmed
  leave {i s} aimed := by
    unfold leaveCallback
    split
    next running =>
      have unarmed := aimed.unarmed (running ▸ Phase.noConfusion)
      exact aimed_of_idle aimed.carry Phase.noConfusion unarmed
    next => exact aimed

end Schedule

/-! ## Every run -/

/--
On a source of constant period, an armed event and what is owed after it add up to
the anchor, up to whole periods, and nothing is owed while no event is armed.
-/
theorem event_leads_to_anchor (keeps : S.KeepsPeriod) {p : UInt64} (pos : 0 < p.toNat)
    (le : p.toNat ≤ 0x100000000) {m₀ m : Moment σ κ} {history : List (Entry σ κ)}
    (new : m₀.IsNew) (runs : Runs S m₀ history m)
    (constant : ∀ e ∈ history, e.before.schedule.period S = p) :
    (m.schedule.phase = .armed →
      (m.schedule.eventAt.toNat + m.schedule.owed.toNat) % p.toNat =
        m.schedule.anchor.toNat % p.toNat) ∧
      (m.schedule.phase ≠ .armed → m.schedule.owed = 0) := by
  have start : m₀.schedule.Aimed S p.toNat := by
    obtain ⟨source, fresh⟩ := new.schedule_eq
    rw [fresh]
    exact Schedule.aimed_of_new source
  have aimed := (Schedule.aimed_kept keeps pos le).runs (i := ()) runs new.orderly constant start
  constructor
  · intro armed
    have leads := aimed.armed armed
    unfold Shows at leads
    have whole : ((m.schedule.eventAt.toNat : Int) + m.schedule.owed.toNat) % p.toNat =
        m.schedule.anchor.toNat % p.toNat := by
      rw [Int.add_emod, leads, ← Int.add_emod, Int.sub_add_cancel]
    exact_mod_cast whole
  · exact aimed.unarmed

theorem event_leads_to_anchor_sample :
    Sample.nearer.phase = .armed ∧
      (Sample.nearer.eventAt.toNat + Sample.nearer.owed.toNat) % 256 =
        Sample.nearer.anchor.toNat % 256 := by
  have leads := event_leads_to_anchor (Clock.keepsPeriod .reference 0xFF 3) (p := 256)
    (by decide) (by decide) Sample.isNew Sample.runs (fun _ _ => rfl)
  exact ⟨rfl, leads.1 rfl⟩

end SlotClock
