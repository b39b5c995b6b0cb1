import Mathlib.Algebra.BigOperators.Group.List.Lemmas
import Mathlib.Data.Set.Card
import Mathlib.Order.Bounds.Basic
import Mathlib.Order.Interval.Finset.Nat
import SlotClock.Proofs.Anchor
import SlotClock.Proofs.Faultless
import SlotClock.Proofs.Totals

/-!
# Catching up with late slots

A callback that runs late plans its next slot from the instant it was due at, and that slot
may be late as well.  It then runs again in the same call, and so on until it has planned a
slot that can be armed.  Nothing but the delays bounds that loop.

A prompt source arms whatever reaches its resolution, and no time goes by meanwhile.  On
such a source a slot is due exactly if it lies less than the resolution ahead, and it makes
no difference whether it has gone by, is too close to be armed, or comes without a delay.  So
the loop ends at the first slot that lies further ahead, and has run once for every slot
before it.

## Totals of delays
-/

namespace SlotClock

open Counter

variable {σ κ ρ : Type}

namespace Ratio

def fractions (r : Ratio) (carry : UInt64) (delays : Nat → UInt32) (k : Nat) : Nat :=
  carry.toNat + ((List.range k).map fun i => (delays i).toNat).sum * r.num.toNat

def total (r : Ratio) (carry : UInt64) (delays : Nat → UInt32) (k : Nat) : Nat :=
  fractions r carry delays k / r.den.toNat

variable (native reference : Rate)

theorem nativeOfDelays_eq {carry : UInt64}
    (h : carry.toNat < (between native reference).den.toNat) (delays : List UInt32) :
    ∃ carry', (between native reference).nativeOfDelays carry delays =
      .ok ((carry.toNat + (delays.map UInt32.toNat).sum * (between native reference).num.toNat) /
        (between native reference).den.toNat, carry') :=
  ⟨_, nativeOfDelays_sum native reference h delays⟩

variable {native reference}

private theorem fractions_zero (r : Ratio) (carry : UInt64) (delays : Nat → UInt32) :
    r.fractions carry delays 0 = carry.toNat := by
  simp [fractions]

private theorem total_zero {carry : UInt64} {delays : Nat → UInt32}
    (h : carry.toNat < (between native reference).den.toNat) :
    (between native reference).total carry delays 0 = 0 := by
  rw [total, fractions_zero, Nat.div_eq_of_lt h]

theorem fractions_succ (r : Ratio) (carry : UInt64) (delays : Nat → UInt32) (k : Nat) :
    r.fractions carry delays (k + 1) =
      r.fractions carry delays k + (delays k).toNat * r.num.toNat := by
  simp [fractions, List.sum_range_succ, Nat.add_mul, Nat.add_assoc]

private theorem total_mono (r : Ratio) (carry : UInt64) (delays : Nat → UInt32) :
    Monotone (r.total carry delays) := by
  refine monotone_nat_of_le_succ fun k => Nat.div_le_div_right ?_
  rw [fractions_succ]
  exact Nat.le_add_right _ _

private theorem le_fractions {carry : UInt64} {delays : Nat → UInt32}
    (pos : ∀ i, 1 ≤ (delays i).toNat)
    (k : Nat) : k ≤ (between native reference).fractions carry delays k := by
  induction k with
  | zero => exact Nat.zero_le _
  | succ k ih =>
      rw [fractions_succ]
      have tick := Nat.mul_le_mul (pos k) (num_pos native reference)
      omega

theorem total_unbounded {carry : UInt64} {delays : Nat → UInt32}
    (pos : ∀ i, 1 ≤ (delays i).toNat) (bound : Int) :
    ∃ k, 1 ≤ k ∧ bound ≤ (between native reference).total carry delays k := by
  have den := den_pos native reference
  refine ⟨(bound.toNat + 1) * (between native reference).den.toNat, ?_, ?_⟩
  · exact Nat.mul_pos (Nat.succ_pos _) den
  · have far : bound.toNat + 1 ≤ (between native reference).total carry delays
        ((bound.toNat + 1) * (between native reference).den.toNat) :=
      (Nat.le_div_iff_mul_le den).mpr (le_fractions pos _)
    omega

end Ratio

/-! ## Prompt sources -/

/--
From the current reading, whatever reaches the resolution `m` and is at most half the
period `p` is armed.  `comes x y n` says that the event armed in `y` comes `n` ticks after `x`.
-/
structure Source.Prompt (S : Source σ) (comes : σ → σ → Nat → Prop) (p m : Nat) (x : σ) :
    Prop where
  period : (S.period x).toNat = p
  le : p ≤ 0x100000000
  pos : 0 < m
  half : m ≤ p / 2
  resolution : ∃ resolution, S.resolution x = .ok resolution ∧ resolution.toNat = m
  arm (delay : UInt64) (enough : m ≤ delay.toNat) (short : delay.toNat ≤ p / 2) :
    ∃ covered y, S.arm (S.reading x) delay x = .ok (.armed covered, y) ∧
      covered.toNat ≤ delay.toNat ∧ comes x y covered.toNat

namespace Clock

def ComesIn (c c' : Clock) (ticks : Nat) : Prop := c'.armed = some (c.time + ticks)

theorem prompt (rate : Rate) {top : UInt32} (two : 2 ≤ top.toNat + 1) (c : Clock) :
    (tickSource rate top 0).Prompt ComesIn (top.toNat + 1) 1 c where
  period := toNat_period rate top 0
  le := toNat_top_lt top
  pos := Nat.one_pos
  half := by omega
  resolution := ⟨1, rfl, rfl⟩
  arm delay enough short := by
    have armed := arm_eq rate 0 0 delay (shows_readingAt top c.time) rfl (by omega) short
    rw [if_neg (by omega)] at armed
    exact ⟨delay, _, armed, Nat.le_refl _, rfl⟩

end Clock

namespace SymbolClock

def ComesIn (c c' : SymbolCounter SymbolClock) (ticks : Nat) : Prop :=
  c'.regs.armed = some (c.regs.time + ticks)

theorem prompt (rate : Rate) (bias : UInt32) {c : SymbolCounter SymbolClock}
    (two : 2 ≤ c.period.toNat) : (tickSource rate bias 0).Prompt ComesIn c.period.toNat 1 c where
  period := toNat_period
  le := Nat.le_of_lt (Word.reading_lt _)
  pos := Nat.one_pos
  half := by omega
  resolution := ⟨1, rfl, rfl⟩
  arm delay enough short := by
    have small := Word.reading_lt c.period
    have here : distance c.period.toUInt64 (c.value (registers rate bias 0))
        (c.value (registers rate bias 0)) = .ok 0 := by
      rw [distance_eq (by rw [toNat_period]; omega) (by rw [toNat_period]; omega), Int.sub_self,
        centred_of_window (by rw [toNat_period]; omega) (by rw [toNat_period]; omega)]
    have armed := arm_of_lead rate 0 here (by omega) (by omega) short (by decide)
    rw [if_neg (by omega), if_neg (by omega), Int.zero_add] at armed
    exact ⟨delay, _, armed, Nat.le_refl _, rfl⟩

end SymbolClock

namespace IntervalTimer

def ComesIn (t t' : IntervalTimer ρ) (ticks : Nat) : Prop :=
  t'.counted = t.counted ∧ t'.running.map UInt64.toNat = some ticks

theorem prompt {R : IntervalRegisters ρ} {range : IntervalRange} (returns : R.Returns)
    (ordered : range.minShift ≤ range.maxShift) (small : range.maxShift < 32)
    (t : IntervalTimer ρ) :
    (source R range).Prompt ComesIn 0x100000000 (2 ^ range.minShift) t where
  period := rfl
  le := Nat.le_refl _
  pos := Nat.two_pow_pos _
  half := Nat.pow_le_pow_right (by decide) (show range.minShift ≤ 31 by omega)
  resolution := Word.shiftLeft_one (by omega)
  arm delay enough short := by
    obtain ⟨answer, t', armed⟩ := arm_of_returns returns ordered (by omega) t delay
    obtain ⟨interval, rfl, le, counted, running⟩ :=
      covered_of_arm R ordered (by omega) enough armed
    refine ⟨interval, t', armed, le, counted, ?_⟩
    rw [running]
    rfl

end IntervalTimer

/--
The sources that write without a delay, each with what tells when its event comes, a state,
and the period and the resolution there.
-/
inductive Backend :
    {σ : Type} → Source σ → (σ → σ → Nat → Prop) → σ → (period resolution : Nat) → Prop where
  | compare (rate : Rate) {top : UInt32} (two : 2 ≤ top.toNat + 1) (c : Clock) :
      Backend (Clock.tickSource rate top 0) Clock.ComesIn c (top.toNat + 1) 1
  | symbol (rate : Rate) (bias : UInt32) {c : SymbolCounter SymbolClock}
      (two : 2 ≤ c.period.toNat) :
      Backend (SymbolClock.tickSource rate bias 0) SymbolClock.ComesIn c c.period.toNat 1
  | interval {ρ : Type} {R : IntervalRegisters ρ} {minShift maxShift : Nat} {range : IntervalRange}
      (returns : R.Returns) (checked : IntervalRange.checked minShift maxShift = .ok range)
      (t : IntervalTimer ρ) :
      Backend (IntervalTimer.source R range) IntervalTimer.ComesIn t 0x100000000 (2 ^ minShift)

variable {S : Source σ} {comes : σ → σ → Nat → Prop} {p m : Nat}

theorem Backend.prompt {x : σ} (h : Backend S comes x p m) : S.Prompt comes p m x := by
  cases h with
  | compare rate two c => exact Clock.prompt rate two c
  | symbol rate bias two => exact SymbolClock.prompt rate bias two
  | interval returns checked t =>
      obtain ⟨rfl, ordered, small⟩ := IntervalRange.of_checked checked
      exact IntervalTimer.prompt returns ordered small t

namespace Schedule

variable {s : Schedule σ}

/-! ## A plan on a prompt source -/

private theorem armChunk_prompt (prompt : S.Prompt comes p m s.source) (remaining : UInt64) :
    (remaining.toNat < m →
      s.armChunk S (s.reading S) remaining = .ok { s with due := true }) ∧
    (m ≤ remaining.toNat → ∃ s', s.armChunk S (s.reading S) remaining = .ok s' ∧
      s'.phase = .armed ∧ s'.due = s.due ∧
      ∃ covered, comes s.source s'.source covered ∧
        covered + s'.owed.toNat = remaining.toNat) := by
  obtain ⟨resolution, reached, exact⟩ := prompt.resolution
  have half := prompt.half
  unfold armChunk
  simp only [reached, bind, Except.bind, UInt64.lt_iff_toNat_lt, exact]
  constructor
  · intro short
    rw [if_pos short]
    rfl
  · intro enough
    have pos := prompt.pos
    have whole : (s.period S).toNat = p := prompt.period
    have size := Word.toNat_min_half remaining (s.period S)
    rw [whole] at size
    obtain ⟨covered, y, armed, within, comes⟩ :=
      prompt.arm (min remaining (s.period S / 2)) (by omega) (by omega)
    have le : covered ≤ remaining := by
      rw [UInt64.le_iff_toNat_le]
      omega
    have event := advance_eq (show 0 < (s.period S).toNat by omega)
      (whole.symm ▸ prompt.le) (s.reading S) covered
    rw [if_neg (Nat.not_lt.mpr enough)]
    simp only [show S.arm (s.reading S) _ s.source = _ from armed, event, Word.sub_of_le le]
    refine ⟨_, rfl, rfl, rfl, covered.toNat, comes, ?_⟩
    show covered.toNat + (remaining - covered).toNat = _
    rw [UInt64.toNat_sub_of_le _ _ le]
    omega

inductive PlansAhead (comes : σ → σ → Nat → Prop) (m : Nat) (ahead : Int) (s : Schedule σ) :
    Schedule σ → Prop where
  | due {s' : Schedule σ} (near : ahead < m) (due : s'.due = true)
      (source : s'.source = s.source) : PlansAhead comes m ahead s s'
  | armed {s' : Schedule σ} {covered : Nat} (far : m ≤ ahead) (clear : s'.due = false)
      (armed : s'.phase = .armed) (event : comes s.source s'.source covered)
      (covers : (covered + s'.owed.toNat : Int) = ahead) : PlansAhead comes m ahead s s'

private theorem plan_prompt (prompt : S.Prompt comes p m s.source) (unarmed : s.phase ≠ .armed)
    (carry : s.carry.toNat < (ratio S).den.toNat) (delay : UInt32) {behind : Int}
    (shown : Shows p (s.reading S) (s.anchor.toNat + behind)) (lo : -(m : Int) < behind)
    (hi : 2 * behind ≤ p) :
    ∃ s', s.plan S delay = .ok s' ∧
      PlansAhead comes m ((ratio S).ticks s.carry delay - behind) s s' := by
  have pos := prompt.pos
  have half := prompt.half
  have le := prompt.le
  have whole : (s.period S).toNat = p := prompt.period
  obtain ⟨span, carry', converted, exact⟩ : ∃ span carry',
      (ratio S).nativeOfDelay s.carry delay = .ok (span, carry') ∧
        span.toNat = (ratio S).ticks s.carry delay :=
    ⟨_, _, Ratio.nativeOfDelay_eq _ _ carry delay, Ratio.toNat_ticks _ _ carry delay⟩
  have small : span.toNat < 0x4000000000000000 := exact ▸ Ratio.ticks_lt S.rate carry delay
  have same := supersede_of_unarmed S unarmed
  have passed : distance ((s.supersede S).period S) s.anchor ((s.supersede S).reading S) =
      .ok behind := by
    rw [same]
    change distance (s.period S) s.anchor (s.reading S) = .ok behind
    rw [distance_of_shows (by omega) (by omega) (shows_toNat _ _) (whole.symm ▸ shown), whole,
      add_sub_cancel_left, centred_of_window (by omega) (by omega)]
  obtain ⟨anchor, advanced⟩ : ∃ anchor,
      advance ((s.supersede S).period S) s.anchor span = .ok anchor := by
    rw [same]
    exact ⟨_, advance_eq (whole.symm ▸ by omega) (whole.symm ▸ le) _ _⟩
  have approach := Approach.of_eq span behind small (by omega) (by omega)
  have prompt' : S.Prompt comes p m (s.moved S carry' anchor).source := by
    rw [moved, same]
    exact prompt
  have source : (s.moved S carry' anchor).source = s.source := by rw [moved, same]
  unfold plan
  simp only [supersede_carry, supersede_anchor, converted, passed, advanced, bind, Except.bind]
  by_cases arrived : span.toNat = 0 ∨ (span.toNat : Int) ≤ behind
  · rw [if_pos arrived] at approach
    simp only [approach]
    exact ⟨_, rfl, .due (by omega) rfl source⟩
  · rw [if_neg arrived] at approach
    simp only [approach]
    change ∃ s', (s.moved S carry' anchor).armChunk S _ _ = .ok s' ∧ _
    have gap := Word.toNat_ofSigned (z := span.toNat - behind) (by omega) (by omega)
    obtain ⟨short, enough⟩ := armChunk_prompt prompt' (Word.ofSigned (span.toNat - behind))
    rcases Nat.lt_or_ge (Word.ofSigned (span.toNat - behind)).toNat m with below | reaches
    · exact ⟨_, short below, .due (by omega) rfl source⟩
    · obtain ⟨s', done, armed, clear, covered, event, covers⟩ := enough reaches
      rw [source] at event
      exact ⟨s', done, .armed (by omega) clear armed event (by omega)⟩

/-! ## The loop -/

structure Awaits (comes : σ → σ → Nat → Prop) (x : σ) (ahead : Int) (s : Schedule σ) : Prop where
  armed : s.phase = .armed
  event : ∃ covered, comes x s.source covered ∧ (covered + s.owed.toNat : Int) = ahead

/--
The loop began at `x`, `late` ticks after its anchor, and `k` slots have been planned since.
All of them were less than the resolution ahead, so the source is as it was.
-/
structure Chasing (S : Source σ) (p m : Nat) (x : σ) (late : Int) (carry : UInt64)
    (delays : Nat → UInt32) (k : Nat) (s : Schedule σ) : Prop where
  source : s.source = x
  carried : s.carry.toNat = (ratio S).fractions carry delays k % (ratio S).den.toNat
  shown : Shows p (s.reading S) (s.anchor.toNat + (late - (ratio S).total carry delays k))
  near : (ratio S).total carry delays k < late + m
  window : 2 * late ≤ p

variable {x : σ} {late : Int} {carry : UInt64} {delays : Nat → UInt32} {k : Nat}

theorem Chasing.ticks_eq (chasing : s.Chasing S p m x late carry delays k) :
    (ratio S).total carry delays k + (ratio S).ticks s.carry (delays k) =
      (ratio S).total carry delays (k + 1) := by
  unfold Ratio.total
  rw [Ratio.fractions_succ]
  exact Ratio.div_add_ticks S.rate Rate.reference (delays k) chasing.carried

theorem Chasing.onward (prompt : S.Prompt comes p m x)
    (chasing : s.Chasing S p m x late carry delays k) {s' : Schedule σ}
    (planned : s.plan S (delays k) = .ok s') (unarmed : s.phase ≠ .armed)
    (source : s'.source = s.source)
    (near : (ratio S).total carry delays (k + 1) < late + m) :
    s'.Chasing S p m x late carry delays (k + 1) := by
  have pos := prompt.pos
  have half := prompt.half
  have whole : (s.period S).toNat = p := by
    rw [period, chasing.source]
    exact prompt.period
  have carried := Ratio.carry_lt S.rate Rate.reference chasing.carried
  obtain ⟨span, converted, advanced⟩ := (plans_of_plan S planned).converts
  rw [supersede_of_unarmed S unarmed] at advanced
  change advance (s.period S) s.anchor span = _ at advanced
  obtain ⟨exact, left⟩ := Ratio.of_nativeOfDelay _ _ carried converted
  change span.toNat = (ratio S).ticks s.carry (delays k) at exact
  refine ⟨source.trans chasing.source, ?_, ?_, near, chasing.window⟩
  · rw [left, Ratio.fractions_succ]
    exact Ratio.left_of_sum S.rate Rate.reference (delays k) chasing.carried
  · have moved := Shows.advance (show 0 < (s.period S).toNat by omega)
      (whole.symm ▸ prompt.le) (shows_toNat _ _) advanced
    have ticks := chasing.ticks_eq
    have reading : s'.reading S = s.reading S := congrArg S.reading source
    rw [whole, exact] at moved
    rw [reading]
    exact moved.rebase chasing.shown (by omega)

theorem Chasing.leave (chasing : s.Chasing S p m x late carry delays k) :
    s.leaveCallback.takeDue.2.Chasing S p m x late carry delays k := by
  unfold leaveCallback
  split
  · exact ⟨chasing.source, chasing.carried, chasing.shown, chasing.near, chasing.window⟩
  · exact ⟨chasing.source, chasing.carried, chasing.shown, chasing.near, chasing.window⟩

theorem Chasing.plan (prompt : S.Prompt comes p m x)
    (chasing : s.Chasing S p m x late carry delays k) (unarmed : s.phase ≠ .armed) :
    ∃ s', s.plan S (delays k) = .ok s' ∧
      ((ratio S).total carry delays (k + 1) < late + m →
        s'.due = true ∧ s'.Chasing S p m x late carry delays (k + 1)) ∧
      (late + m ≤ (ratio S).total carry delays (k + 1) →
        s'.due = false ∧ s'.Awaits comes x ((ratio S).total carry delays (k + 1) - late)) := by
  have near := chasing.near
  have window := chasing.window
  have ticks := chasing.ticks_eq
  have carried := Ratio.carry_lt S.rate Rate.reference chasing.carried
  have here := chasing.source
  obtain ⟨s', planned, ends⟩ := plan_prompt (here.symm ▸ prompt) unarmed carried (delays k)
    chasing.shown (by omega) (by omega)
  refine ⟨s', planned, ?_⟩
  cases ends with
  | due below due source =>
      exact ⟨fun near => ⟨due, chasing.onward prompt planned unarmed source near⟩, by omega⟩
  | armed far clear armed event covers =>
      rw [here] at event
      exact ⟨by omega, fun _ => ⟨clear, armed, _, event, by omega⟩⟩

end Schedule

/--
The callbacks `runs 0`, `runs 1` and so on are one callback before each of its runs, and
run `i` plans a slot of `delays i`, and that is all it does.
-/
def Callback.PlansEach (S : Source σ) (delays : Nat → UInt32) (runs : Nat → Callback σ κ) : Prop :=
  ∀ i s, (runs i).invoke S s = (s.plan S (delays i)).map fun s => (runs (i + 1), s)

open Schedule

namespace Timer

variable {s : Schedule σ} {x : σ} {late : Int} {carry : UInt64} {delays : Nat → UInt32} {k : Nat}
  {runs : Nat → Callback σ κ}

private theorem runCallback_succ_of_plan (each : Callback.PlansEach S delays runs) {s' : Schedule σ}
    (planned : s.enterCallback.plan S (delays k) = .ok s') (fuel : Nat) :
    runCallback S (fuel + 1) (runs k) s =
      if s'.due then runCallback S fuel (runs (k + 1)) s'.leaveCallback.takeDue.2
      else .ok (runs (k + 1), s'.leaveCallback.takeDue.2) := by
  have invoked := each k s.enterCallback
  rw [planned] at invoked
  have due : s'.leaveCallback.due = s'.due := by
    unfold leaveCallback
    split <;> rfl
  rw [runCallback, invoked, ← due]
  rfl

private theorem runCallback_succ_of_chasing (prompt : S.Prompt comes p m x)
    (each : Callback.PlansEach S delays runs) (chasing : s.Chasing S p m x late carry delays k) :
    ((ratio S).total carry delays (k + 1) < late + m →
      ∃ s' : Schedule σ, s'.Chasing S p m x late carry delays (k + 1) ∧
        ∀ fuel, runCallback S (fuel + 1) (runs k) s = runCallback S fuel (runs (k + 1)) s') ∧
    (late + m ≤ (ratio S).total carry delays (k + 1) →
      ∃ s' : Schedule σ, s'.Awaits comes x ((ratio S).total carry delays (k + 1) - late) ∧
        ∀ fuel, runCallback S (fuel + 1) (runs k) s = .ok (runs (k + 1), s')) := by
  have entered : s.enterCallback.Chasing S p m x late carry delays k :=
    ⟨chasing.source, chasing.carried, chasing.shown, chasing.near, chasing.window⟩
  obtain ⟨s', planned, again, waits⟩ := entered.plan prompt Phase.noConfusion
  have run := runCallback_succ_of_plan each planned
  constructor
  · intro near
    obtain ⟨due, chasing'⟩ := again near
    refine ⟨s'.leaveCallback.takeDue.2, chasing'.leave, fun fuel => ?_⟩
    rw [run, due, if_pos rfl]
  · intro far
    obtain ⟨clear, awaits⟩ := waits far
    have stays : s'.leaveCallback = s' := if_neg (awaits.armed ▸ Phase.noConfusion)
    refine ⟨s'.takeDue.2, ⟨awaits.armed, awaits.event⟩, fun fuel => ?_⟩
    rw [run, clear, stays, if_neg Bool.false_ne_true]

theorem runCallback_of_chasing (prompt : S.Prompt comes p m x)
    (each : Callback.PlansEach S delays runs) (n : Nat)
    (chasing : s.Chasing S p m x late carry delays k)
    (near : ∀ i < n, (ratio S).total carry delays (k + i + 1) < late + m)
    (far : late + m ≤ (ratio S).total carry delays (k + n + 1)) :
    ∃ s' : Schedule σ, s'.Awaits comes x ((ratio S).total carry delays (k + n + 1) - late) ∧
      ∀ fuel, runCallback S fuel (runs k) s =
        if fuel ≤ n then .error .outOfFuel else .ok (runs (k + n + 1), s') := by
  induction n generalizing k s with
  | zero =>
      obtain ⟨s', awaits, run⟩ := (runCallback_succ_of_chasing prompt each chasing).2 far
      refine ⟨s', awaits, fun fuel => ?_⟩
      cases fuel with
      | zero => rfl
      | succ fuel => rw [run, if_neg (Nat.not_succ_le_zero fuel)]
  | succ n ih =>
      obtain ⟨s₁, chasing₁, run⟩ :=
        (runCallback_succ_of_chasing prompt each chasing).1 (near 0 (by omega))
      have shift (i : Nat) : k + 1 + i + 1 = k + (i + 1) + 1 := by omega
      obtain ⟨s', awaits, loop⟩ := ih chasing₁
        (fun i lt => by rw [shift]; exact near (i + 1) (by omega))
        (by rw [shift]; exact far)
      rw [shift] at awaits loop
      refine ⟨s', awaits, fun fuel => ?_⟩
      cases fuel with
      | zero => rfl
      | succ fuel =>
          rw [run, loop]
          simp only [Nat.succ_le_succ_iff]

end Timer

/-! ## What the fuel counts -/

theorem runs_of_run (c : Callback σ κ) {program : Program σ κ} {s s' : Schedule σ} {state : κ}
    (h : program.run S s = .ok (state, s')) :
    ∃ history, Runs S (.inside c program s) history (.inside c (.finish state) s') ∧
      ran history = 0 := by
  induction program generalizing s with
  | finish state =>
      cases h
      exact ⟨[], .start, rfl⟩
  | fail cause => cases h
  | act action next ih =>
      rw [Program.run] at h
      split at h
      next => cases h
      next s₁ applied =>
        obtain ⟨history, later, none⟩ := ih s₁ h
        exact ⟨_, (Runs.single (.inside applied)).trans later, by simpa [ran] using none⟩

private theorem round_of_runCallback {fuel : Nat} {c c' : Callback σ κ} {s s' : Schedule σ}
    (returns : Timer.runCallback S (fuel + 1) c s = .ok (c', s')) :
    ∃ c₁ s₁ history, Runs S (.due c s) history (.settle c₁ s₁) ∧ ran history = 1 ∧
      ∀ fuel, Timer.runCallback S (fuel + 1) c s =
        if s₁.due then Timer.runCallback S fuel c₁ s₁.takeDue.2 else .ok (c₁, s₁.takeDue.2) := by
  rw [Timer.runCallback] at returns
  split at returns
  next => cases returns
  next c₁ s₁ invoked =>
    obtain ⟨⟨state, s₂⟩, body, done⟩ := parts_of_bind invoked
    cases done
    obtain ⟨history, inside, none⟩ := runs_of_run c body
    refine ⟨{ c with state := state }, s₁.leaveCallback, _,
      (Runs.single (.enter c s)).trans (inside.trans (.single (.leave c state s₁))), ?_,
      fun fuel => ?_⟩
    · rw [ran_append, ran_append, none]
      rfl
    · rw [Timer.runCallback, invoked]
      rfl

theorem runs_of_runCallback {n : Nat} {c c' : Callback σ κ} {s s' : Schedule σ}
    (short : Timer.runCallback S n c s = .error .outOfFuel)
    (enough : Timer.runCallback S (n + 1) c s = .ok (c', s')) :
    ∃ history, Runs S (.due c s) history (.rest ⟨s', some c'⟩) ∧ ran history = n + 1 := by
  induction n generalizing c s with
  | zero =>
      obtain ⟨c₁, s₁, history, past, one, round⟩ := round_of_runCallback enough
      rw [round] at enough
      split at enough
      next => cases enough
      next clear =>
        cases enough
        rw [Moment.settle_of_clear _ clear] at past
        exact ⟨history, past, one⟩
  | succ n ih =>
      obtain ⟨c₁, s₁, history, past, one, round⟩ := round_of_runCallback enough
      rw [round] at short enough
      split at enough
      next due =>
        rw [if_pos due] at short
        obtain ⟨later, onward, many⟩ := ih short enough
        rw [Moment.settle_of_due c₁ due] at past
        refine ⟨history ++ later, past.trans onward, ?_⟩
        rw [ran_append, one, many, Nat.add_comm]
      next clear =>
        rw [if_neg clear] at short
        cases short

/-! ## Every call -/

/-- With whatever fuel, `call` comes to run the callback, and its first run finds `s`. -/
inductive Timer.Fires (S : Source σ) (t : Timer σ κ) (c : Callback σ κ) :
    Schedule σ → (Nat → Except Halt (Timer σ κ)) → Prop where
  | plan {delay : UInt32} {s : Schedule σ} (set : t.callback = some c)
      (planned : t.schedule.plan S delay = .ok s) (due : s.due = true) :
      Fires S t c s.takeDue.2 fun fuel => (t.plan S fuel delay).map Prod.snd
  | interrupt {s : Schedule σ} (set : t.callback = some c)
      (served : t.schedule.serve S = .ok (true, s)) :
      Fires S t c s fun fuel => (t.interrupt S fuel).map Prod.snd

namespace Timer

variable {t : Timer σ κ} {c : Callback σ κ} {s : Schedule σ} {call : Nat → Except Halt (Timer σ κ)}

theorem Fires.eq_run (fires : t.Fires S c s call) (fuel : Nat) :
    call fuel = (runCallback S fuel c s).map fun after => ⟨after.2, some after.1⟩ := by
  cases fires with
  | plan set planned due =>
      simp only [plan_eq_run set planned due]
      cases runCallback S fuel c _ <;> rfl
  | interrupt set served =>
      simp only [interrupt_eq_run set served]
      cases runCallback S fuel c s <;> rfl

theorem Fires.step (fires : t.Fires S c s call) : ∃ deed, Step S (.rest t) deed (.due c s) := by
  cases fires with
  | @plan delay s set planned due =>
      have step := Step.plan set planned
      rw [Moment.settle_of_due c due] at step
      exact ⟨_, step⟩
  | interrupt set served =>
      have step := Step.serve served
      rw [set] at step
      exact ⟨_, step⟩

end Timer

private theorem isLeast_of_monotone {f : Nat → Nat} (mono : Monotone f) {bound : Int}
    (reached : ∃ k, 1 ≤ k ∧ bound ≤ f k) :
    ∃ n, IsLeast {k | 1 ≤ k ∧ bound ≤ f k} (n + 1) ∧
      {k | 1 ≤ k ∧ (f k : Int) < bound} = Set.Icc 1 n := by
  classical
  obtain ⟨pos, far⟩ := Nat.find_spec reached
  obtain ⟨n, first⟩ := Nat.exists_eq_add_of_le' pos
  rw [first] at far
  have least : IsLeast {k | 1 ≤ k ∧ bound ≤ f k} (n + 1) :=
    ⟨⟨Nat.succ_pos n, far⟩, fun k beyond => first ▸ Nat.find_min' reached beyond⟩
  refine ⟨n, least, Set.ext fun k => and_congr_right fun one => ?_⟩
  constructor
  · intro near
    by_contra above
    have le : f (n + 1) ≤ f k := mono (by omega)
    omega
  · intro le
    by_contra beyond
    have above : n + 1 ≤ k := least.2 ⟨one, Int.not_lt.mp beyond⟩
    omega

/--
A callback that plans slot after slot runs once more than there are slots that lie less
than the resolution ahead, and leaves the first one beyond them armed.
-/
theorem catches_up {p m : Nat} {m₀ : Moment σ κ} {history : List (Entry σ κ)} {t : Timer σ κ}
    {s : Schedule σ} {call : Nat → Except Halt (Timer σ κ)} {delays : Nat → UInt32}
    {runs : Nat → Callback σ κ} {late : Int} (new : m₀.IsNew) (past : Runs S m₀ history (.rest t))
    (fires : t.Fires S (runs 0) s call) (backend : Backend S comes s.source p m)
    (each : Callback.PlansEach S delays runs) (pos : ∀ i, 1 ≤ (delays i).toNat)
    (shown : Shows p (s.reading S) (s.anchor.toNat + late)) (lo : -(m : Int) < late)
    (hi : late ≤ (p / 2 : Nat)) :
    let total := (ratio S).total s.carry delays
    (∀ k, ∃ carry, (ratio S).nativeOfDelays s.carry ((List.range k).map delays) =
      .ok (total k, carry)) ∧
    ∃ (n : Nat) (s' : Schedule σ), {k | 1 ≤ k ∧ (total k : Int) < late + m}.encard = n ∧
      IsLeast {k | 1 ≤ k ∧ late + m ≤ total k} (n + 1) ∧
      (∀ fuel, call fuel =
        if fuel ≤ n then .error .outOfFuel else .ok ⟨s', some (runs (n + 1))⟩) ∧
      (∃ later, Runs S (.due (runs 0) s) later (.rest ⟨s', some (runs (n + 1))⟩) ∧
        ran later = n + 1) ∧
      s'.phase = .armed ∧ ∃ covered, comes s.source s'.source covered ∧
        (covered + s'.owed.toNat : Int) = total (n + 1) - late := by
  intro total
  obtain ⟨deed, step⟩ := fires.step
  have prompt := backend.prompt
  have carry : s.carry.toNat < (ratio S).den.toNat := (past.step step).carry_lt new
  have zero : total 0 = 0 := Ratio.total_zero carry
  have chasing : s.Chasing S p m s.source late s.carry delays 0 := by
    refine ⟨rfl, ?_, ?_, ?_, by omega⟩
    · rw [Ratio.fractions_zero, Nat.mod_eq_of_lt carry]
    · change Shows p _ (_ + (late - total 0))
      rwa [zero, Int.natCast_zero, Int.sub_zero]
    · change (total 0 : Int) < _
      rw [zero]
      omega
  obtain ⟨n, least, before⟩ := isLeast_of_monotone (Ratio.total_mono (ratio S) s.carry delays)
    (Ratio.total_unbounded pos (late + m))
  have near (i : Nat) (lt : i < n) : (total (0 + i + 1) : Int) < late + m := by
    have mem : i + 1 ∈ Set.Icc 1 n := ⟨by omega, by omega⟩
    rw [← before] at mem
    rw [Nat.zero_add]
    exact mem.2
  have far : late + m ≤ (total (0 + n + 1) : Int) := by
    rw [Nat.zero_add]
    exact least.1.2
  obtain ⟨s', awaits, loop⟩ := Timer.runCallback_of_chasing prompt each n chasing near far
  rw [Nat.zero_add] at awaits loop
  refine ⟨fun k => ?_, n, s', ?_, least, fun fuel => ?_, ?_, awaits.armed, awaits.event⟩
  · obtain ⟨carry', converted⟩ := Ratio.nativeOfDelays_eq _ _ carry ((List.range k).map delays)
    refine ⟨carry', converted.trans ?_⟩
    rw [List.map_map]
    rfl
  · rw [before, ← Finset.coe_Icc, Set.encard_coe_eq_coe_finsetCard, Nat.card_Icc,
      Nat.add_sub_cancel]
  · rw [fires.eq_run, loop]
    split <;> rfl
  · exact runs_of_runCallback (by rw [loop, if_pos (Nat.le_refl n)])
      (by rw [loop, if_neg (Nat.not_succ_le_self n)])

namespace Sample.Late

def rate : Rate := ⟨8192, by decide⟩

def source : Source Clock := Clock.tickSource rate 0xFF 0

def callback (count : Nat) : Callback Clock Nat :=
  ⟨count, fun count _ => .act (.plan 1) fun _ => .finish (count + 1)⟩

theorem plansEach : Callback.PlansEach source (fun _ => 1) callback := by
  intro i s
  simp only [Callback.invoke, callback, Program.run, Action.apply]
  cases s.plan source 1 <;> rfl

def behind : Timer Clock Nat := { schedule := { source := ⟨5, 0, none⟩ } }

theorem total_eq (k : Nat) : (ratio source).total 2 (fun _ => 1) k = (2 + k) / 4 := by
  have num : (ratio source).num.toNat = 1 := by decide
  have den : (ratio source).den.toNat = 4 := by decide
  simp [Ratio.total, Ratio.fractions, num, den]

end Sample.Late

open Sample.Late in
theorem catches_up_in_fourteen_runs :
    ∃ s', (∀ fuel, ((behind.setCallback (callback 0)).plan source fuel 10).map Prod.snd =
        if fuel ≤ 13 then .error .outOfFuel else .ok ⟨s', some (callback 14)⟩) ∧
      ∃ covered, s'.source.armed = some (5 + covered) ∧ covered + s'.owed.toNat = 1 := by
  let late : Schedule Clock := { source := ⟨5, 0, none⟩, carry := 2, anchor := 2 }
  have new : (Moment.rest behind).IsNew := ⟨⟨5, 0, none⟩, rfl⟩
  have past : Runs source (.rest behind) [⟨.rest behind, .setCallback (callback 0)⟩]
      (.rest (behind.setCallback (callback 0))) := .single (.setCallback behind (callback 0))
  have fires : (behind.setCallback (callback 0)).Fires source (callback 0) late
      fun fuel => ((behind.setCallback (callback 0)).plan source fuel 10).map Prod.snd :=
    .plan (s := { late with due := true }) rfl rfl rfl
  have two : 2 ≤ (0xFF : UInt32).toNat + 1 := by decide
  have shown : Shows 256 (late.reading source) (late.anchor.toNat + 3) := rfl
  obtain ⟨-, n, s', -, least, call, -, -, covered, event, covers⟩ :=
    catches_up new past fires (.compare rate two late.source) plansEach
      (fun _ => by decide) shown (by decide) (by decide)
  rw [total_eq] at covers
  have far := least.1.2
  have first : n + 1 ≤ 14 := least.2 ⟨by decide, by rw [total_eq]; decide⟩
  rw [total_eq] at far
  obtain rfl : n = 13 := by omega
  exact ⟨s', call, covered, event, by omega⟩

/-! ## A counter without a half period -/

theorem Clock.misses_on_period_one (rate : Rate) (c : Clock) {delay : UInt64}
    (none : delay.toNat ≤ 0) :
    ∃ c', (tickSource rate 0 0).arm ((tickSource rate 0 0).reading c) delay c =
      .ok (.missed, c') := by
  have armed := arm_eq rate 0 0 delay (shows_readingAt 0 c.time) rfl (Nat.le_refl 0) none
  rw [if_pos none] at armed
  exact ⟨_, armed⟩

theorem Schedule.Plans.due_on_period_one {rate : Rate} {delay : UInt32} {s s' : Schedule Clock}
    (h : Plans (Clock.tickSource rate 0 0) delay s s') : s'.due = true := by
  cases h with
  | due => rfl
  | @ahead _ _ remaining _ _ _ _ _ _ _ arms =>
      cases arms with
      | short => rfl
      | missed => rfl
      | armed _ _ arm =>
          have none : (min remaining ((Clock.channel rate 0 0).period / 2)).toNat ≤ 0 := by
            rw [Word.toNat_min_half, Clock.toNat_period]
            exact Nat.min_le_right _ _
          obtain ⟨c, missed⟩ :=
            Clock.misses_on_period_one rate (s.supersede (Clock.tickSource rate 0 0)).source none
          cases arm.symm.trans missed

/-- Of a period of one tick there is no half to arm, and the loop does not end. -/
theorem never_catches_up_on_period_one (rate : Rate) {delays : Nat → UInt32}
    {runs : Nat → Callback Clock κ}
    (each : Callback.PlansEach (Clock.tickSource rate 0 0) delays runs) {s : Schedule Clock}
    (carry : s.carry.toNat < (ratio (Clock.tickSource rate 0 0)).den.toNat) (k fuel : Nat) :
    Timer.runCallback (Clock.tickSource rate 0 0) fuel (runs k) s = .error .outOfFuel := by
  have returns : (Clock.channel rate 0 0).Returns := ⟨fun _ _ => ⟨_, rfl⟩, fun _ _ => ⟨_, rfl⟩⟩
  induction fuel generalizing k s with
  | zero => rfl
  | succ fuel ih =>
      obtain ⟨s', planned⟩ := plan_of_reliable (s := s.enterCallback)
        (CompareChannel.reliable returns) carry (delays k)
      have plans := plans_of_plan _ planned
      obtain ⟨span, converted, -⟩ := plans.converts
      have left := (Ratio.of_nativeOfDelay _ _ carry converted).2
      rw [Timer.runCallback_succ_of_plan each planned, if_pos plans.due_on_period_one]
      refine ih ?_ (k + 1)
      have kept : s'.leaveCallback.carry = s'.carry := by
        unfold leaveCallback
        split <;> rfl
      change s'.leaveCallback.carry.toNat < _
      rw [kept, left]
      exact Ratio.left_lt _ _ _ _

end SlotClock
