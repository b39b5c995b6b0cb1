import SlotClock.Proofs.Backends
import SlotClock.Proofs.Conservation
import SlotClock.Proofs.Conversion

/-!
# Hosts that keep time

On a timed host the counter shows the time since it was started, up to whole periods,
and an event that is asked for from the current reading is armed for exactly the time
that it was wanted at.  It is missed only if the latency uses up all of its ticks.
Both counters are of this kind, from periods of two ticks on.

## Runs on a host
-/

namespace SlotClock

open Counter

variable {σ κ : Type}

/-- Nothing happens to the source but the events of the host. -/
def Deed.OfHost (H : Host σ) : Deed σ κ → Prop
  | act (.environment effect) => ∃ e, effect = fun x => .ok (H.effect e x)
  | _ => True

namespace Host

structure Step (H : Host σ) (m : Moment σ κ) (deed : Deed σ κ) (m' : Moment σ κ) : Prop where
  step : SlotClock.Step H.source m deed m'
  own : deed.OfHost H
  lawful : H.lawful m.schedule.source m'.schedule.source = true

inductive Runs (H : Host σ) (start : Moment σ κ) : List (Entry σ κ) → Moment σ κ → Prop where
  | start : Runs H start [] start
  | step {history : List (Entry σ κ)} {m m' : Moment σ κ} {deed : Deed σ κ}
      (past : Runs H start history m) (h : H.Step m deed m') :
      Runs H start (history ++ [⟨m, deed⟩]) m'

namespace Runs

variable {H : Host σ} {m₁ m₂ m₃ : Moment σ κ} {first second : List (Entry σ κ)}

theorem runs (h : H.Runs m₁ first m₂) : SlotClock.Runs H.source m₁ first m₂ := by
  induction h with
  | start => exact .start
  | step _ h ih => exact .step ih h.step

theorem single {deed : Deed σ κ} (h : H.Step m₁ deed m₂) : H.Runs m₁ [⟨m₁, deed⟩] m₂ :=
  .step .start h

theorem trans (h₁ : H.Runs m₁ first m₂) (h₂ : H.Runs m₂ second m₃) :
    H.Runs m₁ (first ++ second) m₃ := by
  induction h₂ with
  | start => rwa [List.append_nil]
  | step _ h ih =>
      rw [← List.append_assoc]
      exact .step ih h

end Runs

/-! ## Timed hosts -/

inductive Arms (H : Host σ) (latency : Nat) (fit : σ → Prop) (x : σ) (delay : UInt64) :
    Arming × σ → Prop where
  | armed {x' : σ} (ahead : latency < delay.toNat)
      (event : H.armed x' = some (H.time x + delay.toNat))
      (fits : H.lawful x x' = true → fit x') : Arms H latency fit x delay (.armed delay, x')
  | missed {x' : σ} (gone : delay.toNat ≤ latency) (time : H.time x' = H.time x + latency)
      (fits : H.lawful x (H.source.disarm x') = true → fit (H.source.disarm x')) :
      Arms H latency fit x delay (.missed, x')

/-- The states that are `fit` show the time since `start` on a counter of period `p`. -/
structure Timed (H : Host σ) (p start latency : Nat) (fit : σ → Prop) : Prop where
  two : 2 ≤ p
  le : p ≤ 0x100000000
  quick : latency ≤ p / 2
  period {x : σ} : fit x → (H.source.period x).toNat = p
  shows {x : σ} : fit x → Shows p (H.source.reading x) (H.time x - start)
  resolution (x : σ) : H.source.resolution x = .ok 1
  arm {x : σ} {delay : UInt64} : fit x → 0 < delay.toNat → delay.toNat ≤ p / 2 →
    ∃ next, H.source.arm (H.source.reading x) delay x = .ok next ∧ H.Arms latency fit x delay next
  acknowledge (x : σ) : H.source.acknowledge x = x
  disarm {x : σ} : fit x → fit (H.source.disarm x)
  time_disarm (x : σ) : H.time (H.source.disarm x) = H.time x
  lawful_disarm {x x' : σ} : H.lawful x x' = true → H.lawful (H.source.disarm x) x' = true
  effect {x : σ} (e : Event) : fit x → H.lawful x (H.effect e x) = true → fit (H.effect e x)
  time_effect (x : σ) (e : Event) : H.time x ≤ H.time (H.effect e x)
  armed_effect (x : σ) (e : Event) : H.armed (H.effect e x) = H.armed x

end Host

theorem Clock.host_timed (rate : Rate) {top : UInt32} {latency : Nat} (two : 2 ≤ top.toNat + 1)
    (quick : latency ≤ (top.toNat + 1) / 2) :
    (Clock.host rate top latency).Timed (top.toNat + 1) 0 latency fun _ => True where
  two := two
  le := toNat_top_lt top
  quick := quick
  period _ := toNat_period rate top latency
  shows {c} _ := by
    rw [Int.natCast_zero, Int.sub_zero]
    exact shows_readingAt top c.time
  resolution _ := rfl
  arm {c delay} _ _ short := by
    have armed := arm_eq rate latency 0 delay (shows_readingAt top c.time) rfl
      (by rwa [Nat.zero_add]) short
    rw [Nat.zero_add] at armed
    refine ⟨_, armed, ?_⟩
    by_cases gone : delay.toNat ≤ latency
    · rw [if_pos gone]
      exact .missed gone rfl fun _ => trivial
    · rw [if_neg gone]
      exact .armed (Nat.not_le.mp gone) rfl fun _ => trivial
  acknowledge _ := rfl
  disarm _ := trivial
  time_disarm _ := rfl
  lawful_disarm _ := rfl
  effect _ _ _ := trivial
  time_effect c e := by
    cases e with
    | pass ticks => exact Nat.le_add_right _ _
    | latch => exact Nat.le_refl _
    | rollOver => exact Nat.le_refl _
  armed_effect c e := by cases e <;> rfl

def SymbolClock.Fit (bias period : UInt32) (start : Nat) (c : SymbolCounter SymbolClock) : Prop :=
  c.period = period ∧ ∃ since, Counts bias start since c

namespace SymbolClock

variable {rate : Rate} {bias period : UInt32} {start latency : Nat} {c c' : SymbolCounter SymbolClock}

theorem Fit.onward (fit : Fit bias period start c) (lawful : Lawful bias c c')
    (same : c'.period = c.period) (origin : c'.origin = c.origin)
    (overflow : c'.regs.overflow = c.regs.overflow) (le : c.regs.time ≤ c'.regs.time) :
    Fit bias period start c' := by
  obtain ⟨fits, since, counts⟩ := fit
  exact ⟨same.trans fits, since, counts.onward lawful same origin overflow le⟩

theorem host_timed (rate : Rate) (bias : UInt32) (start : Nat) (two : 2 ≤ period.toNat)
    (quick : latency ≤ period.toNat / 2) :
    (host rate bias latency).Timed period.toNat start latency (Fit bias period start) where
  two := two
  le := Nat.le_of_lt (Word.reading_lt period)
  quick := quick
  period fit := by
    obtain ⟨rfl, -⟩ := fit
    exact toNat_period
  shows fit := by
    obtain ⟨rfl, since, counts⟩ := fit
    exact counts.shows_value rate latency
  resolution _ := rfl
  arm {c delay} fit pos short := by
    obtain ⟨rfl, since, counts⟩ := fit
    have small := Word.reading_lt c.period
    have armed := counts.arm_eq rate latency 0 delay
      (by simpa using counts.shows_value rate latency) (by omega) short (by omega)
    rw [Nat.zero_add, if_neg (by omega)] at armed
    refine ⟨_, armed, ?_⟩
    have fit : Fit bias c.period start c := ⟨rfl, since, counts⟩
    by_cases gone : delay.toNat ≤ latency
    · rw [if_pos gone]
      exact .missed gone rfl fun lawful =>
        fit.onward (of_decide_eq_true lawful) rfl rfl rfl (Nat.le_add_right _ _)
    · rw [if_neg gone]
      exact .armed (Nat.not_le.mp gone) rfl fun lawful =>
        fit.onward (of_decide_eq_true lawful) rfl rfl rfl (Nat.le_add_right _ _)
  acknowledge _ := rfl
  disarm fit := by
    obtain ⟨fits, since, counts⟩ := fit
    exact ⟨fits, since, counts.disarm rate latency⟩
  time_disarm _ := rfl
  lawful_disarm lawful := decide_eq_true ((of_decide_eq_true lawful).of_disarm rate latency)
  effect {c} e fit lawful := by
    have lawful := of_decide_eq_true lawful
    cases e with
    | pass ticks => exact fit.onward lawful rfl rfl rfl (Nat.le_add_right _ _)
    | latch => exact fit.onward lawful rfl rfl rfl (Nat.le_refl _)
    | rollOver =>
        obtain ⟨fits, since, counts⟩ := fit
        exact ⟨fits, counts.rollOver rate latency lawful⟩
  time_effect c e := by
    cases e with
    | pass ticks => exact Nat.le_add_right _ _
    | latch => exact Nat.le_refl _
    | rollOver => exact Nat.le_refl _
  armed_effect c e := by cases e <;> rfl

end SymbolClock

/-- The two counters, with the state that a timer on them starts from. -/
inductive Host.Started : {σ : Type} → Host σ → σ → (p start latency : Nat) → Prop where
  | compare (rate : Rate) (top : UInt32) (latency : Nat) (clock : Clock) :
      Started (Clock.host rate top latency) clock (top.toNat + 1) 0 latency
  | symbol (rate : Rate) (bias : UInt32) (latency : Nat) {period : UInt32} {regs : SymbolClock}
      {counter : SymbolCounter SymbolClock}
      (made : SymbolCounter.ofPeriod regs period = .ok counter) :
      Started (SymbolClock.host rate bias latency)
        (counter.start (SymbolClock.registers rate bias latency)) period.toNat regs.time latency

theorem Host.Started.timed {H : Host σ} {x : σ} {p start latency : Nat}
    (begun : H.Started x p start latency) (two : 2 ≤ p) (quick : latency ≤ p / 2) :
    ∃ fit, H.Timed p start latency fit ∧ fit x := by
  cases begun with
  | compare rate top latency clock => exact ⟨_, Clock.host_timed rate two quick, trivial⟩
  | symbol rate bias latency made =>
      obtain ⟨counts, same, -, -⟩ := SymbolClock.counts_start rate latency bias made
      exact ⟨_, SymbolClock.host_timed rate bias _ two quick, same, _, counts⟩

end SlotClock
