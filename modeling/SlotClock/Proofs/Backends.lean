import SlotClock.Proofs.Clock
import SlotClock.Proofs.Host
import SlotClock.Proofs.SymbolClock

/-!
# The two counters agree

A symbol counter that was started at a multiple of its period and a compare channel
of the same period show the same readings at the same times.  One looks for a missed
deadline in the raw counter, before and after the interrupt is enabled; the other
looks at the reading after the write.  A schedule asks for its events from the
current reading, and then the two come to the same answer, up to a latency of half a
period.

## Hosts
-/

namespace SlotClock

open Counter

variable {κ : Type}

def SymbolClock.host (rate : Rate) (bias : UInt32) (latency : Nat) :
    Host (SymbolCounter SymbolClock) where
  source := tickSource rate bias latency
  time c := c.regs.time
  armed c := c.regs.armed
  effect
    | .pass ticks, c => wait ticks c
    | .latch, c => latch c
    | .rollOver, c => c.rollOver (registers rate bias latency)
  lawful before after := decide (Lawful bias before after)

def Clock.host (rate : Rate) (top : UInt32) (latency : Nat) : Host Clock where
  source := tickSource rate top latency
  time c := c.time
  armed c := c.armed
  effect
    | .pass ticks, c => { c with time := c.time + ticks }
    | _, c => c
  lawful _ _ := true

/-! ## Readings -/

structure Concurrent (bias top : UInt32) (c : SymbolCounter SymbolClock) (k : Clock) : Prop where
  period : c.period.toNat = top.toNat + 1
  counts : ∃ since, SymbolClock.Counts bias 0 since c
  time : c.regs.time = k.time
  armed : c.regs.armed = k.armed

namespace Concurrent

variable {bias top : UInt32} {c c' : SymbolCounter SymbolClock} {k k' : Clock}
  (rate : Rate) (latency : Nat)

private theorem period_eq (h : Concurrent bias top c k) :
    c.period.toUInt64 = (Clock.channel rate top latency).period := by
  apply UInt64.toNat_inj.mp
  rw [SymbolClock.toNat_period, Clock.toNat_period, h.period]

private theorem value_eq (h : Concurrent bias top c k) :
    c.value (SymbolClock.registers rate bias latency) = Clock.readingAt (top.toNat + 1) k.time := by
  obtain ⟨since, counts⟩ := h.counts
  apply UInt32.toNat_inj.mp
  rw [counts.toNat_value, Clock.toNat_readingAt, h.period, h.time, Nat.sub_zero]

theorem disarm (h : Concurrent bias top c k) :
    Concurrent bias top (c.disarm (SymbolClock.registers rate bias latency))
      { k with armed := none } := by
  obtain ⟨since, counts⟩ := h.counts
  exact ⟨h.period, ⟨since, counts.disarm rate latency⟩, h.time, rfl⟩

theorem onward (h : Concurrent bias top c k) (lawful : SymbolClock.Lawful bias c c')
    (period : c'.period = c.period) (origin : c'.origin = c.origin)
    (overflow : c'.regs.overflow = c.regs.overflow) (le : c.regs.time ≤ c'.regs.time)
    (time : c'.regs.time = k'.time) (armed : c'.regs.armed = k'.armed) :
    Concurrent bias top c' k' := by
  obtain ⟨since, counts⟩ := h.counts
  exact ⟨period ▸ h.period, ⟨since, counts.onward lawful period origin overflow le⟩, time, armed⟩

/-! ## Arming -/

theorem arm (h : Concurrent bias top c k) (short : latency ≤ (top.toNat + 1) / 2)
    {remaining : UInt64} (enough : 1 ≤ remaining.toNat) :
    Agree (Source.Answers (SymbolClock.tickSource rate bias latency)
        (Clock.tickSource rate top latency)
        ((SymbolClock.host rate bias latency).Next (Concurrent bias top) c))
      (c.arm (SymbolClock.registers rate bias latency)
        (c.value (SymbolClock.registers rate bias latency)) (min remaining (c.period.toUInt64 / 2)))
      ((Clock.channel rate top latency).arm (c.value (SymbolClock.registers rate bias latency))
        (min remaining (c.period.toUInt64 / 2)) k) := by
  obtain ⟨since, counts⟩ := h.counts
  have top_lt := Clock.toNat_top_lt top
  have size : (min remaining (c.period.toUInt64 / 2)).toNat =
      min remaining.toNat ((top.toNat + 1) / 2) := by
    rw [Word.toNat_min_half, SymbolClock.toNat_period, h.period]
  generalize min remaining (c.period.toUInt64 / 2) = delay at size ⊢
  rw [counts.arm_eq rate latency 0 delay (by simpa using counts.shows_value rate latency)
    (by have := h.period; omega) (by rw [h.period]; omega) (by omega), h.value_eq rate latency,
    Clock.arm_eq rate latency 0 delay (Clock.shows_readingAt top k.time) rfl (by omega) (by omega)]
  rw [Nat.zero_add]
  by_cases none : delay.toNat ≤ 0
  · rw [if_pos none, if_pos (by omega)]
    refine .ok (.missed fun lawful => ?_)
    have still : latency = 0 := by omega
    subst still
    exact ⟨h.period, ⟨since, counts.disarm rate 0⟩, h.time, rfl⟩
  · rw [if_neg none]
    by_cases late : delay.toNat ≤ latency
    · rw [if_pos late, if_pos late]
      refine .ok (.missed fun lawful => ?_)
      exact h.onward (of_decide_eq_true lawful) rfl rfl rfl (Nat.le_add_right _ _)
        (congrArg (· + latency) h.time) rfl
    · rw [if_neg late, if_neg late]
      refine .ok (.armed delay fun lawful => ?_)
      exact h.onward (of_decide_eq_true lawful) rfl rfl rfl (Nat.le_add_right _ _)
        (congrArg (· + latency) h.time) (congrArg (some <| · + (delay.toNat - 0)) h.time)

end Concurrent

theorem symbolClock_simulates (rate : Rate) (bias : UInt32) {top : UInt32} {latency : Nat}
    (short : latency ≤ (top.toNat + 1) / 2) :
    (SymbolClock.host rate bias latency).Simulates (Clock.host rate top latency)
      (Concurrent bias top) where
  rate := rfl
  period h := h.period_eq rate latency
  reading h := h.value_eq rate latency
  resolution _ := rfl
  disarm h := h.disarm rate latency
  acknowledge h := h
  arm h reached enough := by
    cases reached
    exact h.arm rate latency short (UInt64.le_iff_toNat_le.mp enough)
  lawful_disarm lawful := decide_eq_true ((of_decide_eq_true lawful).of_disarm rate latency)
  lawful_acknowledge lawful := lawful
  time h := h.time
  armed h := h.armed
  effect {c k} e h lawful := by
    have lawful := of_decide_eq_true lawful
    cases e with
    | pass ticks =>
        exact h.onward lawful rfl rfl rfl (Nat.le_add_right _ _) (congrArg (· + ticks) h.time) h.armed
    | latch => exact h.onward lawful rfl rfl rfl (Nat.le_refl _) h.time h.armed
    | rollOver =>
        obtain ⟨since, counts⟩ := h.counts
        exact ⟨h.period, counts.rollOver rate latency lawful, h.time, h.armed⟩

/-! ## Every run -/

/--
A timer on a symbol counter that was started at a multiple of its period and a timer
on a compare channel of the same period, given the same orders, show the same after
each of them: its answer, the view of the schedule, the armed event, and what every
run of a callback saw when it began and left behind.  The radio may latch and serve
the ends of periods at any points of the run.
-/
theorem backends_agree (rate : Rate) {bias period : UInt32} (pos : 0 < period.toNat)
    {latency : Nat} (short : latency ≤ period.toNat / 2) {regs : SymbolClock} {clock : Clock}
    (together : regs.time = clock.time) (whole : period.toNat ∣ regs.time)
    (unarmed : regs.armed = none) (disarmed : clock.armed = none)
    {counter : SymbolCounter SymbolClock} (made : SymbolCounter.ofPeriod regs period = .ok counter)
    {fuel : Nat} {orders : List (Order κ)}
    (lawful : (SymbolClock.host rate bias latency).lawfulTrace fuel
      (.ofSource (counter.start (SymbolClock.registers rate bias latency))) orders) :
    (SymbolClock.host rate bias latency).trace fuel
        (counter.start (SymbolClock.registers rate bias latency)) orders =
      (Clock.host rate (period - 1) latency).trace fuel clock orders := by
  have top : (period - 1).toNat + 1 = period.toNat := by
    rw [UInt32.toNat_sub]
    have small := Word.reading_lt period
    have one : (1 : UInt32).toNat = 1 := rfl
    omega
  obtain ⟨counts, same, time, armed⟩ := SymbolClock.counts_start rate latency bias made
  have like : Concurrent bias (period - 1)
      (counter.start (SymbolClock.registers rate bias latency)) clock := by
    refine ⟨by rw [same, top], ⟨regs.time, ?_⟩, time.trans together, ?_⟩
    · exact ⟨Nat.zero_le _, by rwa [same, Nat.sub_zero], counts.begun, counts.recent,
        counts.origin, counts.overflow⟩
    · rw [armed, unarmed, disarmed]
  exact Host.trace_eq (symbolClock_simulates rate bias (by rwa [top])) (.unset (.mk like)) lawful

/-! ## A period that ends between two slots -/

namespace Sample.Beacons

def radio : Host (SymbolCounter SymbolClock) := SymbolClock.host .reference 0xFFFFF63C 3

def counter : SymbolCounter SymbolClock := ⟨{ time := 2000 }, 1000, by decide, 0⟩

def started : SymbolCounter SymbolClock :=
  counter.start (SymbolClock.registers .reference 0xFFFFF63C 3)

def orders : List (Order Unit) :=
  [.setCallback () fun _ _ => .act (.plan 400) fun _ => .finish (), .act (.plan 700),
    .act (.event (.pass 500)), .interrupt, .act (.event (.pass 194)), .interrupt,
    .act (.event (.pass 300)), .act (.event .latch), .act (.event .rollOver),
    .act (.event (.pass 97)), .interrupt]

def runTimes (trace : List (Except Halt (Seen Unit))) : Option (List Nat) :=
  match trace.getLast? with
  | some (.ok seen) => seen.record.map fun record => record.runs.map (·.time)
  | _ => none

end Sample.Beacons

open Sample.Beacons in
theorem backends_agree_across_period :
    radio.lawfulTrace 2 (.ofSource started) orders = true ∧
      radio.trace 2 started orders =
        (Clock.host .reference 999 3).trace 2 { time := 2000 } orders ∧
      runTimes (radio.trace 2 started orders) = some [2700, 3100] := by
  have made : SymbolCounter.ofPeriod { time := 2000 } 1000 = .ok counter := rfl
  have lawful : radio.lawfulTrace 2 (.ofSource started) orders = true := by decide
  have together : ({ time := 2000 } : SymbolClock).time = ({ time := 2000 } : Clock).time := rfl
  have agree := backends_agree .reference (by decide) (by decide) together (by decide) rfl rfl
    made lawful
  exact ⟨lawful, agree, by rfl⟩

end SlotClock
