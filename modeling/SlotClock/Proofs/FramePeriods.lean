import Mathlib.Data.UInt
import SlotClock.FrameTimer
import SlotClock.Proofs.SymbolClock

/-!
# The period boundaries of a frame timer

The length of the periods can be changed at any moment, also between the end of a
period and the interrupt that serves it.  A period is as long as the one in force when
it ends, and the next one begins at its end.  However late that end is served, and
whatever else is asked of the timer meanwhile, no boundary moves.

## What happens to a frame timer
-/

namespace SlotClock

open SymbolClock

variable {κ α : Type}

inductive FrameDeed where
  | start (period : UInt32)
  | setPeriod (period : UInt32)
  | compareAt (offset : UInt32)
  | cancel
  | interrupt (cause : FrameInterrupt)
  | pass (ticks : Nat)
  | latch
  deriving DecidableEq, Repr

namespace FrameTimer

def apply (R : SymbolRegisters SymbolClock) (t : FrameTimer SymbolClock κ) :
    FrameDeed → Except Fault (FrameTimer SymbolClock κ)
  | .start period => t.start R period
  | .setPeriod period => t.setPeriod R period
  | .compareAt offset => t.compareAt R offset
  | .cancel => .ok (t.cancel R)
  | .interrupt cause => .ok (t.interrupt R cause).2
  | .pass ticks => .ok { t with counter := wait ticks t.counter }
  | .latch => .ok { t with counter := SymbolClock.latch t.counter }

def run (R : SymbolRegisters SymbolClock) :
    FrameTimer SymbolClock κ → List FrameDeed → Except Fault (FrameTimer SymbolClock κ)
  | t, [] => .ok t
  | t, deed :: rest => do (← t.apply R deed).run R rest

end FrameTimer

/-! ## Handlers -/

/-- A transition of the clock that leaves the registers of the period as they are. -/
structure SymbolClock.Spares (before after : SymbolClock) : Prop where
  beacon : after.beacon = before.beacon
  overflow : after.overflow = before.overflow
  later : before.time ≤ after.time

theorem SymbolClock.Spares.refl (clock : SymbolClock) : Spares clock clock :=
  ⟨rfl, rfl, Nat.le_refl _⟩

namespace Handler

def Spares (h : Handler SymbolClock κ α) : Prop :=
  ∀ cause state clock, SymbolClock.Spares clock (h.body cause state clock).2

theorem notify_spares {h? : Option (Handler SymbolClock κ α)} (spares : ∀ h ∈ h?, h.Spares)
    (cause : α) (clock : SymbolClock) :
    SymbolClock.Spares clock (notify h? cause clock).2.2 ∧
      ∀ h ∈ (notify h? cause clock).2.1, h.Spares := by
  cases h? with
  | none => exact ⟨.refl clock, nofun⟩
  | some h =>
      have spares := spares h rfl
      refine ⟨spares cause h.state clock, ?_⟩
      rintro _ ⟨⟩
      exact spares

end Handler

namespace FrameTimer

structure Spares (t : FrameTimer SymbolClock κ) : Prop where
  onPeriodEnd : ∀ h ∈ t.onPeriodEnd, h.Spares
  onCompare : ∀ h ∈ t.onCompare, h.Spares
  onFrameStart : ∀ h ∈ t.onFrameStart, h.Spares
  onFrameEnd : ∀ h ∈ t.onFrameEnd, h.Spares

theorem Spares.withCounter {t : FrameTimer SymbolClock κ} (spares : t.Spares)
    (c : SymbolCounter SymbolClock) : Spares { t with counter := c } :=
  ⟨spares.onPeriodEnd, spares.onCompare, spares.onFrameStart, spares.onFrameEnd⟩

end FrameTimer

/-! ## What the counter makes of it -/

namespace FrameDeed

def Positive : FrameDeed → Prop
  | start period => 0 < period
  | setPeriod period => 0 < period
  | _ => True

def Quiet : FrameDeed → Prop
  | compareAt _ => True
  | cancel => True
  | interrupt cause => cause ≠ .periodEnd
  | pass _ => True
  | _ => False

end FrameDeed

inductive SymbolCounter.Turns (bias : UInt32) (c : SymbolCounter SymbolClock) :
    FrameDeed → SymbolCounter SymbolClock → Prop where
  | start {c' : SymbolCounter SymbolClock} {period : UInt32} (force : c'.period = period)
      (origin : c'.origin = rawAt bias c.regs.time)
      (overflow : c'.regs.overflow = c'.origin + c'.period)
      (beacon : c'.regs.beacon = c.regs.beacon) (time : c'.regs.time = c.regs.time) :
      Turns bias c (.start period) c'
  | setPeriod {c' : SymbolCounter SymbolClock} {period : UInt32} (force : c'.period = period)
      (origin : c'.origin = c.origin) (overflow : c'.regs.overflow = c'.origin + c'.period)
      (beacon : c'.regs.beacon = c.regs.beacon) (time : c'.regs.time = c.regs.time) :
      Turns bias c (.setPeriod period) c'
  | latch : Turns bias c .latch (latch c)
  | rollOver {c' : SymbolCounter SymbolClock} (force : c'.period = c.period)
      (origin : c'.origin = c.regs.beacon) (overflow : c'.regs.overflow = c'.origin + c'.period)
      (beacon : c'.regs.beacon = c.regs.beacon) (later : c.regs.time ≤ c'.regs.time) :
      Turns bias c (.interrupt .periodEnd) c'
  | still {deed : FrameDeed} {c' : SymbolCounter SymbolClock} (quiet : deed.Quiet)
      (force : c'.period = c.period) (origin : c'.origin = c.origin)
      (spares : Spares c.regs c'.regs) : Turns bias c deed c'

namespace FrameTimer

variable (rate : Rate) (bias : UInt32) (latency : Nat) {t t' : FrameTimer SymbolClock κ}

theorem start_eq (t : FrameTimer SymbolClock κ) {period : UInt32} (pos : 0 < period) :
    t.start (registers rate bias latency) period = .ok { t with
      counter := { t.counter with period := period, period_pos := pos }.start
        (registers rate bias latency) } := by
  rw [start, SymbolCounter.startWith, SymbolCounter.withPeriod_of_pos pos]
  rfl

theorem setPeriod_eq (t : FrameTimer SymbolClock κ) {period : UInt32} (pos : 0 < period) :
    t.setPeriod (registers rate bias latency) period = .ok { t with
      counter := { t.counter with period := period, period_pos := pos }.markEnd
        (registers rate bias latency) } := by
  rw [setPeriod, SymbolCounter.setPeriod, SymbolCounter.withPeriod_of_pos pos]
  rfl

theorem interrupt_turns (spares : t.Spares) (cause : FrameInterrupt) :
    t.counter.Turns bias (.interrupt cause)
        (t.interrupt (registers rate bias latency) cause).2.counter ∧
      (t.interrupt (registers rate bias latency) cause).2.Spares := by
  cases cause with
  | periodEnd =>
      obtain ⟨clock, handler⟩ := Handler.notify_spares spares.onPeriodEnd ()
        (t.counter.rollOver (registers rate bias latency)).regs
      exact ⟨.rollOver rfl rfl clock.overflow clock.beacon clock.later,
        handler, spares.onCompare, spares.onFrameStart, spares.onFrameEnd⟩
  | compare =>
      obtain ⟨clock, handler⟩ := Handler.notify_spares spares.onCompare ()
        (t.counter.disarm (registers rate bias latency)).regs
      exact ⟨.still nofun rfl rfl ⟨clock.beacon, clock.overflow, clock.later⟩,
        spares.onPeriodEnd, handler, spares.onFrameStart, spares.onFrameEnd⟩
  | frameStart time =>
      obtain ⟨clock, handler⟩ := Handler.notify_spares spares.onFrameStart time t.counter.regs
      exact ⟨.still nofun rfl rfl clock,
        spares.onPeriodEnd, spares.onCompare, handler, spares.onFrameEnd⟩
  | frameEnd time =>
      obtain ⟨clock, handler⟩ := Handler.notify_spares spares.onFrameEnd time t.counter.regs
      exact ⟨.still nofun rfl rfl clock,
        spares.onPeriodEnd, spares.onCompare, spares.onFrameStart, handler⟩

theorem apply_turns (spares : t.Spares) (deed : FrameDeed) (pos : deed.Positive) :
    ∃ t', t.apply (registers rate bias latency) deed = .ok t' ∧
      t.counter.Turns bias deed t'.counter ∧ t'.Spares := by
  cases deed with
  | start period =>
      exact ⟨_, start_eq rate bias latency t pos, .start rfl rfl rfl rfl rfl, spares.withCounter _⟩
  | setPeriod period =>
      exact ⟨_, setPeriod_eq rate bias latency t pos, .setPeriod rfl rfl rfl rfl rfl,
        spares.withCounter _⟩
  | compareAt offset =>
      exact ⟨_, rfl, .still trivial rfl rfl ⟨rfl, rfl, Nat.le_add_right _ _⟩, spares.withCounter _⟩
  | cancel => exact ⟨_, rfl, .still trivial rfl rfl ⟨rfl, rfl, Nat.le_refl _⟩, spares.withCounter _⟩
  | interrupt cause => exact ⟨_, rfl, interrupt_turns rate bias latency spares cause⟩
  | pass ticks =>
      exact ⟨_, rfl, .still trivial rfl rfl ⟨rfl, rfl, Nat.le_add_right _ _⟩, spares.withCounter _⟩
  | latch => exact ⟨_, rfl, .latch, spares.withCounter _⟩

end FrameTimer

/-! ## The ledger of the periods -/

/-- The account of the periods that is drawn from what happens alone. -/
structure PeriodLedger where
  period : UInt32
  /-- The length of the period that has ended, until its end is served. -/
  ended : Option UInt32 := none
  served : List UInt32 := []
  deriving DecidableEq, Repr

namespace PeriodLedger

def record (l : PeriodLedger) : FrameDeed → PeriodLedger
  | .setPeriod period => { l with period := period }
  | .latch => { l with ended := some l.period }
  | .interrupt .periodEnd => { l with ended := none, served := l.served ++ l.ended.toList }
  | _ => l

def after (l : PeriodLedger) (deeds : List FrameDeed) : PeriodLedger :=
  deeds.foldl record l

def admits (l : PeriodLedger) : FrameDeed → Bool
  | .start _ => false
  | .setPeriod period => 0 < period
  | .latch => l.ended.isNone
  | .interrupt .periodEnd => l.ended.isSome
  | _ => true

def admitsAll : PeriodLedger → List FrameDeed → Bool
  | _, [] => true
  | l, deed :: rest => l.admits deed && (l.record deed).admitsAll rest

variable {l : PeriodLedger} {deed : FrameDeed} {deeds : List FrameDeed}

private theorem record_of_quiet (quiet : deed.Quiet) : l.record deed = l := by
  cases deed with
  | interrupt cause =>
      cases cause with
      | periodEnd => exact absurd rfl quiet
      | _ => rfl
  | compareAt => rfl
  | cancel => rfl
  | pass => rfl
  | _ => cases quiet

theorem positive_of_admits (admitted : l.admits deed) : deed.Positive := by
  cases deed with
  | start => cases admitted
  | setPeriod period => exact of_decide_eq_true (p := 0 < period) admitted
  | _ => trivial

private theorem record_periodEnd (admitted : l.admits (.interrupt .periodEnd)) :
    ∃ length, l.ended = some length ∧ l.record (.interrupt .periodEnd) =
      { l with ended := none, served := l.served ++ [length] } := by
  have waits : l.ended.isSome = true := admitted
  obtain ⟨length, ended⟩ := Option.isSome_iff_exists.mp waits
  refine ⟨length, ended, ?_⟩
  change { l with ended := none, served := l.served ++ l.ended.toList } = _
  rw [ended, Option.toList_some]

theorem length_served_record (admitted : l.admits deed) :
    (l.record deed).served.length = l.served.length + [deed].count (.interrupt .periodEnd) := by
  cases deed with
  | interrupt cause =>
      cases cause with
      | periodEnd =>
          obtain ⟨length, -, recorded⟩ := record_periodEnd admitted
          rw [recorded, List.length_append, List.length_singleton]
          rfl
      | _ => rfl
  | _ => rfl

theorem length_served_after (admitted : l.admitsAll deeds) :
    (l.after deeds).served.length = l.served.length + deeds.count (.interrupt .periodEnd) := by
  induction deeds generalizing l with
  | nil => rfl
  | cons deed rest ih =>
      simp only [admitsAll, Bool.and_eq_true] at admitted
      obtain ⟨first, later⟩ := admitted
      have counted := ih later
      rw [length_served_record first, Nat.add_assoc, ← List.count_append] at counted
      exact counted

end PeriodLedger

/-- The registers hold what the ledger says, if the first period began at the reading `first`. -/
structure SymbolCounter.Follows (first : UInt32) (l : PeriodLedger)
    (c : SymbolCounter SymbolClock) : Prop where
  period : c.period = l.period
  overflow : c.regs.overflow = c.origin + c.period
  origin : c.origin = first + l.served.sum
  beacon : ∀ length ∈ l.ended, c.regs.beacon = c.origin + length

namespace SymbolCounter

variable {bias first : UInt32} {l : PeriodLedger} {c c' : SymbolCounter SymbolClock}

theorem Follows.of_start {period : UInt32} (turns : c.Turns bias (.start period) c') :
    c'.Follows (rawAt bias c.regs.time) { period := period } := by
  cases turns with
  | start force origin overflow =>
      refine ⟨force, overflow, origin.trans ?_, nofun⟩
      rw [List.sum_nil, UInt32.add_zero]
  | still quiet => cases quiet

theorem Follows.turns {deed : FrameDeed} (follows : c.Follows first l) (admitted : l.admits deed)
    (turns : c.Turns bias deed c') : c'.Follows first (l.record deed) := by
  cases turns with
  | start => cases admitted
  | setPeriod force origin overflow beacon =>
      refine ⟨force, overflow, origin.trans follows.origin, fun length ended => ?_⟩
      rw [beacon, origin]
      exact follows.beacon length ended
  | latch =>
      refine ⟨follows.period, follows.overflow, follows.origin, ?_⟩
      rintro _ ⟨⟩
      rw [← follows.period]
      exact follows.overflow
  | rollOver force origin overflow =>
      obtain ⟨length, ended, recorded⟩ := PeriodLedger.record_periodEnd admitted
      have latched := follows.beacon length ended
      rw [recorded]
      refine ⟨force.trans follows.period, overflow, ?_, nofun⟩
      rw [List.sum_append, List.sum_singleton, origin, latched, follows.origin, UInt32.add_assoc]
  | still quiet force origin spares =>
      rw [PeriodLedger.record_of_quiet quiet]
      refine ⟨force.trans follows.period, ?_, origin.trans follows.origin, fun length ended => ?_⟩
      · rw [spares.overflow, origin, force]
        exact follows.overflow
      · rw [spares.beacon, origin]
        exact follows.beacon length ended

end SymbolCounter

/-! ## Every run -/

namespace FrameTimer

variable (rate : Rate) (bias : UInt32) (latency : Nat)

theorem run_follows {first : UInt32} {l : PeriodLedger} {t : FrameTimer SymbolClock κ}
    {deeds : List FrameDeed} (spares : t.Spares) (follows : t.counter.Follows first l)
    (admitted : l.admitsAll deeds) :
    ∃ t', t.run (registers rate bias latency) deeds = .ok t' ∧
      t'.counter.Follows first (l.after deeds) := by
  induction deeds generalizing t l with
  | nil => exact ⟨t, rfl, follows⟩
  | cons deed rest ih =>
      simp only [PeriodLedger.admitsAll, Bool.and_eq_true] at admitted
      obtain ⟨now, later⟩ := admitted
      obtain ⟨t₁, applied, turns, spares₁⟩ := apply_turns rate bias latency spares deed
        (PeriodLedger.positive_of_admits now)
      rw [run, applied]
      exact ih spares₁ (follows.turns now turns) later

theorem started_follows {t : FrameTimer SymbolClock κ} {period : UInt32} {deeds : List FrameDeed}
    (spares : t.Spares) (pos : 0 < period)
    (admitted : PeriodLedger.admitsAll { period := period } deeds) :
    ∃ t', t.run (registers rate bias latency) (.start period :: deeds) = .ok t' ∧
      t'.counter.Follows (rawAt bias t.counter.regs.time)
        (PeriodLedger.after { period := period } deeds) := by
  obtain ⟨t₁, started, turns, spares₁⟩ := apply_turns rate bias latency spares
    (.start period) pos
  rw [run, started]
  exact run_follows rate bias latency spares₁ (.of_start turns) admitted

/--
After a start and whatever follows it, the overflow compare marks the end of a period of
the length in force.  The period began at the reading of the start plus the lengths of
the periods that were served, each one the length in force when it ended.
-/
theorem period_boundaries_exact {t : FrameTimer SymbolClock κ} (spares : t.Spares)
    {period : UInt32} (pos : 0 < period) {deeds : List FrameDeed}
    (admitted : PeriodLedger.admitsAll { period := period } deeds) :
    let R := registers rate bias latency
    let ledger := PeriodLedger.after { period := period } deeds
    ∃ t', t.run R (.start period :: deeds) = .ok t' ∧
      t'.period = ledger.period ∧
      t'.counter.regs.overflow = t'.counter.origin + t'.period ∧
      t'.counter.origin = R.raw t.counter.regs + ledger.served.sum ∧
      ledger.served.length = deeds.count (.interrupt .periodEnd) := by
  intro R ledger
  obtain ⟨t', run, follows⟩ := started_follows rate bias latency spares pos admitted
  refine ⟨t', run, follows.period, follows.overflow, follows.origin, ?_⟩
  rw [PeriodLedger.length_served_after admitted]
  exact Nat.zero_add _

end FrameTimer

namespace Sample.Frames

def slow : Handler SymbolClock Nat Unit where
  state := 0
  body _ runs clock := (runs + 1, { clock with time := clock.time + 5 })

def timer : FrameTimer SymbolClock Nat where
  counter := ⟨{ time := 40 }, 100, by decide, 0⟩
  onPeriodEnd := some slow

theorem spares : timer.Spares := by
  refine ⟨?_, nofun, nofun, nofun⟩
  rintro _ ⟨⟩ cause state clock
  exact ⟨rfl, rfl, Nat.le_add_right _ _⟩

def deeds : List FrameDeed :=
  [.pass 500, .latch, .setPeriod 800, .pass 7, .interrupt .periodEnd, .compareAt 100, .pass 300,
    .setPeriod 600, .interrupt .compare, .pass 290, .latch, .interrupt (.frameStart 9), .pass 20,
    .interrupt .periodEnd, .setPeriod 900]

end Sample.Frames

open Sample.Frames in
theorem FrameTimer.period_boundaries_exact_sample :
    PeriodLedger.admitsAll { period := 500 } deeds = true ∧
      ∃ t, timer.run (registers .symbol 0xFFFFFF00 3) (.start 500 :: deeds) = .ok t ∧
        t.period = 900 ∧ t.counter.origin = 0xFFFFFF28 + 1100 ∧
        t.counter.regs.overflow = t.counter.origin + 900 := by
  have admitted : PeriodLedger.admitsAll { period := 500 } deeds = true := by decide
  obtain ⟨t, run, period, overflow, origin, -⟩ := FrameTimer.period_boundaries_exact .symbol
    0xFFFFFF00 3 spares (show 0 < 500 by decide) admitted
  rw [period] at overflow
  exact ⟨admitted, t, run, period, origin, overflow⟩

end SlotClock
