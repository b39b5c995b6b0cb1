import SlotClock.Proofs.Backends

/-!
# The value of a symbol counter never slips

From its start on, a symbol counter shows the ticks that have gone by, modulo its
period.  It does so while the end of a period waits to be served, for however long,
and across wraps of the raw counter; to serve the end of a period is not seen in the
value.

## Events alone
-/

namespace SlotClock

namespace Host

variable {σ : Type} (H : Host σ)

def afterEvents (x : σ) (events : List Event) : σ :=
  events.foldl (fun x e => H.effect e x) x

def lawfulEvents : σ → List Event → Bool
  | _, [] => true
  | x, e :: rest => H.lawful x (H.effect e x) && lawfulEvents (H.effect e x) rest

end Host

namespace SymbolClock

variable {rate : Rate} {bias : UInt32} {latency start since : Nat}
  {c : SymbolCounter SymbolClock}

theorem period_effect (e : Event) : ((host rate bias latency).effect e c).period = c.period := by
  cases e <;> rfl

theorem Counts.effect (counts : Counts bias start since c) (e : Event)
    (lawful : Lawful bias c ((host rate bias latency).effect e c)) :
    ∃ since, Counts bias start since ((host rate bias latency).effect e c) := by
  cases e with
  | pass ticks => exact ⟨since, counts.onward lawful rfl rfl rfl (Nat.le_add_right _ _)⟩
  | latch => exact ⟨since, counts.onward lawful rfl rfl rfl (Nat.le_refl _)⟩
  | rollOver => exact counts.rollOver rate latency lawful

theorem Counts.afterEvents (counts : Counts bias start since c) {events : List Event}
    (lawful : (host rate bias latency).lawfulEvents c events) :
    ((host rate bias latency).afterEvents c events).period = c.period ∧
      ∃ since, Counts bias start since ((host rate bias latency).afterEvents c events) := by
  -- The period that is counted begins anew when one is served, but `start` stays.
  induction events generalizing c since with
  | nil => exact ⟨rfl, since, counts⟩
  | cons e rest ih =>
      simp only [Host.lawfulEvents, Bool.and_eq_true] at lawful
      obtain ⟨kept, later⟩ := lawful
      obtain ⟨since, counts⟩ := counts.effect e (of_decide_eq_true kept)
      obtain ⟨period, counts⟩ := ih counts later
      exact ⟨period.trans (period_effect e), counts⟩

/--
At every moment after the start the value is the time since then, modulo the period.
To serve the end of a period, at whatever lateness, does not change it.
-/
theorem value_never_slips (rate : Rate) (bias : UInt32) (latency : Nat)
    (c : SymbolCounter SymbolClock) (events : List Event)
    (lawful : (host rate bias latency).lawfulEvents
      (c.start (registers rate bias latency)) events) :
    let R := registers rate bias latency
    let c' := (host rate bias latency).afterEvents (c.start R) events
    (c'.value R).toNat = (c'.regs.time - c.regs.time) % c.period.toNat ∧
      (Lawful bias c' (c'.rollOver R) → (c'.rollOver R).value R = c'.value R) := by
  intro R c'
  have started := counts_of_start rate latency bias c
  obtain ⟨period, since, counts⟩ := started.afterEvents lawful
  have value := counts.toNat_value rate latency
  rw [period] at value
  refine ⟨value, fun served => UInt32.toNat_inj.mp ?_⟩
  obtain ⟨since', counts'⟩ := counts.rollOver rate latency served
  have value' := counts'.toNat_value rate latency
  exact value'.trans (period ▸ value.symm)

theorem value_never_slips_across_wraps :
    let R := registers .symbol 0xFFFFFF00 0
    let c : SymbolCounter SymbolClock := ⟨{ time := 40 }, 3000000000, by decide, 0⟩
    let c' := (host .symbol 0xFFFFFF00 0).afterEvents (c.start R)
      [.pass 3000000000, .latch, .pass 1294967295, .rollOver, .pass 1705032705, .latch, .pass 1000]
    (c'.value R).toNat = 1000 ∧ (c'.rollOver R).value R = c'.value R := by
  intro R c c'
  obtain ⟨value, unseen⟩ := value_never_slips .symbol 0xFFFFFF00 0 c
    [.pass 3000000000, .latch, .pass 1294967295, .rollOver, .pass 1705032705, .latch, .pass 1000]
    (by decide)
  exact ⟨value.trans (by decide), unseen (by decide)⟩

end SymbolClock

end SlotClock
