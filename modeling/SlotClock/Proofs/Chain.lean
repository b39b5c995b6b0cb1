import SlotClock.Proofs.Anchor
import SlotClock.Proofs.OnClock

/-!
# Chains of slots do not drift

In a chain every slot is planned from the one before it.  Its instants are fixed by
the delays alone.  The plans have to be made within half a period of the instant
before, and the events have to be served within half a period; how late they are
within these bounds has no influence on any later slot.

## The instants of a chain
-/

namespace SlotClock

open Counter Clock

variable {κ : Type}

structure Chain where
  instant : Int
  carry : UInt64
  plannedAt : Nat

namespace Chain

variable (rate : Rate) (top : UInt32)

/-- A chain that begins at a schedule, whose anchor stands for the time `instant`. -/
def start (instant : Int) (s : Schedule Clock) : Chain := ⟨instant, s.carry, s.source.time⟩

def record (chain : Chain) (e : Entry Clock κ) : Chain :=
  match e.deed with
  | .act (.plan delay) =>
    match (Ratio.between rate Rate.reference).nativeOfDelay chain.carry delay with
    | .ok (span, carry) => ⟨chain.instant + span.toNat, carry, e.before.schedule.source.time⟩
    | .error _ => chain
  | _ => chain

def after (chain : Chain) (history : List (Entry Clock κ)) : Chain :=
  history.foldl (record rate) chain

/--
What may happen in a chain.  A slot is planned when no other one is pending, within
half a period of the instant before it, and not without a delay ahead of that
instant.  An event is served within half a period.  Nothing is given up, and nothing
happens to the clock but that time passes.
-/
def Allows (chain : Chain) (e : Entry Clock κ) : Prop :=
  let time := e.before.schedule.source.time
  match e.deed with
  | .act (.plan _) =>
    e.before.schedule.pending = false ∧
      -((top.toNat + 1 : Nat) : Int) < 2 * (time - chain.instant) ∧
      2 * (time - chain.instant) ≤ (top.toNat + 1 : Nat) ∧
      (time < chain.instant → chain.instant < (chain.record rate e).instant)
  | .act (.environment effect) => ∃ ticks, effect = wait ticks
  | .act _ => False
  | .serve => ∀ event, e.before.schedule.source.armed = some event →
      event ≤ time ∧ time ≤ event + (top.toNat + 1) / 2
  | _ => True

def Keeps : Chain → List (Entry Clock κ) → Prop
  | _, [] => True
  | chain, e :: rest => chain.Allows rate top e ∧ Keeps (chain.record rate e) rest

variable {rate top}

theorem after_cons (chain : Chain) (e : Entry Clock κ) (rest : List (Entry Clock κ)) :
    chain.after rate (e :: rest) = (chain.record rate e).after rate rest := rfl

theorem after_concat (chain : Chain) (history : List (Entry Clock κ)) (e : Entry Clock κ) :
    chain.after rate (history ++ [e]) = (chain.after rate history).record rate e := by
  simp [after]

theorem keeps_concat {chain : Chain} {history : List (Entry Clock κ)} {e : Entry Clock κ} :
    chain.Keeps rate top (history ++ [e]) ↔
      chain.Keeps rate top history ∧ (chain.after rate history).Allows rate top e := by
  induction history generalizing chain with
  | nil => simp [Keeps, after]
  | cons head rest ih =>
      simp only [List.cons_append, Keeps, ih, and_assoc]
      rfl

theorem Allows.keep {chain : Chain} {e : Entry Clock κ} (allows : chain.Allows rate top e) :
    e.drops = false := by
  obtain ⟨m, deed⟩ := e
  cases deed with
  | act a =>
      cases a with
      | plan delay =>
          have free : m.schedule.pending = false := allows.1
          simp [Entry.drops, free]
      | cancel => cases allows
      | reset => cases allows
      | clear => cases allows
      | environment effect => rfl
  | refuse => rfl
  | setCallback => rfl
  | serve => rfl
  | enter => rfl
  | leave => rfl

theorem Keeps.dropped_eq {chain : Chain} {history : List (Entry Clock κ)}
    (keeps : chain.Keeps rate top history) : dropped history = 0 := by
  induction history generalizing chain with
  | nil => rfl
  | cons e rest ih =>
      obtain ⟨allows, keeps⟩ := keeps
      have none := ih keeps
      simp only [dropped, List.countP_cons, allows.keep] at none ⊢
      simpa using none

theorem record_plan {chain : Chain} (m : Moment Clock κ) (delay : UInt32)
    (carry : chain.carry.toNat < (Ratio.between rate Rate.reference).den.toNat) :
    chain.record rate ⟨m, .act (.plan delay)⟩ =
      ⟨chain.instant + (Ratio.between rate Rate.reference).ticks chain.carry delay,
        UInt64.ofNat ((Ratio.between rate Rate.reference).left chain.carry delay),
        m.schedule.source.time⟩ := by
  simp only [record, Ratio.nativeOfDelay_eq _ _ carry, Ratio.toNat_ticks _ _ carry]

theorem Keeps.instant_eq {chain : Chain} {history : List (Entry Clock κ)} {total : Nat}
    (keeps : chain.Keeps rate top history)
    (carried : chain.carry.toNat = total * (Ratio.between rate Rate.reference).num.toNat %
      (Ratio.between rate Rate.reference).den.toNat) :
    (chain.after rate history).instant -
        (moveOn book total history * rate.hertz.toNat / 32768 : Nat) =
      chain.instant - (total * rate.hertz.toNat / 32768 : Nat) := by
  induction history generalizing chain total with
  | nil => rfl
  | cons e rest ih =>
      obtain ⟨allows, keeps⟩ := keeps
      obtain ⟨m, deed⟩ := e
      cases deed with
      | act a =>
          cases a with
          | plan delay =>
              -- Only a plan moves the instant, by as much as the converted sum grows.
              have carry := Ratio.carry_lt rate Rate.reference carried
              have recorded := record_plan m delay carry
              have sum := Ratio.div_add_ticks rate Rate.reference delay carried
              have left := Ratio.left_of_sum rate Rate.reference delay carried
              rw [← Nat.add_mul] at sum left
              rw [Ratio.mul_num_div_den, Ratio.mul_num_div_den] at sum
              have hertz : Rate.reference.hertz.toNat = 32768 := rfl
              rw [hertz] at sum
              have onward : (chain.record rate ⟨m, .act (.plan delay)⟩).carry.toNat =
                  (total + delay.toNat) * (Ratio.between rate Rate.reference).num.toNat %
                    (Ratio.between rate Rate.reference).den.toNat := by
                rw [recorded, Ratio.toNat_left _ _ carry]
                exact left
              have later := ih keeps onward
              rw [after_cons, moveOn_cons, recorded]
              rw [recorded] at later
              dsimp only [Deed.moveOn, book] at later ⊢
              omega
          | cancel => cases allows
          | reset => cases allows
          | clear => cases allows
          | environment effect => exact ih keeps carried
      | refuse => exact ih keeps carried
      | setCallback => exact ih keeps carried
      | serve => exact ih keeps carried
      | enter => exact ih keeps carried
      | leave => exact ih keeps carried

end Chain

end SlotClock
