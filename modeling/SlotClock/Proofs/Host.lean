import SlotClock.Bench.Script
import SlotClock.Bench.Trace
import SlotClock.Proofs.Simulation
import SlotClock.Timer

/-!
# Timers on different hosts

A host is simulated hardware together with the source that a timer sees of it.  The
same orders and the same callbacks can be given to timers on different hosts, since
they are told in terms that every host shares.  If one source simulates the other,
the two timers cannot be told apart by what they show.

## Hosts
-/

namespace SlotClock

variable {σ τ κ ρ : Type}

/-- What happens to hardware by itself; the last two concern counters that keep periods. -/
inductive Event where
  | pass (ticks : Nat)
  | latch
  | rollOver
  deriving DecidableEq, Repr

structure Host (σ : Type) where
  source : Source σ
  time : σ → Nat
  armed : σ → Option Nat
  effect : Event → σ → σ
  lawful : σ → σ → Bool

/-- What can be seen of a schedule on its host. -/
structure Glimpse where
  view : Except Fault Bench.View
  time : Nat
  armed : Option Nat

def Host.glimpse (H : Host σ) (s : Schedule σ) : Glimpse :=
  ⟨Bench.View.of H.source s, H.time s.source, H.armed s.source⟩

inductive Errand where
  | plan (delay : UInt32)
  | cancel
  | reset
  | clear
  | event (e : Event)
  deriving DecidableEq, Repr

def Errand.action (H : Host σ) : Errand → Action σ
  | plan delay => .plan delay
  | cancel => .cancel
  | reset => .reset
  | clear => .clear
  | event e => .environment fun x => .ok (H.effect e x)

/-! ## Callbacks and orders -/

/-- One run of a callback, told by errands; what comes next depends on what is seen. -/
inductive Routine (κ : Type) where
  | finish (state : κ)
  | fail (cause : Fault)
  | act (errand : Errand) (next : Glimpse → Routine κ)

def Routine.program (H : Host σ) (finish : κ → ρ) : Routine κ → Program σ ρ
  | .finish state => .finish (finish state)
  | .fail cause => .fail cause
  | .act errand next => .act (errand.action H) fun s => (next (H.glimpse s)).program H finish

structure Record (κ : Type) where
  state : κ
  runs : List Glimpse := []

def Host.callback (H : Host σ) (body : κ → Glimpse → Routine κ) (record : Record κ) :
    Callback σ (Record κ) where
  state := record
  body record s :=
    (body record.state (H.glimpse s)).program H fun state =>
      ⟨state, record.runs ++ [H.glimpse s]⟩

inductive Order (κ : Type) where
  | act (errand : Errand)
  | setCallback (state : κ) (body : κ → Glimpse → Routine κ)
  | interrupt

inductive Answer where
  | done
  | replied (reply : Reply)
  | served (kick : Kick)
  deriving DecidableEq, Repr

structure Seen (κ : Type) where
  answer : Answer
  glimpse : Glimpse
  record : Option (Record κ)

namespace Host

def obey (H : Host σ) (fuel : Nat) (t : Timer σ (Record κ)) :
    Order κ → Except Halt (Answer × Timer σ (Record κ))
  | .act (.plan delay) => do
    let (reply, t) ← t.plan H.source fuel delay
    return (.replied reply, t)
  | .act .cancel => .ok (.done, t.cancel H.source)
  | .act .reset => .ok (.done, t.reset H.source)
  | .act .clear => .ok (.done, t.clear H.source)
  | .act (.event e) => do
    let t ← (t.onSource fun x => .ok (H.effect e x)).mapError .fault
    return (.done, t)
  | .setCallback state body => .ok (.done, t.setCallback (H.callback body ⟨state, []⟩))
  | .interrupt => do
    let (kick, t) ← t.interrupt H.source fuel
    return (.served kick, t)

def step (H : Host σ) (fuel : Nat) (order : Order κ) (t : Timer σ (Record κ)) :
    Except Halt (Seen κ × Timer σ (Record κ)) := do
  let (answer, t) ← H.obey fuel t order
  return (⟨answer, H.glimpse t.schedule, t.callback.map (·.state)⟩, t)

/-- What a new timer shows after each order. -/
def trace (H : Host σ) (fuel : Nat) (source : σ) (orders : List (Order κ)) :
    List (Except Halt (Seen κ)) :=
  Bench.trace (H.step fuel) (.ofSource source) orders

/-! ## Promises -/

def lawfulRun (H : Host σ) : Program σ κ → Schedule σ → Bool
  | .finish _, _ => true
  | .fail _, _ => true
  | .act a next, s =>
    match a.apply H.source s with
    | .error _ => true
    | .ok s' => H.lawful s.source s'.source && H.lawfulRun (next s') s'

def lawfulLoop (H : Host σ) : Nat → Callback σ κ → Schedule σ → Bool
  | 0, _, _ => true
  | fuel + 1, c, s =>
    H.lawfulRun (c.body c.state s.enterCallback) s.enterCallback &&
      match c.invoke H.source s.enterCallback with
      | .error _ => true
      | .ok (c, s) =>
        let (again, s) := s.leaveCallback.takeDue
        !again || H.lawfulLoop fuel c s

def lawfulStep (H : Host σ) (fuel : Nat) (t : Timer σ κ) (due : Bool) (s : Schedule σ) : Bool :=
  H.lawful t.schedule.source s.source &&
    match t.callback with
    | none => true
    | some c => !due || H.lawfulLoop fuel c s

private theorem kept_of_lawfulStep (H : Host σ) {fuel : Nat} {t : Timer σ κ} {due : Bool}
    {s : Schedule σ} (h : H.lawfulStep fuel t due s) :
    H.lawful t.schedule.source s.source = true := by
  simp only [lawfulStep, Bool.and_eq_true] at h
  exact h.1

private theorem loop_of_lawfulStep (H : Host σ) {fuel : Nat} {t : Timer σ κ} {due : Bool}
    {s : Schedule σ} (h : H.lawfulStep fuel t due s) {c : Callback σ κ} (set : t.callback = some c)
    (again : due = true) : H.lawfulLoop fuel c s = true := by
  simp only [lawfulStep, set, again, Bool.and_eq_true, Bool.not_true, Bool.false_or] at h
  exact h.2

def lawfulOrder (H : Host σ) (fuel : Nat) (t : Timer σ (Record κ)) : Order κ → Bool
  | .act (.plan delay) =>
    match t.callback, t.schedule.plan H.source delay with
    | some _, .ok s => H.lawfulStep fuel t s.takeDue.1 s.takeDue.2
    | _, _ => true
  | .act (.event e) => H.lawful t.schedule.source (H.effect e t.schedule.source)
  | .interrupt =>
    match t.schedule.serve H.source with
    | .error _ => true
    | .ok (due, s) => H.lawfulStep fuel t due s
  | _ => true

/-- The promise is kept in every transition that the orders lead to. -/
def lawfulTrace (H : Host σ) (fuel : Nat) : Timer σ (Record κ) → List (Order κ) → Bool
  | _, [] => true
  | t, order :: rest =>
    H.lawfulOrder fuel t order &&
      match H.step fuel order t with
      | .error _ => true
      | .ok (_, t) => H.lawfulTrace fuel t rest

/-! ## Simulation -/

structure Simulates (H : Host σ) (K : Host τ) (like : σ → τ → Prop) : Prop
    extends Source.Simulates H.source K.source (fun x x' => H.lawful x x' = true) like where
  time {x : σ} {y : τ} : like x y → H.time x = K.time y
  armed {x : σ} {y : τ} : like x y → H.armed x = K.armed y
  effect {x : σ} {y : τ} (e : Event) : like x y →
    H.lawful x (H.effect e x) = true → like (H.effect e x) (K.effect e y)

abbrev Next (H : Host σ) (like : σ → τ → Prop) : σ → σ → τ → Prop :=
  Source.Next (fun x x' => H.lawful x x' = true) like

variable {H : Host σ} {K : Host τ} {like : σ → τ → Prop} (sim : H.Simulates K like)

include sim

private theorem glimpse_eq {s : Schedule σ} {t : Schedule τ} (h : Schedule.Alike like s t) :
    H.glimpse s = K.glimpse t := by
  cases h with
  | mk h =>
      simp only [glimpse, Bench.View.of, Schedule.referenceAnchor, Schedule.referenceReading,
        Schedule.ratio, Schedule.reading, sim.rate, sim.reading h, sim.time h, sim.armed h]

private theorem apply_agree {s : Schedule σ} {t : Schedule τ} (h : Schedule.Alike like s t)
    (errand : Errand) :
    Agree (Schedule.Alike (H.Next like s.source)) ((errand.action H).apply H.source s)
      ((errand.action K).apply K.source t) := by
  cases errand with
  | plan delay => exact Schedule.plan_agree sim.toSimulates h delay
  | cancel => exact .ok (Schedule.cancel_alike sim.toSimulates h).next
  | reset => exact .ok (Schedule.reset_alike sim.toSimulates h).next
  | clear => exact .ok (Schedule.clear_alike sim.toSimulates h).next
  | event e =>
      cases h with
      | mk h => exact .ok (.mk (sim.effect e h))

private theorem run_agree {s : Schedule σ} {t : Schedule τ} (h : Schedule.Alike like s t)
    {routine : Routine κ} {finish : κ → ρ} (lawful : H.lawfulRun (routine.program H finish) s) :
    Agree (fun a b => a.1 = b.1 ∧ Schedule.Alike like a.2 b.2)
      ((routine.program H finish).run H.source s) ((routine.program K finish).run K.source t) := by
  induction routine generalizing s t with
  | finish state => exact .ok ⟨rfl, h⟩
  | fail cause => exact .error cause
  | act errand next ih =>
      have acted := apply_agree sim h errand
      simp only [Routine.program, Program.run, lawfulRun] at lawful ⊢
      generalize (errand.action H).apply H.source s = first at acted lawful
      generalize (errand.action K).apply K.source t = second at acted
      cases acted with
      | error cause => exact .error cause
      | ok alike =>
          simp only [Bool.and_eq_true] at lawful
          have alike := alike.resume lawful.1
          simp only [← glimpse_eq sim alike]
          exact ih _ alike lawful.2

private theorem invoke_agree {s : Schedule σ} {t : Schedule τ} (h : Schedule.Alike like s t)
    {body : κ → Glimpse → Routine κ} {record : Record κ}
    (lawful : H.lawfulRun ((H.callback body record).body record s) s) :
    Agree (fun a b => ∃ record, a.1 = H.callback body record ∧ b.1 = K.callback body record ∧
        Schedule.Alike like a.2 b.2)
      ((H.callback body record).invoke H.source s) ((K.callback body record).invoke K.source t) := by
  have seen := glimpse_eq sim h
  simp only [Callback.invoke, callback, ← seen] at lawful ⊢
  refine (run_agree sim h lawful).bind ?_
  rintro ⟨record, s⟩ ⟨_, t⟩ ⟨rfl, alike⟩
  exact .ok ⟨record, rfl, rfl, alike⟩

end Host

inductive Timer.Alike (H : Host σ) (K : Host τ) (like : σ → τ → Prop) :
    Timer σ (Record κ) → Timer τ (Record κ) → Prop where
  | unset {s : Schedule σ} {t : Schedule τ} (h : Schedule.Alike like s t) :
      Alike H K like ⟨s, none⟩ ⟨t, none⟩
  | set {s : Schedule σ} {t : Schedule τ} (body : κ → Glimpse → Routine κ) (record : Record κ)
      (h : Schedule.Alike like s t) :
      Alike H K like ⟨s, some (H.callback body record)⟩ ⟨t, some (K.callback body record)⟩

namespace Timer.Alike

variable {H : Host σ} {K : Host τ} {like : σ → τ → Prop} {t : Timer σ (Record κ)}
  {u : Timer τ (Record κ)}

theorem schedule (h : Alike H K like t u) : Schedule.Alike like t.schedule u.schedule := by
  cases h with
  | unset h => exact h
  | set body record h => exact h

private theorem record_eq (h : Alike H K like t u) :
    t.callback.map (·.state) = u.callback.map (·.state) := by
  cases h with
  | unset => rfl
  | set => rfl

theorem withSchedule (h : Alike H K like t u) {s : Schedule σ} {s' : Schedule τ}
    (alike : Schedule.Alike like s s') :
    Alike H K like { t with schedule := s } { u with schedule := s' } := by
  cases h with
  | unset => exact .unset alike
  | set body record => exact .set body record alike

end Timer.Alike

namespace Host

variable {H : Host σ} {K : Host τ} {like : σ → τ → Prop} (sim : H.Simulates K like)

include sim

private theorem loop_agree {fuel : Nat} {s : Schedule σ} {t : Schedule τ}
    (h : Schedule.Alike like s t)
    {body : κ → Glimpse → Routine κ} {record : Record κ}
    (lawful : H.lawfulLoop fuel (H.callback body record) s) :
    Agree (fun a b => Timer.Alike H K like ⟨a.2, some a.1⟩ ⟨b.2, some b.1⟩)
      (Timer.runCallback H.source fuel (H.callback body record) s)
      (Timer.runCallback K.source fuel (K.callback body record) t) := by
  induction fuel generalizing s t record with
  | zero => exact .error _
  | succ fuel ih =>
      simp only [lawfulLoop, Bool.and_eq_true] at lawful
      obtain ⟨run, again⟩ := lawful
      have invoked := invoke_agree sim h.enter run
      rw [Timer.runCallback, Timer.runCallback]
      generalize (H.callback body record).invoke H.source s.enterCallback = first at invoked again
      generalize (K.callback body record).invoke K.source t.enterCallback = second at invoked
      cases invoked with
      | error cause => exact .error _
      | @ok a b called =>
          obtain ⟨c, s⟩ := a
          obtain ⟨d, t⟩ := b
          obtain ⟨record, rfl, rfl, alike⟩ := called
          have left := alike.leave
          have same : s.leaveCallback.due = t.leaveCallback.due := left.due
          simp only [Schedule.takeDue, ← same] at again ⊢
          exact .ite _ (fun due => ih left.takeDue (by simpa [due, Schedule.takeDue] using again))
            (.ok (.set body record left.takeDue))

theorem timer_plan_agree {fuel : Nat} {t : Timer σ (Record κ)} {u : Timer τ (Record κ)}
    (h : Timer.Alike H K like t u) (delay : UInt32)
    (lawful : H.lawfulOrder fuel t (.act (.plan delay) : Order κ)) :
    Agree (fun a b => a.1 = b.1 ∧ Timer.Alike H K like a.2 b.2) (t.plan H.source fuel delay)
      (u.plan K.source fuel delay) := by
  cases h with
  | unset h => exact .ok ⟨rfl, .unset h⟩
  | @set s t body record h =>
      have planned : Agree (fun s' t' => Schedule.Alike like s' t' ∧
          (s'.due = true → H.lawfulLoop fuel (H.callback body record) s'.takeDue.2 = true))
          (s.plan H.source delay) (t.plan K.source delay) := by
        refine (Schedule.plan_agree sim.toSimulates h delay).mono fun s' t' returned alike => ?_
        simp only [lawfulOrder, returned] at lawful
        exact ⟨alike.resume (H.kept_of_lawfulStep lawful), H.loop_of_lawfulStep lawful rfl⟩
      refine (planned.mapError Halt.fault).bind ?_
      rintro s' t' ⟨alike, runs⟩
      simp only [Schedule.takeDue, ← alike.due] at runs ⊢
      refine .ite _ (fun due => ?_) (.ok ⟨rfl, .set body record alike.takeDue⟩)
      exact (loop_agree sim alike.takeDue (runs due)).bind fun a b timers => .ok ⟨rfl, timers⟩

theorem interrupt_agree {fuel : Nat} {t : Timer σ (Record κ)} {u : Timer τ (Record κ)}
    (h : Timer.Alike H K like t u) (lawful : H.lawfulOrder fuel t (.interrupt : Order κ)) :
    Agree (fun a b => a.1 = b.1 ∧ Timer.Alike H K like a.2 b.2) (t.interrupt H.source fuel)
      (u.interrupt K.source fuel) := by
  have served : Agree (fun a b => a.1 = b.1 ∧ Schedule.Alike like a.2 b.2 ∧
      H.lawfulStep fuel t a.1 a.2 = true) (t.schedule.serve H.source)
      (u.schedule.serve K.source) := by
    refine (Schedule.serve_agree sim.toSimulates h.schedule).mono fun a b returned both => ?_
    simp only [lawfulOrder, returned] at lawful
    exact ⟨both.1, both.2.resume (H.kept_of_lawfulStep lawful), lawful⟩
  refine (served.mapError Halt.fault).bind ?_
  rintro ⟨due, s⟩ ⟨_, s'⟩ ⟨rfl, alike, kept⟩
  cases h with
  | unset => cases due <;> exact .ok ⟨rfl, .unset alike⟩
  | set body record =>
      cases due with
      | false => exact .ok ⟨rfl, .set body record alike⟩
      | true =>
          refine (loop_agree sim alike (H.loop_of_lawfulStep kept rfl rfl)).bind ?_
          exact fun a b timers => .ok ⟨rfl, timers⟩

theorem obey_agree {fuel : Nat} {t : Timer σ (Record κ)} {u : Timer τ (Record κ)}
    (h : Timer.Alike H K like t u) (order : Order κ) (lawful : H.lawfulOrder fuel t order) :
    Agree (fun a b => a.1 = b.1 ∧ Timer.Alike H K like a.2 b.2) (H.obey fuel t order)
      (K.obey fuel u order) := by
  cases order with
  | act errand =>
      cases errand with
      | plan delay =>
          refine (timer_plan_agree sim h delay lawful).bind ?_
          rintro ⟨reply, t⟩ ⟨_, u⟩ ⟨rfl, timers⟩
          exact .ok ⟨rfl, timers⟩
      | cancel => exact .ok ⟨rfl, h.withSchedule (Schedule.cancel_alike sim.toSimulates h.schedule)⟩
      | reset => exact .ok ⟨rfl, h.withSchedule (Schedule.reset_alike sim.toSimulates h.schedule)⟩
      | clear => exact .ok ⟨rfl, .unset (Schedule.clear_alike sim.toSimulates h.schedule)⟩
      | event e =>
          have acted := apply_agree sim h.schedule (.event e)
          cases acted with
          | ok alike => exact .ok ⟨rfl, h.withSchedule (alike.resume lawful)⟩
  | setCallback state body => exact .ok ⟨rfl, .set body ⟨state, []⟩ h.schedule⟩
  | interrupt =>
      refine (interrupt_agree sim h lawful).bind ?_
      rintro ⟨kick, t⟩ ⟨_, u⟩ ⟨rfl, timers⟩
      exact .ok ⟨rfl, timers⟩

theorem step_agree {fuel : Nat} {t : Timer σ (Record κ)} {u : Timer τ (Record κ)}
    (h : Timer.Alike H K like t u) (order : Order κ) (lawful : H.lawfulOrder fuel t order) :
    Agree (fun a b => a.1 = b.1 ∧ Timer.Alike H K like a.2 b.2) (H.step fuel order t)
      (K.step fuel order u) := by
  refine (obey_agree sim h order lawful).bind ?_
  rintro ⟨answer, t⟩ ⟨_, u⟩ ⟨rfl, timers⟩
  refine .ok ⟨?_, timers⟩
  rw [glimpse_eq sim timers.schedule, timers.record_eq]

theorem trace_eq {fuel : Nat} {t : Timer σ (Record κ)} {u : Timer τ (Record κ)}
    (h : Timer.Alike H K like t u) {orders : List (Order κ)}
    (lawful : H.lawfulTrace fuel t orders) :
    Bench.trace (H.step fuel) t orders = Bench.trace (K.step fuel) u orders := by
  induction orders generalizing t u with
  | nil => rfl
  | cons order rest ih =>
      simp only [lawfulTrace, Bool.and_eq_true] at lawful
      obtain ⟨kept, later⟩ := lawful
      have stepped := step_agree sim h order kept
      simp only [Bench.trace]
      generalize H.step fuel order t = first at stepped later
      generalize K.step fuel order u = second at stepped
      cases stepped with
      | error halt => rfl
      | @ok a b both =>
          obtain ⟨seen, t⟩ := a
          obtain ⟨_, u⟩ := b
          obtain ⟨rfl, timers⟩ := both
          exact congrArg _ (ih timers later)

end Host

end SlotClock
