import Mathlib.Algebra.GroupWithZero.Nat
import SlotClock.Proofs.Faultless
import SlotClock.Proofs.OnClock
import SlotClock.Proofs.Punctual

/-!
# Chunks lead to their target

On a clock whose compare values are in force at once, the armed event and what is owed
after it lead to one target.  An interrupt within half a period of the event, before it
or after it, either finds that the target has come, or arms the next chunk towards it
from the current reading.  So the chunks of a slot show in nothing but the number of its
events.  A slot has none if it is planned without a delay, or if its anchor is so far
ahead that it counts as past.

## What becomes of an armed event
-/

namespace SlotClock

open Counter Clock

section

variable {σ κ : Type} {H : Host σ} {p start latency : Nat} {fit : σ → Prop}

inductive Host.Moves (H : Host σ) (s : Schedule σ) : Deed σ κ → Schedule σ → Prop where
  | unarmed {deed : Deed σ κ} {s' : Schedule σ} (idle : s'.phase ≠ .armed) : Moves H s deed s'
  | kept {deed : Deed σ κ} {s' : Schedule σ} (phase : s'.phase = s.phase)
      (event : H.armed s'.source = H.armed s.source) (eventAt : s'.eventAt = s.eventAt)
      (owed : s'.owed = s.owed) : Moves H s deed s'
  | plan {delay : UInt32} {s' : Schedule σ} (h : Schedule.Plans H.source delay s s') :
      Moves H s (.act (.plan delay)) s'
  | planDue {delay : UInt32} {s' : Schedule σ} (h : Schedule.Plans H.source delay s s') :
      Moves H s (.act (.plan delay)) s'.takeDue.2
  | serve {due : Bool} {s' : Schedule σ} (h : s.serve H.source = .ok (due, s')) :
      Moves H s .serve s'

section

variable (timed : H.Timed p start latency fit)

include timed

private theorem Host.Moves.of_apply {a : Action σ} {s s' : Schedule σ}
    (h : a.apply H.source s = .ok s') (own : (Deed.act a : Deed σ κ).OfHost H) :
    H.Moves s (Deed.act a : Deed σ κ) s' := by
  cases a with
  | plan delay => exact .plan (Schedule.plans_of_plan _ h)
  | cancel =>
      cases h
      exact .unarmed (Schedule.withoutEvent_ne_armed _)
  | reset =>
      cases h
      exact .unarmed (Schedule.withoutEvent_ne_armed _)
  | clear =>
      cases h
      exact .unarmed Phase.noConfusion
  | environment effect =>
      obtain ⟨e, rfl⟩ := own
      cases h
      exact .kept rfl (timed.armed_effect _ e) rfl rfl

theorem Host.Step.moves {m m' : Moment σ κ} {deed : Deed σ κ} (h : H.Step m deed m') :
    H.Moves m.schedule deed m'.schedule := by
  obtain ⟨step, own, -⟩ := h
  cases step with
  | alone h => exact .of_apply timed h own
  | setCallback t c => exact .kept rfl rfl rfl rfl
  | refuse delay unset => exact .kept rfl rfl rfl rfl
  | plan set h =>
      rw [Moment.schedule_settle]
      exact .planDue (Schedule.plans_of_plan _ h)
  | cancel t => exact .unarmed (Schedule.withoutEvent_ne_armed _)
  | reset t => exact .unarmed (Schedule.withoutEvent_ne_armed _)
  | clear t => exact .unarmed Phase.noConfusion
  | environment h =>
      obtain ⟨e, rfl⟩ := own
      cases h
      exact .kept rfl (timed.armed_effect _ e) rfl rfl
  | serve h =>
      rw [Moment.schedule_served]
      exact .serve h
  | enter c s => exact .unarmed Phase.noConfusion
  | inside h => exact .of_apply timed h own
  | leave c state s =>
      rw [Moment.schedule_settle]
      unfold Schedule.leaveCallback
      split
      · exact .unarmed Phase.noConfusion
      · exact .kept rfl rfl rfl rfl

end

/-! ## Events that are tracked -/

namespace Schedule

def Tracked (H : Host σ) (p start : Nat) (s : Schedule σ) : Prop :=
  s.phase = .armed → ∃ event, H.armed s.source = some event ∧
    Shows p s.eventAt ((event : Int) - start)

variable {s s' : Schedule σ}

theorem Chunks.tracked {remaining : Nat} (h : Chunks H p start latency fit remaining s s')
    (idle : s.phase ≠ .armed) : s'.Tracked H p start := by
  cases h with
  | none => exact fun armed => absurd armed idle
  | armed event shown =>
      refine fun _ => ⟨_, event, ?_⟩
      rw [Int.natCast_add]
      exact shown
  | missed => exact fun armed => absurd armed idle

variable (timed : H.Timed p start latency fit)

include timed

theorem Plans.tracked {delay : UInt32} (h : Plans H.source delay s s') (fits : fit s.source) :
    s'.Tracked H p start := by
  have unarmed := supersede_unarmed H.source s
  cases h with
  | due => exact fun armed => absurd armed unarmed
  | @ahead native carry remaining anchor elapsed s' _ _ _ _ arms =>
      have chunks := Arms.chunks (s := s.moved H.source carry anchor) arms timed
        (fit_supersede timed fits)
      exact chunks.tracked unarmed

theorem Serves.tracked {due : Bool} (h : Serves H.source s due s') (fits : fit s.source) :
    s'.Tracked H p start := by
  cases h with
  | spurious unarmed => exact fun armed => absurd armed unarmed
  | last => exact nofun
  | passed => exact nofun
  | onward _ _ _ _ _ arms =>
      have fits' : fit (s.spent H.source).source := spent_source timed s ▸ timed.disarm fits
      exact (arms.chunks timed fits').tracked Phase.noConfusion

theorem Tracked.moved {deed : Deed σ κ} (tracked : s.Tracked H p start) (fits : fit s.source)
    (moves : H.Moves s deed s') : s'.Tracked H p start := by
  cases moves with
  | unarmed idle => exact fun armed => absurd armed idle
  | kept phase event eventAt =>
      intro armed
      rw [event, eventAt]
      exact tracked (phase ▸ armed)
  | plan h => exact h.tracked timed fits
  | planDue h =>
      have planned := h.tracked timed fits
      exact planned
  | serve h => exact (serves_of_serve _ h).tracked timed fits

end Schedule

theorem Host.Runs.tracked {m m' : Moment σ κ} {history : List (Entry σ κ)}
    (timed : H.Timed p start latency fit) (runs : H.Runs m history m')
    (sound : m.schedule.Sound H fit) (tracked : m.schedule.Tracked H p start) :
    m'.schedule.Tracked H p start := by
  induction runs with
  | start => exact tracked
  | step past h ih => exact ih.moved timed (past.sound timed sound).source (h.moves timed)

end

/-! ## An event that is served near its time -/

variable {κ : Type} {rate : Rate} {top : UInt32} {target : Nat}

namespace Schedule

structure Leads (top : UInt32) (target : Nat) (s : Schedule Clock) : Prop where
  small : s.owed.toNat < 0x4000000000000000
  event : ∃ event, s.source.armed = some event ∧ Shows (top.toNat + 1) s.eventAt event ∧
    event + s.owed.toNat = target

/-- It is less than half a period before the event, or at most half a period after it. -/
def Near (top : UInt32) (event : Nat) (s : Schedule Clock) : Prop :=
  -((top.toNat + 1 : Nat) : Int) < 2 * ((s.source.time : Int) - event) ∧
    2 * ((s.source.time : Int) - event) ≤ (top.toNat + 1 : Nat)

structure Resumed (top : UInt32) (target : Nat) (s s' : Schedule Clock) : Prop where
  armed : s'.phase = .armed
  clear : s'.due = false
  time : s'.source.time = s.source.time
  event : s'.source.armed = some (s.source.time + chunk top (target - s.source.time))
  leads : s'.Leads top target

private theorem armChunk_resumes (rate : Rate) (two : 2 ≤ top.toNat + 1) {s : Schedule Clock}
    (clear : s.due = false) (before : s.source.time < target)
    (soon : target - s.source.time < 0x4000000000000000 + (top.toNat + 1) / 2) :
    ∃ s', s.armChunk (tickSource rate top 0) (readingAt (top.toNat + 1) s.source.time)
        (Word.ofSigned ((target : Int) - s.source.time)) = .ok s' ∧ Resumed top target s s' := by
  have top_lt := toNat_top_lt top
  have gap := Word.toNat_ofSigned (z := (target : Int) - s.source.time) (by omega) (by omega)
  have whole : (Word.ofSigned ((target : Int) - s.source.time)).toNat = target - s.source.time := by
    omega
  generalize Word.ofSigned ((target : Int) - s.source.time) = remaining at whole ⊢
  have size : chunk top remaining.toNat = min remaining.toNat ((top.toNat + 1) / 2) := rfl
  have owed := Word.toNat_ofNat (n := remaining.toNat - chunk top remaining.toNat) (by omega)
  refine ⟨_, armChunk_on_clock rate 0 (by omega) remaining (by omega), ?_⟩
  rw [if_neg (by omega)]
  refine ⟨rfl, clear, rfl, ?_, ?_, _, rfl, ?_, ?_⟩
  · rw [← whole]
  · dsimp only
    omega
  · exact shows_readingAt top _
  · dsimp only
    omega

inductive ServedNear (top : UInt32) (target : Nat) (s : Schedule Clock) :
    Except Fault (Bool × Schedule Clock) → Prop where
  | reached {s' : Schedule Clock} (here : s.owed.toNat = 0 ∨ target ≤ s.source.time)
      (idle : s'.phase = .idle) : ServedNear top target s (.ok (true, s'))
  | onward {s' : Schedule Clock} (part : 0 < s.owed.toNat) (before : s.source.time < target)
      (resumed : Resumed top target s s') : ServedNear top target s (.ok (false, s'))

theorem Leads.serve (rate : Rate) {s : Schedule Clock} (leads : s.Leads top target)
    (two : 2 ≤ top.toNat + 1) (armed : s.phase = .armed) (clear : s.due = false)
    (near : ∀ event, s.source.armed = some event → s.Near top event) :
    ServedNear top target s (s.serve (tickSource rate top 0)) := by
  have top_lt := toNat_top_lt top
  obtain ⟨small, event, comes, shown, rfl⟩ := leads
  obtain ⟨lo, hi⟩ := near event comes
  obtain ⟨s₁, -, -, phase, due, -, time, served⟩ :=
    serve_on_clock rate 0 armed shown lo hi (by omega) (by omega)
  rw [served]
  by_cases here : s.owed = 0 ∨ (event : Int) + s.owed.toNat ≤ s.source.time
  · rw [if_pos here]
    refine .reached ?_ phase
    rcases here with whole | gone
    · exact .inl (UInt64.toNat_inj.mpr whole)
    · exact .inr (by omega)
  · rw [if_neg here]
    obtain ⟨part, ahead⟩ := not_or.mp here
    have more : 0 < s.owed.toNat := Nat.pos_of_ne_zero fun none => part (UInt64.toNat_inj.mp none)
    have before : s₁.source.time < event + s.owed.toNat := by omega
    obtain ⟨s', again, resumed⟩ := armChunk_resumes rate two (due.trans clear) before (by omega)
    rw [Int.natCast_add] at again
    have early : s'.takeDue = (false, s'.takeDue.2) := by
      rw [← resumed.clear]
      rfl
    simp only [again, bind, Except.bind, pure, Except.pure]
    rw [early]
    refine .onward more (time ▸ before) ⟨resumed.armed, rfl, resumed.time.trans time, ?_, ?_⟩
    · rw [← time]
      exact resumed.event
    · exact ⟨resumed.leads.small, resumed.leads.event⟩

end Schedule

/-! ## Runs towards one target -/

/-- No slot is planned, and events are served near their times. -/
def Entry.Near (top : UInt32) (e : Entry Clock κ) : Prop :=
  match e.deed with
  | .act (.plan _) => False
  | .serve => ∀ event, e.before.schedule.source.armed = some event →
      e.before.schedule.Near top event
  | _ => True

open Schedule in
theorem Schedule.Leads.moved {m : Moment Clock κ} {deed : Deed Clock κ} {s' : Schedule Clock}
    (leads : m.schedule.phase = .armed → m.schedule.Leads top target) (two : 2 ≤ top.toNat + 1)
    (moves : (Clock.host rate top 0).Moves m.schedule deed s')
    (near : (Entry.mk m deed).Near top)
    (clear : deed = .serve → m.schedule.due = false) :
    s'.phase = .armed → s'.Leads top target := by
  cases moves with
  | unarmed idle => exact fun armed => absurd armed idle
  | kept phase event eventAt owed =>
      intro armed
      obtain ⟨small, held⟩ := leads (phase ▸ armed)
      constructor
      · rw [owed]
        exact small
      · rw [show s'.source.armed = m.schedule.source.armed from event, eventAt, owed]
        exact held
  | plan => cases near
  | planDue => cases near
  | serve h =>
      intro armed
      by_cases before : m.schedule.phase = .armed
      · have served := (leads before).serve rate two before (clear rfl) near
        rw [show m.schedule.serve (tickSource rate top 0) = _ from h] at served
        cases served with
        | reached _ idle => exact absurd armed (idle ▸ Phase.noConfusion)
        | onward _ _ resumed => exact resumed.leads
      · obtain ⟨-, rfl⟩ := (serves_of_serve _ h).eq_of_unarmed before
        exact absurd armed before

theorem Host.Runs.leads {m m' : Moment Clock κ} {history : List (Entry Clock κ)}
    (runs : (Clock.host rate top 0).Runs m history m') (two : 2 ≤ top.toNat + 1)
    (orderly : m.Orderly) (near : ∀ e ∈ history, e.Near top)
    (leads : m.schedule.phase = .armed → m.schedule.Leads top target) :
    m'.schedule.phase = .armed → m'.schedule.Leads top target := by
  have timed := Clock.host_timed rate two (Nat.zero_le ((top.toNat + 1) / 2))
  induction runs with
  | start => exact leads
  | @step history m₁ m₂ deed past h ih =>
      have earlier := ih fun e mem => near e (List.mem_append_left _ mem)
      refine Schedule.Leads.moved earlier two (h.moves timed) (near ⟨m₁, deed⟩ (by simp)) ?_
      rintro rfl
      have orderly₁ := past.runs.orderly orderly
      cases h.step with
      | serve => exact orderly₁.2.1

theorem Host.Runs.tended {σ : Type} {H : Host σ} {m m' : Moment σ κ} {history : List (Entry σ κ)}
    (runs : H.Runs m history m') : ∀ e ∈ history, e.deed.Tended Total := by
  induction runs with
  | start => simp
  | @step history m₁ m₂ deed past h ih =>
      intro e mem
      rcases List.mem_append.mp mem with mem | mem
      · exact ih e mem
      · cases List.mem_singleton.mp mem
        have own := h.own
        cases deed with
        | act a =>
            cases a with
            | environment effect =>
                obtain ⟨e, rfl⟩ := own
                exact fun x => ⟨_, rfl⟩
            | _ => trivial
        | _ => trivial

theorem Clock.guarded (rate : Rate) (top : UInt32) (latency : Nat) :
    (tickSource rate top latency).Guarded Total (fun _ _ => True) fun _ => 0 := by
  have returns : (channel rate top latency).Returns :=
    ⟨fun _ _ => ⟨_, rfl⟩, fun _ _ => ⟨_, rfl⟩⟩
  exact (CompareChannel.reliable returns).guarded_of_full (CompareChannel.full _)
    fun _ total => total

theorem Host.Runs.contained {x : Clock} {m : Moment Clock κ} {history : List (Entry Clock κ)}
    (runs : (Clock.host rate top 0).Runs (.rest (.ofSource x)) history m) :
    m.schedule.Contained (tickSource rate top 0) (fun _ _ => True) 0 := by
  have new : (Moment.rest (.ofSource x) : Moment Clock κ).IsNew := ⟨x, rfl⟩
  have contained := runs.runs.contained (Clock.guarded rate top 0) runs.tended new.contained
  rwa [strays_eq_zero] at contained

theorem Host.Runs.leads_of_armed {x : Clock} {m : Moment Clock κ} {history : List (Entry Clock κ)}
    (runs : (Clock.host rate top 0).Runs (.rest (.ofSource x)) history m)
    (two : 2 ≤ top.toNat + 1) (armed : m.schedule.phase = .armed) :
    ∃ event, m.schedule.source.armed = some event ∧
      m.schedule.Leads top (event + m.schedule.owed.toNat) := by
  have timed := Clock.host_timed rate two (Nat.zero_le ((top.toNat + 1) / 2))
  have owed := runs.contained.owed
  obtain ⟨event, comes, shown⟩ := runs.tracked timed ⟨trivial, Ratio.den_pos _ _⟩
    (fun armed => nomatch armed) armed
  rw [Int.natCast_zero, Int.sub_zero] at shown
  exact ⟨event, comes, by omega, event, comes, shown, rfl⟩

/-! ## Interrupts -/

theorem Timer.interrupt_near (rate : Rate) {t : Timer Clock κ} {c : Callback Clock κ}
    (leads : t.schedule.Leads top target) (two : 2 ≤ top.toNat + 1)
    (armed : t.schedule.phase = .armed) (clear : t.schedule.due = false)
    (set : t.callback = some c) (part : 0 < t.schedule.owed.toNat)
    (near : ∀ event, t.schedule.source.armed = some event → t.schedule.Near top event) :
    let S := tickSource rate top 0
    let now := t.schedule.source.time
    (target ≤ now → ∃ s, t.schedule.serve S = .ok (true, s) ∧
      ∀ fuel, t.interrupt S fuel =
        (runCallback S fuel c s).map fun after => (.wanted, ⟨after.2, some after.1⟩)) ∧
    (now < target → ∃ s,
      (∀ fuel, t.interrupt S fuel = .ok (.unwanted, { t with schedule := s })) ∧
      s.phase = .armed ∧ s.source.time = now ∧
      s.source.armed = some (now + min (target - now) ((top.toNat + 1) / 2)) ∧
      now + min (target - now) ((top.toNat + 1) / 2) + s.owed.toNat = target) := by
  intro S now
  have served := leads.serve rate two armed clear near
  generalize outcome : t.schedule.serve (tickSource rate top 0) = result at served
  cases served with
  | @reached s here idle =>
      have gone : target ≤ now := here.resolve_left (Nat.ne_of_gt part)
      refine ⟨fun _ => ⟨s, rfl, interrupt_eq_run set outcome⟩, fun before => ?_⟩
      exact absurd gone (Nat.not_le_of_lt before)
  | @onward s _ before resumed =>
      refine ⟨fun gone => absurd gone (Nat.not_le_of_lt before), fun _ => ?_⟩
      obtain ⟨again, -, time, next, -, event, comes, -, adds⟩ := resumed
      cases next.symm.trans comes
      exact ⟨s, interrupt_eq_rest outcome, again, time, next, adds⟩

/-! ## The events that a slot takes -/

namespace Schedule

/-- The delays of the events from here to the slot, if each of them is served when it comes. -/
inductive Delays (S : Source Clock) : Schedule Clock → List Nat → Prop where
  | last {s s' : Schedule Clock} {delay : Nat}
      (armed : s.source.armed = some (s.source.time + delay))
      (served : Schedule.serve S { s with source.time := s.source.time + delay } = .ok (true, s')) :
      Delays S s [delay]
  | more {s s' : Schedule Clock} {delay : Nat} {later : List Nat}
      (armed : s.source.armed = some (s.source.time + delay))
      (served : Schedule.serve S { s with source.time := s.source.time + delay } = .ok (false, s'))
      (rest : Delays S s' later) : Delays S s (delay :: later)

theorem Delays.unique {S : Source Clock} {s : Schedule Clock} {first second : List Nat}
    (h : s.Delays S first) (h' : s.Delays S second) : first = second := by
  have same {s : Schedule Clock} {d d' : Nat} (armed : s.source.armed = some (s.source.time + d))
      (armed' : s.source.armed = some (s.source.time + d')) : d = d' :=
    Nat.add_left_cancel (Option.some.inj (armed.symm.trans armed'))
  induction h generalizing second with
  | last armed served =>
      cases h' with
      | last armed' => rw [same armed armed']
      | more armed' served' =>
          cases same armed armed'
          cases served.symm.trans served'
  | more armed served rest ih =>
      cases h' with
      | last armed' served' =>
          cases same armed armed'
          cases served.symm.trans served'
      | more armed' served' rest' =>
          cases same armed armed'
          cases served.symm.trans served'
          rw [ih rest']

theorem Resumed.comes (rate : Rate) (two : 2 ≤ top.toNat + 1) {s₀ s : Schedule Clock} {ticks : Nat}
    (resumed : Resumed top target s₀ s) (ahead : s₀.source.time + ticks = target) :
    s.source.armed = some (s.source.time + chunk top ticks) ∧
      s.source.time + chunk top ticks + s.owed.toNat = target ∧
      ServedNear top target { s with source.time := s.source.time + chunk top ticks }
        (Schedule.serve (tickSource rate top 0)
          { s with source.time := s.source.time + chunk top ticks }) := by
  obtain ⟨armed, clear, time, event, leads⟩ := resumed
  rw [show target - s₀.source.time = ticks by omega, ← time] at event
  obtain ⟨event', comes, -, adds⟩ := leads.event
  obtain rfl : event' = s.source.time + chunk top ticks :=
    Option.some.inj (comes.symm.trans event)
  let now : Schedule Clock := { s with source.time := s.source.time + chunk top ticks }
  have onward : now.Leads top target := ⟨leads.small, leads.event⟩
  refine ⟨event, adds, onward.serve rate two armed clear fun event' comes' => ?_⟩
  obtain rfl : event' = now.source.time := Option.some.inj (comes'.symm.trans event)
  constructor <;> omega

theorem Resumed.delays (rate : Rate) (two : 2 ≤ top.toNat + 1) {s₀ s : Schedule Clock} {ticks : Nat}
    (resumed : Resumed top target s₀ s) (ahead : s₀.source.time + ticks = target)
    (pos : 0 < ticks) :
    ∃ delays, s.Delays (tickSource rate top 0) delays ∧
      delays.length = (ticks + (top.toNat + 1) / 2 - 1) / ((top.toNat + 1) / 2) ∧
      delays.sum = ticks := by
  induction ticks using Nat.strongRecOn generalizing s₀ s with
  | ind ticks ih =>
      have half : 0 < (top.toNat + 1) / 2 := by omega
      have size : chunk top ticks = min ticks ((top.toNat + 1) / 2) := rfl
      have time := resumed.time
      obtain ⟨event, adds, served⟩ := resumed.comes rate two ahead
      generalize outcome : Schedule.serve (tickSource rate top 0) _ = result at served
      cases served with
      | reached here =>
          have whole : chunk top ticks = ticks := by
            rcases here with none | gone
            · change s.owed.toNat = 0 at none
              omega
            · change target ≤ s.source.time + chunk top ticks at gone
              omega
          refine ⟨[chunk top ticks], .last event outcome, ?_, ?_⟩
          · rw [List.length_singleton, Nat.div_eq_of_lt_le] <;> omega
          · rw [List.sum_singleton, whole]
      | onward part before again =>
          change s.source.time + chunk top ticks < target at before
          obtain ⟨delays, follow, length, sum⟩ := ih (ticks - (top.toNat + 1) / 2) (by omega) again
            (by change s.source.time + chunk top ticks + _ = target; omega) (by omega)
          refine ⟨_ :: delays, .more event outcome follow, ?_, ?_⟩
          · rw [List.length_cons, length, ← Nat.add_div_right _ half]
            congr 1
            omega
          · rw [List.sum_cons, sum]
            omega

/--
A slot of at least one tick is `ticks` away: its delay, less the signed distance from
the anchor to the current reading.
-/
inductive Ahead (rate : Rate) (top : UInt32) (s : Schedule Clock) (delay : UInt32) :
    (ticks : Nat) → Prop where
  | mk {elapsed : Int} {span carry : UInt64} {ticks : Nat}
      (converted : (ratio (tickSource rate top 0)).nativeOfDelay s.carry delay = .ok (span, carry))
      (passed : distance (channel rate top 0).period s.anchor
        (readingAt (top.toNat + 1) s.source.time) = .ok elapsed)
      (pos : 0 < span.toNat) (future : 0 < ticks)
      (left : (span.toNat : Int) - elapsed = ticks) : Ahead rate top s delay ticks

theorem Ahead.plan {s : Schedule Clock} {delay : UInt32} {ticks : Nat}
    (ahead : s.Ahead rate top delay ticks) (two : 2 ≤ top.toNat + 1)
    (carry : s.carry.toNat < (ratio (tickSource rate top 0)).den.toNat) :
    ∃ s', s.plan (tickSource rate top 0) delay = .ok s' ∧ s'.phase = .armed ∧
      ∃ delays, s'.Delays (tickSource rate top 0) delays ∧
        delays.length = (ticks + (top.toNat + 1) / 2 - 1) / ((top.toNat + 1) / 2) ∧
        delays.sum = ticks := by
  cases ahead with
  | @mk elapsed span _ _ converted passed pos future left =>
      obtain ⟨exact, -⟩ := Ratio.of_nativeOfDelay _ _ carry converted
      have top_lt := toNat_top_lt top
      have small := exact ▸ Ratio.ticks_lt rate carry delay
      obtain ⟨lo, hi, shown⟩ := shows_of_distance rate 0 passed
      obtain ⟨s₁, -, -, -, clear, -, time, planned⟩ :=
        plan_on_clock rate 0 delay carry exact.symm shown (by omega) (by omega)
      have deadline : (s.source.time : Int) - elapsed + span.toNat =
          (s.source.time + ticks : Nat) := by omega
      rw [planned, if_neg (by omega), deadline, ← time]
      have before : s₁.source.time < s₁.source.time + ticks := by omega
      obtain ⟨s', armed, resumed⟩ := armChunk_resumes rate two clear before (by omega)
      exact ⟨s', armed, resumed.armed, resumed.delays rate two rfl future⟩

end Schedule

/-! ## Every run -/

/--
An interrupt near an armed event that something is owed after runs the callback exactly
if the target has come; if not, the next chunk is armed from the current reading.  As
long as no other slot is planned, every armed event leads to the same target, so the
last one is armed for it.  A slot of at least one tick that lies `ticks` ahead takes one
event for each half period that begins in them, and their delays add up to `ticks`.
-/
theorem chunks_lead_to_target (rate : Rate) {top : UInt32} (two : 2 ≤ top.toNat + 1) {x : Clock}
    {m : Moment Clock κ} {history : List (Entry Clock κ)}
    (runs : (Clock.host rate top 0).Runs (.rest (.ofSource x)) history m) :
    let S := tickSource rate top 0
    let half := (top.toNat + 1) / 2
    (∀ t, m = .rest t → t.schedule.phase = .armed → 0 < t.schedule.owed.toNat →
      ∃ event c, t.schedule.source.armed = some event ∧ t.callback = some c ∧
        (t.schedule.Near top event →
          let now := t.schedule.source.time
          let target := event + t.schedule.owed.toNat
          (target ≤ now → ∃ s, t.schedule.serve S = .ok (true, s) ∧
            ∀ fuel, t.interrupt S fuel =
              (Timer.runCallback S fuel c s).map fun after => (.wanted, ⟨after.2, some after.1⟩)) ∧
          (now < target → ∃ s,
            (∀ fuel, t.interrupt S fuel = .ok (.unwanted, { t with schedule := s })) ∧
            s.phase = .armed ∧ s.source.time = now ∧
            s.source.armed = some (now + min (target - now) half) ∧
            now + min (target - now) half + s.owed.toNat = target))) ∧
    (m.schedule.phase = .armed → ∃ event, m.schedule.source.armed = some event ∧
      ∀ later m', (Clock.host rate top 0).Runs m later m' → (∀ e ∈ later, e.Near top) →
        m'.schedule.phase = .armed → ∃ event', m'.schedule.source.armed = some event' ∧
          event' + m'.schedule.owed.toNat = event + m.schedule.owed.toNat) ∧
    (∀ delay ticks, m.schedule.Ahead rate top delay ticks →
      ∃ s, m.schedule.plan S delay = .ok s ∧ s.phase = .armed ∧ (∃ delays, s.Delays S delays) ∧
        ∀ delays, s.Delays S delays →
          delays.length = (ticks + half - 1) / half ∧ delays.sum = ticks) := by
  intro S half
  have new : (Moment.rest (.ofSource x) : Moment Clock κ).IsNew := ⟨x, rfl⟩
  have orderly := runs.runs.orderly new.orderly
  refine ⟨?_, ?_, ?_⟩
  · rintro t rfl armed part
    obtain ⟨-, clear, set⟩ := orderly
    obtain ⟨c, callback⟩ := Option.isSome_iff_exists.mp (set armed)
    obtain ⟨event, comes, leads⟩ := runs.leads_of_armed two armed
    refine ⟨event, c, comes, callback, fun near => ?_⟩
    apply Timer.interrupt_near rate leads two armed clear callback part
    intro event' comes'
    cases comes.symm.trans comes'
    exact near
  · intro armed
    obtain ⟨event, comes, leads⟩ := runs.leads_of_armed two armed
    refine ⟨event, comes, fun later m' onward near armed' => ?_⟩
    obtain ⟨-, event', comes', -, adds⟩ := onward.leads two orderly near (fun _ => leads) armed'
    exact ⟨event', comes', adds⟩
  · intro delay ticks ahead
    obtain ⟨s, planned, armed, delays, follow, counted⟩ := ahead.plan two runs.contained.carry
    refine ⟨s, planned, armed, ⟨delays, follow⟩, fun delays' follow' => ?_⟩
    rw [follow'.unique follow]
    exact counted

namespace Sample.Chunked

def host : Host Clock := Clock.host .reference 0xFF 0

def ahead : Schedule Clock :=
  { source := ⟨10, 138, some 138⟩, anchor := 44, phase := .armed, eventAt := 138, owed := 162 }

def waiting : Schedule Clock := { ahead with source.time := 200 }

def history : List (Entry Clock Unit) :=
  [⟨.rest ⟨idle, none⟩, .setCallback callback⟩, ⟨.rest ⟨idle, some callback⟩, .act (.plan 300)⟩,
    ⟨.rest ⟨ahead, some callback⟩, .act (.environment fun c => .ok (host.effect (.pass 190) c))⟩]

theorem runs :
    host.Runs (.rest (.ofSource ⟨10, 0, none⟩)) history (.rest ⟨waiting, some callback⟩) := by
  have set : host.Step (.rest ⟨idle, none⟩) (.setCallback callback)
      (.rest ⟨idle, some callback⟩) := ⟨.setCallback _ _, trivial, rfl⟩
  have plan : host.Step (.rest ⟨idle, some callback⟩) (.act (.plan 300))
      (.settle callback ahead) := ⟨.plan rfl rfl, trivial, rfl⟩
  have pass : host.Step (.rest ⟨ahead, some callback⟩)
      (.act (.environment fun c => .ok (host.effect (.pass 190) c)))
      (.rest ⟨waiting, some callback⟩) := ⟨.environment rfl, ⟨_, rfl⟩, rfl⟩
  exact (Host.Runs.single set).trans ((Host.Runs.single plan).trans (.single pass))

end Sample.Chunked

open Sample.Chunked in
/-- Served 62 ticks late, the event is followed by one at 300; a slot at 600 would take four. -/
theorem chunks_lead_to_target_sample :
    waiting.Near 0xFF 138 ∧
      (∃ s, Timer.interrupt host.source 0 ⟨waiting, some Sample.callback⟩ =
          .ok (.unwanted, ⟨s, some Sample.callback⟩) ∧
        s.source.armed = some 300 ∧ 300 + s.owed.toNat = 300) ∧
      ∃ s, waiting.plan host.source 300 = .ok s ∧
        ∀ delays, s.Delays host.source delays → delays.length = 4 ∧ delays.sum = 400 := by
  have near : waiting.Near 0xFF 138 := ⟨by decide, by decide⟩
  have passed : distance (channel .reference 0xFF 0).period waiting.anchor
      (readingAt 256 waiting.source.time) = .ok (-100) := rfl
  have slot : waiting.Ahead .reference 0xFF 300 400 :=
    .mk rfl passed (by decide) (by decide) rfl
  obtain ⟨interrupted, -, planned⟩ := chunks_lead_to_target .reference (by decide) runs
  obtain ⟨event, c, comes, set, serves⟩ := interrupted _ rfl rfl (by decide)
  cases comes
  obtain ⟨s, rests, -, -, again, adds⟩ := (serves near).2 (by decide)
  obtain ⟨s', plan, -, -, counted⟩ := planned 300 400 slot
  exact ⟨near, ⟨s, rests 0, again, adds⟩, s', plan, counted⟩

/-! ## Slots that take no event -/

namespace Sample.Chunked

def single : Schedule Clock :=
  { source := ⟨0, 100, some 100⟩, anchor := 100, phase := .armed, eventAt := 100 }

def distant : Schedule Clock :=
  { source := ⟨0, 128, some 128⟩, anchor := 200, phase := .armed, eventAt := 128, owed := 72 }

private theorem no_delays {s : Schedule Clock} (none : s.source.armed = none) (delays : List Nat) :
    ¬ s.Delays host.source delays := by
  intro follow
  cases follow with
  | last armed => cases none.symm.trans armed
  | more armed => cases none.symm.trans armed

private theorem runs_of_plan (delay : UInt32) (s : Schedule Clock)
    (planned : Schedule.plan host.source delay { source := { time := 0 } } = .ok s)
    (clear : s.due = false) :
    ∃ history, host.Runs (.rest (.ofSource { time := 0 })) history
      (.rest ⟨s.takeDue.2, some callback⟩) := by
  have set : host.Step (.rest (.ofSource { time := 0 })) (.setCallback callback)
      (.rest ⟨{ source := { time := 0 } }, some callback⟩) := ⟨.setCallback _ _, trivial, rfl⟩
  have plan : host.Step (.rest ⟨{ source := { time := 0 } }, some callback⟩) (.act (.plan delay))
      (.settle callback s) := ⟨.plan rfl planned, trivial, rfl⟩
  rw [Moment.settle_of_clear callback (by simp [clear])] at plan
  exact ⟨_, (Host.Runs.single set).trans (.single plan)⟩

end Sample.Chunked

open Sample Sample.Chunked in
/--
A slot that is planned without a delay is due at once, although its anchor lies 100 ticks
ahead.  So is a slot 240 ticks ahead, if its anchor is more than half a period ahead, which
counts as a lag.  Neither takes an event.
-/
theorem slots_ahead_without_events :
    (∃ history s,
      host.Runs (.rest (.ofSource { time := 0 })) history (.rest ⟨single, some callback⟩) ∧
      single.plan host.source 0 = .ok s ∧ Shows 256 s.anchor 100 ∧ s.source.time = 0 ∧
      s.due = true ∧ s.source.armed = none ∧ ∀ delays, ¬ s.Delays host.source delays) ∧
    ∃ history s,
      host.Runs (.rest (.ofSource { time := 0 })) history (.rest ⟨distant, some callback⟩) ∧
      distant.plan host.source 40 = .ok s ∧ Shows 256 s.anchor 240 ∧ s.source.time = 0 ∧
      s.due = true ∧ s.source.armed = none ∧ ∀ delays, ¬ s.Delays host.source delays := by
  obtain ⟨near, runs⟩ := runs_of_plan 100 single rfl rfl
  obtain ⟨far, runs'⟩ := runs_of_plan 200 distant rfl rfl
  exact ⟨⟨near, _, runs, rfl, rfl, rfl, rfl, rfl, no_delays rfl⟩,
    far, _, runs', rfl, rfl, rfl, rfl, rfl, no_delays rfl⟩

end SlotClock
