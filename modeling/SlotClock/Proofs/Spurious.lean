import SlotClock.Bench.Board
import SlotClock.Proofs.Indistinct
import SlotClock.Proofs.Kick

/-!
# Spurious interrupts

An interrupt that comes while nothing is armed is acknowledged and disarmed before the
schedule looks at its phase.  A driver that keeps account of a running interval would
count it here, so it matters that no interval is left running: whenever nothing is
armed, the source has been disarmed since.  Then the interrupt changes nothing but the
registers, and nothing at all that could be seen of them.

## Nothing is left armed
-/

namespace SlotClock

variable {σ ρ κ α β : Type} {S : Source σ}

/-- A source that has been disarmed is quiet. -/
def Source.Settles (S : Source σ) (quiet : σ → Prop) : Prop :=
  ∀ x, quiet (S.disarm x)

/-- Nobody but the timer arms an event of its source. -/
def KeepsQuiet (quiet : σ → Prop) (effect : σ → Except Fault σ) : Prop :=
  ∀ x y, quiet x → effect x = .ok y → quiet y

variable {quiet : σ → Prop}

namespace Schedule

def Settled (quiet : σ → Prop) (s : Schedule σ) : Prop :=
  s.phase ≠ .armed → quiet s.source

variable {s s' : Schedule σ}

theorem Settled.takeDue (settled : s.Settled quiet) : s.takeDue.2.Settled quiet := settled

private theorem quiet_supersede (settles : S.Settles quiet) (settled : s.Settled quiet) :
    quiet (s.supersede S).source := by
  unfold supersede
  split
  next => exact settles _
  next unarmed => exact settled unarmed

theorem Arms.settled (settles : S.Settles quiet) {base : UInt32} {remaining : UInt64}
    (h : Arms S base remaining s s') (before : quiet s.source) : s'.Settled quiet := by
  cases h with
  | short => exact fun _ => before
  | armed => exact fun unarmed => absurd rfl unarmed
  | missed => exact fun _ => settles _

theorem Plans.settled (settles : S.Settles quiet) {delay : UInt32} (h : Plans S delay s s')
    (settled : s.Settled quiet) : s'.Settled quiet := by
  have before := quiet_supersede settles settled
  cases h with
  | due => exact fun _ => before
  | ahead _ _ _ _ arms => exact arms.settled settles before

theorem Serves.settled (settles : S.Settles quiet) {due : Bool} (h : Serves S s due s') :
    s'.Settled quiet := by
  have spent : quiet (s.spent S).source := settles _
  cases h with
  | spurious => exact fun _ => settles _
  | last => exact fun _ => spent
  | passed => exact fun _ => spent
  | onward _ _ _ _ _ arms => exact (arms.settled settles spent).takeDue

theorem settled_kept (settles : S.Settles quiet) :
    Kept S (fun _ => True) (fun tended a => tended ∧ a.Tended (KeepsQuiet quiet))
      (fun tended s => tended → s.Settled quiet) where
  apply {tended a s s'} _ kept h := by
    rintro ⟨earlier, now⟩
    cases a with
    | plan delay => exact (plans_of_plan S h).settled settles (kept earlier)
    | cancel =>
        cases h
        exact fun _ => settles _
    | reset =>
        cases h
        exact fun _ => settles _
    | clear =>
        cases h
        exact fun _ => settles _
    | environment effect =>
        obtain ⟨x, effected, done⟩ := parts_of_bind h
        cases done
        exact fun unarmed => now _ _ (kept earlier unarmed) effected
  serve _ _ h _ := (serves_of_serve S h).settled settles
  takeDue kept tended := (kept tended).takeDue
  enter idle kept tended _ := kept tended (idle ▸ Phase.noConfusion)
  leave {_ s} kept tended := by
    unfold leaveCallback
    split
    next running => exact fun _ => kept tended (running ▸ Phase.noConfusion)
    next => exact kept tended

end Schedule

theorem Runs.settled (settles : S.Settles quiet) {m₀ m : Moment σ κ}
    {history : List (Entry σ κ)} (runs : Runs S m₀ history m) (new : m₀.IsNew)
    (start : quiet m₀.schedule.source)
    (tended : ∀ e ∈ history, e.deed.Tended (KeepsQuiet quiet)) : m.schedule.Settled quiet :=
  (Schedule.settled_kept (S := S) settles).runs (i := True) runs new.orderly (fun _ _ => trivial)
    (fun _ _ => start) (moveOn_of_forall trivial fun e mem _ act => by
      have deed := tended e mem
      rwa [act] at deed)

/-! ## Interrupts put in between -/

def Moment.calm : Moment σ κ → Bool
  | rest t => t.schedule.phase ≠ .armed
  | _ => false

private theorem Moment.unarmed_of_calm {m : Moment σ κ} (calm : m.calm = true) :
    m.schedule.phase ≠ .armed := by
  cases m with
  | rest t => exact of_decide_eq_true calm
  | _ => cases calm

/--
The same deeds at moments that are alike.  Before the deed numbered `i`, if nothing is
armed then, interrupts are put in, as many as `pads i` says.
-/
inductive Padded (like : σ → σ → Prop) (pads : Nat → Nat) :
    List (Entry σ κ) → List (Entry σ κ) → Prop where
  | nil : Padded like pads [] []
  | concat {history padded spurious : List (Entry σ κ)} {m n : Moment σ κ} {deed : Deed σ κ}
      (earlier : Padded like pads history padded) (alike : m.Alike like n)
      (number : spurious.length = if m.calm then pads history.length else 0)
      (serves : ∀ e ∈ spurious, e.deed = .serve ∧ m.Alike like e.before) :
      Padded like pads (history ++ [⟨m, deed⟩]) (padded ++ spurious ++ [⟨n, deed⟩])

/-- What the callback saw of the source at the beginning of each of its runs. -/
def runViews (view : σ → β) (history : List (Entry σ κ)) : List β :=
  history.filterMap fun e => if e.deed.enters then some (view e.before.schedule.source) else none

theorem Padded.runViews_eq {like : σ → σ → Prop} {pads : Nat → Nat} {view : σ → β}
    (respects : ∀ x y, like x y → view x = view y) {history padded : List (Entry σ κ)}
    (h : Padded like pads history padded) : runViews view padded = runViews view history := by
  induction h with
  | nil => rfl
  | @concat history padded spurious m n deed _ alike _ serves ih =>
      have none : runViews view spurious = [] := by
        apply List.filterMap_eq_nil_iff.mpr
        intro e mem
        rw [(serves e mem).1]
        rfl
      have same := respects _ _ alike.schedule.source
      simp only [runViews] at ih none ⊢
      simp only [List.filterMap_append, ih, none, List.append_nil, List.filterMap_cons,
        List.filterMap_nil, same]

structure Source.Hides (S : Source σ) (quiet : σ → Prop) (like : σ → σ → Prop) : Prop where
  simulates : S.Simulates S (fun _ _ => True) like
  spurious {x y : σ} : like x y → quiet x → like x (S.disarm (S.acknowledge y))

section

variable {like : σ → σ → Prop} (hides : S.Hides quiet like)

include hides

theorem Step.of_spurious {m n : Moment σ κ} (alike : m.Alike like n) (calm : m.calm = true)
    (still : quiet m.schedule.source) : ∃ n', Step S n .serve n' ∧ m.Alike like n' := by
  cases m with
  | rest t =>
      obtain ⟨u, rfl⟩ := alike.timer_of_rest
      have unarmed : u.schedule.phase ≠ .armed := by
        have same : t.schedule.phase = u.schedule.phase := alike.schedule.phase
        exact same ▸ Moment.unarmed_of_calm calm
      have hidden := alike.schedule.withSource (hides.spurious alike.schedule.source still)
      exact ⟨_, .serve (Schedule.serve_unarmed S unarmed), alike.withSchedule hidden⟩
  | _ => cases calm

theorem Runs.of_spurious {m n : Moment σ κ} (alike : m.Alike like n) (calm : m.calm = true)
    (still : quiet m.schedule.source) (k : Nat) :
    ∃ spurious n', Runs S n spurious n' ∧ m.Alike like n' ∧ spurious.length = k ∧
      ∀ e ∈ spurious, e.deed = .serve ∧ m.Alike like e.before := by
  induction k with
  | zero => exact ⟨[], n, .start, alike, rfl, nofun⟩
  | succ k ih =>
      obtain ⟨spurious, n₁, runs, alike₁, number, serves⟩ := ih
      obtain ⟨n₂, step, alike₂⟩ := Step.of_spurious hides alike₁ calm still
      refine ⟨_, n₂, runs.step step, alike₂, by simp [number], ?_⟩
      intro e mem
      rcases List.mem_append.mp mem with earlier | last
      · exact serves e earlier
      · cases List.mem_singleton.mp last
        exact ⟨rfl, alike₁⟩

theorem Runs.padded (settles : S.Settles quiet) {m₀ m : Moment σ κ} {history : List (Entry σ κ)}
    (runs : Runs S m₀ history m) (new : m₀.IsNew) (start : quiet m₀.schedule.source)
    (same : m₀.Alike like m₀) (tended : ∀ e ∈ history, e.deed.Tended (KeepsQuiet quiet))
    (blind : ∀ e ∈ history, e.deed.Blind like) (pads : Nat → Nat) :
    ∃ padded n, Runs S m₀ padded n ∧ Padded like pads history padded ∧ m.Alike like n := by
  induction runs with
  | start => exact ⟨[], m₀, .start, .nil, same⟩
  | @step history m₁ m₂ deed past h ih =>
      have before := fun e (mem : e ∈ history) => List.mem_append_left [⟨m₁, deed⟩] mem
      obtain ⟨padded, n, runs', inserted, alike⟩ :=
        ih (fun e mem => tended e (before e mem)) fun e mem => blind e (before e mem)
      have settled := past.settled settles new start fun e mem => tended e (before e mem)
      have spurious : ∃ spurious n', Runs S n spurious n' ∧ m₁.Alike like n' ∧
          (spurious.length = if m₁.calm then pads history.length else 0) ∧
          ∀ e ∈ spurious, e.deed = .serve ∧ m₁.Alike like e.before := by
        by_cases calm : m₁.calm
        · rw [if_pos calm]
          exact Runs.of_spurious hides alike calm (settled (Moment.unarmed_of_calm calm)) _
        · rw [if_neg calm]
          exact ⟨[], n, .start, alike, rfl, nofun⟩
      obtain ⟨spurious, n₁, between, alike₁, number, serves⟩ := spurious
      obtain ⟨n₂, step, alike₂⟩ := h.alike hides.simulates alike₁ (blind ⟨m₁, deed⟩ (by simp))
      exact ⟨_, n₂, (runs'.trans between).step step, .concat inserted alike₁ number serves, alike₂⟩

end

/-! ## Drivers -/

/-- A source on top of registers, and what it keeps besides them. -/
structure Driver (σ ρ : Type) where
  source : Source σ
  regs : σ → ρ
  withRegs : ρ → σ → σ
  withdraw : ρ → ρ
  running : σ → Option UInt64
  withRegs_regs (x : σ) : withRegs (regs x) x = x
  regs_withRegs (r : ρ) (x : σ) : regs (withRegs r x) = r
  withRegs_withRegs (r r' : ρ) (x : σ) : withRegs r (withRegs r' x) = withRegs r x
  running_withRegs (r : ρ) (x : σ) : running (withRegs r x) = running x
  regs_disarm (x : σ) : regs (source.disarm x) = withdraw (regs x)
  running_disarm (x : σ) : running (source.disarm x) = none
  disarm_of_stopped {x : σ} : running x = none → source.disarm x = withRegs (withdraw (regs x)) x
  acknowledge_of_stopped {x : σ} : running x = none → source.acknowledge x = x

namespace Driver

/-- Nothing is armed, and no interval is running. -/
def Quiet (D : Driver σ ρ) (armed : ρ → Option α) (x : σ) : Prop :=
  armed (D.regs x) = none ∧ D.running x = none

inductive Like (D : Driver σ ρ) (same : ρ → ρ → Prop) (x : σ) : σ → Prop where
  | mk {r : ρ} (h : same (D.regs x) r) : Like D same x (D.withRegs r x)

/--
Registers that are the same show the same time and the same event, and to withdraw no
event leaves them the same.
-/
structure Overlooks (D : Driver σ ρ) (armed : ρ → Option α) (time : ρ → β)
    (same : ρ → ρ → Prop) : Prop where
  refl (r : ρ) : same r r
  time_eq {r r' : ρ} : same r r' → time r = time r'
  armed_eq {r r' : ρ} : same r r' → armed r = armed r'
  withdraw {r r' : ρ} : same r r' → armed r' = none → same r (D.withdraw r')

variable {D : Driver σ ρ} {armed : ρ → Option α} {time : ρ → β} {same : ρ → ρ → Prop}

theorem settles (withdraws : ∀ r, armed (D.withdraw r) = none) :
    D.source.Settles (D.Quiet armed) :=
  fun x => ⟨D.regs_disarm x ▸ withdraws _, D.running_disarm x⟩

theorem Quiet.disarm_acknowledge {x : σ} (quiet : D.Quiet armed x) :
    D.source.disarm (D.source.acknowledge x) = D.withRegs (D.withdraw (D.regs x)) x := by
  rw [D.acknowledge_of_stopped quiet.2, D.disarm_of_stopped quiet.2]

theorem Quiet.interrupt {t : Timer σ κ} (quiet : D.Quiet armed t.schedule.source)
    (unarmed : t.schedule.phase ≠ .armed) (fuel : Nat) :
    t.interrupt D.source fuel = .ok (.unwanted,
      { t with
        schedule.source :=
          D.withRegs (D.withdraw (D.regs t.schedule.source)) t.schedule.source }) := by
  rw [Timer.interrupt_eq_rest (Schedule.serve_unarmed D.source unarmed),
    Schedule.acknowledged, quiet.disarm_acknowledge]

theorem Like.refl (overlooks : D.Overlooks armed time same) (x : σ) : D.Like same x x := by
  have like : D.Like same x (D.withRegs (D.regs x) x) := .mk (overlooks.refl _)
  rwa [D.withRegs_regs] at like

theorem hides (simulates : D.source.Simulates D.source (fun _ _ => True) (D.Like same))
    (overlooks : D.Overlooks armed time same) :
    D.source.Hides (D.Quiet armed) (D.Like same) where
  simulates := simulates
  spurious {x y} like quiet := by
    cases like with
    | @mk r h =>
        have none : armed r = none := overlooks.armed_eq h ▸ quiet.1
        have still : D.Quiet armed (D.withRegs r x) := by
          refine ⟨?_, ?_⟩
          · rwa [D.regs_withRegs]
          · rw [D.running_withRegs]
            exact quiet.2
        rw [still.disarm_acknowledge, D.regs_withRegs, D.withRegs_withRegs]
        exact .mk (overlooks.withdraw h none)

end Driver

/-! ## The three drivers -/

namespace CompareChannel

def driver (C : CompareChannel ρ) : Driver ρ ρ where
  source := C.source
  regs r := r
  withRegs r _ := r
  withdraw := C.disarm
  running _ := none
  withRegs_regs _ := rfl
  regs_withRegs _ _ := rfl
  withRegs_withRegs _ _ _ := rfl
  running_withRegs _ _ := rfl
  regs_disarm _ := rfl
  running_disarm _ := rfl
  disarm_of_stopped _ := rfl
  acknowledge_of_stopped _ := rfl

structure Congruent (C : CompareChannel ρ) (same : ρ → ρ → Prop) : Prop where
  reading {r r' : ρ} : same r r' → C.reading r = C.reading r'
  writeCompare {r r' : ρ} (value : UInt32) :
    same r r' → Agree same (C.writeCompare value r) (C.writeCompare value r')
  enable {r r' : ρ} : same r r' → same (C.enable r) (C.enable r')
  disable {r r' : ρ} : same r r' → same (C.disable r) (C.disable r')
  clearFlag {r r' : ρ} : same r r' → same (C.clearFlag r) (C.clearFlag r')
  spend {r r' : ρ} (cycles : UInt32) : same r r' → Agree same (C.spend cycles r) (C.spend cycles r')

theorem Congruent.simulates {C : CompareChannel ρ} {same : ρ → ρ → Prop}
    (congruent : C.Congruent same) :
    C.source.Simulates C.source (fun _ _ => True) (C.driver.Like same) where
  rate := rfl
  period _ := rfl
  reading h := by
    cases h with
    | mk h => exact congruent.reading h
  resolution _ := rfl
  disarm h := by
    cases h with
    | mk h => exact .mk (congruent.clearFlag (congruent.disable h))
  acknowledge h := h
  arm h _ _ := by
    cases h with
    | mk h =>
        refine .bind_same _ fun target => ?_
        refine (congruent.writeCompare target (congruent.clearFlag h)).bind fun r r' h => ?_
        refine (congruent.spend _ h).bind fun r r' h => ?_
        rw [congruent.reading h]
        refine .bind_same _ fun passed => ?_
        split
        · exact .ok (.missed fun _ => .mk (congruent.clearFlag (congruent.disable h)))
        · exact .ok (.armed _ fun _ => .mk (congruent.enable h))
  lawful_disarm _ := trivial
  lawful_acknowledge _ := trivial

end CompareChannel

namespace SymbolCounter

def driver (R : SymbolRegisters ρ) : Driver (SymbolCounter ρ) ρ where
  source := source R
  regs c := c.regs
  withRegs r c := { c with regs := r }
  withdraw := R.disableCompare
  running _ := none
  withRegs_regs _ := rfl
  regs_withRegs _ _ := rfl
  withRegs_withRegs _ _ _ := rfl
  running_withRegs _ _ := rfl
  regs_disarm _ := rfl
  running_disarm _ := rfl
  disarm_of_stopped _ := rfl
  acknowledge_of_stopped _ := rfl

structure Congruent (R : SymbolRegisters ρ) (same : ρ → ρ → Prop) : Prop where
  raw {r r' : ρ} : same r r' → R.raw r = R.raw r'
  writeCompare {r r' : ρ} (raw : UInt32) :
    same r r' → Agree same (R.writeCompare raw r) (R.writeCompare raw r')
  enableCompare {r r' : ρ} : same r r' → same (R.enableCompare r) (R.enableCompare r')
  disableCompare {r r' : ρ} : same r r' → same (R.disableCompare r) (R.disableCompare r')

theorem Congruent.simulates {R : SymbolRegisters ρ} {same : ρ → ρ → Prop}
    (congruent : Congruent R same) :
    (source R).Simulates (source R) (fun _ _ => True) ((driver R).Like same) where
  rate := rfl
  period h := by
    cases h with
    | mk h => rfl
  reading {c c'} h := by
    cases h with
    | @mk r h =>
        have raw : R.raw c.regs = R.raw r := congruent.raw h
        show (R.raw c.regs - c.origin) % c.period = (R.raw r - c.origin) % c.period
        rw [raw]
  resolution _ := rfl
  disarm h := by
    cases h with
    | mk h => exact .mk (congruent.disableCompare h)
  acknowledge h := h
  arm {c c' remaining resolution} h _ _ := by
    cases h with
    | @mk r h =>
        show Agree _ (arm R (c.value R) _ c) (arm R (c.value R) _ { c with regs := r })
        have raw : R.raw c.regs = R.raw r := congruent.raw h
        unfold arm
        simp only [value, ← raw]
        refine .bind_same _ fun lead => .bind_same _ fun ahead => ?_
        split
        next => exact .ok (.missed fun _ => .mk (congruent.disableCompare h))
        next =>
          refine (congruent.writeCompare _ h).bind fun r r' h => ?_
          have enabled := congruent.enableCompare h
          simp only [← congruent.raw enabled]
          split
          next =>
            have disabled := congruent.disableCompare (congruent.disableCompare enabled)
            exact .ok (Source.Answers.missed fun _ => .mk disabled)
          next => exact .ok (Source.Answers.armed _ fun _ => .mk enabled)
  lawful_disarm _ := trivial
  lawful_acknowledge _ := trivial

end SymbolCounter

namespace IntervalTimer

def driver (R : IntervalRegisters ρ) (range : IntervalRange) : Driver (IntervalTimer ρ) ρ where
  source := source R range
  regs t := t.regs
  withRegs r t := { t with regs := r }
  withdraw := R.stop
  running t := t.running
  withRegs_regs _ := rfl
  regs_withRegs _ _ := rfl
  withRegs_withRegs _ _ _ := rfl
  running_withRegs _ _ := rfl
  regs_disarm _ := rfl
  running_disarm _ := rfl
  disarm_of_stopped {t} stopped := by
    cases t
    cases stopped
    rfl
  acknowledge_of_stopped {t} stopped := by
    cases t
    cases stopped
    rfl

structure Congruent (R : IntervalRegisters ρ) (same : ρ → ρ → Prop) : Prop where
  start {r r' : ρ} (shift : Nat) : same r r' → Agree same (R.start shift r) (R.start shift r')
  stop {r r' : ρ} : same r r' → same (R.stop r) (R.stop r')

theorem Congruent.simulates {R : IntervalRegisters ρ} {same : ρ → ρ → Prop}
    (congruent : Congruent R same) (range : IntervalRange) :
    (source R range).Simulates (source R range) (fun _ _ => True) ((driver R range).Like same) where
  rate := rfl
  period _ := rfl
  reading h := by
    cases h with
    | mk h => rfl
  resolution _ := rfl
  disarm h := by
    cases h with
    | mk h => exact .mk (congruent.stop h)
  acknowledge {t t'} h := by
    cases h with
    | @mk r h =>
        obtain ⟨regs, counted, running⟩ := t
        cases running with
        | none => exact .mk h
        | some interval => exact .mk h
  arm {t t' remaining resolution} h _ _ := by
    cases h with
    | @mk r h =>
        show Agree _ (arm R range _ t) (arm R range _ { t with regs := r })
        unfold arm
        refine .bind_same _ fun found => ?_
        cases found with
        | none => exact .ok (.missed fun _ => .mk (congruent.stop h))
        | some shift =>
            refine (congruent.start shift h).bind fun r r' h => ?_
            exact .bind_same _ fun interval => .ok (.armed _ fun _ => .mk h)
  lawful_disarm _ := trivial
  lawful_acknowledge _ := trivial

end IntervalTimer

/-- The drivers, on registers among which they cannot tell those that are the same. -/
inductive Driver.Respects (same : ρ → ρ → Prop) : {σ : Type} → Driver σ ρ → Prop where
  | compare {C : CompareChannel ρ} (congruent : C.Congruent same) : Respects same C.driver
  | symbol {R : SymbolRegisters ρ} (congruent : SymbolCounter.Congruent R same) :
      Respects same (SymbolCounter.driver R)
  | interval {R : IntervalRegisters ρ} (range : IntervalRange)
      (congruent : IntervalTimer.Congruent R same) : Respects same (IntervalTimer.driver R range)

theorem Driver.Respects.simulates {D : Driver σ ρ} {same : ρ → ρ → Prop} (h : D.Respects same) :
    D.source.Simulates D.source (fun _ _ => True) (D.Like same) := by
  cases h with
  | compare congruent => exact congruent.simulates
  | symbol congruent => exact congruent.simulates
  | interval range congruent => exact congruent.simulates range

/--
In every run on a driver whose event is armed by nobody else, an interrupt at rest with
nothing armed asks for no kick, runs no callback and changes nothing but registers,
which show no event before and after.  If the registers do not show it either, then
interrupts can be put in at all such points of the run: every other deed is done at a
moment that is alike, the callback runs at the same times, and nothing that is done next
tells the moments apart.  The deeds leave no choice in this.
-/
theorem spurious_interrupts_invisible {D : Driver σ ρ} {armed : ρ → Option α} {time : ρ → β}
    {same : ρ → ρ → Prop} (respects : D.Respects same)
    (withdraws : ∀ r, armed (D.withdraw r) = none) {x : σ} (start : D.Quiet armed x)
    {m : Moment σ κ} {history : List (Entry σ κ)}
    (runs : Runs D.source (.rest (Timer.ofSource x)) history m)
    (tended : ∀ e ∈ history, e.deed.Tended (KeepsQuiet (D.Quiet armed))) :
    (∀ t, m = .rest t → t.schedule.phase ≠ .armed →
      armed (D.regs t.schedule.source) = none ∧
      ∃ r, armed r = none ∧
        (∀ fuel, t.interrupt D.source fuel =
          .ok (.unwanted, { t with schedule.source := D.withRegs r t.schedule.source })) ∧
        ∀ handled u, t.Handles D.source handled u → ran handled = 0) ∧
    (D.Overlooks armed time same → (∀ e ∈ history, e.deed.Blind (D.Like same)) →
      ∀ pads, ∃ padded n, Runs D.source (.rest (Timer.ofSource x)) padded n ∧
        Padded (D.Like same) pads history padded ∧ m.Indistinct D.source (D.Like same) n ∧
        runViews (time ∘ D.regs) padded = runViews (time ∘ D.regs) history ∧
        ∀ other n', Runs D.source (.rest (Timer.ofSource x)) other n' →
          other.map Entry.deed = padded.map Entry.deed → other = padded ∧ n' = n) := by
  have settles := D.settles withdraws
  have new : (Moment.rest (Timer.ofSource x) : Moment σ κ).IsNew := ⟨x, rfl⟩
  constructor
  · rintro t rfl unarmed
    have quiet : D.Quiet armed t.schedule.source :=
      runs.settled settles new start tended unarmed
    have returns := quiet.interrupt unarmed
    refine ⟨quiet.1, _, withdraws _, returns, fun handled u handles => ?_⟩
    obtain ⟨handled', handles', kicked⟩ := Timer.handles_of_interrupt (returns 0)
    obtain ⟨rfl, -⟩ := handles.unique handles'
    have none := kicked.2
    simpa using none
  · intro overlooks blind pads
    have fresh : (Moment.rest (Timer.ofSource x) : Moment σ κ).Alike (D.Like same)
        (.rest (Timer.ofSource x)) := .unset (.mk (.refl overlooks x))
    obtain ⟨padded, n, runs', inserted, alike⟩ := runs.padded
      (D.hides respects.simulates overlooks) settles new start fresh tended blind pads
    refine ⟨padded, n, runs', inserted, alike.indistinct respects.simulates,
      inserted.runViews_eq ?_, fun _ _ another same => another.unique runs' same⟩
    intro y z like
    cases like with
    | @mk r h =>
        show time (D.regs y) = time (D.regs (D.withRegs r y))
        rw [D.regs_withRegs]
        exact overlooks.time_eq h

/-! ## A watchdog that is stopped too often -/

namespace Sample.Restless

open Bench

def registers : IntervalRegisters Board := Board.intervalRegisters .reference

def driver : Driver (IntervalTimer Board) Board := IntervalTimer.driver registers .atmega

def SameButLog (b b' : Board) : Prop :=
  ∃ writes, b' = { b with writes := writes }

theorem congruent : IntervalTimer.Congruent registers SameButLog where
  start shift := by
    rintro ⟨writes, rfl⟩
    exact .ok ⟨_, rfl⟩
  stop := by
    rintro b - ⟨writes, rfl⟩
    exact ⟨_, rfl⟩

theorem overlooks : driver.Overlooks Board.armed Board.time SameButLog where
  refl b := ⟨b.writes, rfl⟩
  time_eq := by
    rintro b - ⟨writes, rfl⟩
    rfl
  armed_eq := by
    rintro b - ⟨writes, rfl⟩
    rfl
  withdraw := by
    rintro ⟨_, _, _, _, _, _, _, _, _⟩ - ⟨writes, rfl⟩ ⟨⟩
    exact ⟨_, rfl⟩

def wait (ticks : UInt64) (t : IntervalTimer Board) : Except Fault (IntervalTimer Board) :=
  .ok { t with regs.time := t.regs.time + ticks }

def callback : Callback (IntervalTimer Board) Unit := ⟨(), fun _ _ => .finish ()⟩

def idle : Schedule (IntervalTimer Board) := { source := { regs := {} } }

def armed : Schedule (IntervalTimer Board) :=
  { source := ⟨{ armed := some 4096, writes := #[.start 12] }, 0, some 4096⟩
    anchor := 5000, phase := .armed, eventAt := 4096, owed := 904 }

def cancelled : Schedule (IntervalTimer Board) :=
  { source := ⟨{ writes := #[.start 12, .stop] }, 0, none⟩, anchor := 5000, eventAt := 4096 }

def later : Schedule (IntervalTimer Board) := { cancelled with source.regs.time := 100 }

def rearmed : Schedule (IntervalTimer Board) :=
  { source :=
      ⟨{ time := 100, armed := some 8292, writes := #[.start 12, .stop, .start 13] }, 0, some 8192⟩
    anchor := 10000, phase := .armed, eventAt := 8192, owed := 1808 }

def elapsed : Schedule (IntervalTimer Board) := { rearmed with source.regs.time := 8292 }

def served : Schedule (IntervalTimer Board) :=
  { source := ⟨{ time := 8292, writes := #[.start 12, .stop, .start 13, .stop] }, 8192, none⟩
    anchor := 10000, eventAt := 8192 }

def history : List (Entry (IntervalTimer Board) Unit) :=
  [⟨.rest ⟨idle, none⟩, .setCallback callback⟩, ⟨.rest ⟨idle, some callback⟩, .act (.plan 5000)⟩,
    ⟨.rest ⟨armed, some callback⟩, .act .cancel⟩,
    ⟨.rest ⟨cancelled, some callback⟩, .act (.environment (wait 100))⟩,
    ⟨.rest ⟨later, some callback⟩, .act (.plan 5000)⟩,
    ⟨.rest ⟨rearmed, some callback⟩, .act (.environment (wait 8192))⟩,
    ⟨.rest ⟨elapsed, some callback⟩, .serve⟩, ⟨.due callback served, .enter⟩,
    ⟨.inside callback (.finish ()) served.enterCallback, .leave⟩]

theorem runs : Runs driver.source (.rest (Timer.ofSource idle.source)) history
    (.rest ⟨served, some callback⟩) := by
  have set : Step driver.source (.rest ⟨idle, none⟩) (.setCallback callback)
      (.rest ⟨idle, some callback⟩) := .setCallback _ _
  have plan : Step driver.source (.rest ⟨idle, some callback⟩) (.act (.plan 5000))
      (.settle callback armed) := .plan rfl rfl
  have cancel : Step driver.source (.rest ⟨armed, some callback⟩) (.act .cancel)
      (.rest ⟨cancelled, some callback⟩) := .cancel _
  have pass : Step driver.source (.rest ⟨cancelled, some callback⟩)
      (.act (.environment (wait 100))) (.rest ⟨later, some callback⟩) := .environment rfl
  have replan : Step driver.source (.rest ⟨later, some callback⟩) (.act (.plan 5000))
      (.settle callback rearmed) := .plan rfl rfl
  have elapse : Step driver.source (.rest ⟨rearmed, some callback⟩)
      (.act (.environment (wait 8192))) (.rest ⟨elapsed, some callback⟩) := .environment rfl
  have serve : Step driver.source (.rest ⟨elapsed, some callback⟩) .serve
      (.served (some callback) served true) := .serve rfl
  have enter : Step driver.source (.due callback served) .enter
      (.inside callback (.finish ()) served.enterCallback) := .enter callback served
  have leave : Step driver.source (.inside callback (.finish ()) served.enterCallback) .leave
      (.settle callback served.enterCallback.leaveCallback) := .leave callback () _
  exact (Runs.single set).trans ((Runs.single plan).trans ((Runs.single cancel).trans
    ((Runs.single pass).trans ((Runs.single replan).trans ((Runs.single elapse).trans
      ((Runs.single serve).trans ((Runs.single enter).trans (.single leave))))))))

private theorem keepsQuiet_wait (ticks : UInt64) :
    KeepsQuiet (driver.Quiet Board.armed) (wait ticks) := by
  rintro x y quiet ⟨⟩
  exact quiet

private theorem blind_wait (ticks : UInt64) : Blind (driver.Like SameButLog) (wait ticks) := by
  rintro x - ⟨writes, rfl⟩
  exact .ok (.mk ⟨writes, rfl⟩)

theorem tended : ∀ e ∈ history, e.deed.Tended (KeepsQuiet (driver.Quiet Board.armed)) := by
  have pass := keepsQuiet_wait 100
  have elapse := keepsQuiet_wait 8192
  simp only [history, List.forall_mem_cons]
  exact ⟨trivial, trivial, trivial, pass, trivial, elapse, trivial, trivial, trivial,
    List.forall_mem_nil _⟩

theorem blind : ∀ e ∈ history, e.deed.Blind (driver.Like SameButLog) := by
  have set : (Deed.setCallback callback).Blind (driver.Like SameButLog) :=
    fun _ _ _ _ => .finish ()
  have pass := blind_wait 100
  have elapse := blind_wait 8192
  simp only [history, List.forall_mem_cons]
  exact ⟨set, trivial, trivial, pass, trivial, elapse, trivial, trivial, trivial,
    List.forall_mem_nil _⟩

end Sample.Restless

open Sample.Restless in
theorem spurious_interrupts_invisible_when_restless :
    (∃ r : Bench.Board, r.armed = none ∧ ∀ fuel,
      Timer.interrupt driver.source fuel ⟨served, some callback⟩ =
        .ok (.unwanted, ⟨{ served with source.regs := r }, some callback⟩)) ∧
    ∃ padded n, Runs driver.source (.rest (Timer.ofSource idle.source)) padded n ∧
      Padded (driver.Like SameButLog) (fun _ => 2) history padded ∧
      runViews (Bench.Board.time ∘ driver.regs) padded = [8292] := by
  obtain ⟨still, hidden⟩ := spurious_interrupts_invisible (.interval .atmega congruent)
    (fun _ => rfl) ⟨rfl, rfl⟩ runs tended
  obtain ⟨-, r, unarmed, returns, -⟩ := still ⟨served, some callback⟩ rfl nofun
  obtain ⟨padded, n, runs', inserted, -, same, -⟩ := hidden overlooks blind fun _ => 2
  exact ⟨⟨r, unarmed, returns⟩, padded, n, runs', inserted, same⟩

end SlotClock
