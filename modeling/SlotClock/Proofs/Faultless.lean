import SlotClock.Proofs.Contained
import SlotClock.Proofs.Debt
import SlotClock.Proofs.Readings
import SlotClock.Proofs.SymbolClock

/-!
# No run comes to a fault

The three kinds of hardware make reliable sources, whatever is done to their registers
between two operations.  A compare channel and a symbol counter cover in full whatever
they arm, even when the period of the counter changes.  An interval timer may cover
less, but its software counter stands exactly at the event when the interval ends.  So
in none of them does the slot that is owed grow while its interrupts are served.

Any other reliable source will do as well, as long as its interrupts are not early
billions of times in one slot.  One that covers nothing of what it arms comes to a fault
in the end.

## Compare channels
-/

namespace SlotClock

open Counter Schedule

variable {σ κ ρ : Type}

structure CompareChannel.Returns (C : CompareChannel ρ) : Prop where
  writeCompare (value : UInt32) (r : ρ) : ∃ r', C.writeCompare value r = .ok r'
  spend (cycles : UInt32) (r : ρ) : ∃ r', C.spend cycles r = .ok r'

namespace CompareChannel

variable {C : CompareChannel ρ}

theorem full (C : CompareChannel ρ) : C.source.Full := by
  intro base delay covered r r' h
  obtain ⟨target, -, h⟩ := parts_of_bind h
  obtain ⟨written, -, h⟩ := parts_of_bind h
  obtain ⟨spent, -, h⟩ := parts_of_bind h
  obtain ⟨passed, -, h⟩ := parts_of_bind h
  split at h <;> cases h
  rfl

theorem reliable (returns : C.Returns) : C.source.Reliable := by
  have pos := C.period_pos
  have le := C.period_le
  refine ⟨fun _ => pos, fun _ => le, fun _ => ⟨1, rfl⟩, fun r base delay short => ?_⟩
  obtain ⟨r₁, written⟩ := returns.writeCompare
    (UInt32.ofNat ((base.toNat + delay.toNat) % C.period.toNat)) (C.clearFlag r)
  obtain ⟨r₂, spent⟩ := returns.spend C.writeCycles r₁
  have asked : C.source.arm base delay r =
      if 0 ≤ centred C.period.toNat ((C.reading r₂).toNat - base.toNat) ∧
          delay ≤ Word.ofSigned (centred C.period.toNat ((C.reading r₂).toNat - base.toNat))
        then .ok (.missed, r₂) else .ok (.armed delay, C.enable r₂) := by
    show C.arm base delay r = _
    unfold arm
    rw [advance_eq pos le]
    simp only [bind, Except.bind, written, spent, distance_eq pos (show _ < _ by omega)]
    rfl
  rw [asked]
  split
  · exact ⟨_, _, rfl, fun covered h => by cases h⟩
  · exact ⟨_, _, rfl, fun covered h => by cases h; exact Nat.le_refl _⟩

end CompareChannel

/-! ## Symbol counters -/

def SymbolRegisters.Returns (R : SymbolRegisters ρ) : Prop :=
  ∀ raw r, ∃ r', R.writeCompare raw r = .ok r'

namespace SymbolCounter

variable {R : SymbolRegisters ρ}

/-- Whatever the registers do, and whatever the program does to the periods. -/
inductive Handled (R : SymbolRegisters ρ) :
    (SymbolCounter ρ → Except Fault (SymbolCounter ρ)) → Prop
  | regs (f : ρ → ρ) : Handled R fun c => .ok { c with regs := f c.regs }
  | start : Handled R fun c => .ok (c.start R)
  | stop : Handled R fun c => .ok (c.stop R)
  | rollOver : Handled R fun c => .ok (c.rollOver R)
  | setPeriod {period : UInt32} (pos : 0 < period) : Handled R fun c => c.setPeriod R period
  | startWith {period : UInt32} (pos : 0 < period) : Handled R fun c => c.startWith R period
  | compareAt (offset : UInt32) : Handled R fun c => c.compareAt R offset

theorem Handled.returns (returns : R.Returns)
    {effect : SymbolCounter ρ → Except Fault (SymbolCounter ρ)} (handled : Handled R effect)
    (c : SymbolCounter ρ) : ∃ c', effect c = .ok c' := by
  cases handled with
  | regs f => exact ⟨_, rfl⟩
  | start => exact ⟨_, rfl⟩
  | stop => exact ⟨_, rfl⟩
  | rollOver => exact ⟨_, rfl⟩
  | @setPeriod period pos =>
      show ∃ c', c.setPeriod R period = .ok c'
      rw [SymbolCounter.setPeriod, withPeriod_of_pos pos]
      exact ⟨_, rfl⟩
  | @startWith period pos =>
      show ∃ c', c.startWith R period = .ok c'
      rw [SymbolCounter.startWith, withPeriod_of_pos pos]
      exact ⟨_, rfl⟩
  | compareAt offset =>
      obtain ⟨regs, written⟩ := returns (c.origin + offset) c.regs
      show ∃ c', c.compareAt R offset = .ok c'
      rw [SymbolCounter.compareAt, written]
      exact ⟨_, rfl⟩

theorem full (R : SymbolRegisters ρ) : (source R).Full := by
  intro base delay covered c c' h
  obtain ⟨lead, -, h⟩ := parts_of_bind h
  obtain ⟨ahead, -, h⟩ := parts_of_bind h
  split at h
  next => cases h
  next =>
    obtain ⟨regs, -, h⟩ := parts_of_bind h
    simp only at h
    split at h <;> cases h
    rfl

theorem reliable (returns : R.Returns) : (source R).Reliable := by
  have size (c : SymbolCounter ρ) : c.period.toUInt64.toNat = c.period.toNat :=
    UInt32.toNat_toUInt64 _
  have pos (c : SymbolCounter ρ) : 0 < c.period.toUInt64.toNat := by
    rw [size]
    exact UInt32.lt_iff_toNat_lt.mp c.period_pos
  have small (c : SymbolCounter ρ) : c.period.toUInt64.toNat < 0x100000000 := by
    rw [size]
    exact Word.reading_lt c.period
  refine ⟨pos, fun c => Nat.le_of_lt (small c), fun _ => ⟨1, rfl⟩, fun c base delay short => ?_⟩
  have short : delay.toNat ≤ c.period.toUInt64.toNat / 2 := short
  have smallHere := small c
  have window := centred_window (pos c) (base.toNat - (c.value R).toNat)
  have lead := distance_eq (pos c) (show _ < _ by omega) (c.value R) base
  have ahead : Signed.add (centred c.period.toUInt64.toNat (base.toNat - (c.value R).toNat))
      (Word.toSigned delay) = .ok (centred c.period.toUInt64.toNat
        (base.toNat - (c.value R).toNat) + delay.toNat) := by
    rw [Word.toSigned_of_lt (by omega)]
    exact Signed.fit_of_mem (by omega) (by omega)
  show ∃ answer c', c.arm R base delay = .ok (answer, c') ∧ _
  unfold arm
  simp only [lead, ahead, bind, Except.bind]
  split
  next => exact ⟨_, _, rfl, fun covered h => by cases h⟩
  next =>
    obtain ⟨regs, written⟩ := returns (R.raw c.regs + Signed.low32
      (centred c.period.toUInt64.toNat (base.toNat - (c.value R).toNat) + delay.toNat)) c.regs
    simp only [written]
    split
    · exact ⟨_, _, rfl, fun covered h => by cases h⟩
    · exact ⟨_, _, rfl, fun covered h => by cases h; exact Nat.le_refl _⟩

end SymbolCounter

/-! ## Interval timers -/

def IntervalRegisters.Returns (R : IntervalRegisters ρ) : Prop :=
  ∀ shift r, ∃ r', R.start shift r = .ok r'

namespace IntervalTimer

variable {R : IntervalRegisters ρ} {range : IntervalRange}

/-- The registers may do anything, but only the operations of the timer move its counter. -/
def OfRegs (effect : IntervalTimer ρ → Except Fault (IntervalTimer ρ)) : Prop :=
  ∃ f : ρ → ρ, effect = fun t => .ok { t with regs := f t.regs }

def EndsAt (t : IntervalTimer ρ) (event : UInt32) : Prop :=
  ∃ interval, t.running = some interval ∧
    Shows 0x100000000 event (t.counted.toNat + interval.toNat)

theorem arm_of_returns (returns : R.Returns) (ordered : range.minShift ≤ range.maxShift)
    (small : range.maxShift < 64) (t : IntervalTimer ρ) (delay : UInt64) :
    ∃ answer t', arm R range delay t = .ok (answer, t') := by
  rcases Nat.lt_or_ge delay.toNat (2 ^ range.minShift) with below | enough
  · refine ⟨.missed, t, ?_⟩
    simp [arm, IntervalRange.longest?_of_lt ordered small below, bind, Except.bind, pure,
      Except.pure]
  · obtain ⟨shift, found, -, le, -⟩ := IntervalRange.longest?_of_le ordered small enough
    obtain ⟨regs, started⟩ := returns shift t.regs
    obtain ⟨interval, shifted, -⟩ := Word.shiftLeft_one (show shift < 64 by omega)
    refine ⟨.armed interval, { t with regs := regs, running := some interval }, ?_⟩
    simp only [arm, found, started, shifted, bind, Except.bind]
    rfl

private theorem running_of_arm (ordered : range.minShift ≤ range.maxShift)
    (small : range.maxShift < 64)
    {delay covered : UInt64} {t t' : IntervalTimer ρ}
    (h : arm R range delay t = .ok (.armed covered, t')) :
    covered.toNat ≤ delay.toNat ∧ t'.counted = t.counted ∧ t'.running = some covered := by
  rcases Nat.lt_or_ge delay.toNat (2 ^ range.minShift) with below | enough
  · simp [arm, IntervalRange.longest?_of_lt ordered small below, bind, Except.bind, pure,
      Except.pure] at h
  · obtain ⟨interval, same, le, counted, running⟩ := covered_of_arm R ordered small enough h
    cases same
    exact ⟨le, counted, running⟩

theorem reliable (returns : R.Returns) (ordered : range.minShift ≤ range.maxShift)
    (small : range.maxShift < 64) : (source R range).Reliable := by
  refine ⟨fun _ => Nat.two_pow_pos 32, fun _ => Nat.le_refl _, fun _ => ?_,
    fun t base delay _ => ?_⟩
  · obtain ⟨shortest, shifted, -⟩ := Word.shiftLeft_one (show range.minShift < 64 by omega)
    exact ⟨shortest, shifted⟩
  · obtain ⟨answer, t', armed⟩ := arm_of_returns returns ordered small t delay
    refine ⟨answer, t', armed, ?_⟩
    rintro covered rfl
    exact (running_of_arm ordered small armed).1

end IntervalTimer

namespace Schedule

variable {R : IntervalRegisters ρ} {range : IntervalRange} {s : Schedule (IntervalTimer ρ)}

theorem early_of_endsAt (ends : s.phase = .armed → s.source.EndsAt s.eventAt) :
    s.early (IntervalTimer.source R range) = false := by
  by_cases armed : s.phase = .armed
  · obtain ⟨interval, running, event⟩ := ends armed
    have onTime : distance 0x100000000 s.eventAt
        (s.spent (IntervalTimer.source R range)).source.counted = .ok 0 :=
      distance_of_running running (shows_toNat _ _) event
    rw [early_eq (S := IntervalTimer.source R range) armed onTime]
    rfl
  · simp [early, armed]

end Schedule

/-! ## What the sources are worth to a schedule -/

variable {S : Source σ} {tends : (σ → Except Fault σ) → Prop}

theorem Source.Reliable.guarded (reliable : S.Reliable)
    (returns : ∀ effect, tends effect → ∀ x, ∃ y, effect x = .ok y) :
    S.Guarded tends (fun _ _ => True) fun s => (s.early S).toNat where
  reliable := reliable
  returns x tended := returns _ tended x
  arms _ _ _ := trivial
  keeps _ _ _ := trivial
  grows _ h := h.owed_le reliable

theorem Source.Reliable.guarded_of_full (reliable : S.Reliable) (full : S.Full)
    (returns : ∀ effect, tends effect → ∀ x, ∃ y, effect x = .ok y) :
    S.Guarded tends (fun _ _ => True) fun _ => 0 where
  reliable := reliable
  returns x tended := returns _ tended x
  arms _ _ _ := trivial
  keeps _ _ _ := trivial
  grows _ h := by simpa using h.owed_of_full reliable full

theorem IntervalTimer.guarded {R : IntervalRegisters ρ} {range : IntervalRange}
    (returns : R.Returns) (ordered : range.minShift ≤ range.maxShift)
    (small : range.maxShift < 64) :
    (IntervalTimer.source R range).Guarded IntervalTimer.OfRegs IntervalTimer.EndsAt
      fun _ => 0 where
  reliable := reliable returns ordered small
  returns x tended := by
    obtain ⟨f, rfl⟩ := tended
    exact ⟨_, rfl⟩
  arms {x y delay covered event} _ arm advanced := by
    obtain ⟨-, counted, running⟩ := running_of_arm ordered small arm
    refine ⟨covered, running, ?_⟩
    rw [counted]
    exact Shows.advance (p := 0x100000000) (by decide) (by decide) (shows_toNat _ _) advanced
  keeps tended effected ends := by
    obtain ⟨f, rfl⟩ := tended
    cases effected
    exact ends
  grows ends h := by
    have owed := h.owed_le (reliable returns ordered small)
    rw [early_of_endsAt ends, Bool.toNat_false] at owed
    exact owed

/-! ## Every run -/

def Total (effect : σ → Except Fault σ) : Prop :=
  ∀ x, ∃ y, effect x = .ok y

/--
The sources on which no operation comes to a fault, what may be done to each of them
between two operations, and how many interrupts of the slot were early.  Each of these
can add almost half a period to what is owed on a source that covers less than it is
asked for, and a signed word has room for `2 ^ 32 - 2 ^ 18` of them.
-/
inductive Trusted : {σ : Type} → Source σ → ((σ → Except Fault σ) → Prop) → Nat → Prop where
  | compare {ρ : Type} {C : CompareChannel ρ} {n : Nat} (returns : C.Returns) :
      Trusted C.source Total n
  | symbol {ρ : Type} {R : SymbolRegisters ρ} {n : Nat} (returns : R.Returns) :
      Trusted (SymbolCounter.source R) (SymbolCounter.Handled R) n
  | interval {ρ : Type} {R : IntervalRegisters ρ} {minShift maxShift : Nat} {range : IntervalRange}
      {n : Nat} (returns : R.Returns)
      (checked : IntervalRange.checked minShift maxShift = .ok range) :
      Trusted (IntervalTimer.source R range) IntervalTimer.OfRegs n
  | full {σ : Type} {S : Source σ} {n : Nat} (reliable : S.Reliable) (full : S.Full) :
      Trusted S Total n
  | other {σ : Type} {S : Source σ} {n : Nat} (reliable : S.Reliable) (few : n ≤ 0xFFFC0000) :
      Trusted S Total n

structure Moment.Faultless (S : Source σ) (tends : (σ → Except Fault σ) → Prop)
    (m : Moment σ κ) : Prop where
  apply (a : Action σ) : a.Tended tends → ∃ s, a.apply S m.schedule = .ok s
  serve : ∃ outcome, m.schedule.serve S = .ok outcome
  reading : ∃ ticks, m.schedule.referenceReading S = .ok ticks
  anchor : ∃ ticks, m.schedule.referenceAnchor S = .ok ticks
  plan {t : Timer σ κ} : m = .rest t → (∀ c, t.callback = some c → c.Harmless tends) →
    ∀ fuel delay cause, t.plan S fuel delay ≠ .error (.fault cause)
  interrupt {t : Timer σ κ} : m = .rest t → (∀ c, t.callback = some c → c.Harmless tends) →
    ∀ fuel cause, t.interrupt S fuel ≠ .error (.fault cause)

theorem Runs.faultless {fit : σ → UInt32 → Prop} {extra : Schedule σ → Nat}
    (guarded : S.Guarded tends fit extra) {m₀ m : Moment σ κ} {history : List (Entry σ κ)}
    (new : m₀.IsNew) (runs : Runs S m₀ history m) (tended : ∀ e ∈ history, e.deed.Tended tends)
    (few : strays extra history ≤ 0xFFFC0000) : m.Faultless S tends := by
  have contained := runs.contained guarded tended new.contained
  refine ⟨fun a tended => ?_, contained.serve guarded few, ⟨_, referenceReading_eq _⟩,
    ⟨_, referenceAnchor_eq _⟩, ?_, ?_⟩
  · obtain ⟨s, applied, -⟩ := contained.apply guarded tended
    exact ⟨s, applied⟩
  · rintro t rfl harmless fuel delay cause
    exact plan_no_fault guarded harmless contained fuel delay cause
  · rintro t rfl harmless fuel cause
    exact interrupt_no_fault guarded harmless contained few fuel cause

/-- At every moment of every run on a trusted source, no operation comes to a fault. -/
theorem never_faults {S : Source σ} {tends : (σ → Except Fault σ) → Prop} {m₀ m : Moment σ κ}
    {history : List (Entry σ κ)} (new : m₀.IsNew) (runs : Runs S m₀ history m)
    (tended : ∀ e ∈ history, e.deed.Tended tends)
    (trusted : Trusted S tends (strays (fun s => (s.early S).toNat) history)) :
    m.Faultless S tends := by
  have none : strays (fun _ => 0) history ≤ 0xFFFC0000 := by
    rw [strays_eq_zero]
    decide
  cases trusted with
  | compare returns =>
      exact runs.faultless ((CompareChannel.reliable returns).guarded_of_full
        (CompareChannel.full _) fun _ total => total) new tended none
  | symbol returns =>
      exact runs.faultless ((SymbolCounter.reliable returns).guarded_of_full
        (SymbolCounter.full _) fun _ handled => handled.returns returns) new tended none
  | interval returns checked =>
      obtain ⟨rfl, ordered, small⟩ := IntervalRange.of_checked checked
      have small := Nat.lt_trans small (show 32 < 64 by decide)
      exact runs.faultless (IntervalTimer.guarded returns ordered small) new tended none
  | full reliable full =>
      exact runs.faultless (reliable.guarded_of_full full fun _ total => total) new tended none
  | other reliable few =>
      exact runs.faultless (reliable.guarded fun _ total => total) new tended few

/-! ## A period that shrinks below an armed event -/

namespace Sample.Shrinking

def registers : SymbolRegisters SymbolClock := SymbolClock.registers .symbol 0xFFFFF63C 3

def radio : Source (SymbolCounter SymbolClock) := SymbolCounter.source registers

def counter : SymbolCounter SymbolClock := ⟨{ time := 2000 }, 600, by decide, 0⟩

def planned : Schedule (SymbolCounter SymbolClock) :=
  { source := { counter with regs := { time := 2003, compare := 0xFFFFFF38, armed := some 2300 } }
    carry := 759, anchor := 198, phase := .armed, eventAt := 296, owed := 8191999702 }

def shrunk : Schedule (SymbolCounter SymbolClock) :=
  { planned with
    source :=
      { counter with
        regs := { time := 2003, compare := 0xFFFFFF38, armed := some 2300, overflow := 7 }
        period := 7
        period_pos := by decide } }

def history : List (Entry (SymbolCounter SymbolClock) Unit) :=
  [⟨.alone { source := counter }, .act (.plan 0xFFFFFFFF)⟩,
    ⟨.alone planned, .act (.environment fun c => c.setPeriod registers 7)⟩]

theorem runs : Runs radio (.alone { source := counter }) history (.alone shrunk) := by
  have plan : Step (κ := Unit) radio (.alone { source := counter }) (.act (.plan 0xFFFFFFFF))
      (.alone planned) := .alone rfl
  have shrink : Step (κ := Unit) radio (.alone planned)
      (.act (.environment fun c => c.setPeriod registers 7)) (.alone shrunk) := .alone rfl
  exact (Runs.single plan).trans (.single shrink)

end Sample.Shrinking

open Sample.Shrinking in
theorem never_faults_after_shrinking :
    Runs radio (.alone { source := counter }) history (.alone shrunk) ∧
      (.alone shrunk : Moment _ Unit).Faultless radio (SymbolCounter.Handled registers) := by
  have new : (.alone { source := counter } : Moment _ Unit).IsNew := ⟨counter, rfl⟩
  have tended : ∀ e ∈ history, e.deed.Tended (SymbolCounter.Handled registers) := by
    intro e mem
    rcases List.mem_cons.mp mem with rfl | mem
    · trivial
    · cases List.mem_singleton.mp mem
      exact .setPeriod (by decide)
  have returns : registers.Returns := fun _ _ => ⟨_, rfl⟩
  exact ⟨runs, never_faults new runs tended (.symbol returns)⟩

/-! ## Interrupts that are early without end -/

namespace Sample.Overslept

theorem fastest_pos : 0 < (0xFFFFFFFF : UInt32) := by decide

/-- The fastest counter.  What is armed on it covers nothing. -/
def source : Source UInt32 where
  rate := ⟨0xFFFFFFFF, fastest_pos⟩
  period _ := 0x100000000
  reading x := x
  resolution _ := .ok 1
  arm _ _ x := .ok (.armed 0, x)
  disarm x := x
  acknowledge x := x

def callback : Callback UInt32 Unit := ⟨(), fun _ _ => .finish ()⟩

/-- A tick more than half a period goes by, which reads as a tick less than that back. -/
def wait (x : UInt32) : Except Fault UInt32 := .ok (x + 0x80000001)

def reading : Nat → UInt32
  | 0 => 0x80000001
  | n + 1 => reading n + 0x80000001

def owed : Nat → UInt64
  | 0 => 0x200007FFBFFFF
  | n + 1 => owed n + 0x7FFFFFFF

def waiting (reading : UInt32) (owed : UInt64) : Schedule UInt32 :=
  { source := reading, carry := 1, anchor := 0xFFFC0000, phase := .armed, eventAt := reading,
    owed := owed }

def overslept (reading later : UInt32) (owed : UInt64) : Schedule UInt32 :=
  { waiting reading owed with source := later }

def asleep (n : Nat) : Timer UInt32 Unit := ⟨waiting (reading n) (owed n), some callback⟩

def awake (n : Nat) : Timer UInt32 Unit :=
  ⟨overslept (reading n) (reading (n + 1)) (owed n), some callback⟩

def history : Nat → List (Entry UInt32 Unit)
  | 0 =>
    [⟨.rest (.ofSource 0x80000001), .setCallback callback⟩,
      ⟨.rest ⟨{ source := 0x80000001 }, some callback⟩, .act (.plan 0xFFFFFFFF)⟩,
      ⟨.rest (asleep 0), .act (.environment wait)⟩]
  | n + 1 =>
    history n ++
      [⟨.rest (awake n), .serve⟩, ⟨.rest (asleep (n + 1)), .act (.environment wait)⟩]

theorem reliable : source.Reliable where
  period_pos _ := Nat.two_pow_pos 32
  period_le _ := Nat.le_refl _
  resolution _ := ⟨1, rfl⟩
  arm x base delay _ := by
    refine ⟨.armed 0, x, rfl, ?_⟩
    rintro covered ⟨⟩
    exact Nat.zero_le _

theorem tended (n : Nat) : ∀ e ∈ history n, e.deed.Tended Total := by
  have total : Total wait := fun x => ⟨_, rfl⟩
  induction n with
  | zero =>
      simp only [history, List.forall_mem_cons]
      exact ⟨trivial, trivial, total, List.forall_mem_nil _⟩
  | succ n ih =>
      simp only [history, List.forall_mem_append, List.forall_mem_cons]
      exact ⟨ih, trivial, total, List.forall_mem_nil _⟩

private theorem toNat_owed {n : Nat} (few : n ≤ 0xFFFC0001) :
    (owed n).toNat = 0x200007FFBFFFF + n * 0x7FFFFFFF := by
  induction n with
  | zero => rfl
  | succ n ih =>
      have before := ih (Nat.le_of_succ_le few)
      have step : (0x7FFFFFFF : UInt64).toNat = 0x7FFFFFFF := rfl
      rw [owed, UInt64.toNat_add, before, step, Nat.succ_mul]
      omega

private theorem late_eq (n : Nat) :
    distance 0x100000000 (reading n) (reading (n + 1)) = .ok (-0x7FFFFFFF) := by
  have moved := UInt32.toNat_add (reading n) 0x80000001
  have step : (0x80000001 : UInt32).toNat = 0x80000001 := rfl
  have period : (0x100000000 : UInt64).toNat = 0x100000000 := rfl
  rw [step] at moved
  rw [reading, distance_eq (by decide) (by decide), period, Except.ok.injEq]
  symm
  rw [eq_centred_iff (by decide)]
  omega

private theorem early_overslept {r later : UInt32} {late : Int} (w : UInt64)
    (passed : distance 0x100000000 r later = .ok late) (before : late < 0) :
    (overslept r later w).early source = true := by
  have served : distance (((overslept r later w).spent source).period source)
      (overslept r later w).eventAt (((overslept r later w).spent source).reading source) =
        .ok late := passed
  rw [early_eq (S := source) rfl served, decide_eq_true before]

private theorem strays_served (extra : Schedule σ → Nat) (history : List (Entry σ κ))
    (t t' : Timer σ κ)
    (effect : σ → Except Fault σ) :
    strays extra
        (history ++ [⟨.rest t, .serve⟩, ⟨.rest t', .act (.environment effect)⟩]) =
      strays extra history + extra t.schedule := by
  unfold strays
  rw [List.foldl_append]
  rfl

theorem strays_history (n : Nat) :
    strays (fun s => (s.early source).toNat) (history n) = n := by
  induction n with
  | zero => rfl
  | succ n ih =>
      have early : (awake n).schedule.early source = true :=
        early_overslept (owed n) (late_eq n) (by decide)
      rw [history, strays_served, ih, early, Bool.toNat_true]

private theorem armChunk_eq (s : Schedule UInt32) {remaining : UInt64} (pos : 0 < remaining.toNat) :
    s.armChunk source s.source remaining =
      .ok { s with eventAt := s.source, owed := remaining, phase := .armed } := by
  have enough : ¬ remaining < 1 := by
    rw [UInt64.lt_iff_toNat_lt]
    exact Nat.not_lt.mpr pos
  obtain ⟨event, arrives, exact⟩ :=
    toNat_of_advance (p := 0x100000000) (by decide) (by decide) s.source 0
  have here : event = s.source := by
    apply UInt32.toNat_inj.mp
    rw [exact]
    exact Nat.mod_eq_of_lt (Word.reading_lt s.source)
  have whole : Word.sub remaining 0 = .ok remaining := by
    rw [Word.sub_of_le UInt64.zero_le, UInt64.sub_zero]
  unfold armChunk
  change (if remaining < 1 then _ else
    advance 0x100000000 s.source 0 >>= fun eventAt => Word.sub remaining 0 >>= _) = _
  rw [if_neg enough, arrives, whole, here]
  rfl

private theorem serve_overslept {r later : UInt32} {w : UInt64} {late : Int} (part : 0 < w.toNat)
    (small : w.toNat < 0x8000000000000000) (passed : distance 0x100000000 r later = .ok late)
    (before : late < 0) :
    (overslept r later w).serve source =
      (Signed.fit .subtractOverflow (w.toNat - late)).map fun rest =>
        (false, waiting later (Word.ofSigned rest)) := by
  have signed : Word.toSigned w = w.toNat := Word.toSigned_of_lt small
  have serves : (overslept r later w).serve source =
      ((overslept r later w).spent source).continueWith source w := by
    unfold serve
    exact (if_pos rfl).trans (if_neg (Word.ne_zero_of_pos part))
  rw [serves]
  unfold continueWith
  change (distance 0x100000000 r later >>= fun late => Signed.sub (Word.toSigned w) late >>= _) = _
  rw [passed, signed]
  change Signed.fit .subtractOverflow (w.toNat - late) >>= _ = _
  rcases fits : Signed.fit .subtractOverflow (w.toNat - late) with cause | rest
  · rfl
  · obtain ⟨rfl, -, hi⟩ := Signed.of_sub_ok fits
    have word := Word.toNat_ofSigned (z := w.toNat - late) (by omega) (by omega)
    have armed : ((overslept r later w).spent source).armChunk source later
        (Word.ofSigned (w.toNat - late)) = _ :=
      armChunk_eq ((overslept r later w).spent source) (by omega)
    change (if (w.toNat : Int) - late ≤ 0 then _ else
      ((overslept r later w).spent source).armChunk source later _ >>= _) = _
    rw [if_neg (by omega), armed]
    rfl

private theorem serve_awake {n : Nat} (few : n ≤ 0xFFFC0000) :
    (awake n).schedule.serve source = .ok (false, (asleep (n + 1)).schedule) := by
  have exact := toNat_owed (n := n) (by omega)
  have next := toNat_owed (n := n + 1) (by omega)
  have word := Word.toNat_ofSigned (z := (owed n).toNat - -0x7FFFFFFF) (by omega) (by omega)
  have same : Word.ofSigned ((owed n).toNat - -0x7FFFFFFF) = owed (n + 1) := by
    apply UInt64.toNat_inj.mp
    omega
  have served := serve_overslept (w := owed n) (by omega) (by omega) (late_eq n) (by decide)
  rw [Signed.fit_of_mem (by omega) (by omega)] at served
  refine served.trans ?_
  rw [Except.map, same]
  rfl

private theorem serve_last :
    (awake 0xFFFC0001).schedule.serve source = .error .subtractOverflow := by
  have exact := toNat_owed (Nat.le_refl _)
  have full : Signed.fit .subtractOverflow ((owed 0xFFFC0001).toNat - -0x7FFFFFFF) =
      .error .subtractOverflow := by
    apply if_neg
    omega
  have served := serve_overslept (w := owed 0xFFFC0001) (by omega) (by omega)
    (late_eq 0xFFFC0001) (by decide)
  rw [full] at served
  exact served

theorem runs {n : Nat} (few : n ≤ 0xFFFC0001) :
    Runs source (.rest (.ofSource 0x80000001)) (history n) (.rest (awake n)) := by
  induction n with
  | zero =>
      have set : Step source (.rest (.ofSource 0x80000001)) (.setCallback callback)
          (.rest ⟨{ source := 0x80000001 }, some callback⟩) := .setCallback _ _
      have plan : Step source (.rest ⟨{ source := 0x80000001 }, some callback⟩)
          (.act (.plan 0xFFFFFFFF)) (.settle callback (asleep 0).schedule) := .plan rfl rfl
      have wait : Step source (.rest (asleep 0)) (.act (.environment wait)) (.rest (awake 0)) :=
        .environment rfl
      exact (Runs.single set).trans ((Runs.single plan).trans (.single wait))
  | succ n ih =>
      have serve : Step source (.rest (awake n)) .serve (.rest (asleep (n + 1))) :=
        .serve (serve_awake (Nat.le_of_lt_succ few))
      have wait : Step source (.rest (asleep (n + 1))) (.act (.environment wait))
          (.rest (awake (n + 1))) := .environment rfl
      exact (ih (Nat.le_of_succ_le few)).trans ((Runs.single serve).trans (.single wait))

end Sample.Overslept

open Sample.Overslept in
/--
One early interrupt more than a reliable source may raise, and the next one comes to a
fault.
-/
theorem faults_after_early_interrupts :
    source.Reliable ∧
      Runs source (.rest (.ofSource 0x80000001)) (history 0xFFFC0001) (.rest (awake 0xFFFC0001)) ∧
      (∀ e ∈ history 0xFFFC0001, e.deed.Tended Total) ∧
      strays (fun s => (s.early source).toNat) (history 0xFFFC0001) = 0xFFFC0001 ∧
      ∀ fuel, (awake 0xFFFC0001).interrupt source fuel = .error (.fault .subtractOverflow) := by
  refine ⟨reliable, runs (Nat.le_refl _), tended _, strays_history _, fun fuel => ?_⟩
  unfold Timer.interrupt
  rw [serve_last]
  rfl

end SlotClock
