import Mathlib.Data.Nat.BitIndices
import Mathlib.Data.Nat.Cast.Basic
import SlotClock.Proofs.Faultless

/-!
# The intervals that a slot is cut into

An interval timer covers a slot with the longest interval within it, and what is left with
the longest interval within that.  The longest interval of the range comes first, as often as
it fits.  What is left then is below it, and every further interval is the highest bit that
is still set.  The bits below the shortest interval are dropped.

## Bits
-/

namespace SlotClock

open Counter

private theorem bitIndices_eq_concat {n s : Nat} (le : 2 ^ s ≤ n) (lt : n < 2 ^ (s + 1)) :
    n.bitIndices = (n - 2 ^ s).bitIndices ++ [s] := by
  have double : 2 ^ (s + 1) = 2 ^ s + 2 ^ s := by rw [Nat.pow_succ, Nat.mul_two]
  have sorted : ((n - 2 ^ s).bitIndices ++ [s]).SortedLT := by
    refine (List.pairwise_append.mpr ⟨Nat.bitIndices_sorted.pairwise, by simp, ?_⟩).sortedLT
    intro a mem b last
    rw [List.mem_singleton.mp last]
    have within := Nat.two_pow_le_of_mem_bitIndices mem
    exact (Nat.pow_lt_pow_iff_right (by decide)).mp (show 2 ^ a < 2 ^ s by omega)
  rw [← Nat.bitIndices_sum_map_two_pow sorted]
  simp [Nat.sub_add_cancel le]

private theorem filter_bitIndices (n k : Nat) :
    n.bitIndices.filter (k ≤ ·) = (n >>> k).bitIndices.map (· + k) := by
  refine List.SortedLT.eq_of_mem_iff ?_ ?_ fun a => ?_
  · exact (Nat.bitIndices_sorted.pairwise.filter _).sortedLT
  · rw [← Nat.bitIndices_two_pow_mul]
    exact Nat.bitIndices_sorted
  · simp only [List.mem_filter, Nat.mem_bitIndices, decide_eq_true_eq, List.mem_map,
      Nat.testBit_shiftRight]
    constructor
    · rintro ⟨set, le⟩
      exact ⟨a - k, by rwa [Nat.add_sub_cancel' le], Nat.sub_add_cancel le⟩
    · rintro ⟨b, set, rfl⟩
      exact ⟨by rwa [Nat.add_comm], Nat.le_add_left k b⟩

def popcount (n : Nat) : Nat := n.bitIndices.length

namespace IntervalRange

variable {range : IntervalRange}

/-- The shifts of the intervals that `ticks` are cut into. -/
def shifts (range : IntervalRange) (ticks : Nat) : List Nat :=
  List.replicate (ticks / 2 ^ range.maxShift) range.maxShift ++
    ((ticks % 2 ^ range.maxShift).bitIndices.filter (range.minShift ≤ ·)).reverse

def ticksOf (shifts : List Nat) : Nat := (shifts.map (2 ^ ·)).sum

theorem length_shifts (range : IntervalRange) (ticks : Nat) :
    (range.shifts ticks).length = (ticks >>> range.maxShift) +
      popcount ((ticks % 2 ^ range.maxShift) >>> range.minShift) := by
  simp [shifts, popcount, filter_bitIndices, Nat.shiftRight_eq_div_pow]

theorem ticksOf_shifts (ordered : range.minShift ≤ range.maxShift) (ticks : Nat) :
    ticksOf (range.shifts ticks) = ticks - ticks % 2 ^ range.minShift := by
  have low : ticks % 2 ^ range.maxShift % 2 ^ range.minShift = ticks % 2 ^ range.minShift :=
    Nat.mod_mod_of_dvd _ (Nat.pow_dvd_pow 2 ordered)
  have high := Nat.div_add_mod ticks (2 ^ range.maxShift)
  have rest := Nat.div_add_mod (ticks % 2 ^ range.maxShift) (2 ^ range.minShift)
  have bits : ((ticks % 2 ^ range.maxShift / 2 ^ range.minShift).bitIndices.map
      fun b => 2 ^ (b + range.minShift)).sum =
        2 ^ range.minShift * (ticks % 2 ^ range.maxShift / 2 ^ range.minShift) := by
    simp [Nat.pow_add, List.sum_map_mul_right, Nat.mul_comm]
  have whole : ticksOf (range.shifts ticks) = 2 ^ range.maxShift * (ticks / 2 ^ range.maxShift) +
      2 ^ range.minShift * (ticks % 2 ^ range.maxShift / 2 ^ range.minShift) := by
    rw [← bits]
    simp [ticksOf, shifts, filter_bitIndices, Nat.shiftRight_eq_div_pow, Function.comp_def,
      Nat.mul_comm]
  omega

theorem shifts_of_lt (ordered : range.minShift ≤ range.maxShift) {ticks : Nat}
    (below : ticks < 2 ^ range.minShift) : range.shifts ticks = [] := by
  have short : ticks < 2 ^ range.maxShift :=
    Nat.lt_of_lt_of_le below (Nat.pow_le_pow_right (by decide) ordered)
  simp [shifts, filter_bitIndices, Nat.shiftRight_eq_div_pow, Nat.div_eq_of_lt short,
    Nat.mod_eq_of_lt short, Nat.div_eq_of_lt below]

private theorem shifts_of_le {ticks shift : Nat} (lo : range.minShift ≤ shift)
    (hi : shift ≤ range.maxShift) (le : 2 ^ shift ≤ ticks)
    (greatest : shift < range.maxShift → ticks < 2 ^ (shift + 1)) :
    range.shifts ticks = shift :: range.shifts (ticks - 2 ^ shift) := by
  rcases Nat.lt_or_eq_of_le hi with lt | rfl
  · have cap : 2 ^ (shift + 1) ≤ 2 ^ range.maxShift := Nat.pow_le_pow_right (by decide) lt
    have short : ticks < 2 ^ range.maxShift := Nat.lt_of_lt_of_le (greatest lt) cap
    have shorter : ticks - 2 ^ shift < 2 ^ range.maxShift := by omega
    rw [shifts, shifts, Nat.div_eq_of_lt short, Nat.div_eq_of_lt shorter, Nat.mod_eq_of_lt short,
      Nat.mod_eq_of_lt shorter, bitIndices_eq_concat le (greatest lt)]
    simp [List.filter_append, lo]
  · obtain ⟨rest, rfl⟩ := Nat.exists_eq_add_of_le' le
    simp [shifts, Nat.add_div_right _ (Nat.two_pow_pos range.maxShift), List.replicate_succ]

end IntervalRange

variable {ρ κ : Type} {R : IntervalRegisters ρ} {range : IntervalRange} {log : ρ → List Nat}

/-! ## Registers with a log -/

/-- An interval can always be started, and the log lists the shifts of those that were. -/
structure IntervalRegisters.Logs (R : IntervalRegisters ρ) (log : ρ → List Nat) : Prop where
  start (shift : Nat) (r : ρ) : ∃ r', R.start shift r = .ok r' ∧ log r' = log r ++ [shift]
  stop (r : ρ) : log (R.stop r) = log r

theorem IntervalRegisters.Logs.returns (logs : R.Logs log) : R.Returns := by
  intro shift r
  obtain ⟨r', started, -⟩ := logs.start shift r
  exact ⟨r', started⟩

namespace Schedule

/-! ## From one interval to the next -/

structure Descends (log : ρ → List Nat) (started : List Nat) (rest : Nat)
    (s : Schedule (IntervalTimer ρ)) : Prop where
  armed : s.phase = .armed
  clear : s.due = false
  owed : s.owed.toNat = rest
  small : rest < 0x4000000000000000
  ends : s.source.EndsAt s.eventAt
  log : log s.source.regs = started

theorem Descends.onRegs {log : ρ → List Nat} {started : List Nat} {rest : Nat}
    {s : Schedule (IntervalTimer ρ)} (descends : s.Descends log started rest) {f : ρ → ρ}
    (quiet : ∀ r, log (f r) = log r) :
    Descends log started rest { s with source.regs := f s.source.regs } :=
  ⟨descends.armed, descends.clear, descends.owed, descends.small, descends.ends,
    (quiet _).trans descends.log⟩

structure Finished (log : ρ → List Nat) (started : List Nat) (s : Schedule (IntervalTimer ρ)) :
    Prop where
  unarmed : s.phase ≠ .armed
  clear : s.due = false
  log : log s.source.regs = started

variable {started : List Nat} {rest : Nat} {s s' : Schedule (IntervalTimer ρ)}

theorem Finished.leave (finished : s.Finished log started) :
    s.leaveCallback.Finished log started := by
  unfold leaveCallback
  split
  · exact ⟨Phase.noConfusion, finished.clear, finished.log⟩
  · exact finished

theorem Arms.dropped {remaining : UInt64}
    (h : Arms (IntervalTimer.source R range) s.source.counted remaining s s')
    (ordered : range.minShift ≤ range.maxShift) (small : range.maxShift < 32)
    (below : remaining.toNat < 2 ^ range.minShift) : s' = { s with due := true } := by
  have short {resolution : UInt64} (reached : range.shortest = .ok resolution) :
      ¬ resolution ≤ remaining := by
    rw [UInt64.le_iff_toNat_le, toNat_shortest (by omega) reached]
    exact Nat.not_le.mpr below
  cases h with
  | short => rfl
  | armed reached le => exact absurd le (short reached)
  | missed reached le => exact absurd le (short reached)

theorem Arms.descends {remaining : UInt64}
    (h : Arms (IntervalTimer.source R range) s.source.counted remaining s s')
    (logs : R.Logs log) (ordered : range.minShift ≤ range.maxShift) (small : range.maxShift < 32)
    (fits : remaining.toNat < 0x4000000000000000) (clear : s.due = false)
    (enough : 2 ^ range.minShift ≤ remaining.toNat) :
    ∃ shift, range.shifts remaining.toNat = shift :: range.shifts (remaining.toNat - 2 ^ shift) ∧
      2 ^ shift ≤ remaining.toNat ∧
      s'.Descends log (log s.source.regs ++ [shift]) (remaining.toNat - 2 ^ shift) := by
  have chunk : 2 ^ range.minShift ≤ (min remaining ((0x100000000 : UInt64) / 2)).toNat :=
    shortest_le_chunk ordered small rfl enough
  cases h with
  | short reached lt =>
      have shortest := toNat_shortest (by omega) reached
      rw [UInt64.lt_iff_toNat_lt, shortest] at lt
      exact absurd enough (Nat.not_le.mpr lt)
  | missed reached le arm =>
      obtain ⟨_, never, -⟩ := IntervalTimer.covered_of_arm R ordered (by omega) chunk arm
      cases never
  | armed reached le arm event rest =>
      obtain ⟨shift, interval, regs, lo, hi, within, greatest, start, exact, same, rfl⟩ :=
        IntervalTimer.started_of_arm R ordered (by omega) chunk arm
      cases same
      obtain ⟨r', begun, logged⟩ := logs.start shift s.source.regs
      cases start.symm.trans begun
      obtain ⟨-, owed⟩ := Word.toNat_of_sub_ok rest
      rw [Word.toNat_min_half] at within greatest
      change 2 ^ shift ≤ min remaining.toNat (0x100000000 / 2) at within
      change shift < range.maxShift → min remaining.toNat (0x100000000 / 2) < _ at greatest
      have longest (lt : shift < range.maxShift) : remaining.toNat < 2 ^ (shift + 1) := by
        have cap : 2 ^ (shift + 1) ≤ 2 ^ 31 := Nat.pow_le_pow_right (by decide) (by omega)
        have below := greatest lt
        omega
      refine ⟨shift, IntervalRange.shifts_of_le lo hi (by omega) longest, by omega, rfl, clear, ?_,
        by omega, ⟨_, rfl, ?_⟩, logged⟩
      · rw [← exact]
        exact owed
      · exact Shows.advance (p := 0x100000000) (by decide) (by decide) (shows_toNat _ _) event

inductive Descended (range : IntervalRange) (log : ρ → List Nat) (started : List Nat)
    (rest : Nat) : Bool → Schedule (IntervalTimer ρ) → Prop where
  | last {s' : Schedule (IntervalTimer ρ)} (none : range.shifts rest = [])
      (finished : s'.Finished log started) : Descended range log started rest true s'
  | next {s' : Schedule (IntervalTimer ρ)} {shift : Nat}
      (cut : range.shifts rest = shift :: range.shifts (rest - 2 ^ shift))
      (le : 2 ^ shift ≤ rest)
      (descends : s'.Descends log (started ++ [shift]) (rest - 2 ^ shift)) :
      Descended range log started rest false s'

theorem Descends.serve (descends : s.Descends log started rest) (logs : R.Logs log)
    (ordered : range.minShift ≤ range.maxShift) (small : range.maxShift < 32) :
    ∃ due s', s.serve (IntervalTimer.source R range) = .ok (due, s') ∧
      Descended range log started rest due s' := by
  have fits := descends.small
  have owed := descends.owed
  obtain ⟨interval, running, event⟩ := descends.ends
  obtain ⟨⟨due, s'⟩, served⟩ := serve_of_reliable (s := s)
    (IntervalTimer.reliable logs.returns ordered (show range.maxShift < 64 by omega)) (by omega)
  -- The count moves only when an interval is acknowledged, so its event is never late.
  have onTime : distance 0x100000000 s.eventAt
      (s.spent (IntervalTimer.source R range)).source.counted = .ok 0 :=
    distance_of_running running (shows_toNat _ _) event
  have same : log (s.spent (IntervalTimer.source R range)).source.regs = started := by
    show log (R.stop (IntervalTimer.acknowledge s.source).regs) = started
    simp [IntervalTimer.acknowledge, running, logs.stop, descends.log]
  have spent : (s.spent (IntervalTimer.source R range)).Finished log started :=
    ⟨Phase.noConfusion, descends.clear, same⟩
  refine ⟨due, s', served, ?_⟩
  cases serves_of_serve _ served with
  | spurious unarmed => exact absurd descends.armed unarmed
  | last _ whole =>
      have none : rest = 0 := by simp [← owed, whole]
      exact .last (IntervalRange.shifts_of_lt ordered (none ▸ Nat.two_pow_pos _)) spent
  | @passed late left _ part ended exact gone =>
      obtain rfl : late = 0 := Except.ok.inj (ended.symm.trans onTime)
      rw [Word.toSigned_of_lt (by omega)] at exact
      have left := (Signed.of_sub_ok exact).1
      exact absurd (UInt64.toNat_inj.mp (show s.owed.toNat = 0 by omega)) part
  | @onward late left s' _ part ended exact remains arms =>
      obtain rfl : late = 0 := Except.ok.inj (ended.symm.trans onTime)
      rw [Word.toSigned_of_lt (by omega)] at exact
      have whole := (Signed.of_sub_ok exact).1
      have word : (Word.ofSigned left).toNat = rest := by
        have gap := Word.toNat_ofSigned (z := left) (by omega) (by omega)
        omega
      rcases Nat.lt_or_ge rest (2 ^ range.minShift) with below | enough
      · obtain rfl := Arms.dropped (s := s.spent _) arms ordered small (word.symm ▸ below)
        exact .last (IntervalRange.shifts_of_lt ordered below) ⟨Phase.noConfusion, rfl, same⟩
      · obtain ⟨shift, cut, le, again⟩ := Arms.descends (s := s.spent _) arms logs ordered small
          (by omega) descends.clear (word.symm ▸ enough)
        rw [word, same] at again
        rw [word] at cut le
        rw [again.clear]
        exact .next cut le ⟨again.armed, rfl, again.owed, again.small, again.ends, again.log⟩

private theorem supersede_log (range : IntervalRange) (logs : R.Logs log)
    (s : Schedule (IntervalTimer ρ)) :
    (s.supersede (IntervalTimer.source R range)).source.counted = s.source.counted ∧
      log (s.supersede (IntervalTimer.source R range)).source.regs = log s.source.regs := by
  unfold supersede
  split
  · exact ⟨rfl, logs.stop _⟩
  · exact ⟨rfl, rfl⟩

theorem Plans.descends {delay : UInt32} {native carry : UInt64} {elapsed : Int} {ticks : Nat}
    (h : Plans (IntervalTimer.source R range) delay s s') (logs : R.Logs log)
    (ordered : range.minShift ≤ range.maxShift) (small : range.maxShift < 32)
    (carried : s.carry.toNat < (ratio (IntervalTimer.source R range)).den.toNat)
    (converted : (ratio (IntervalTimer.source R range)).nativeOfDelay s.carry delay =
      .ok (native, carry))
    (passed : distance 0x100000000 s.anchor s.source.counted = .ok elapsed)
    (pos : 0 < native.toNat) (ahead : (native.toNat : Int) - elapsed = ticks)
    (enough : 2 ^ range.minShift ≤ ticks) :
    ∃ shift, range.shifts ticks = shift :: range.shifts (ticks - 2 ^ shift) ∧ 2 ^ shift ≤ ticks ∧
      s'.Descends log (log s.source.regs ++ [shift]) (ticks - 2 ^ shift) := by
  obtain ⟨count, logged⟩ := supersede_log range logs s
  have long := (Ratio.of_nativeOfDelay _ _ carried converted).1 ▸
    Ratio.ticks_le_longest (IntervalTimer.source R range).rate carried delay
  obtain ⟨again, window⟩ : distance 0x100000000
      s.anchor (s.supersede (IntervalTimer.source R range)).source.counted = .ok elapsed ∧
      -0x100000000 < 2 * elapsed ∧ 2 * elapsed ≤ 0x100000000 := by
    rw [count]
    refine ⟨passed, ?_⟩
    rw [distance_eq (by decide) (by decide)] at passed
    cases passed
    exact centred_window (by decide) _
  have least := Nat.two_pow_pos range.minShift
  have located := Approach.of_eq native elapsed (by omega) (by omega) (by omega)
  rw [if_neg (by omega)] at located
  cases h with
  | due converted' _ passed' approach =>
      cases converted'.symm.trans converted
      cases passed'.symm.trans again
      cases approach.symm.trans located
  | @ahead _ _ _ anchor _ _ converted' _ passed' approach arms =>
      cases converted'.symm.trans converted
      cases passed'.symm.trans again
      cases approach.symm.trans located
      have word : (Word.ofSigned (native.toNat - elapsed)).toNat = ticks := by
        have gap := Word.toNat_ofSigned (z := native.toNat - elapsed) (by omega) (by omega)
        omega
      obtain ⟨shift, cut, le, descends⟩ := Arms.descends (s := s.moved _ carry anchor) arms logs
        ordered small (by omega) rfl (word.symm ▸ enough)
      rw [word] at cut le descends
      exact ⟨shift, cut, le, logged ▸ descends⟩

end Schedule

/-! ## Callbacks without plans -/

/-- The action plans no slot and starts no interval. -/
def Action.PlansNothing (log : ρ → List Nat) : Action (IntervalTimer ρ) → Prop
  | plan _ => False
  | environment effect =>
    ∃ f : ρ → ρ, (∀ r, log (f r) = log r) ∧ effect = fun t => .ok { t with regs := f t.regs }
  | _ => True

def Program.PlansNothing (log : ρ → List Nat) : Program (IntervalTimer ρ) κ → Prop
  | finish _ => True
  | fail _ => False
  | act a next => a.PlansNothing log ∧ ∀ s, (next s).PlansNothing log

def Callback.PlansNothing (log : ρ → List Nat) (c : Callback (IntervalTimer ρ) κ) : Prop :=
  ∀ state s, (c.body state s).PlansNothing log

open Schedule

variable {started : List Nat} {s : Schedule (IntervalTimer ρ)}

theorem Action.PlansNothing.apply {a : Action (IntervalTimer ρ)} (nothing : a.PlansNothing log)
    (range : IntervalRange) (logs : R.Logs log) (finished : s.Finished log started) :
    ∃ s', a.apply (IntervalTimer.source R range) s = .ok s' ∧ s'.Finished log started := by
  obtain ⟨unarmed, clear, logged⟩ := finished
  have stopped : log (R.stop s.source.regs) = started := (logs.stop _).trans logged
  cases a with
  | plan delay => cases nothing
  | cancel => exact ⟨_, rfl, withoutEvent_ne_armed _, rfl, stopped⟩
  | reset => exact ⟨_, rfl, withoutEvent_ne_armed _, rfl, stopped⟩
  | clear => exact ⟨_, rfl, Phase.noConfusion, rfl, stopped⟩
  | environment effect =>
      obtain ⟨f, quiet, rfl⟩ := nothing
      exact ⟨_, rfl, unarmed, clear, (quiet _).trans logged⟩

theorem Program.PlansNothing.run {p : Program (IntervalTimer ρ) κ} (nothing : p.PlansNothing log)
    (range : IntervalRange) (logs : R.Logs log) (finished : s.Finished log started) :
    ∃ state s', p.run (IntervalTimer.source R range) s = .ok (state, s') ∧
      s'.Finished log started := by
  induction p generalizing s with
  | finish state => exact ⟨state, s, rfl, finished⟩
  | fail cause => cases nothing
  | act a next ih =>
      obtain ⟨first, later⟩ := nothing
      obtain ⟨s', applied, finished'⟩ := first.apply range logs finished
      rw [Program.run, applied]
      exact ih s' (later s') finished'

namespace Timer

variable {c : Callback (IntervalTimer ρ) κ} {rest : Nat}

private theorem runCallback_of_plansNothing (range : IntervalRange) (nothing : c.PlansNothing log)
    (logs : R.Logs log) (finished : s.Finished log started) :
    ∃ c' s' s'', c.invoke (IntervalTimer.source R range) s.enterCallback = .ok (c', s') ∧
      s''.Finished log started ∧ ∀ fuel, runCallback (IntervalTimer.source R range) fuel c s =
        if fuel = 0 then .error .outOfFuel else .ok (c', s'') := by
  have entered : s.enterCallback.Finished log started :=
    ⟨Phase.noConfusion, finished.clear, finished.log⟩
  obtain ⟨state, s', ran, finished'⟩ :=
    (nothing c.state s.enterCallback).run range logs entered
  have invoked : c.invoke (IntervalTimer.source R range) s.enterCallback =
      .ok ({ c with state := state }, s') := by
    simp [Callback.invoke, ran, bind, Except.bind, pure, Except.pure]
  have left := finished'.leave
  refine ⟨_, s', s'.leaveCallback.takeDue.2, invoked, ⟨left.unarmed, rfl, left.log⟩, fun fuel => ?_⟩
  cases fuel with
  | zero => rfl
  | succ fuel =>
      rw [runCallback, invoked]
      simp [takeDue, left.clear]

def interrupts (R : IntervalRegisters ρ) (range : IntervalRange) (fuel : Nat) :
    List (ρ → ρ) → Timer (IntervalTimer ρ) κ → Except Halt (List Kick × Timer (IntervalTimer ρ) κ)
  | [], t => .ok ([], t)
  | f :: rest, t => do
    let before := { t with schedule.source.regs := f t.schedule.source.regs }
    let (kick, t) ← before.interrupt (IntervalTimer.source R range) fuel
    let (kicks, t) ← interrupts R range fuel rest t
    return (kick :: kicks, t)

variable {t : Timer (IntervalTimer ρ) κ} {fs : List (ρ → ρ)}

private theorem interrupts_cons_of_rest (set : t.callback = some c) {f : ρ → ρ}
    {s' : Schedule (IntervalTimer ρ)}
    (served : serve (IntervalTimer.source R range)
      { t.schedule with source.regs := f t.schedule.source.regs } = .ok (false, s')) (fuel : Nat) :
    interrupts R range fuel (f :: fs) t = (interrupts R range fuel fs ⟨s', some c⟩).map
      fun after => (.unwanted :: after.1, after.2) := by
  have rests := interrupt_eq_rest
    (t := { t with schedule.source.regs := f t.schedule.source.regs }) served fuel
  rw [← set]
  simp only [interrupts, rests, bind, Except.bind]
  cases interrupts R range fuel fs ⟨s', t.callback⟩ <;> rfl

theorem interrupts_of_descends (logs : R.Logs log) (ordered : range.minShift ≤ range.maxShift)
    (small : range.maxShift < 32) (set : t.callback = some c)
    (descends : t.schedule.Descends log started rest)
    (quiet : ∀ f ∈ fs, ∀ r, log (f r) = log r)
    (few : fs.length ≤ (range.shifts rest).length) :
    ∃ t' rest', (∀ fuel, interrupts R range fuel fs t =
        .ok (List.replicate fs.length .unwanted, t')) ∧ t'.callback = some c ∧
      t'.schedule.Descends log (started ++ (range.shifts rest).take fs.length) rest' ∧
      rest' + IntervalRange.ticksOf ((range.shifts rest).take fs.length) = rest := by
  induction fs generalizing t started rest with
  | nil => exact ⟨t, rest, fun _ => rfl, set, by simpa using descends, rfl⟩
  | cons f fs ih =>
      obtain ⟨due, s', served, outcome⟩ :=
        (descends.onRegs (quiet f (by simp))).serve logs ordered small
      cases outcome with
      | last none => simp [none] at few
      | @next _ shift cut le again =>
          rw [cut, List.length_cons, List.length_cons] at few
          obtain ⟨t', rest', loop, set', descends', sum⟩ := ih (t := ⟨s', some c⟩) rfl again
            (fun g mem => quiet g (by simp [mem])) (by omega)
          refine ⟨t', rest', fun fuel => ?_, set', ?_, ?_⟩
          · rw [interrupts_cons_of_rest set served, loop]
            rfl
          · simpa [cut] using descends'
          · simp [cut, IntervalRange.ticksOf] at sum ⊢
            omega

theorem interrupts_to_end (logs : R.Logs log) (ordered : range.minShift ≤ range.maxShift)
    (small : range.maxShift < 32) (set : t.callback = some c) (nothing : c.PlansNothing log)
    (descends : t.schedule.Descends log started rest)
    (quiet : ∀ f ∈ fs, ∀ r, log (f r) = log r)
    (all : fs.length = (range.shifts rest).length + 1) :
    ∃ s c' s' t', c.invoke (IntervalTimer.source R range) s = .ok (c', s') ∧
      (∀ fuel, interrupts R range fuel fs t = if fuel = 0 then .error .outOfFuel else
        .ok (List.replicate (range.shifts rest).length .unwanted ++ [.wanted], t')) ∧
      t'.callback = some c' ∧ t'.schedule.Finished log (started ++ range.shifts rest) := by
  induction fs generalizing t started rest with
  | nil => cases all
  | cons f fs ih =>
      obtain ⟨due, s', served, outcome⟩ :=
        (descends.onRegs (quiet f (by simp))).serve logs ordered small
      cases outcome with
      | last none finished =>
          obtain ⟨c', s₁, s₂, invoked, finished', run⟩ :=
            runCallback_of_plansNothing range nothing logs finished
          rw [none, List.length_nil, List.length_cons] at all
          obtain rfl : fs = [] := List.length_eq_zero_iff.mp (by omega)
          have runs := interrupt_eq_run
            (t := { t with schedule.source.regs := f t.schedule.source.regs }) set served
          refine ⟨_, c', s₁, ⟨s₂, some c'⟩, invoked, fun fuel => ?_, rfl,
            by simpa [none] using finished'⟩
          rw [interrupts, runs, run, none]
          cases fuel <;> rfl
      | @next _ shift cut le again =>
          rw [cut, List.length_cons, List.length_cons] at all
          obtain ⟨s₁, c', s₂, t', invoked, loop, set', finished⟩ := ih (t := ⟨s', some c⟩) rfl again
            (fun g mem => quiet g (by simp [mem])) (by omega)
          refine ⟨s₁, c', s₂, t', invoked, fun fuel => ?_, set', ?_⟩
          · rw [interrupts_cons_of_rest set served, loop, cut]
            split <;> rfl
          · simpa [cut] using finished

end Timer

/--
A slot that lies `ticks` ahead is covered by exactly the intervals that they are cut into.
Every interrupt but the last starts the next one and is no kick, and the last runs the
callback.  Only a plan without a tick of delay is due at once, wherever it lies.
-/
theorem slot_cut_into_intervals {minShift maxShift : Nat} {m₀ : Moment (IntervalTimer ρ) κ}
    {history : List (Entry (IntervalTimer ρ) κ)} {t : Timer (IntervalTimer ρ) κ}
    {c : Callback (IntervalTimer ρ) κ} {delay : UInt32} {native carry : UInt64} {elapsed : Int}
    {ticks : Nat} (checked : IntervalRange.checked minShift maxShift = .ok range)
    (logs : R.Logs log) (new : m₀.IsNew)
    (past : Runs (IntervalTimer.source R range) m₀ history (.rest t))
    (set : t.callback = some c) (nothing : c.PlansNothing log)
    (converted : (ratio (IntervalTimer.source R range)).nativeOfDelay t.schedule.carry delay =
      .ok (native, carry))
    (passed : distance 0x100000000 t.schedule.anchor t.schedule.source.counted = .ok elapsed)
    (pos : 0 < native.toNat) (ahead : (native.toNat : Int) - elapsed = ticks)
    (enough : 2 ^ minShift ≤ ticks) :
    let cut := range.shifts ticks
    IntervalRange.ticksOf cut = ticks - ticks % 2 ^ minShift ∧
    cut.length = (ticks >>> maxShift) + popcount ((ticks % 2 ^ maxShift) >>> minShift) ∧
    ∃ t₀, (∀ fuel, t.plan (IntervalTimer.source R range) fuel delay = .ok (.planned, t₀)) ∧
      ∀ fs : List (ρ → ρ), (∀ f ∈ fs, ∀ r, log (f r) = log r) →
        (fs.length < cut.length → ∃ t',
          (∀ fuel, Timer.interrupts R range fuel fs t₀ =
            .ok (List.replicate fs.length .unwanted, t')) ∧
          t'.callback = some c ∧ t'.schedule.phase = .armed ∧
          log t'.schedule.source.regs =
            log t.schedule.source.regs ++ cut.take (fs.length + 1) ∧
          t'.schedule.owed.toNat + IntervalRange.ticksOf (cut.take (fs.length + 1)) = ticks) ∧
        (fs.length = cut.length → ∃ s c' s' t',
          c.invoke (IntervalTimer.source R range) s = .ok (c', s') ∧
          (∀ fuel, Timer.interrupts R range fuel fs t₀ = if fuel = 0 then .error .outOfFuel else
            .ok (List.replicate (cut.length - 1) .unwanted ++ [.wanted], t')) ∧
          t'.callback = some c' ∧
          t'.schedule.Finished log (log t.schedule.source.regs ++ cut)) := by
  obtain ⟨rfl, ordered, small⟩ := IntervalRange.of_checked checked
  intro cut
  have carried := past.carry_lt new
  obtain ⟨s', planned⟩ := plan_of_reliable
    (IntervalTimer.reliable logs.returns ordered (show maxShift < 64 by omega)) carried delay
  obtain ⟨shift, first, le, descends⟩ := (plans_of_plan _ planned).descends logs ordered small
    carried converted passed pos ahead enough
  have taken : Descends log (log t.schedule.source.regs ++ [shift]) (ticks - 2 ^ shift)
      s'.takeDue.2 :=
    ⟨descends.armed, rfl, descends.owed, descends.small, descends.ends, descends.log⟩
  refine ⟨IntervalRange.ticksOf_shifts ordered ticks, IntervalRange.length_shifts _ ticks,
    ⟨s'.takeDue.2, some c⟩, Timer.plan_eq_rest set planned descends.clear,
    fun fs quiet => ⟨fun few => ?_, fun all => ?_⟩⟩
  · rw [show cut = _ from first, List.length_cons] at few
    obtain ⟨t', rest', loop, set', descends', sum⟩ :=
      Timer.interrupts_of_descends (t := ⟨s'.takeDue.2, some c⟩) logs ordered small rfl taken quiet
        (Nat.le_of_lt_succ few)
    refine ⟨t', loop, set', descends'.armed, ?_, ?_⟩
    · rw [show cut = _ from first]
      simpa using descends'.log
    · rw [show cut = _ from first, descends'.owed]
      simp [IntervalRange.ticksOf] at sum ⊢
      omega
  · rw [show cut = _ from first, List.length_cons] at all
    obtain ⟨s₁, c', s₂, t', invoked, loop, set', finished⟩ :=
      Timer.interrupts_to_end (t := ⟨s'.takeDue.2, some c⟩) logs ordered small rfl nothing taken
        quiet all
    refine ⟨s₁, c', s₂, t', invoked, fun fuel => ?_, set', ?_⟩
    · rw [loop, show cut = _ from first]
      rfl
    · rw [show cut = _ from first]
      simpa using finished

namespace Sample.FourIntervals

open Intervals

def silent : Callback (IntervalTimer (List Nat)) Nat := ⟨0, fun runs _ => .finish (runs + 1)⟩

theorem logs : registers.Logs List.reverse where
  start shift started := ⟨shift :: started, rfl, List.reverse_cons⟩
  stop _ := rfl

end Sample.FourIntervals

open Sample.Intervals Sample.FourIntervals in
theorem slot_cut_into_four_intervals : ∃ t₀ t',
    Timer.plan source 0 ⟨idle, some silent⟩ 2103301 = .ok (.planned, t₀) ∧
    Timer.interrupts registers .atmega 1 [id, id, id, id] t₀ =
      .ok ([.unwanted, .unwanted, .unwanted, .wanted], t') ∧
    t'.callback.map Callback.state = some 1 ∧
    t'.schedule.source.regs.reverse = [20, 20, 12, 11] ∧
    IntervalRange.ticksOf [20, 20, 12, 11] = 2103296 := by
  have checked : IntervalRange.checked 11 20 = .ok .atmega := rfl
  have new : (Moment.rest ⟨idle, none⟩ : Moment (IntervalTimer (List Nat)) Nat).IsNew := ⟨_, rfl⟩
  have past : Runs source (.rest ⟨idle, none⟩) [⟨.rest ⟨idle, none⟩, .setCallback silent⟩]
      (.rest ⟨idle, some silent⟩) := Runs.single (.setCallback _ _)
  have converted : (ratio source).nativeOfDelay 0 2103301 = .ok (2103301, 0) := rfl
  have passed : distance 0x100000000 0 0 = .ok 0 := rfl
  have cut : IntervalRange.atmega.shifts 2103301 = [20, 20, 12, 11] := by decide
  have ahead : ((2103301 : UInt64).toNat : Int) - 0 = (2103301 : Nat) := rfl
  obtain ⟨covered, -, t₀, planned, all⟩ :=
    slot_cut_into_intervals checked logs new past rfl (fun _ _ => trivial) converted passed
      (by decide) ahead (by decide)
  rw [cut] at covered all
  obtain ⟨s, c', s', t', invoked, loop, set, finished⟩ := (all [id, id, id, id] (by simp)).2 rfl
  cases invoked
  exact ⟨t₀, t', planned 0, loop 1, congrArg (Option.map Callback.state) set, finished.log, covered⟩

open Sample.Intervals Sample.FourIntervals in
/-- A plan without a delay starts no interval for the 5000 ticks that the slot lies ahead. -/
theorem undelayed_slot_starts_no_interval : ∃ t',
    Timer.plan source 0 ⟨idle, some silent⟩ 5000 = .ok (.planned, ⟨armed, some silent⟩) ∧
    (ratio source).nativeOfDelay armed.carry 0 = .ok (0, 0) ∧
    distance 0x100000000 armed.anchor armed.source.counted = .ok (-5000) ∧
    IntervalRange.atmega.shifts 5000 = [12] ∧
    Timer.plan source 1 ⟨armed, some silent⟩ 0 = .ok (.planned, t') ∧
    t'.schedule.phase = .idle ∧ t'.schedule.source.regs = armed.source.regs := by
  exact ⟨_, rfl, rfl, rfl, by decide, rfl, rfl, rfl⟩

end SlotClock
