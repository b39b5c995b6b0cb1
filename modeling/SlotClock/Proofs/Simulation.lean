import SlotClock.Proofs.Outcome

/-!
# Sources that a schedule cannot tell apart

A schedule asks its source for the period, the reading and the resolution, and for an
event.  If two sources give the same answers as long as their states are alike, the
schedules on top of them do the same.  Whether a step leaves the states alike may
depend on a promise about the first source, which is made for each transition.

## Results that agree
-/

namespace SlotClock

variable {ε σ τ α β γ δ : Type}

/-- Both computations fail for the same cause, or both return and the results are related. -/
inductive Agree (rel : α → β → Prop) : Except ε α → Except ε β → Prop where
  | error (cause : ε) : Agree rel (.error cause) (.error cause)
  | ok {a : α} {b : β} (h : rel a b) : Agree rel (.ok a) (.ok b)

namespace Agree

variable {rel : α → β → Prop}

theorem refl (x : Except ε α) : Agree Eq x x := by
  cases x with
  | error cause => exact .error cause
  | ok a => exact .ok rfl

theorem mono {rel' : α → β → Prop} {x : Except ε α} {y : Except ε β} (h : Agree rel x y)
    (le : ∀ a b, x = .ok a → rel a b → rel' a b) : Agree rel' x y := by
  cases h with
  | error cause => exact .error cause
  | ok h => exact .ok (le _ _ rfl h)

theorem bind {rel' : γ → δ → Prop} {x : Except ε α} {y : Except ε β} {f : α → Except ε γ}
    {g : β → Except ε δ} (h : Agree rel x y) (next : ∀ a b, rel a b → Agree rel' (f a) (g b)) :
    Agree rel' (x >>= f) (y >>= g) := by
  cases h with
  | error cause => exact .error cause
  | ok h => exact next _ _ h

theorem bind_same {rel' : γ → δ → Prop} (x : Except ε α) {f : α → Except ε γ}
    {g : α → Except ε δ} (next : ∀ a, Agree rel' (f a) (g a)) : Agree rel' (x >>= f) (x >>= g) :=
  (refl x).bind fun a _ same => same ▸ next a

theorem ite (b : Bool) {x x' : Except ε α} {y y' : Except ε β} (yes : b = true → Agree rel x y)
    (no : Agree rel x' y') : Agree rel (if b then x else x') (if b then y else y') := by
  cases b with
  | true => exact yes rfl
  | false => exact no

theorem of_ok {x : Except ε α} {y : Except ε β} (h : Agree rel x y) {a : α} (ok : x = .ok a) :
    ∃ b, y = .ok b ∧ rel a b := by
  cases h with
  | error cause => cases ok
  | ok related =>
      cases ok
      exact ⟨_, rfl, related⟩

theorem mapError {ε' : Type} {x : Except ε α} {y : Except ε β} (f : ε → ε') (h : Agree rel x y) :
    Agree rel (x.mapError f) (y.mapError f) := by
  cases h with
  | error cause => exact .error (f cause)
  | ok h => exact .ok h

end Agree

/-! ## Sources -/

def Source.Next (lawful : σ → σ → Prop) (like : σ → τ → Prop) (x : σ) (x' : σ) (y' : τ) : Prop :=
  lawful x x' → like x' y'

/-- The same answer to arming.  A source that misses its deadline is disarmed next. -/
inductive Source.Answers (S : Source σ) (T : Source τ) (next : σ → τ → Prop) :
    Arming × σ → Arming × τ → Prop where
  | armed (covered : UInt64) {x : σ} {y : τ} (h : next x y) :
      Answers S T next (.armed covered, x) (.armed covered, y)
  | missed {x : σ} {y : τ} (h : next (S.disarm x) (T.disarm y)) :
      Answers S T next (.missed, x) (.missed, y)

/--
What a schedule asks of `T` is answered as by `S` while the states are alike.  An
event is only asked for from the current reading, and for no less than the resolution
unless half a period is less.
-/
structure Source.Simulates (S : Source σ) (T : Source τ) (lawful : σ → σ → Prop)
    (like : σ → τ → Prop) : Prop where
  rate : S.rate = T.rate
  period {x : σ} {y : τ} : like x y → S.period x = T.period y
  reading {x : σ} {y : τ} : like x y → S.reading x = T.reading y
  resolution {x : σ} {y : τ} : like x y → S.resolution x = T.resolution y
  disarm {x : σ} {y : τ} : like x y → like (S.disarm x) (T.disarm y)
  acknowledge {x : σ} {y : τ} : like x y → like (S.acknowledge x) (T.acknowledge y)
  arm {x : σ} {y : τ} {remaining resolution : UInt64} :
    like x y → S.resolution x = .ok resolution → resolution ≤ remaining →
      Agree (S.Answers T (Source.Next lawful like x))
        (S.arm (S.reading x) (min remaining (S.period x / 2)) x)
        (T.arm (S.reading x) (min remaining (S.period x / 2)) y)
  lawful_disarm {x x' : σ} : lawful x x' → lawful (S.disarm x) x'
  lawful_acknowledge {x x' : σ} : lawful x x' → lawful (S.acknowledge x) x'

/-! ## Schedules -/

namespace Schedule

inductive Alike (rel : σ → τ → Prop) : Schedule σ → Schedule τ → Prop where
  | mk {x : σ} {y : τ} {carry : UInt64} {anchor : UInt32} {phase : Phase} {eventAt : UInt32}
      {owed : UInt64} {due : Bool} (h : rel x y) :
      Alike rel ⟨x, carry, anchor, phase, eventAt, owed, due⟩
        ⟨y, carry, anchor, phase, eventAt, owed, due⟩

namespace Alike

variable {rel rel' : σ → τ → Prop} {s : Schedule σ} {t : Schedule τ}

theorem source (h : Alike rel s t) : rel s.source t.source := by
  cases h with
  | mk h => exact h

theorem due (h : Alike rel s t) : s.due = t.due := by
  cases h with
  | mk => rfl

theorem phase (h : Alike rel s t) : s.phase = t.phase := by
  cases h with
  | mk => rfl

theorem withSource (h : Alike rel s t) {x : σ} {y : τ} (same : rel' x y) :
    Alike rel' { s with source := x } { t with source := y } := by
  cases h with
  | mk => exact .mk same

theorem mono (h : Alike rel s t) (le : rel s.source t.source → rel' s.source t.source) :
    Alike rel' s t := by
  cases h with
  | mk h => exact .mk (le h)

theorem takeDue (h : Alike rel s t) : Alike rel s.takeDue.2 t.takeDue.2 := by
  cases h with
  | mk h => exact .mk h

theorem enter (h : Alike rel s t) : Alike rel s.enterCallback t.enterCallback := by
  cases h with
  | mk h => exact .mk h

theorem leave (h : Alike rel s t) : Alike rel s.leaveCallback t.leaveCallback := by
  cases h with
  | @mk _ _ _ _ phase _ _ _ h => cases phase <;> exact .mk h

end Alike

variable {S : Source σ} {T : Source τ} {lawful : σ → σ → Prop} {like : σ → τ → Prop}
  {s : Schedule σ} {t : Schedule τ}

theorem Alike.resume {x : σ} (h : Alike (Source.Next lawful like x) s t)
    (promise : lawful x s.source) : Alike like s t :=
  h.mono fun next => next promise

theorem Alike.next {x : σ} (h : Alike like s t) : Alike (Source.Next lawful like x) s t :=
  h.mono fun same _ => same

section

variable (sim : S.Simulates T lawful like)

include sim

private theorem supersede_alike (h : Alike like s t) :
    Alike like (s.supersede S) (t.supersede T) := by
  cases h with
  | @mk _ _ _ _ phase _ _ _ h =>
      cases phase with
      | armed => exact .mk (sim.disarm h)
      | idle => exact .mk h
      | running => exact .mk h

private theorem lawful_supersede {x' : σ} (promise : lawful s.source x') :
    lawful (s.supersede S).source x' := by
  unfold supersede
  split
  · exact sim.lawful_disarm promise
  · exact promise

private theorem armChunk_agree (h : Alike like s t) {base : UInt32} (current : s.reading S = base)
    (remaining : UInt64) :
    Agree (Alike (Source.Next lawful like s.source)) (s.armChunk S base remaining)
      (t.armChunk T base remaining) := by
  subst current
  cases h with
  | @mk x y carry anchor phase eventAt owed due h =>
      unfold armChunk
      simp only [reading, period, ← sim.resolution h, ← sim.period h]
      cases reached : S.resolution x with
      | error cause => exact .error cause
      | ok resolution =>
          simp only [bind, Except.bind]
          split
          next => exact .ok (.mk fun _ => h)
          next enough =>
            refine (sim.arm h reached (UInt64.not_lt.mp enough)).bind ?_
            rintro - - (⟨covered, next⟩ | ⟨next⟩)
            · exact .bind_same _ fun _ => .bind_same _ fun _ => .ok (.mk next)
            · exact .ok (.mk next)

theorem plan_agree (h : Alike like s t) (delay : UInt32) :
    Agree (Alike (Source.Next lawful like s.source)) (s.plan S delay) (t.plan T delay) := by
  have promises : ∀ x', lawful s.source x' → lawful (s.supersede S).source x' :=
    fun _ => lawful_supersede sim
  have superseded := supersede_alike sim h
  unfold plan
  generalize s.supersede S = s₁ at superseded promises ⊢
  generalize t.supersede T = t₁ at superseded ⊢
  cases superseded with
  | @mk x y carry anchor phase eventAt owed due same =>
      simp only [ratio, reading, period, ← sim.rate, ← sim.reading same, ← sim.period same]
      refine .bind_same _ fun _ => .bind_same _ fun _ => .bind_same _ fun _ => .bind_same _ ?_
      rintro (late | remaining)
      · exact .ok (.mk fun _ => same)
      · refine (armChunk_agree sim (.mk same) rfl remaining).mono fun s' t' _ alike => ?_
        exact alike.mono fun next promise => next (promises _ promise)

theorem serve_agree (h : Alike like s t) :
    Agree (fun a b => a.1 = b.1 ∧ Alike (Source.Next lawful like s.source) a.2 b.2)
      (s.serve S) (t.serve T) := by
  cases h with
  | @mk x y carry anchor phase eventAt owed due h =>
      have same := sim.disarm (sim.acknowledge h)
      have promises := fun {x'} (promise : lawful x x') =>
        sim.lawful_disarm (sim.lawful_acknowledge promise)
      unfold serve
      simp only
      split
      next armed =>
        split
        next => exact .ok ⟨rfl, .mk fun _ => same⟩
        next =>
          unfold continueWith
          simp only [reading, period, ← sim.reading same, ← sim.period same]
          refine .bind_same _ fun _ => .bind_same _ fun rest => ?_
          split
          next => exact .ok ⟨rfl, .mk fun _ => same⟩
          next =>
            refine (armChunk_agree sim (.mk same) rfl (Word.ofSigned rest)).bind fun s' t' alike => ?_
            have onward : Alike (Source.Next lawful like x) s' t' :=
              alike.mono fun next promise => next (promises promise)
            exact .ok ⟨alike.due, onward.takeDue⟩
      next => exact .ok ⟨rfl, .mk fun _ => same⟩

theorem cancel_alike (h : Alike like s t) : Alike like (s.cancel S) (t.cancel T) := by
  cases h with
  | mk h => exact .mk (sim.disarm h)

theorem reset_alike (h : Alike like s t) : Alike like (s.reset S) (t.reset T) := by
  cases h with
  | mk h => exact .mk (sim.disarm h)

theorem clear_alike (h : Alike like s t) : Alike like (s.clear S) (t.clear T) :=
  .mk (sim.disarm h.source)

end

end Schedule

end SlotClock
