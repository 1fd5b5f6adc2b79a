import Mathlib.Logic.Function.Basic

/-!
# Machines with a partial step function

A machine is one initial state and a step function that is `none` where an
action is not enabled. A run condition is a predicate on the state before a
step and its action; `ReachesUnder C` are the states of the runs all of whose
steps meet `C`. Nothing here mentions a program.
-/

namespace Transition

/-- An update that keeps what `p` reads of one value keeps what it reads of all. -/
theorem map_update [DecidableEq α] {f : α → β} {a : α} {b : β} (p : β → γ) (x : α)
    (h : p b = p (f a)) : p (Function.update f a b x) = p (f x) := by
  rw [Function.apply_update fun _ => p, h]
  exact congrFun (Function.update_eq_self a _) x

structure Machine (σ : Type u) (α : Type v) where
  init : σ
  step : σ → α → Option σ

namespace Machine

variable {σ : Type u} {α : Type v} (M : Machine σ α)

/-- States reached by the runs whose every step meets `C`. -/
inductive ReachesUnder (C : σ → α → Prop) : σ → Prop
  | init : ReachesUnder C M.init
  | step {s s' a} : ReachesUnder C s → C s a → M.step s a = some s' → ReachesUnder C s'

def Always (_ : σ) (_ : α) : Prop := True

def Both (C D : σ → α → Prop) (s : σ) (a : α) : Prop := C s a ∧ D s a

abbrev Reaches : σ → Prop := M.ReachesUnder Always

def runFrom : σ → List α → Option σ
  | s, [] => some s
  | s, a :: as => (M.step s a).bind (runFrom · as)

def run (as : List α) : Option σ := M.runFrom M.init as

/-- Every step of the run of `as` from `s` meets `C`. -/
def Along (C : σ → α → Prop) : σ → List α → Prop
  | _, [] => True
  | s, a :: as => C s a ∧ match M.step s a with
    | none => True
    | some s' => Along C s' as

/-- Every state of the run of `as` from `s` has the property `P`. -/
def Throughout (P : σ → Prop) : σ → List α → Prop
  | s, [] => P s
  | s, a :: as => P s ∧ match M.step s a with
    | none => True
    | some s' => Throughout P s' as

instance decidableAlong (C : σ → α → Prop) [∀ s a, Decidable (C s a)] :
    (s : σ) → (as : List α) → Decidable (M.Along C s as)
  | _, [] => isTrue trivial
  | s, a :: as =>
    have : Decidable (match M.step s a with | none => True | some s' => M.Along C s' as) :=
      match M.step s a with
      | none => isTrue trivial
      | some s' => decidableAlong C s' as
    inferInstanceAs (Decidable (_ ∧ _))

instance decidableThroughout (P : σ → Prop) [∀ s, Decidable (P s)] :
    (s : σ) → (as : List α) → Decidable (M.Throughout P s as)
  | s, [] => inferInstanceAs (Decidable (P s))
  | s, a :: as =>
    have : Decidable (match M.step s a with | none => True | some s' => M.Throughout P s' as) :=
      match M.step s a with
      | none => isTrue trivial
      | some s' => decidableThroughout P s' as
    inferInstanceAs (Decidable (_ ∧ _))

variable {M} {C D : σ → α → Prop}

/-- What one condition implies in the states it reaches is a condition they are
reached under. -/
theorem ReachesUnder.mono (h : M.ReachesUnder C s)
    (hCD : ∀ s a, M.ReachesUnder C s → C s a → D s a) : M.ReachesUnder D s := by
  induction h with
  | init => exact .init
  | step hr hc hs ih => exact .step ih (hCD _ _ hr hc) hs

/-- The invariant rule. The step case may use what is already known of the
reachable state it starts from. -/
theorem ReachesUnder.invariant {I : σ → Prop} (h : M.ReachesUnder C s) (h0 : I M.init)
    (hstep : ∀ s a s', M.ReachesUnder C s → I s → C s a → M.step s a = some s' → I s') : I s := by
  induction h with
  | init => exact h0
  | step hr hc hs ih => exact hstep _ _ _ hr ih hc hs

/-- The simulation rule: a machine whose steps `N` takes too, or that `N` does not
see, reaches no state but those `R` relates to a state `N` reaches. -/
theorem ReachesUnder.simulate {N : Machine τ β} {R : σ → τ → Prop} (h : M.Reaches s)
    (h0 : R M.init N.init)
    (hstep : ∀ s a s' t, R s t → M.step s a = some s' →
      R s' t ∨ ∃ b t', N.step t b = some t' ∧ R s' t') : ∃ t, N.Reaches t ∧ R s t := by
  induction h with
  | init => exact ⟨N.init, .init, h0⟩
  | step _ _ hs ih =>
    obtain ⟨t, ht, hR⟩ := ih
    rcases hstep _ _ _ t hR hs with hsame | ⟨b, t', hb, hR'⟩
    · exact ⟨t, ht, hsame⟩
    · exact ⟨t', .step ht trivial hb, hR'⟩

theorem runFrom_reaches (hr : M.ReachesUnder C s) (hc : M.Along C s as)
    (hs : M.runFrom s as = some t) : M.ReachesUnder C t := by
  induction as generalizing s with
  | nil =>
    obtain rfl : s = t := Option.some.inj hs
    exact hr
  | cons a as ih =>
    obtain ⟨s', ha, has⟩ := Option.bind_eq_some_iff.mp hs
    obtain ⟨hca, hcas⟩ := hc
    rw [ha] at hcas
    exact ih (.step hr hca ha) hcas has

theorem along_always (s : σ) (as : List α) : M.Along Always s as := by
  induction as generalizing s with
  | nil => trivial
  | cons a as ih =>
    refine ⟨trivial, ?_⟩
    split
    · trivial
    · exact ih _

theorem along_congr (h : ∀ s a, C s a ↔ D s a) : M.Along C s as ↔ M.Along D s as := by
  have heq : C = D := funext fun s => funext fun a => propext (h s a)
  rw [heq]

theorem run_reachesUnder (hc : M.Along C M.init as) (hs : M.run as = some s) :
    M.ReachesUnder C s :=
  runFrom_reaches .init hc hs

theorem Along.mono (h : M.Along C s as) (hCD : ∀ s a, C s a → D s a) : M.Along D s as := by
  induction as generalizing s with
  | nil => trivial
  | cons a as ih =>
    refine ⟨hCD _ _ h.1, ?_⟩
    have hrest := h.2
    cases ha : M.step s a with
    | none => trivial
    | some s' =>
      rw [ha] at hrest
      exact ih hrest

/-- A run that does not meet `C` all along has a first part up to a step against it. -/
theorem along_or_violated (hr : M.Reaches s) (hs : M.runFrom s as = some t) :
    M.Along C s as ∨ ∃ u a u' bs, M.Reaches u ∧ ¬ C u a ∧ M.step u a = some u' ∧
      M.runFrom u' bs = some t := by
  induction as generalizing s with
  | nil => exact .inl trivial
  | cons a as ih =>
    obtain ⟨s', ha, has⟩ := Option.bind_eq_some_iff.mp hs
    by_cases hc : C s a
    · rcases ih (.step hr trivial ha) has with hall | hviolated
      · refine .inl ⟨hc, ?_⟩
        rw [ha]
        exact hall
      · exact .inr hviolated
    · exact .inr ⟨s, a, s', as, hr, hc, ha, has⟩

theorem Throughout.here {P : σ → Prop} (h : M.Throughout P s as) : P s := by
  cases as with
  | nil => exact h
  | cons a as => exact h.1

theorem Throughout.last {P : σ → Prop} (h : M.Throughout P s as) (hs : M.runFrom s as = some t) :
    P t := by
  induction as generalizing s with
  | nil =>
    obtain rfl : s = t := Option.some.inj hs
    exact h
  | cons a as ih =>
    obtain ⟨s', ha, has⟩ := Option.bind_eq_some_iff.mp hs
    have hrest := h.2
    rw [ha] at hrest
    exact ih hrest has

theorem throughout_of_along {P : σ → Prop} (hkeep : ∀ s, M.ReachesUnder C s → P s)
    (hr : M.ReachesUnder C s) (hc : M.Along C s as) : M.Throughout P s as := by
  induction as generalizing s with
  | nil => exact hkeep s hr
  | cons a as ih =>
    refine ⟨hkeep s hr, ?_⟩
    have hrest := hc.2
    cases ha : M.step s a with
    | none => trivial
    | some s' =>
      rw [ha] at hrest
      exact ih (.step hr hc.1 ha) hrest

/-- A property that the steps of a condition keep, and every step against it
breaks, holds throughout the runs that meet the condition and no others. `D` is
what the runs meet besides. -/
theorem throughout_iff_along {P : σ → Prop} (hkeep : ∀ s, M.ReachesUnder (Both C D) s → P s)
    (hbreak : ∀ s a s', M.ReachesUnder (Both C D) s → D s a → ¬ C s a → M.step s a = some s' →
      ¬ P s')
    (hr : M.ReachesUnder (Both C D) s) (hD : M.Along D s as) (hs : M.runFrom s as = some t) :
    M.Throughout P s as ↔ M.Along C s as := by
  induction as generalizing s with
  | nil => exact ⟨fun _ => trivial, fun _ => hkeep s hr⟩
  | cons a as ih =>
    obtain ⟨s', ha, has⟩ := Option.bind_eq_some_iff.mp hs
    simp only [Throughout, Along, ha] at hD ⊢
    constructor
    · rintro ⟨-, hall⟩
      by_cases hc : C s a
      · exact ⟨hc, (ih (.step hr ⟨hc, hD.1⟩ ha) hD.2 has).mp hall⟩
      · exact absurd hall.here (hbreak s a s' hr hD.1 hc ha)
    · rintro ⟨hc, hall⟩
      exact ⟨hkeep s hr, (ih (.step hr ⟨hc, hD.1⟩ ha) hD.2 has).mpr hall⟩

theorem run_throughout_iff {P : σ → Prop} (hkeep : ∀ s, M.ReachesUnder C s → P s)
    (hbreak : ∀ s a s', M.ReachesUnder C s → ¬ C s a → M.step s a = some s' → ¬ P s')
    (hs : M.run as = some t) : M.Throughout P M.init as ↔ M.Along C M.init as :=
  have hleft : ∀ {s}, M.ReachesUnder (Both C Always) s → M.ReachesUnder C s :=
    fun hr => hr.mono fun _ _ _ => And.left
  throughout_iff_along (D := Always) (fun s hr => hkeep s (hleft hr))
    (fun s a s' hr _ => hbreak s a s' (hleft hr)) .init (along_always _ _) hs

theorem runFrom_keeps {I : σ → Prop} (hI : ∀ s a s', I s → M.step s a = some s' → I s') (h : I s)
    (hs : M.runFrom s as = some t) : I t := by
  induction as generalizing s with
  | nil =>
    obtain rfl : s = t := Option.some.inj hs
    exact h
  | cons a as ih =>
    obtain ⟨s', ha, has⟩ := Option.bind_eq_some_iff.mp hs
    exact ih (hI s a s' h ha) has

theorem exists_run (as : List α) (hs : (M.run as).isSome = true) (hc : M.Along C M.init as) :
    ∃ s, M.run as = some s ∧ M.ReachesUnder C s := by
  obtain ⟨s, hs⟩ := Option.isSome_iff_exists.mp hs
  exact ⟨s, hs, run_reachesUnder hc hs⟩

theorem exists_reaches {p : σ → Bool} (as : List α) (h : (M.run as).any p = true) :
    ∃ s, M.Reaches s ∧ p s = true := by
  obtain ⟨s, hs, hp⟩ := (Option.any_eq_true _ _).mp h
  exact ⟨s, run_reachesUnder (along_always _ _) hs, hp⟩

-- ---------------------------------------------------------------------------
-- History variables
-- ---------------------------------------------------------------------------

/-- `M` beside a variable that its steps record something in and do not read. -/
def withHistory {η : Type w} (M : Machine σ α) (h₀ : η) (record : σ → α → η → η) :
    Machine (σ × η) α where
  init := (M.init, h₀)
  step p a := (M.step p.1 a).map fun s' => (s', record p.1 a p.2)

variable {η : Type w} {h₀ : η} {record : σ → α → η → η}

theorem runFrom_withHistory (x : η) (hs : M.runFrom s as = some t) :
    ∃ y, (M.withHistory h₀ record).runFrom (s, x) as = some (t, y) := by
  induction as generalizing s x with
  | nil =>
    obtain rfl : s = t := Option.some.inj hs
    exact ⟨x, rfl⟩
  | cons a as ih =>
    obtain ⟨s', ha, has⟩ := Option.bind_eq_some_iff.mp hs
    obtain ⟨y, hy⟩ := ih (record s a x) has
    have hstep : (M.withHistory h₀ record).step (s, x) a = some (s', record s a x) := by
      simp only [withHistory, ha, Option.map_some]
    refine ⟨y, ?_⟩
    rw [runFrom, hstep]
    exact hy

theorem along_withHistory (x : η) :
    (M.withHistory h₀ record).Along (fun p => C p.1) (s, x) as ↔ M.Along C s as := by
  induction as generalizing s x with
  | nil => exact Iff.rfl
  | cons a as ih =>
    refine and_congr Iff.rfl ?_
    simp only [withHistory]
    cases M.step s a with
    | none => exact Iff.rfl
    | some s' => exact ih (record s a x)

theorem ReachesUnder.fst {p : σ × η}
    (h : (M.withHistory h₀ record).ReachesUnder (fun p => C p.1) p) : M.ReachesUnder C p.1 := by
  induction h with
  | init => exact .init
  | step _ hc hs ih =>
    obtain ⟨s', ha, rfl⟩ := Option.map_eq_some_iff.mp hs
    exact .step ih hc ha

end Machine

end Transition
