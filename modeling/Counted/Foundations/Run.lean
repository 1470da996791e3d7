import Mathlib

namespace Counted.Foundations

variable {σ α : Type} (step : σ → α → Option σ)

/-- A run takes its actions in order and stops where one is not enabled. -/
def run (s : σ) : List α → Option σ
  | [] => some s
  | a :: l => (step s a).bind (fun t ↦ run t l)

/-- Every step a list of actions takes from `s` starts in a state that meets the condition. -/
def Along (C : σ → α → Prop) (s : σ) : List α → Prop
  | [] => True
  | a :: l => C s a ∧ ∀ t, step s a = some t → Along C t l

/-- The states a list of actions passes through, the first and the last included. -/
def Throughout (P : σ → Prop) (s : σ) : List α → Prop
  | [] => P s
  | a :: l => P s ∧ ∀ t, step s a = some t → Throughout P t l

variable {step} {C : σ → α → Prop} {P : σ → Prop} {s t : σ} {a : α} {l m : List α}

theorem run_cons (h : run step s (a :: l) = some t) :
    ∃ u, step s a = some u ∧ run step u l = some t := Option.bind_eq_some_iff.1 h

theorem run_append (s : σ) (l m : List α) :
    run step s (l ++ m) = (run step s l).bind (fun t ↦ run step t m) := by
  induction l generalizing s with
  | nil => rfl
  | cons a l ih => simp only [List.cons_append, run, ih, Option.bind_assoc]

/-- What one step preserves, a run preserves. -/
theorem run_invariant (hs : ∀ s a t, P s → step s a = some t → P t) (h0 : P s)
    (h : run step s l = some t) : P t := by
  induction l generalizing s with
  | nil => exact Option.some.inj h ▸ h0
  | cons a l ih =>
    obtain ⟨u, hu, ht⟩ := run_cons h
    exact ih (hs s a u h0 hu) ht

/-- What a step preserves when it meets the condition holds throughout a run that meets it. -/
theorem throughout_of_along (hs : ∀ s a t, P s → C s a → step s a = some t → P t) (h0 : P s)
    (h : Along step C s l) : Throughout step P s l := by
  induction l generalizing s with
  | nil => exact h0
  | cons a l ih => exact ⟨h0, fun u hu ↦ ih (hs s a u h0 h.1 hu) (h.2 u hu)⟩

/-- What every step preserves holds throughout every run. -/
theorem throughout_of_invariant (hs : ∀ s a t, P s → step s a = some t → P t) (h0 : P s)
    (l : List α) : Throughout step P s l := by
  induction l generalizing s with
  | nil => exact h0
  | cons a l ih => exact ⟨h0, fun u hu ↦ ih (hs s a u h0 hu)⟩

/-- What holds along a run holds of the step after any part of it. -/
theorem Along.after (h : Along step C s (l ++ a :: m)) (hr : run step s l = some t) : C t a := by
  induction l generalizing s with
  | nil => exact Option.some.inj hr ▸ h.1
  | cons b l ih =>
    obtain ⟨u, hu, ht⟩ := run_cons hr
    exact ih (h.2 u hu) ht

/-- What an invariant gives of each step holds along every run. -/
theorem along_of_invariant (hs : ∀ s a t, P s → step s a = some t → P t)
    (hC : ∀ s a, P s → C s a) (h0 : P s) (l : List α) : Along step C s l := by
  induction l generalizing s with
  | nil => trivial
  | cons a l ih => exact ⟨hC s a h0, fun u hu ↦ ih (hs s a u h0 hu)⟩

/-- Along a run that meets one condition, what an invariant and that condition give of a step. -/
theorem Along.imp {D : σ → α → Prop} (hs : ∀ s a t, P s → C s a → step s a = some t → P t)
    (hD : ∀ s a, P s → C s a → D s a) (h0 : P s) (h : Along step C s l) : Along step D s l := by
  induction l generalizing s with
  | nil => trivial
  | cons a l ih => exact ⟨hD s a h0 h.1, fun u hu ↦ ih (hs s a u h0 h.1 hu) (h.2 u hu)⟩

theorem Throughout.first (h : Throughout step P s l) : P s := by
  cases l with
  | nil => exact h
  | cons a l => exact h.1

theorem Throughout.last (h : Throughout step P s l) (hr : run step s l = some t) : P t := by
  induction l generalizing s with
  | nil => exact Option.some.inj hr ▸ h
  | cons a l ih =>
    obtain ⟨u, hu, ht⟩ := run_cons hr
    exact ih (h.2 u hu) ht

theorem Throughout.mono {Q : σ → Prop} (hPQ : ∀ s, P s → Q s) (h : Throughout step P s l) :
    Throughout step Q s l := by
  induction l generalizing s with
  | nil => exact hPQ s h
  | cons a l ih => exact ⟨hPQ s h.1, fun u hu ↦ ih (h.2 u hu)⟩

/-- Where a condition on a step is what keeps a property, a run keeps the property throughout
exactly if all its steps meet the condition. -/
theorem throughout_iff_along {I : σ → Prop} (hI : ∀ s a t, I s → step s a = some t → I t)
    (hC : ∀ s a t, I s → P s → step s a = some t → (P t ↔ C s a))
    (hn : ∀ s a, step s a = none → C s a) (hi : I s) (hp : P s) :
    Throughout step P s l ↔ Along step C s l := by
  induction l generalizing s with
  | nil => exact iff_of_true hp trivial
  | cons a l ih =>
    constructor
    · intro h
      refine ⟨?_, fun t ht ↦ ?_⟩
      · cases hs : step s a with
        | none => exact hn s a hs
        | some t =>
          exact (hC s a t hi hp hs).1 (h.2 t hs).first
      · exact (ih (hI s a t hi ht) (h.2 t ht).first).1 (h.2 t ht)
    · intro h
      refine ⟨hp, fun t ht ↦ ?_⟩
      exact (ih (hI s a t hi ht) ((hC s a t hi hp ht).2 h.1)).2 (h.2 t ht)

/-- A quantity no step lowers is monotone along a run. -/
theorem run_le {β : Type} [Preorder β] (f : σ → β) (hs : ∀ s a t, step s a = some t → f s ≤ f t)
    (h : run step s l = some t) : f s ≤ f t := by
  induction l generalizing s with
  | nil => exact Option.some.inj h ▸ le_rfl
  | cons a l ih =>
    obtain ⟨u, hu, ht⟩ := run_cons h
    exact (hs s a u hu).trans (ih ht)

end Counted.Foundations
