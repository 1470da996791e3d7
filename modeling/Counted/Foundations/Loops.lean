import Mathlib

namespace Counted.Foundations

variable {σ τ : Type} (body : σ → σ ⊕ τ)

/-- Repeats a body that goes on from a new state or ends with a result, as long as there is fuel. -/
def loop : ℕ → σ → Option τ
  | 0, _ => none
  | fuel + 1, s =>
    match body s with
    | .inl s' => loop fuel s'
    | .inr t => some t

/-- The loop ends from `s` with the result `t`. -/
inductive Halts : σ → τ → Prop
  | done {s : σ} {t : τ} : body s = .inr t → Halts s t
  | next {s s' : σ} {t : τ} : body s = .inl s' → Halts s' t → Halts s t

variable {body} {s s' : σ} {t t' : τ} {fuel : ℕ}

theorem loop_inl (h : body s = .inl s') : loop body (fuel + 1) s = loop body fuel s' := by
  rw [loop, h]

theorem loop_inr (h : body s = .inr t) : loop body (fuel + 1) s = some t := by
  rw [loop, h]

theorem halts_of_loop (h : loop body fuel s = some t) : Halts body s t := by
  induction fuel generalizing s with
  | zero => cases h
  | succ fuel ih =>
    cases hs : body s with
    | inl s' =>
      rw [loop_inl hs] at h
      exact .next hs (ih h)
    | inr u =>
      rw [loop_inr hs] at h
      exact .done (hs.trans (congrArg _ (Option.some.inj h)))

/-- A loop that ends does so with all fuel from some amount on. -/
theorem Halts.loop (h : Halts body s t) : ∃ least, ∀ fuel, least ≤ fuel → loop body fuel s = some t := by
  induction h with
  | done hs =>
    refine ⟨1, fun fuel hf ↦ ?_⟩
    obtain ⟨n, rfl⟩ := Nat.exists_eq_add_of_le' hf
    exact loop_inr hs
  | next hs _ ih =>
    obtain ⟨least, hl⟩ := ih
    refine ⟨least + 1, fun fuel hf ↦ ?_⟩
    obtain ⟨n, rfl⟩ := Nat.exists_eq_add_of_le' hf
    rw [← Nat.add_assoc, loop_inl hs]
    exact hl _ (by omega)

theorem Halts.unique (h : Halts body s t) (h' : Halts body s t') : t = t' := by
  induction h with
  | done hs =>
    cases h' with
    | done hs' => exact Sum.inr.inj (hs.symm.trans hs')
    | next hs' _ => cases hs.symm.trans hs'
  | next hs _ ih =>
    cases h' with
    | done hs' => cases hs.symm.trans hs'
    | next hs' hrest => exact ih (Sum.inl.inj (hs.symm.trans hs') ▸ hrest)

/-- What the body preserves gives what its last run gives. -/
theorem Halts.invariant {P : σ → Prop} {Q : τ → Prop}
    (hP : ∀ s s', P s → body s = .inl s' → P s') (hQ : ∀ s t, P s → body s = .inr t → Q t)
    (h : Halts body s t) (h0 : P s) : Q t := by
  induction h with
  | done hs => exact hQ _ _ h0 hs
  | next hs _ ih => exact ih (hP _ _ h0 hs)

/-- A loop ends when what its body preserves gives a measure that decreases. -/
theorem halts_of_measure {P : σ → Prop} {μ : σ → ℕ}
    (hP : ∀ s s', P s → body s = .inl s' → P s' ∧ μ s' < μ s) (h0 : P s) : ∃ t, Halts body s t := by
  induction hn : μ s using Nat.strongRecOn generalizing s with
  | ind n ih =>
    cases hs : body s with
    | inl s' =>
      obtain ⟨hs', hlt⟩ := hP s s' h0 hs
      obtain ⟨t, ht⟩ := ih (μ s') (hn ▸ hlt) hs' rfl
      exact ⟨t, .next hs ht⟩
    | inr t => exact ⟨t, .done hs⟩

/-- Loops whose bodies keep their states related end with related results. -/
theorem Halts.related {σ' τ' : Type} {body' : σ' → σ' ⊕ τ'} {R : σ → σ' → Prop} {S : τ → τ' → Prop}
    {u : σ'} (hstep : ∀ s u, R s u →
      (∃ s' u', body s = .inl s' ∧ body' u = .inl u' ∧ R s' u') ∨
        ∃ t t', body s = .inr t ∧ body' u = .inr t' ∧ S t t')
    (h : Halts body s t) (hR : R s u) : ∃ t', Halts body' u t' ∧ S t t' := by
  induction h generalizing u with
  | done hs =>
    obtain ⟨s', u', hs', -, -⟩ | ⟨t, t', ht, hu, hS⟩ := hstep _ u hR
    · cases hs.symm.trans hs'
    · obtain rfl := Sum.inr.inj (hs.symm.trans ht)
      exact ⟨t', .done hu, hS⟩
  | next hs _ ih =>
    obtain ⟨s', u', hs', hu, hR'⟩ | ⟨t, t', ht, -, -⟩ := hstep _ u hR
    · obtain rfl := Sum.inl.inj (hs.symm.trans hs')
      obtain ⟨t', ht', hS⟩ := ih hR'
      exact ⟨t', .next hu ht', hS⟩
    · cases hs.symm.trans ht

end Counted.Foundations
