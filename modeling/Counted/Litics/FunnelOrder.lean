import Counted.Analytics.Summary
import Counted.Litics.FunnelLaw

namespace Counted.Litics

open Analytics Foundations Calendar

variable {ar : Arithmetic} {q : FunnelQuery} {events events' : List RawEvent} {actor : JsString}
  {k : ℕ}

theorem FirstAttempt.of_mem_iff {w : List RawEvent} (h : FirstAttempt ar q events actor k w)
    (hmem : ∀ e, e ∈ events' ↔ e ∈ events) : FirstAttempt ar q events' actor k w where
  length := h.length
  mem e he := ⟨(hmem e).2 (h.mem e he).1, (h.mem e he).2⟩
  steps := h.steps
  increasing := h.increasing
  inTime := h.inTime
  earliest first hf e he := h.earliest first hf e ((hmem e).1 he)

theorem firstAttempts_perm (h : events.Perm events') :
    {actor | ∃ w, FirstAttempt ar q events' actor k w} =
      {actor | ∃ w, FirstAttempt ar q events actor k w} := by
  ext actor
  constructor
  · rintro ⟨w, hw⟩
    exact ⟨w, hw.of_mem_iff (fun e ↦ h.mem_iff)⟩
  · rintro ⟨w, hw⟩
    exact ⟨w, hw.of_mem_iff (fun e ↦ h.symm.mem_iff)⟩

section

variable (hc : Collates ar.toRuntime)

include hc

theorem firstAttempts_mono (events : List RawEvent) (q : FunnelQuery) (k : ℕ) :
    {actor | ∃ w, FirstAttempt ar q events actor (k + 1) w}.ncard ≤
      {actor | ∃ w, FirstAttempt ar q events actor k w}.ncard := by
  refine Set.ncard_le_ncard ?_ ?_
  · rintro actor ⟨w, hw⟩
    exact hw.shorter
  · rw [← coe_reachers hc]
    exact Finset.finite_toSet _

variable (hactors : ∀ e ∈ events, ∃ n, e.actor = natText n)

include hactors

theorem rawFunnel_perm (q : FunnelQuery) (h : events.Perm events') :
    rawFunnel ar events' q = rawFunnel ar events q := by
  have hactors' : ∀ e ∈ events', ∃ n, e.actor = natText n := fun e he ↦ hactors e (h.mem_iff.2 he)
  refine List.ext_getElem? (fun k ↦ ?_)
  by_cases hk : k < 3
  · rw [rawFunnel_getElem? hc hactors hk, rawFunnel_getElem? hc hactors' hk, firstAttempts_perm h]
  · have hlen := rawFunnel_length (q := q) hc hactors
    have hlen' := rawFunnel_length (q := q) hc hactors'
    rw [List.getElem?_eq_none (by omega), List.getElem?_eq_none (by omega)]

theorem rawFunnel_falls (q : FunnelQuery) : (rawFunnel ar events q).Pairwise (· ≥ ·) := by
  rw [← List.isChain_iff_pairwise, List.isChain_iff_getElem]
  intro k hk
  have hlen := rawFunnel_length (q := q) hc hactors
  have hhere := rawFunnel_getElem? (q := q) (k := k) hc hactors (by omega)
  have hnext := rawFunnel_getElem? (q := q) (k := k + 1) hc hactors (by omega)
  rw [List.getElem?_eq_some_iff] at hhere hnext
  obtain ⟨_, hhere⟩ := hhere
  obtain ⟨_, hnext⟩ := hnext
  rw [hhere, hnext]
  exact firstAttempts_mono hc events q k

end

/-- A funnel does not depend on the order of its events, its counts can be summarised, and every
summary of counts can be shown. -/
theorem funnel_summarised (ar : Arithmetic) (hc : Collates ar.toRuntime) (hd : Doubles ar)
    (q : FunnelQuery) :
    (∀ events events', (∀ e ∈ events, ∃ n, e.actor = natText n) → events.Perm events' →
      rawFunnel ar events' q = rawFunnel ar events q) ∧
    (∀ events, (∀ e ∈ events, ∃ n, e.actor = natText n) →
      (rawFunnel ar events q).Pairwise (· ≥ ·) ∧
      ∀ f : Funnel, f.steps.length = engineFunnelSteps →
        ∃ r, f.summarize ar (numbers (rawFunnel ar events q)) = .ok r) ∧
    (∀ (f : Funnel) (counts : List ℕ) (r : FunnelResult), (∀ n ∈ counts, n ≤ 2 ^ 53) →
      f.summarize ar (numbers counts) = .ok r → r.Sound counts) ∧
    ∀ (f : Funnel) (counts : List JsNumber) (z : JsNumber),
      f.summarize (dividingZero ar z) counts = f.summarize ar counts := by
  refine ⟨?_, ?_, ?_, ?_⟩
  · intro events events' hactors h
    exact rawFunnel_perm hc hactors q h
  · intro events hactors
    have hfalls := rawFunnel_falls hc hactors q
    refine ⟨hfalls, ?_⟩
    intro f hsteps
    exact Funnel.summarize_accepts ar ((rawFunnel_length hc hactors).trans hsteps.symm) hfalls
  · intro f counts r hsmall h
    exact Funnel.summarize_sound hd hsmall h
  · intro f counts z
    exact Funnel.summarize_dividingZero f counts z

def threeViews : Funnel where
  steps := List.replicate 3 ⟨none, [js "view"], none⟩
  window := .absolute (0 : ℤ) (172800000 : ℤ)
  conversionWindow := ⟨(10800000 : ℤ)⟩
  basis := .visit

theorem funnel_summarised_sample :
    rawFunnel roundedArithmetic laterViews.reverse viewFunnel =
      rawFunnel roundedArithmetic laterViews viewFunnel ∧
    (∃ r, threeViews.summarize roundedArithmetic
      (numbers (rawFunnel roundedArithmetic laterViews viewFunnel)) = .ok r) ∧
    ∀ r, threeViews.summarize roundedArithmetic (numbers [3, 2, 0]) = .ok r → r.Sound [3, 2, 0] := by
  have hactors : ∀ e ∈ laterViews, ∃ n, e.actor = natText n :=
    List.forall_mem_map.2 (fun _ _ ↦ ⟨1, rfl⟩)
  obtain ⟨hperm, haccepts, hsound, -⟩ := funnel_summarised roundedArithmetic nodeRuntime_collates
    roundedArithmetic_doubles viewFunnel
  exact ⟨hperm laterViews laterViews.reverse hactors (List.reverse_perm _).symm,
    (haccepts laterViews hactors).2 threeViews rfl,
    fun r hr ↦ hsound threeViews [3, 2, 0] r (by decide) hr⟩

end Counted.Litics
