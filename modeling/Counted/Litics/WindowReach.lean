import Counted.Analytics.WindowLaw
import Counted.Litics.Plan

namespace Counted.Litics

open Analytics Calendar Foundations

section

variable {ar : Arithmetic} {a b : Analysis} {from' to' now t : ℤ}

theorem windowDefects_of_defects (h : a.defects = []) : windowDefects a.window = [] := by
  cases a with
  | scalar | series | breakdown | funnel =>
    simp only [Analysis.defects, List.append_eq_nil_iff] at h
    exact h.2

/-- What the ceiling of a window lets through. -/
theorem validate_some (h : a.validate ar = .ok b) :
    windowDefects a.window = [] ∧ JsNumber.lt maxWindow (a.window.maximumSpan ar) = false := by
  rw [Analysis.validate] at h
  split_ifs at h with hdefects hspan
  rw [ne_eq, not_not] at hdefects
  exact ⟨windowDefects_of_defects hdefects, Bool.not_eq_true _ ▸ hspan⟩

/-- A span of dates that is within the limit when a double holds it. -/
theorem span_le_maxWindow (hc : Calculates ar) (hto : |to'| ≤ maxTime)
    (h : JsNumber.lt maxWindow (ar.sub to' from') = false) : to' - from' ≤ maxWindow := by
  by_contra hlong
  rw [abs_le] at hto
  have hle : JsNumber.le (from' : JsNumber) ((to' - (maxWindow + 1) : ℤ) : JsNumber) = true := by
    rw [JsNumber.intCast_le]
    apply decide_eq_true
    omega
  have hanti := hc.sub_anti to' _ _ hle
  have hbound : |to' - (maxWindow + 1)| ≤ 2 ^ 53 := by
    rw [abs_le]
    simp only [maxWindow, dayMs, maxTime] at *
    omega
  have hexact : to' - (to' - (maxWindow + 1)) = maxWindow + 1 := by ring
  rw [hc.sub_whole to' _ (by rw [abs_le]; simp only [maxTime] at *; omega) hbound
    (by rw [hexact]; decide), hexact] at hanti
  have hover : JsNumber.lt (maxWindow : JsNumber) ((maxWindow + 1 : ℤ) : JsNumber) = true := by
    rw [JsNumber.intCast_lt]
    decide
  rw [JsNumber.lt_of_lt_of_le hover hanti] at h
  cases h

/-- Between two dates an accepted window is no longer than the limit. -/
theorem accepted_length (hc : Calculates ar) (h : a.validate ar = .ok b)
    (hbounds : resolveWindow ar a.window now = ⟨(from' : ℤ), (to' : ℤ)⟩)
    (hto : |to'| ≤ maxTime) : to' - from' ≤ maxWindow := by
  obtain ⟨hdefects, hspan⟩ := validate_some h
  cases hw : a.window with
  | absolute fromMs toMs =>
    rw [hw] at hbounds hspan
    cases hbounds
    exact span_le_maxWindow hc hto hspan
  | relative amount unit =>
    rw [hw] at hbounds hspan hdefects
    have hpos : amount.le (0 : ℤ) = false := by
      rw [windowDefects] at hdefects
      split_ifs at hdefects with hle
      exact Bool.not_eq_true _ ▸ hle
    have hnow : to' = now := JsNumber.intCast_inj.1 (congrArg TimeBounds.toMs hbounds).symm
    rw [hnow]
    exact length_le_maxWindow hc hspan hpos (congrArg TimeBounds.fromMs hbounds)

/-- A step that has a length takes less than a week off the start. -/
theorem alignFloor_lt {step : Step} (h : step ≠ .month) : t - alignFloor t step < 7 * dayMs := by
  have hnext := step.grid.lt_edge_succ t
  rw [alignFloor_eq]
  cases step with
  | hour | day | week =>
    simp only [Step.grid, Grid.floor, Grid.uniform, hourMs, dayMs] at *
    omega
  | month => exact absurd rfl h

/-- No step takes more off the start than the days of its month. -/
theorem alignFloor_lt_day (t : ℤ) (step : Step) :
    t - alignFloor t step < max (7 * dayMs) (dayOfMonth t * dayMs) := by
  cases step with
  | hour | day | week => exact lt_max_of_lt_left (alignFloor_lt (by decide))
  | month =>
    apply lt_max_of_lt_right
    rw [alignFloor_eq, dayOfMonth, monthIndex]
    simp only [Step.grid, Grid.floor, monthGrid, dayMs] at *
    omega

theorem reach_of_le {start : ℤ} (h : now - start ≤ segmentRetentionDays * dayMs) :
    reach start now = .ok () := by
  refine if_neg (not_lt.2 ?_)
  rw [sub_le_comm]
  exact h

end

/-- How many visits a window had. -/
def visitsOver (w : Window) : Analysis := .scalar ⟨.unique .visit, none, w⟩ .total

end Counted.Litics
