import Counted.Analytics.Months
import Counted.Foundations.Decoding
import Counted.Kernel.Whole
import Counted.Litics.IndexAnswers

namespace Counted.Litics

open Analytics Foundations Calendar

/-- Bounds of whole milliseconds, as every date is. -/
def whole (b : Bounds) : TimeBounds := ⟨(b.fromMs : ℤ), (b.toMs : ℤ)⟩

theorem dates_whole (b : Bounds) : dates (whole b) = b := by
  rw [dates, whole, toInteger_intCast, toInteger_intCast]
  rfl

def endsEarly : JsString := js "the window ends at or before it starts"

theorem boundsProblem_whole (b : Bounds) :
    boundsProblem (whole b) = if b.toMs ≤ b.fromMs then some endsEarly else none := by
  have hf (t : ℤ) : isFinite (t : JsNumber) = true := rfl
  simp only [boundsProblem, whole, hf, JsNumber.intCast_le, Bool.not_true, Bool.false_eq_true, if_false,
    decide_eq_true_eq, endsEarly]

/-- Why what starts there cannot be read. -/
def reachRefusal (now start : Instant) : Option JsString :=
  if start < now - segmentRetentionDays * dayMs then
    some (js "events are kept " ++ natText segmentRetentionDays ++ js
      " days and the window starts before that; ask over a shorter window")
  else none

/-- Why a breakdown over a window cannot be read. -/
def windowRefusal (now : Instant) (b : Bounds) (step : Step) : Option JsString :=
  if b.toMs ≤ b.fromMs then some endsEarly else reachRefusal now (alignFloor b.fromMs step)

/-- Why a series over a window cannot be read. -/
def seriesRefusal (now : Instant) (b : Bounds) (step : Step) : Option JsString :=
  if b.toMs ≤ b.fromMs then some endsEarly
  else if maxBuckets < (gridStarts b step).length then
    some (tooManyBuckets step (gridStarts b step).length)
  else reachRefusal now (alignFloor b.fromMs step)

/-- The reads of a series. -/
def callsOf (additive : Bool) (b : Bounds) (step : Step) (filters : IndexedPlan)
    (columns : List JsString) : List RangeQuery :=
  match stepInterval step, additive with
  | some interval, _ => [⟨alignFloor b.fromMs step, b.toMs, interval, filters, columns⟩]
  | none, true => [⟨alignFloor b.fromMs step, b.toMs, dayMs, filters, columns⟩]
  | none, false => (monthSpans b).map (fun span ↦
      ⟨span.start, span.toMs, span.days * dayMs, filters, columns⟩)

theorem starts_head {b : Bounds} {step : Step} (hb : b.fromMs < b.toMs) :
    ∃ rest, gridStarts b step = alignFloor b.fromMs step :: rest := by
  have hlt : alignFloor b.fromMs step < b.toMs := by
    rw [alignFloor_eq]
    exact (step.grid.floor_le _).trans_lt hb
  rw [gridStarts, gridLoop, if_pos hlt]
  exact ⟨_, rfl⟩

theorem groupable_dimension (d : DimensionName) : groupable d.text = none := by
  rw [groupable, status_dimension]

theorem reach_eq (start now : Instant) : reach start now = refuseIf (reachRefusal now start) := by
  rw [reach, reachRefusal]
  split_ifs <;> rfl

theorem reachRefusal_mono {now start later : Instant} (h : reachRefusal now start = none)
    (hle : start ≤ later) : reachRefusal now later = none := by
  have hs : ¬ start < now - segmentRetentionDays * dayMs := by
    intro hlt
    rw [reachRefusal, if_pos hlt] at h
    cases h
  exact if_neg (not_lt.2 ((not_lt.1 hs).trans hle))

theorem starts_ge {b : Bounds} {step : Step} (h : (gridStarts b step).length ≤ maxBuckets)
    {start : Instant} (hs : start ∈ gridStarts b step) : alignFloor b.fromMs step ≤ start := by
  rw [gridStarts_eq h, Grid.mem_starts] at hs
  obtain ⟨i, rfl, hi, -⟩ := hs
  rw [alignFloor_eq]
  exact step.grid.strictMono.monotone hi

theorem mapM_reach {spans : List MonthSpan} {now : Instant} (mk : MonthSpan → RangeQuery)
    (h : ∀ span ∈ spans, reachRefusal now span.start = none) :
    spans.mapM (fun span ↦ do reach span.start now; pure (mk span)) = .ok (spans.map mk) := by
  induction spans with
  | nil => rfl
  | cons span spans ih =>
    rw [List.forall_mem_cons] at h
    rw [List.mapM_cons, reach_eq, h.1, ih h.2]
    rfl

section

variable {q : SeriesQuery} {b : Bounds} {filters : IndexedPlan} {now : Instant} {additive : Bool}

theorem planSeriesBase_eq (hb : q.bounds = whole b)
    (hf : planFilters q.event (q.filters.getD []) = .ok filters) :
    planSeriesBase q now additive none = (match seriesRefusal now b q.step with
      | some detail => refuse detail
      | none => .ok ⟨q.step, gridStarts b q.step, callsOf additive b q.step filters [], none⟩) := by
  have hu : refuseIf (undeclaredMeasure none) = .ok () := rfl
  have hnone : refuseIf none = .ok () := rfl
  rw [planSeriesBase, hb, boundsProblem_whole, dates_whole, hu, hf, seriesRefusal]
  by_cases hlt : b.toMs ≤ b.fromMs
  · rw [if_pos hlt, if_pos hlt]
    rfl
  obtain ⟨rest, hs⟩ := @starts_head b q.step (not_le.1 hlt)
  rw [if_neg hlt, if_neg hlt]
  simp only [hnone, ok_bind]
  by_cases hmax : maxBuckets < (gridStarts b q.step).length
  · rw [if_pos hmax, if_pos hmax]
  rw [if_neg hmax, if_neg hmax, hs]
  have hmonths : monthSpans b = (gridStarts b .month).map (fun start ↦
      ⟨start, min (advance start .month) b.toMs, round (advance start .month - start) dayMs⟩) := rfl
  cases hstep : q.step with
  | month =>
    rw [hstep] at hs hmax
    cases additive with
    | true =>
      simp only [stepInterval, callsOf, reach_eq]
      cases reachRefusal now (alignFloor b.fromMs .month) <;> rfl
    | false =>
      have hspans := hmonths
      rw [hs, List.map_cons] at hspans
      cases hr : reachRefusal now (alignFloor b.fromMs .month) with
      | some detail =>
        simp only [stepInterval, hspans, List.mapM_cons, reach_eq, hr]
        rfl
      | none =>
        have hall : ∀ span ∈ monthSpans b, reachRefusal now span.start = none := by
          rw [hmonths, List.forall_mem_map]
          exact fun start hstart ↦ reachRefusal_mono hr (starts_ge (not_lt.1 hmax) hstart)
        have hcalls := mapM_reach
          (fun span ↦ RangeQuery.mk span.start span.toMs (span.days * dayMs) filters []) hall
        simp only [stepInterval, hcalls]
        rw [← hs]
        rfl
  | _ =>
    simp only [stepInterval, callsOf, reach_eq]
    cases reachRefusal now _ <;> rfl

theorem callsOf_columns (step : Step) (columns : List JsString) :
    (callsOf additive b step filters []).map (fun call ↦ { call with groupBy := columns }) =
      callsOf additive b step filters columns := by
  cases step with
  | month =>
    cases additive with
    | true => rfl
    | false => simp only [callsOf, stepInterval, List.map_map, Function.comp_def]
  | _ => rfl

theorem planSeries_eq {split : Option DimensionName} (hb : q.bounds = whole b)
    (hg : q.groupBy = split.map DimensionName.text) (hw : q.wholeWindow = false)
    (hf : planFilters q.event (q.filters.getD []) = .ok filters) :
    planSeries q now additive none = (match seriesRefusal now b q.step with
      | some detail => refuse detail
      | none => .ok ⟨q.step, gridStarts b q.step,
          callsOf additive b q.step filters q.groupBy.toList, q.groupBy⟩) := by
  have hsplit : refuseIf (q.groupBy.bind groupable) = .ok () := by
    rw [hg]
    cases split with
    | none => rfl
    | some d =>
      rw [Option.map_some, Option.bind_some, groupable_dimension]
      rfl
  rw [planSeries, planSeriesBase_eq hb hf]
  cases seriesRefusal now b q.step with
  | some detail => rfl
  | none =>
    simp only [ok_bind, hsplit, hw, Bool.false_eq_true, if_false]
    rw [← callsOf_columns q.step q.groupBy.toList]
    rfl

end

section

variable {q : BreakdownQuery} {b : Bounds} {filters : IndexedPlan} {now : Instant}

/-- The length of the one bin of a breakdown. -/
def binOf (b : Bounds) (step : Step) : Duration :=
  if step = .hour then
    let hours := max 1 (ceilDiv (b.toMs - alignFloor b.fromMs step) hourMs)
    (if alignFloor b.fromMs step % dayMs ≠ 0 ∧ hours % 24 = 0 then hours + 1 else hours) * hourMs
  else ceilDiv (b.toMs - alignFloor b.fromMs step) dayMs * dayMs

theorem wholeWindowStride_eq (step : Step) (h : b.fromMs < b.toMs) :
    wholeWindowStride b step = some (alignFloor b.fromMs step, binOf b step) := by
  have hle : alignFloor b.fromMs step ≤ b.fromMs := by
    rw [alignFloor_eq]
    exact step.grid.floor_le _
  have hspan : ¬ b.toMs - alignFloor b.fromMs step ≤ 0 :=
    not_le.2 (sub_pos.2 (hle.trans_lt h))
  rw [wholeWindowStride]
  simp only [if_neg hspan, binOf]
  by_cases hs : step = .hour <;> simp [hs]

theorem le_ceilDiv_mul (a : ℤ) {c : ℤ} (hc : 0 < c) : a ≤ ceilDiv a c * c := by
  have := Int.ediv_mul_le (-a) hc.ne'
  rw [ceilDiv, neg_mul]
  omega

/-- The whole window is in the bin. -/
theorem span_le_binOf (step : Step) : b.toMs - alignFloor b.fromMs step ≤ binOf b step := by
  rw [binOf]
  split_ifs with hs
  · have h := le_ceilDiv_mul (b.toMs - alignFloor b.fromMs step) (c := hourMs) (by decide)
    have hmax := le_max_right 1 (ceilDiv (b.toMs - alignFloor b.fromMs step) hourMs)
    dsimp only
    refine h.trans (mul_le_mul_of_nonneg_right ?_ (by decide))
    split_ifs <;> omega
  · exact le_ceilDiv_mul _ (by decide)

theorem planBreakdown_eq {fields : List DimensionName} (hb : q.bounds = whole b)
    (hg : keysOf q.groupBy = fields.map DimensionName.text) (hn : fields.Nodup)
    (hlen : 1 ≤ fields.length ∧ fields.length ≤ 3)
    (hl : q.limit.isInteger = true ∧ q.limit.lt (1 : ℤ) = false)
    (hf : planFilters q.event (q.filters.getD []) = .ok filters) :
    planBreakdown q now none = (match windowRefusal now b q.step with
      | some detail => refuse detail
      | none => .ok ⟨keysOf q.groupBy, q.order, q.limit, ⟨alignFloor b.fromMs q.step, b.toMs,
          binOf b q.step, filters, keysOf q.groupBy⟩⟩) := by
  have hu : refuseIf (undeclaredMeasure none) = .ok () := rfl
  have hnone : refuseIf none = .ok () := rfl
  have hlimit : (!q.limit.isInteger || q.limit.lt (1 : ℤ)) = false := by rw [hl.1, hl.2]; rfl
  have hnames : ¬ ((keysOf q.groupBy).length < 1 ∨ 3 < (keysOf q.groupBy).length ∨
      ¬ (keysOf q.groupBy).Nodup) := by
    rw [hg, List.length_map]
    have hnd := hn.map DimensionName.text_injective
    rintro (h | h | h)
    · omega
    · omega
    · exact h hnd
  have hgroupable : (keysOf q.groupBy).findSome? groupable = none := by
    rw [hg, List.findSome?_eq_none_iff]
    exact List.forall_mem_map.2 (fun d _ ↦ groupable_dimension d)
  rw [planBreakdown, hb, boundsProblem_whole, dates_whole, hu, hf, windowRefusal]
  by_cases hlt : b.toMs ≤ b.fromMs
  · rw [if_pos hlt, if_pos hlt]
    rfl
  rw [if_neg hlt, if_neg hlt]
  simp only [hnone, ok_bind, hlimit, Bool.false_eq_true, if_false, if_neg hnames, hgroupable,
    wholeWindowStride_eq _ (not_le.1 hlt), reach_eq]
  cases reachRefusal now (alignFloor b.fromMs q.step) <;> rfl

end

end Counted.Litics
