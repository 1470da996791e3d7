import Counted.Litics.Tallies
import Counted.Litics.Tuples

namespace Counted.Litics

open Analytics Foundations Calendar

section

variable (rt : Runtime) (q : BreakdownQuery)

/-- The events a breakdown is about. -/
def counted (events : List RawEvent) : List RawEvent :=
  events.filter (fun event ↦ included rt event q.predicate q.event (q.filters.getD []))

/-- What the row of an event is told by. -/
def rowKey (event : RawEvent) : List (Option JsString) :=
  (keysOf q.groupBy).map (valueAt rt event)

/-- A row for each key that an event has, in the order of their first events. -/
def rowsFor (unique : Bool) (events : List RawEvent) : List BreakdownEntry :=
  (distinctKeys (rowKey rt q) (counted rt q events)).map (fun keys ↦ entryOf keys
    (measured unique (((counted rt q events).filter (fun e ↦ rowKey rt q e = keys)).map (·.actor))))

variable {rt : Runtime} {q : BreakdownQuery} {unique : Bool} {events : List RawEvent}

theorem foldl_addToGroup {keys : List (Option JsString)}
    (hkeys : ∀ e ∈ events, rowKey rt q e = keys) (hne : events ≠ []) :
    events.foldl (addToGroup rt unique (keysOf q.groupBy)) none =
      some (keys, gathered unique (events.map (·.actor))) := by
  induction events using List.reverseRecOn with
  | nil => exact absurd rfl hne
  | append_singleton events e ih =>
    rw [List.forall_mem_append, List.forall_mem_singleton] at hkeys
    rw [List.foldl_append, List.map_append, gathered, List.foldl_append, ← gathered]
    by_cases hnil : events = []
    · subst hnil
      rw [rowKey] at hkeys
      simp only [List.map_nil, List.map_cons, List.foldl_nil, List.foldl_cons, addToGroup,
        Option.getD_none, hkeys.2]
      rfl
    · rw [ih hkeys.1 hnil]
      rfl

/-- What the raw path answers a breakdown with. -/
theorem rawBreakdown_rows : rawBreakdown rt events q unique =
    rank rt q.order q.limit (rowsFor rt q unique events) := by
  have hdistinct : distinctKeys (fun event ↦ tupleText ((keysOf q.groupBy).map (valueAt rt event)))
      (counted rt q events) = (distinctKeys (rowKey rt q) (counted rt q events)).map tupleText :=
    distinctKeys_comp tupleText_injective _
  have hcounted : events.filter (fun event ↦
      included rt event q.predicate q.event (q.filters.getD [])) = counted rt q events := rfl
  simp only [rawBreakdown, hcounted, groupBy_eq, hdistinct, rowsFor]
  refine congrArg (rank rt q.order q.limit) ?_
  rw [List.map_map, List.filterMap_map, ← List.filterMap_eq_map]
  refine List.filterMap_congr (fun keys hk ↦ ?_)
  obtain ⟨a, ha, rfl⟩ := mem_distinctKeys.1 hk
  have hgroup : (counted rt q events).filter (fun event ↦
      tupleText ((keysOf q.groupBy).map (valueAt rt event)) = tupleText (rowKey rt q a)) =
      (counted rt q events).filter (fun e ↦ rowKey rt q e = rowKey rt q a) :=
    List.filter_congr (fun e _ ↦ decide_eq_decide.2 tupleText_injective.eq_iff)
  have hmem : ∀ e ∈ (counted rt q events).filter (fun e ↦ rowKey rt q e = rowKey rt q a),
      rowKey rt q e = rowKey rt q a := fun e he ↦ of_decide_eq_true (List.mem_filter.1 he).2
  have hne : (counted rt q events).filter (fun e ↦ rowKey rt q e = rowKey rt q a) ≠ [] :=
    List.ne_nil_of_mem (List.mem_filter.2 ⟨ha, decide_eq_true rfl⟩)
  simp only [Function.comp_apply, hgroup, foldl_addToGroup hmem hne, Option.map_some,
    gathered_value]

end

section

variable {rt : Runtime} {unique : Bool} {b : Bounds} {step : Step} {split : Option DimensionName}
  {q : SeriesQuery} {events store : List StoredEvent} {filters : IndexedPlan}

theorem splitField_eq (hg : q.groupBy = split.map DimensionName.text) :
    splitField q = split.map DimensionName.text := by
  rw [splitField, hg]
  cases split with
  | none => rfl
  | some d => cases d <;> rfl

theorem seriesKey_record (hg : q.groupBy = split.map DimensionName.text) (e : StoredEvent) :
    seriesKey rt q e.record = keyOf split e := by
  rw [seriesKey, splitField_eq hg]
  cases split with
  | none => rfl
  | some d => exact (e.valueAt_record rt d).trans (e.columnAt_text d)

/-- The limit on the cells of a split. -/
def withinCells (b : Bounds) (step : Step) (split : Option DimensionName)
    (events : List StoredEvent) : Prop :=
  split.isSome → (distinctKeys (keyOf split) events).length * (gridStarts b step).length ≤ maxCells

theorem bucketsFor_record (starts : List Instant) :
    bucketsFor unique starts (fun e ↦ alignFloor e.ts step) (events.map StoredEvent.record) =
      bucketsOf unique step starts events := by
  refine List.map_congr_left (fun s _ ↦ ?_)
  rw [List.filter_map, List.map_map]
  rfl

theorem distinctKeys_record (hg : q.groupBy = split.map DimensionName.text) :
    distinctKeys (seriesKey rt q) (events.map StoredEvent.record) =
      distinctKeys (keyOf split) events := by
  rw [distinctKeys, distinctKeys, List.map_map]
  exact congrArg _ (List.map_congr_left (fun e _ ↦ seriesKey_record hg e))

/-- What the raw path answers a series with, when the split has not too many cells. -/
theorem rawSeries_eq (hb : q.bounds = whole b) (hw : q.wholeWindow = false)
    (hstep : q.step = step) (hg : q.groupBy = split.map DimensionName.text)
    (hmax : (gridStarts b step).length ≤ maxBuckets)
    (h : ∀ e ∈ store.filter (·.passes filters), alignFloor b.fromMs step ≤ e.ts ∧ e.ts < b.toMs)
    (hcells : withinCells b step split (store.filter (·.passes filters)))
    (hincluded : ∀ e ∈ store, included rt e.record q.predicate q.event (q.filters.getD []) =
      e.passes filters) :
    rawSeries rt (store.map StoredEvent.record) q unique =
      .ok (seriesOf unique step (gridStarts b step) split (store.filter (·.passes filters))) := by
  have hedges : seriesEdges q = gridStarts b step := by
    simp only [seriesEdges, hw, hb, dates_whole, hstep, Bool.false_eq_true, if_false]
  have hfilter : (store.map StoredEvent.record).filter (fun event ↦
      included rt event q.predicate q.event (q.filters.getD [])) =
      (store.filter (·.passes filters)).map StoredEvent.record := by
    rw [List.filter_map]
    exact congrArg _ (List.filter_congr hincluded)
  have hkept : kept rt q (store.map StoredEvent.record) =
      (store.filter (·.passes filters)).map StoredEvent.record := hfilter
  have hnodup : (seriesEdges q).Nodup := by
    rw [hedges, gridStarts_eq hmax]
    exact (Grid.starts_pairwise _ _ _).imp ne_of_lt
  have hslot : Slotted (seriesEdges q) (fun e ↦ alignFloor e.ts step)
      (kept rt q (store.map StoredEvent.record)) := by
    rw [hkept, hedges]
    intro e he
    obtain ⟨e, hin, rfl⟩ := List.mem_map.1 he
    exact edgeSearch_starts hmax (h e hin).1 (h e hin).2
  have hfield := splitField_eq hg
  cases split with
  | none =>
    rw [rawSeries_unsplit hfield hnodup hslot, hkept, hedges, bucketsFor_record]
    rfl
  | some d =>
    have hkeys := @distinctKeys_record rt _ q (store.filter (·.passes filters)) hg
    have hroom : (distinctKeys (seriesKey rt q) (kept rt q (store.map StoredEvent.record))).length *
        (seriesEdges q).length ≤ maxCells := by
      rw [hkept, hedges, hkeys]
      exact hcells rfl
    rw [rawSeries_split (by rw [hfield]; rfl) hnodup hslot hroom, hkept, hedges, hkeys]
    refine congrArg (fun g ↦ Except.ok (Series.mk [] (some g))) (List.map_congr_left fun k _ ↦ ?_)
    rw [List.filter_map, bucketsFor_record]
    simp only [Function.comp_def, seriesKey_record hg]
    rfl

theorem tuple_record {fields : List DimensionName} (e : StoredEvent) :
    (fields.map DimensionName.text).map (valueAt rt e.record) = fields.map e.column := by
  rw [List.map_map]
  exact List.map_congr_left (fun d _ ↦ (e.valueAt_record rt d).trans (e.columnAt_text d))

/-- What the raw path answers a breakdown with. -/
theorem rawBreakdown_eq {q : BreakdownQuery} {fields : List DimensionName}
    (hg : keysOf q.groupBy = fields.map DimensionName.text)
    (hincluded : ∀ e ∈ store, included rt e.record q.predicate q.event (q.filters.getD []) =
      e.passes filters) :
    rawBreakdown rt (store.map StoredEvent.record) q unique =
      rank rt q.order q.limit (rowsOf unique fields (store.filter (·.passes filters))) := by
  have hcounted : counted rt q (store.map StoredEvent.record) =
      (store.filter (·.passes filters)).map StoredEvent.record := by
    rw [counted, List.filter_map]
    exact congrArg _ (List.filter_congr hincluded)
  have hkey (e : StoredEvent) : rowKey rt q e.record = fields.map e.column := by
    rw [rowKey, hg, tuple_record]
  rw [rawBreakdown_rows, rowsFor, hcounted, rowsOf, distinctKeys, List.map_map]
  refine congrArg (rank rt q.order q.limit) ?_
  have hkeys : rowKey rt q ∘ StoredEvent.record = fun e ↦ fields.map e.column := funext hkey
  rw [hkeys]
  refine List.map_congr_left (fun keys _ ↦ ?_)
  rw [List.filter_map, List.map_map]
  simp only [Function.comp_def, hkey]
  rfl

end

end Counted.Litics
