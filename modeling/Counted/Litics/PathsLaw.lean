import Counted.Litics.Paths

namespace Counted.Litics

open Analytics Foundations Calendar

section

variable {unique : Bool} {step : Step} {starts : List Instant} {split : Option DimensionName}
  {fields : List DimensionName} {events events' : List StoredEvent}

theorem bucketsOf_perm (h : events.Perm events') :
    bucketsOf unique step starts events = bucketsOf unique step starts events' :=
  List.map_congr_left fun _ _ ↦ by rw [measureOf_perm (h.filter _)]

/-- A series has nothing of the order its events are read in, but for that of its groups. -/
theorem seriesOf_perm (h : events.Perm events') :
    SameSeries (seriesOf unique step starts split events)
      (seriesOf unique step starts split events') := by
  cases split with
  | none => exact ⟨bucketsOf_perm h, trivial⟩
  | some d =>
    refine ⟨rfl, ?_⟩
    refine List.Perm.trans (.of_eq (List.map_congr_left fun k _ ↦ ?_)) ((distinctKeys_perm h).map _)
    rw [bucketsOf_perm (h.filter _)]

theorem rowsOf_perm (h : events.Perm events') :
    (rowsOf unique fields events).Perm (rowsOf unique fields events') := by
  refine List.Perm.trans (.of_eq (List.map_congr_left fun k _ ↦ ?_)) ((distinctKeys_perm h).map _)
  rw [measureOf_perm (h.filter _)]

end

theorem fieldKeys_dimension (fields : List DimensionName) :
    (fields.map FieldRef.dimension).map fieldKey = fields.map DimensionName.text := by
  rw [List.map_map]
  rfl

/-- What is grouped by columns needs no event. -/
theorem needsRaw_columns (fields : List DimensionName) :
    needsRaw none (fields.map DimensionName.text) = false := by
  rw [needsRaw, List.any_map, Option.isSome_none, Bool.false_or, List.any_eq_false]
  intro d _
  cases d <;> decide

section

variable {rt : Runtime} {r : Readers} {scope : EngineScope} {store : List StoredEvent}
  {b : Bounds} {step : Step} {unique : Bool} {split : Option DimensionName}
  {condition : Option Predicate} {plan : IndexedPlan} {queries : ℕ} {p : Predicate}

/-- The events a window and a plan select. -/
def selected (b : Bounds) (plan : IndexedPlan) (store : List StoredEvent) : List StoredEvent :=
  store.filter (fun e ↦ b.fromMs ≤ e.ts && e.ts < b.toMs && e.passes plan)

/-- No event of a plan lies between the edge its window is floored to and its start. -/
def NothingBefore (b : Bounds) (step : Step) (plan : IndexedPlan) (store : List StoredEvent) :
    Prop :=
  ∀ e ∈ store, e.passes plan → alignFloor b.fromMs step ≤ e.ts → b.fromMs ≤ e.ts

theorem floor_le (b : Bounds) (step : Step) : alignFloor b.fromMs step ≤ b.fromMs := by
  rw [alignFloor_eq]
  exact step.grid.floor_le _

/-- The index reads the window from the edge it is floored to. -/
theorem between_floor (h : NothingBefore b step plan store) :
    between (alignFloor b.fromMs step) b.toMs plan store = selected b plan store := by
  refine List.filter_congr fun e he ↦ ?_
  by_cases hp : e.passes plan = true
  · have hiff : alignFloor b.fromMs step ≤ e.ts ↔ b.fromMs ≤ e.ts :=
      ⟨h e he hp, (floor_le b step).trans⟩
    rw [decide_eq_decide.2 hiff]
  · rw [Bool.not_eq_true] at hp
    rw [hp, Bool.and_false, Bool.and_false]

theorem between_congr {plan' : IndexedPlan} (h : ∀ e : StoredEvent, e.passes plan' = e.passes plan)
    (start stop : Instant) : between start stop plan' store = between start stop plan store :=
  List.filter_congr fun e _ ↦ by rw [h e]

theorem seriesRefusal_none {now : Instant} (h : seriesRefusal now b step = none) :
    b.fromMs < b.toMs ∧ (gridStarts b step).length ≤ maxBuckets := by
  rw [seriesRefusal] at h
  split_ifs at h with hle hgt
  exact ⟨not_le.1 hle, not_lt.1 hgt⟩

/-- Reading the window and then the plan selects what the plan selects in it. -/
theorem selected_perm {events : List StoredEvent}
    (h : events.Perm (store.filter (fun e ↦ b.fromMs ≤ e.ts && e.ts < b.toMs))) :
    (events.filter (·.passes plan)).Perm (selected b plan store) := by
  have hfilter := h.filter (·.passes plan)
  rw [List.filter_filter] at hfilter
  refine hfilter.trans (.of_eq (List.filter_congr fun e _ ↦ ?_))
  rw [Bool.and_comm]

section

variable {q : SeriesQuery}

/-- What a series is answered with from the index. -/
theorem series_index (hr : Exact r q.scope store) (hb : q.bounds = whole b)
    (hw : q.wholeWindow = false)
    (hg : q.groupBy = split.map DimensionName.text) (hp : q.predicate = none)
    (hf : planFilters q.event (q.filters.getD []) = .ok plan) :
    (∀ detail, seriesRefusal r.now b q.step = some detail → r.series rt unique q = refuse detail) ∧
      (seriesRefusal r.now b q.step = none → ∃ s, r.series rt unique q = .ok ⟨s, r.now⟩ ∧
        SameSeries s (seriesOf unique q.step (gridStarts b q.step) split
          (between (alignFloor b.fromMs q.step) b.toMs plan store))) := by
  have hraw : needsRaw q.predicate q.groupBy.toList = false := by
    rw [hp, hg]
    cases split with
    | none => rfl
    | some d => exact needsRaw_columns [d]
  rw [Readers.series, if_neg (by rw [hraw]; exact Bool.false_ne_true), planSeries_eq hb hg hw hf]
  refine ⟨fun detail hrefusal ↦ by rw [hrefusal]; rfl, fun hrefusal ↦ ?_⟩
  rw [hrefusal]
  obtain ⟨hlt, hmax⟩ := seriesRefusal_none hrefusal
  obtain ⟨s, hs, hsame⟩ := runSeries_index hlt hmax (hr.range unique)
  rw [hg]
  exact ⟨s, hs, hsame⟩

/-- What a series is answered with by reading events. -/
theorem series_raw (hr : Exact r q.scope store) (hb : q.bounds = whole b)
    (hw : q.wholeWindow = false)
    (hg : q.groupBy = split.map DimensionName.text) (hp : q.predicate = some p)
    (he : q.event = none) (hf : q.filters = some [])
    (hmatch : ∀ e ∈ store, p.matches e.record = e.passes plan)
    (hcells : split.isSome → (distinctKeys (keyOf split) (selected b plan store)).length *
      (gridStarts b q.step).length ≤ maxCells) :
    (∀ detail, seriesRefusal r.now b q.step = some detail → r.series rt unique q = refuse detail) ∧
      (seriesRefusal r.now b q.step = none → ∃ s, r.series rt unique q = .ok ⟨s, r.now⟩ ∧
        SameSeries
          (seriesOf unique q.step (gridStarts b q.step) split (selected b plan store)) s) := by
  have hraw : needsRaw q.predicate q.groupBy.toList = true := by rw [hp]; rfl
  have hbare : ({ q with groupBy := none, predicate := none } : SeriesQuery).groupBy =
      (none : Option DimensionName).map DimensionName.text := rfl
  have hfilters : planFilters q.event (q.filters.getD []) = .ok ⟨none, []⟩ := by rw [he, hf]; rfl
  have hbase : planSeries { q with groupBy := none, predicate := none } r.now true none = _ :=
    planSeries_eq hb hbare hw hfilters
  rw [Readers.series, if_pos hraw, hbase]
  refine ⟨fun detail hrefusal ↦ by rw [hrefusal]; rfl, fun hrefusal ↦ ?_⟩
  rw [hrefusal]
  obtain ⟨hlt, hmax⟩ := seriesRefusal_none hrefusal
  obtain ⟨events, hperm, hread⟩ := hr.raw b
  have hevents := @selected_perm store b plan events hperm
  have hmem : ∀ e ∈ events, e ∈ store := fun e h ↦ List.mem_of_mem_filter (hperm.subset h)
  have hinside : ∀ e ∈ events.filter (·.passes plan),
      alignFloor b.fromMs q.step ≤ e.ts ∧ e.ts < b.toMs := by
    intro e h
    have hwin := (List.mem_filter.1 (hperm.subset (List.mem_of_mem_filter h))).2
    simp only [Bool.and_eq_true, decide_eq_true_eq] at hwin
    exact ⟨(floor_le b q.step).trans hwin.1, hwin.2⟩
  have hroom : withinCells b q.step split (events.filter (·.passes plan)) := by
    intro hsome
    rw [(distinctKeys_perm hevents).length_eq]
    exact hcells hsome
  have hincluded : ∀ e ∈ events, included rt e.record q.predicate q.event (q.filters.getD []) =
      e.passes plan := by
    intro e h
    rw [← hmatch e (hmem e h), hp, he, hf]
    exact Bool.and_true _
  have hvalue := @rawSeries_eq rt unique b q.step split q events plan hb hw rfl hg hmax hinside
    hroom hincluded
  refine ⟨_, ?_, (seriesOf_perm hevents).symm⟩
  simp only [ok_bind, hb, dates_whole, hread, hvalue]
  rfl

end

section

variable {q : BreakdownQuery} {fields : List DimensionName}

/-- What a breakdown is answered with from the index. -/
theorem breakdown_index (hr : Exact r q.scope store) (hb : q.bounds = whole b)
    (hg : keysOf q.groupBy = fields.map DimensionName.text) (hn : fields.Nodup)
    (hlen : 1 ≤ fields.length ∧ fields.length ≤ 3)
    (hl : q.limit.isInteger = true ∧ q.limit.lt (1 : ℤ) = false) (hp : q.predicate = none)
    (hf : planFilters q.event (q.filters.getD []) = .ok plan) :
    (∀ detail, windowRefusal r.now b q.step = some detail →
      r.breakdown rt unique q = refuse detail) ∧
      (windowRefusal r.now b q.step = none → ∃ rows,
        r.breakdown rt unique q = .ok ⟨rank rt q.order q.limit rows, r.now⟩ ∧
        rows.Perm (rowsOf unique fields
          (between (alignFloor b.fromMs q.step) b.toMs plan store))) := by
  have hraw : needsRaw q.predicate (keysOf q.groupBy) = false := by
    rw [hp, hg]
    exact needsRaw_columns fields
  rw [Readers.breakdown, if_neg (by rw [hraw]; exact Bool.false_ne_true),
    planBreakdown_eq hb hg hn hlen hl hf]
  refine ⟨fun detail hrefusal ↦ by rw [hrefusal]; rfl, fun hrefusal ↦ ?_⟩
  rw [hrefusal]
  obtain ⟨rows, hrows, hperm⟩ := @runBreakdown_index rt unique fields b q.step plan store r.now _ hn
    (hr.range unique) q.order q.limit
  rw [hg]
  exact ⟨rows, hrows, hperm⟩

/-- What a breakdown is answered with by reading events. -/
theorem breakdown_raw (hr : Exact r q.scope store) (hb : q.bounds = whole b)
    (hg : keysOf q.groupBy = fields.map DimensionName.text) (hn : fields.Nodup)
    (hlen : 1 ≤ fields.length ∧ fields.length ≤ 3)
    (hl : q.limit.isInteger = true ∧ q.limit.lt (1 : ℤ) = false) (hp : q.predicate = some p)
    (he : q.event = none) (hf : q.filters = some [])
    (hmatch : ∀ e ∈ store, p.matches e.record = e.passes plan) :
    (∀ detail, windowRefusal r.now b q.step = some detail →
      r.breakdown rt unique q = refuse detail) ∧
      (windowRefusal r.now b q.step = none → ∃ rows,
        r.breakdown rt unique q = .ok ⟨rank rt q.order q.limit rows, r.now⟩ ∧
        rows.Perm (rowsOf unique fields (selected b plan store))) := by
  have hraw : needsRaw q.predicate (keysOf q.groupBy) = true := by rw [hp]; rfl
  have hnames : ¬ ((keysOf q.groupBy).length < 1 ∨ 3 < (keysOf q.groupBy).length ∨
      ¬ (keysOf q.groupBy).Nodup) := by
    rw [hg, List.length_map]
    rintro (h | h | h)
    · omega
    · omega
    · exact h (hn.map DimensionName.text_injective)
  have hfilters : planFilters q.event (q.filters.getD []) = .ok ⟨none, []⟩ := by rw [he, hf]; rfl
  have hone : keysOf (.one DimensionName.eventType.text) =
      [DimensionName.eventType].map DimensionName.text := rfl
  have hplan : planBreakdown
      { q with groupBy := .one DimensionName.eventType.text, predicate := none } r.now none = _ :=
    planBreakdown_eq hb hone (List.nodup_singleton _) (by decide) hl hfilters
  rw [Readers.breakdown, if_pos hraw, if_neg hnames, hplan]
  refine ⟨fun detail hrefusal ↦ by rw [hrefusal]; rfl, fun hrefusal ↦ ?_⟩
  rw [hrefusal]
  obtain ⟨events, hperm, hread⟩ := hr.raw b
  have hevents := @selected_perm store b plan events hperm
  have hmem : ∀ e ∈ events, e ∈ store := fun e h ↦ List.mem_of_mem_filter (hperm.subset h)
  have hincluded : ∀ e ∈ events, included rt e.record q.predicate q.event (q.filters.getD []) =
      e.passes plan := by
    intro e h
    rw [← hmatch e (hmem e h), hp, he, hf]
    exact Bool.and_true _
  refine ⟨_, ?_, rowsOf_perm hevents⟩
  have hvalue := @rawBreakdown_eq rt unique events plan q fields hg hincluded
  simp only [ok_bind, hb, dates_whole, hread, hvalue]
  rfl

end

/-- A condition served from the index holds of the events its plan keeps. -/
theorem condition_passes (h : classifyPredicate defaultCatalog condition = .indexed plan queries)
    (e : StoredEvent) : condition.all (·.matches e.record) = e.passes plan := by
  cases condition with
  | none =>
    cases h
    rfl
  | some p => exact matches_eq_passes e h

variable (rt unique) in
/-- Both answers to a series: the one of all events from the edge on, the other of those in the
window. -/
theorem series_answers (hr : Exact r scope store)
    (h : classifyPredicate defaultCatalog condition = .indexed plan queries)
    (hmatch : ∀ e ∈ store, p.matches e.record = condition.all (·.matches e.record))
    (hcells : split.isSome → (distinctKeys (keyOf split) (selected b plan store)).length *
      (gridStarts b step).length ≤ maxCells) (q q' : SeriesQuery)
    (hq : q = { indexQuery scope b step plan with groupBy := split.map DimensionName.text })
    (hq' : q' = { rawQuery scope b step p with groupBy := split.map DimensionName.text }) :
    (∀ detail, seriesRefusal r.now b step = some detail →
      r.series rt unique q = refuse detail ∧ r.series rt unique q' = refuse detail) ∧
    (seriesRefusal r.now b step = none → ∃ s t,
      r.series rt unique q = .ok ⟨s, r.now⟩ ∧ r.series rt unique q' = .ok ⟨t, r.now⟩ ∧
      SameSeries s (seriesOf unique step (gridStarts b step) split
        (between (alignFloor b.fromMs step) b.toMs plan store)) ∧
      SameSeries (seriesOf unique step (gridStarts b step) split (selected b plan store)) t) := by
  subst hq hq'
  obtain ⟨plan', hplan, hpass⟩ := planFilters_served h
  have hmatch' : ∀ e ∈ store, p.matches e.record = e.passes plan :=
    fun e he ↦ (hmatch e he).trans (condition_passes h e)
  have hi := @series_index rt r store b unique split plan'
    { indexQuery scope b step plan with groupBy := split.map DimensionName.text }
    hr rfl rfl rfl rfl hplan
  have hw := @series_raw rt r store b unique split plan p
    { rawQuery scope b step p with groupBy := split.map DimensionName.text }
    hr rfl rfl rfl rfl rfl rfl hmatch' hcells
  refine ⟨fun detail hd ↦ ⟨hi.1 detail hd, hw.1 detail hd⟩, fun hn ↦ ?_⟩
  obtain ⟨s, hs, hsame⟩ := hi.2 hn
  obtain ⟨t, ht, hsame'⟩ := hw.2 hn
  rw [between_congr hpass] at hsame
  exact ⟨s, t, hs, ht, hsame, hsame'⟩

variable (rt unique) in
/-- Both answers to a breakdown. -/
theorem breakdown_answers {fields : List DimensionName} {groupBy : GroupKey} {order : SortDirection}
    {limit : JsNumber} (hr : Exact r scope store)
    (h : classifyPredicate defaultCatalog condition = .indexed plan queries)
    (hg : keysOf groupBy = fields.map DimensionName.text) (hn : fields.Nodup)
    (hlen : 1 ≤ fields.length ∧ fields.length ≤ 3)
    (hl : limit.isInteger = true ∧ limit.lt (1 : ℤ) = false)
    (hmatch : ∀ e ∈ store, p.matches e.record = condition.all (·.matches e.record))
    (q q' : BreakdownQuery)
    (hq : q = breakdownQuery (indexQuery scope b step plan) groupBy order limit)
    (hq' : q' = breakdownQuery (rawQuery scope b step p) groupBy order limit) :
    (∀ detail, windowRefusal r.now b step = some detail →
      r.breakdown rt unique q = refuse detail ∧ r.breakdown rt unique q' = refuse detail) ∧
    (windowRefusal r.now b step = none → ∃ rows rows',
      r.breakdown rt unique q = .ok ⟨rank rt order limit rows, r.now⟩ ∧
      r.breakdown rt unique q' = .ok ⟨rank rt order limit rows', r.now⟩ ∧
      rows.Perm (rowsOf unique fields (between (alignFloor b.fromMs step) b.toMs plan store)) ∧
      rows'.Perm (rowsOf unique fields (selected b plan store))) := by
  subst hq hq'
  obtain ⟨plan', hplan, hpass⟩ := planFilters_served h
  have hmatch' : ∀ e ∈ store, p.matches e.record = e.passes plan :=
    fun e he ↦ (hmatch e he).trans (condition_passes h e)
  have hi := @breakdown_index rt r store b unique plan'
    (breakdownQuery (indexQuery scope b step plan) groupBy order limit) fields
    hr rfl hg hn hlen hl rfl hplan
  have hw := @breakdown_raw rt r store b unique plan p
    (breakdownQuery (rawQuery scope b step p) groupBy order limit) fields
    hr rfl hg hn hlen hl rfl rfl rfl hmatch'
  refine ⟨fun detail hd ↦ ⟨hi.1 detail hd, hw.1 detail hd⟩, fun hnone ↦ ?_⟩
  obtain ⟨rows, hrows, hperm⟩ := hi.2 hnone
  obtain ⟨rows', hrows', hperm'⟩ := hw.2 hnone
  rw [between_congr hpass] at hperm
  exact ⟨rows, rows', hrows, hrows', hperm, hperm'⟩

end

theorem exists_columns {l : List FieldRef} (h : ∀ f ∈ l, ∃ d, f = .dimension d) :
    ∃ fields : List DimensionName, l = fields.map FieldRef.dimension := by
  induction l with
  | nil => exact ⟨[], rfl⟩
  | cons f l ih =>
    rw [List.forall_mem_cons] at h
    obtain ⟨d, rfl⟩ := h.1
    obtain ⟨fields, rfl⟩ := ih h.2
    exact ⟨d :: fields, rfl⟩

/-- What a series answered from the index is split by. -/
theorem exists_split {groupBy : Option FieldRef} (h : ∀ f ∈ groupBy.toList, ∃ d, f = .dimension d) :
    ∃ split : Option DimensionName, groupBy = split.map FieldRef.dimension := by
  cases groupBy with
  | none => exact ⟨none, rfl⟩
  | some f =>
    obtain ⟨d, rfl⟩ := h f (List.mem_singleton_self _)
    exact ⟨some d, rfl⟩

theorem fieldKey_split (split : Option DimensionName) :
    (split.map FieldRef.dimension).map fieldKey = split.map DimensionName.text := by
  cases split <;> rfl

theorem limit_of_defects {limit : JsNumber} {max : ℕ} (h : limitDefects limit max = []) :
    limit.isInteger = true ∧ limit.lt (1 : ℤ) = false := by
  rw [limitDefects] at h
  split_ifs at h with hl
  simp only [Bool.and_eq_true, Bool.not_eq_true'] at hl
  exact hl.1

theorem keysOf_groupKeyOf {groupBy : Grouping} {fields : List DimensionName}
    (h : groupBy.fields = fields.map FieldRef.dimension) :
    keysOf (groupKeyOf groupBy) = fields.map DimensionName.text := by
  have hk : keysOf (groupKeyOf groupBy) = groupBy.fields.map fieldKey := by
    cases groupBy <;> rfl
  rw [hk, h, fieldKeys_dimension]

section

variable {rt : Runtime} {r : Readers} {scope : EngineScope} {store : List StoredEvent}
  {a : Analysis} {b : Bounds} {step : Step} {plan : IndexedPlan} {queries : ℕ} {p : Predicate}
  {now : Instant}

/-- A store that both ways read, and a predicate that is the condition of the question on it. -/
structure Asked (a : Analysis) (scope : EngineScope) (b : Bounds) (step : Step) (now : Instant)
    (store : List StoredEvent) (r : Readers) (p : Predicate) : Prop where
  clock : r.now = now
  exact : Exact r scope store
  condition : ∀ e ∈ store, p.matches e.record = a.condition.all (·.matches e.record)
  cells : CellsWithin a b step p store

/-- What a breakdown answered from the index is by. -/
theorem breakdown_columns {common : MetricCommon} {groupBy : Grouping} {order : SortDirection}
    {limit : JsNumber} (ha : (Analysis.breakdown common groupBy order limit).defects = [])
    (hcolumns : ∀ f ∈ groupBy.fields, ∃ d, f = .dimension d) :
    (∃ fields : List DimensionName, groupBy.fields = fields.map FieldRef.dimension ∧ fields.Nodup ∧
      1 ≤ fields.length ∧ fields.length ≤ 3) ∧
      limit.isInteger = true ∧ limit.lt (1 : ℤ) = false := by
  obtain ⟨fields, hfields⟩ := exists_columns hcolumns
  simp only [Analysis.defects, List.append_eq_nil_iff] at ha
  obtain ⟨⟨⟨⟨-, hlength⟩, hgroups⟩, hlimit⟩, -⟩ := ha
  rw [hfields, List.length_map] at hlength
  split_ifs at hlength with hlen
  have hnodup : (groupBy.fields.map FieldRef.toKey).Nodup := by
    by_contra hn
    rw [groupDefects, if_neg hn] at hgroups
    cases hgroups
  rw [hfields, List.map_map] at hnodup
  have hmax : maxBreakdownFields = 3 := rfl
  exact ⟨⟨fields, hfields, hnodup.of_map _, by omega, by omega⟩, limit_of_defects hlimit⟩

theorem Asked.cells_selected {common : MetricCommon} {grain : Grain} {d : DimensionName}
    {limit : Option JsNumber} (hask : Asked a scope b step now store r p)
    (ha : a = .series common grain (some (.dimension d)) limit)
    (h : classifyPredicate defaultCatalog a.condition = .indexed plan queries) :
    (distinctKeys (keyOf (some d)) (selected b plan store)).length * (gridStarts b step).length ≤
      maxCells := by
  have hcells := hask.cells common grain (.dimension d) limit ha
  have hsel : selected b plan store = store.filter (fun e ↦
      b.fromMs ≤ e.ts && e.ts < b.toMs && p.matches e.record) :=
    List.filter_congr fun e he ↦ by rw [hask.condition e he, condition_passes h e]
  rw [hsel]
  exact hcells

/-- Where no event comes before the window in its first interval, both ways answer the same. -/
theorem paths_agree (rt : Runtime) (ha : a.defects = []) (hf : ∀ f, a ≠ .funnel f)
    (h : a.answerability defaultCatalog = .indexed plan queries)
    (hask : Asked a scope b step now store r p)
    (hgap : refusalOf a now b step = none → NothingBefore b step plan store) :
    PathsAgree rt r a (indexQuery scope b step plan) (rawQuery scope b step p) := by
  obtain ⟨⟨n, hc⟩, hcolumns⟩ := answerability_default hf h
  obtain ⟨rfl, hr, hmatch, -⟩ := id hask
  cases a with
  | scalar => trivial
  | funnel f => exact absurd rfl (hf f)
  | series common grain groupBy limit =>
    obtain ⟨split, rfl⟩ := exists_split hcolumns
    have hcells : split.isSome → (distinctKeys (keyOf split) (selected b plan store)).length *
        (gridStarts b step).length ≤ maxCells := by
      cases split with
      | none => nofun
      | some d => exact fun _ ↦ hask.cells_selected rfl hc
    have hq := series_answers rt (common.measure ≠ .count) hr hc hmatch hcells _ _ rfl rfl
    rw [PathsAgree, fieldKey_split]
    cases hrefusal : seriesRefusal r.now b step with
    | some detail =>
      obtain ⟨hi, hw⟩ := hq.1 detail hrefusal
      rw [hi, hw]
      rfl
    | none =>
      obtain ⟨s, t, hs, ht, hsame, hsame'⟩ := hq.2 hrefusal
      rw [between_floor (hgap hrefusal)] at hsame
      rw [hs, ht]
      exact ⟨hsame.trans hsame', rfl⟩
  | breakdown common groupBy order limit =>
    obtain ⟨⟨fields, hfields, hn, hlen⟩, hl⟩ := breakdown_columns ha hcolumns
    have hq := breakdown_answers rt (common.measure ≠ .count) hr hc (keysOf_groupKeyOf hfields) hn
      hlen hl hmatch
      (breakdownQuery (indexQuery scope b step plan) (groupKeyOf groupBy) order limit) _ rfl rfl
    rw [PathsAgree]
    cases hrefusal : windowRefusal r.now b step with
    | some detail =>
      obtain ⟨hi, hw⟩ := hq.1 detail hrefusal
      rw [hi, hw]
      rfl
    | none =>
      obtain ⟨rows, rows', hi, hw, hperm, hperm'⟩ := hq.2 hrefusal
      rw [between_floor (hgap hrefusal)] at hperm
      rw [hi, hw]
      exact ⟨⟨rows, rows', hperm.trans hperm'.symm, rfl, rfl⟩, rfl⟩

end

/-- Readers of a store that answer exactly. -/
def exactReaders (now : Instant) (store : List StoredEvent) : Readers where
  now := now
  range unique _ q := .ok (exactRows q unique store)
  raw _ b := .ok ((store.filter (fun e ↦ b.fromMs ≤ e.ts && e.ts < b.toMs)).map StoredEvent.record)

theorem exactReaders_exact (now : Instant) (scope : EngineScope) (store : List StoredEvent) :
    Exact (exactReaders now store) scope store where
  range _ _ := ⟨_, rfl, .refl _⟩
  raw _ := ⟨_, .refl _, rfl⟩

/-- What comes before a time in its interval has the same edge. -/
theorem alignFloor_before {t u : ℤ} {step : Step} (hlo : alignFloor u step ≤ t) (hhi : t < u) :
    alignFloor t step = alignFloor u step := by
  rw [alignFloor_eq] at hlo
  rw [alignFloor_eq, alignFloor_eq]
  refine step.grid.floor_eq_edge_iff.2 (le_antisymm ?_ (step.grid.edge_le_iff.1 hlo))
  exact step.grid.edge_le_iff.1 ((step.grid.floor_le t).trans hhi.le)

/-- The index is asked only for what an event can be. -/
theorem exists_event {condition : Option Predicate} {plan : IndexedPlan} {queries : ℕ}
    (h : classifyPredicate defaultCatalog condition = .indexed plan queries) (ts : ℤ) :
    ∃ e : StoredEvent, e.ts = ts ∧ e.passes plan = true := by
  cases condition with
  | none =>
    cases h
    exact ⟨⟨ts, [], fun _ ↦ none, []⟩, rfl, rfl⟩
  | some p =>
    obtain ⟨rs, hrs, hn, rfl, -⟩ := classify_default.1 h
    have hleaf : ∀ r ∈ rs, ∃ leaf, Restriction.ofLeaf leaf = some r := by
      intro r hr
      obtain ⟨leaf, -, hl⟩ := List.mem_map.1 (hrs ▸ List.mem_map_of_mem hr)
      exact ⟨leaf, hl⟩
    obtain ⟨column, hc⟩ := exists_column hleaf hn
    refine ⟨⟨ts, [], column, []⟩, rfl, ?_⟩
    rw [passes_plan _ hn]
    exact hc

section

variable {unique : Bool} {b : Bounds} {step : Step} {split : Option DimensionName} {e : StoredEvent}

theorem measureOf_single (unique : Bool) (e : StoredEvent) : measureOf unique [e] = 1 := by
  cases unique <;> rfl

/-- One event more in the first interval is seen. -/
theorem seriesOf_single (hb : b.fromMs < b.toMs)
    (he : alignFloor e.ts step = alignFloor b.fromMs step) :
    ¬ SameSeries (seriesOf unique step (gridStarts b step) split [e])
      (seriesOf unique step (gridStarts b step) split []) := by
  intro h
  cases split with
  | none =>
    obtain ⟨rest, hs⟩ := @starts_head b step hb
    have hbuckets := h.1
    simp only [seriesOf, bucketsOf, hs, List.map_cons, List.cons.injEq, EngineBucket.mk.injEq,
      true_and] at hbuckets
    have hfilter : [e].filter (fun e ↦ alignFloor e.ts step = alignFloor b.fromMs step) = [e] := by
      rw [List.filter_cons_of_pos (by rw [he]; exact decide_eq_true rfl)]
      rfl
    have hone := hbuckets.1
    rw [hfilter, measureOf_single, List.filter_nil, measureOf_nil, JsNumber.intCast_inj] at hone
    omega
  | some d =>
    have hlength := (h.2 : List.Perm _ _).length_eq
    rw [List.length_map, List.length_map] at hlength
    cases hlength

end

theorem rank_length (rt : Runtime) (order : SortDirection) (limit : JsNumber)
    (rows : List BreakdownEntry) :
    (rank rt order limit rows).length = min ((toInteger limit).getD 0).toNat rows.length := by
  rw [rank, List.length_take, List.length_mergeSort]

theorem limit_pos {limit : JsNumber} (h : limit.isInteger = true ∧ limit.lt (1 : ℤ) = false) :
    0 < ((toInteger limit).getD 0).toNat := by
  obtain ⟨m, rfl⟩ := JsNumber.isInteger_iff.1 h.1
  have hm := h.2
  rw [JsNumber.intCast_lt, decide_eq_false_iff_not] at hm
  rw [toInteger_intCast, Option.getD_some]
  omega

/-- A ranking shows a row where there is one. -/
theorem not_sameRanking {rt : Runtime} {order : SortDirection} {limit : JsNumber}
    {rows rows' : List BreakdownEntry}
    (hl : limit.isInteger = true ∧ limit.lt (1 : ℤ) = false) (h : rows ≠ []) (h' : rows' = []) :
    ¬ SameRanking rt order limit (rank rt order limit rows) (rank rt order limit rows') := by
  rintro ⟨l, m, hperm, hrows, hrows'⟩
  have hpos := limit_pos hl
  have hne := List.length_pos_iff.2 h
  have hlength := congrArg List.length hrows
  have hlength' := congrArg List.length hrows'
  rw [rank_length, rank_length] at hlength hlength'
  rw [h', ← hperm.length_eq, List.length_nil] at hlength'
  omega

section

variable {a : Analysis} {r : Readers} {scope : EngineScope} {b : Bounds} {step : Step}
  {plan : IndexedPlan} {queries : ℕ} {p : Predicate} {e : StoredEvent} {now : Instant}

/-- An event between the edge and the start of the window is counted by the index, and not by the
scan. -/
theorem paths_differ (rt : Runtime) (ha : a.defects = []) (hf : ∀ f, a ≠ .funnel f)
    (hs : ∀ common summary, a ≠ .scalar common summary)
    (h : a.answerability defaultCatalog = .indexed plan queries)
    (hask : Asked a scope b step now [e] r p) (hnone : refusalOf a now b step = none)
    (hpass : e.passes plan = true) (hlo : alignFloor b.fromMs step ≤ e.ts) (hhi : e.ts < b.fromMs) :
    ¬ PathsAgree rt r a (indexQuery scope b step plan) (rawQuery scope b step p) := by
  intro hagree
  obtain ⟨⟨n, hc⟩, hcolumns⟩ := answerability_default hf h
  have hselected : selected b plan [e] = [] := by
    rw [selected, List.filter_cons_of_neg (by simp [not_le.2 hhi])]
    rfl
  have hbetween (hb : b.fromMs < b.toMs) :
      between (alignFloor b.fromMs step) b.toMs plan [e] = [e] := by
    rw [between, List.filter_cons_of_pos]
    · rfl
    · rw [hpass, decide_eq_true hlo, decide_eq_true (hhi.trans hb)]
      rfl
  obtain ⟨rfl, hr, hmatch, -⟩ := id hask
  cases a with
  | scalar common summary => exact hs common summary rfl
  | funnel f => exact hf f rfl
  | series common grain groupBy limit =>
    obtain ⟨split, rfl⟩ := exists_split hcolumns
    have hcells : split.isSome → (distinctKeys (keyOf split) (selected b plan [e])).length *
        (gridStarts b step).length ≤ maxCells := by
      intro _
      rw [hselected]
      exact (Nat.zero_mul _).trans_le (Nat.zero_le _)
    obtain ⟨hb, -⟩ := seriesRefusal_none hnone
    obtain ⟨s, t, hi, hw, hsame, hsame'⟩ :=
      (series_answers rt (common.measure ≠ .count) hr hc hmatch hcells _ _ rfl rfl).2 hnone
    rw [PathsAgree, fieldKey_split, hi, hw] at hagree
    rw [hbetween hb] at hsame
    rw [hselected] at hsame'
    exact seriesOf_single hb (alignFloor_before hlo hhi)
      (hsame.symm.trans (hagree.1.trans hsame'.symm))
  | breakdown common groupBy order limit =>
    obtain ⟨⟨fields, hfields, hn, hlen⟩, hl⟩ := breakdown_columns ha hcolumns
    have hb : b.fromMs < b.toMs := by
      by_contra hle
      have hrefusal : windowRefusal r.now b step = none := hnone
      rw [windowRefusal, if_pos (not_lt.1 hle)] at hrefusal
      cases hrefusal
    obtain ⟨rows, rows', hi, hw, hperm, hperm'⟩ :=
      (breakdown_answers rt (common.measure ≠ .count) hr hc (keysOf_groupKeyOf hfields) hn hlen hl
        hmatch (breakdownQuery (indexQuery scope b step plan) (groupKeyOf groupBy) order limit) _
        rfl rfl).2 hnone
    rw [PathsAgree, hi, hw] at hagree
    rw [hbetween hb] at hperm
    rw [hselected] at hperm'
    have hne : rows ≠ [] := List.ne_nil_of_length_pos (hperm.length_eq ▸ Nat.zero_lt_one)
    exact not_sameRanking hl hne (List.perm_nil.1 hperm') hagree.1

/-- A store with one event before the window in its first interval. -/
theorem exists_before (hf : ∀ f, a ≠ .funnel f)
    (h : a.answerability defaultCatalog = .indexed plan queries) (scope : EngineScope)
    (now : Instant) (hlt : alignFloor b.fromMs step < b.fromMs) :
    ∃ e r p, Asked a scope b step now [e] r p ∧ e.passes plan = true ∧
      alignFloor b.fromMs step ≤ e.ts ∧ e.ts < b.fromMs := by
  obtain ⟨⟨n, hc⟩, -⟩ := answerability_default hf h
  obtain ⟨e, hts, hpass⟩ := exists_event hc (alignFloor b.fromMs step)
  have hmatch : ∀ x ∈ [e], (a.condition.getD (.group .and [])).matches x.record =
      a.condition.all (·.matches x.record) := by
    intro x _
    cases a.condition <;> rfl
  refine ⟨e, exactReaders now [e], _, ⟨rfl, exactReaders_exact now scope [e], hmatch,
    fun _ _ _ _ _ ↦ ?_⟩, hpass, hts.ge, hts.trans_lt hlt⟩
  rw [List.filter_cons_of_neg (by simp [hts, not_le.2 hlt]), List.filter_nil]
  exact (Nat.zero_mul _).trans_le (Nat.zero_le _)

end

/-- Counts by day over the last day. -/
def lastDay : Analysis := .series ⟨.count, none, .relative (1 : ℤ) .day⟩ .day none none

/-- A condition that every event without the property meets, and that no column answers. -/
def notFree : Predicate := .compare .neq (.property (js "plan")) (.str (js "free"))

def visitAt (ts : ℤ) : StoredEvent := ⟨ts, js "v", fun _ ↦ none, []⟩

def site : EngineScope := .project (js "p")

theorem notFree_visit (ts : ℤ) : notFree.matches (visitAt ts).record = true := by
  rfl

theorem lastDay_cells (b : Bounds) (p : Predicate) (store : List StoredEvent) :
    CellsWithin lastDay b .day p store := by
  intro common grain field limit h
  rw [lastDay, Analysis.series.injEq] at h
  cases h.2.2.1

theorem lastDay_metric : (∀ f, lastDay ≠ .funnel f) ∧
    ∀ common summary, lastDay ≠ .scalar common summary := by
  constructor
  · intro f h
    cases h
  · intro common summary h
    cases h

end Counted.Litics
