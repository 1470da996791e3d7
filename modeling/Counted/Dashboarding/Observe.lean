import Counted.Analytics.Ask
import Counted.Analytics.Classification
import Counted.Dashboarding.Monitor
import Counted.Ingestion.Admission

namespace Counted.Dashboarding

open Analytics Foundations Ingestion

/-- What one evaluation tick learned. Exactly one case carries a number. -/
inductive Observation
  | observed (value : JsNumber) (computedAt : Instant)
  | noData
  | unobservable (detail : JsString) (retriable : Bool)
  deriving DecidableEq

def fromEngineFailure : EngineFailure → Observation
  | .timeout budget => .unobservable
    (js "the engine did not answer within " ++ (budget : JsNumber).toJs ++ js "ms") true
  | .unavailable detail => .unobservable detail true
  | .invalidQuery detail => .unobservable detail false
  | .notImplemented feature =>
    .unobservable (js "the engine does not implement " ++ feature.text) false

def basisRefusal : CountingBasis → Option JsString
  | .person => some (js ("this deployment counts unique visits, not unique people; " ++
      "a monitor cannot be based on people yet"))
  | .visit => none

def errorKind : AnalysisError → JsString
  | .invalidAnalysis _ => js "InvalidAnalysis"
  | .windowTooLarge _ => js "WindowTooLarge"
  | .unknownDimension _ => js "UnknownDimension"
  | .unknownMeasure _ => js "UnknownMeasure"

def shapeText : Analysis → JsString
  | .scalar .. => js "scalar"
  | .series .. => js "series"
  | .breakdown .. => js "breakdown"
  | .funnel _ => js "funnel"

section

variable (ar : Arithmetic) (engine : AnalyticsEngine) (catalog : DimensionCatalog)

/-- The engine query of a headline number, or why there is none. -/
def scalarQuery (common : MetricCommon) (summary : SummaryStat) (project : ProjectId)
    (now : Instant) : Except JsString SeriesQuery :=
  let query (event : Option EventRestriction) (filters : Filters) (predicate : Option Predicate) :
      SeriesQuery :=
    { scope := .project project
      bounds := resolveWindow ar common.window now
      step := common.window.defaultGrain ar
      groupBy := none
      wholeWindow := common.measure matches .unique _ && summary = .total
      event
      filters := if filters.isEmpty then none else some filters
      predicate }
  match classifyPredicate catalog common.condition with
  | .indexed plan _ => .ok (query plan.event plan.filters none)
  | .scan _ => .ok (query none [] common.condition)
  | .unanswerable reasons => .error (Answerability.unanswerable reasons).describe

/-- What becomes of the engine's outcome. -/
def observeOutcome (summary : SummaryStat) : EngineOutcome Series → Observation
  | .error e => fromEngineFailure e
  | .ok outcome =>
    match summary.apply ar (outcome.value.buckets.map (·.value)) with
    | some collapsed => .observed collapsed outcome.computedAt
    | none => .noData

def observeScalar (common : MetricCommon) (summary : SummaryStat) (project : ProjectId)
    (now : Instant) : Observation :=
  match scalarQuery ar catalog common summary project now with
  | .error refusal => .unobservable refusal false
  | .ok query => observeOutcome ar summary (engine.series common.measure query)

def engineObserver (m : Monitor Analysis) (now : Instant) : Observation :=
  match m.analysis.validate ar with
  | .error (.invalidAnalysis detail) => .unobservable detail false
  | .error e => .unobservable (errorKind e ++ js ": the stored analysis cannot be run") false
  | .ok (.scalar common summary) =>
    match (match common.measure with
      | .unique basis => basisRefusal basis
      | _ => none) with
    | some refusal => .unobservable refusal false
    | none => observeScalar ar engine catalog common summary m.project now
  | .ok a => .unobservable
    (js "a monitor's analysis must produce one number; this one is a " ++ shapeText a) false

end

section

variable {catalog : DimensionCatalog} {s : Classifying}

theorem collectBlockers_plan (p : Predicate) : (collectBlockers catalog s p).plan = s.plan := by
  have hfold (l : List FieldRef) (s : Classifying) :
      (l.foldl (fun s f ↦ s.block f.key) s).plan = s.plan := by
    induction l generalizing s with
    | nil => rfl
    | cons f l ih =>
      rw [List.foldl_cons, ih]
      rfl
  exact hfold _ s

theorem classifyField_filters {field : FieldRef} {rest : Classifying → Classifying}
    (hs : JsObject.Distinct s.plan.filters) (h : JsObject.Distinct (rest s).plan.filters) :
    JsObject.Distinct (classifyField catalog s field rest).plan.filters := by
  rw [classifyField]
  split_ifs
  · exact hs
  · exact h

theorem classifyEventSet_filters (hs : JsObject.Distinct s.plan.filters) (key : JsString)
    (values : List ScalarValue) :
    JsObject.Distinct (classifyEventSet s key values).plan.filters := by
  unfold classifyEventSet
  cases stringValues values with
  | none => split_ifs <;> exact hs
  | some names =>
    dsimp only
    split_ifs <;> exact hs

theorem classifyEquality_filters (hs : JsObject.Distinct s.plan.filters) (field : FieldRef)
    (value : ScalarValue) :
    JsObject.Distinct (classifyEquality catalog s field value).plan.filters := by
  have hset := JsObject.set_distinct hs field.key
  unfold classifyEquality
  cases value with
  | str text =>
    dsimp only
    split_ifs
    · exact hs
    · exact hs
    · exact hs
    · exact hs
    · exact hs
    · exact hset text
  | num n =>
    dsimp only
    split_ifs <;> exact hs
  | bool b =>
    dsimp only
    split_ifs <;> exact hs
  | null =>
    dsimp only
    split_ifs <;> exact hs

theorem classifyLeaf_filters (hs : JsObject.Distinct s.plan.filters) (leaf : Predicate) :
    JsObject.Distinct (classifyLeaf catalog s leaf).plan.filters := by
  cases leaf with
  | group op operands =>
    cases op with
    | and => exact hs
    | or =>
      rw [classifyLeaf, collectBlockers_plan]
      exact hs
  | not operand =>
    rw [classifyLeaf, collectBlockers_plan]
    exact hs
  | member op field values =>
    cases op with
    | notIn => exact classifyField_filters hs hs
    | isIn =>
      refine classifyField_filters hs ?_
      split_ifs
      · exact classifyEventSet_filters hs _ _
      · exact hs
  | compare op field value =>
    cases op with
    | neq => exact classifyField_filters hs hs
    | eq => exact classifyField_filters hs (classifyEquality_filters hs field value)
  | text op field value => exact classifyField_filters hs hs
  | order op field value => exact classifyField_filters hs hs
  | presence op field => exact classifyField_filters hs hs

theorem classifyPredicate_distinct {p : Option Predicate} {plan : IndexedPlan} {queries : ℕ}
    (h : classifyPredicate catalog p = .indexed plan queries) :
    JsObject.Distinct plan.filters := by
  cases p with
  | none =>
    cases h
    exact ⟨.nil, by simp⟩
  | some p =>
    have hfold (leaves : List Predicate) (s : Classifying) (hs : JsObject.Distinct s.plan.filters) :
        JsObject.Distinct (leaves.foldl (classifyLeaf catalog) s).plan.filters := by
      induction leaves generalizing s with
      | nil => exact hs
      | cons leaf leaves ih => exact ih _ (classifyLeaf_filters hs leaf)
    rw [classifyPredicate, Classifying.answer] at h
    split_ifs at h
    cases h
    exact hfold _ _ ⟨.nil, by simp [Classifying.initial]⟩

/-- A classification reads a catalog by the status of a key. -/
theorem classifyPredicate_congr {catalog' : DimensionCatalog}
    (h : ∀ key, catalog.status key = catalog'.status key) (p : Option Predicate) :
    classifyPredicate catalog p = classifyPredicate catalog' p := by
  have hleaf : classifyLeaf catalog = classifyLeaf catalog' := by
    funext s leaf
    cases leaf with
    | group op operands => cases op <;> simp only [classifyLeaf, collectBlockers, h]
    | not operand => simp only [classifyLeaf, collectBlockers, h]
    | member op field values => cases op <;> simp only [classifyLeaf, classifyField, h]
    | compare op field value =>
      cases op <;> simp only [classifyLeaf, classifyField, classifyEquality, h]
    | text op field value => simp only [classifyLeaf, classifyField, h]
    | order op field value => simp only [classifyLeaf, classifyField, h]
    | presence op field => simp only [classifyLeaf, classifyField, h]
  cases p with
  | none => rfl
  | some p => simp only [classifyPredicate, hleaf]

theorem classifyPredicate_reasons (p : Option Predicate) :
    (∀ reasons, classifyPredicate catalog p = .scan reasons → reasons ≠ []) ∧
      (∀ reasons, classifyPredicate catalog p = .unanswerable reasons → reasons ≠ []) := by
  cases p with
  | none => exact ⟨by rintro reasons ⟨⟩, by rintro reasons ⟨⟩⟩
  | some p =>
    rw [classifyPredicate, Classifying.answer]
    split_ifs with hb hr
    · refine ⟨by rintro reasons ⟨⟩, fun reasons h ↦ ?_⟩
      cases h
      exact hb
    · refine ⟨fun reasons h ↦ ?_, by rintro reasons ⟨⟩⟩
      cases h
      exact hr
    · exact ⟨by rintro reasons ⟨⟩, by rintro reasons ⟨⟩⟩

/-- With one part there is nothing to combine. -/
theorem answerability_scalar (common : MetricCommon) (summary : SummaryStat) :
    (∀ plan queries, classifyPredicate catalog common.condition = .indexed plan queries →
      (Analysis.scalar common summary).answerability catalog = .indexed plan 1) ∧
    (∀ reasons, classifyPredicate catalog common.condition = .scan reasons →
      ∃ all, (Analysis.scalar common summary).answerability catalog = .scan all) ∧
    (∀ reasons, classifyPredicate catalog common.condition = .unanswerable reasons →
      ∃ all, (Analysis.scalar common summary).answerability catalog = .unanswerable all) := by
  refine ⟨fun plan queries hc ↦ ?_, fun reasons hc ↦ ?_, fun reasons hc ↦ ?_⟩
  · have hf : plan.filters.foldl (fun filters f ↦ JsObject.set filters f.1 f.2) [] = plan.filters :=
      JsObject.foldl_set (classifyPredicate_distinct hc)
    have hw : worst [.indexed plan queries] = .indexed plan (max 1 queries) := by
      obtain ⟨event, filters⟩ := plan
      dsimp only at hf
      simp [worst, Answerability.blockers, Answerability.scans, mergePlan, hf]
    simp only [Analysis.answerability, Analysis.condition, Analysis.groupedFields,
      List.filterMap_nil, hc, hw]
    rfl
  · have hr := (classifyPredicate_reasons common.condition).1 reasons hc
    have hw : worst [.scan reasons] = .scan reasons.eraseDups := by
      simp [worst, Answerability.blockers, Answerability.scans, hr]
    simp only [Analysis.answerability, Analysis.condition, Analysis.groupedFields,
      List.filterMap_nil, hc, hw]
    exact ⟨_, rfl⟩
  · have hr := (classifyPredicate_reasons common.condition).2 reasons hc
    have hw : worst [.unanswerable reasons] = .unanswerable reasons.eraseDups := by
      simp [worst, Answerability.blockers, hr]
    simp only [Analysis.answerability, Analysis.condition, Analysis.groupedFields,
      List.filterMap_nil, hc, hw]
    exact ⟨_, rfl⟩

end

section

variable (ar : Arithmetic) (engine : AnalyticsEngine)

/-- The question a tile at project scope asks about a monitor's analysis. -/
def tileQuestion (m : Monitor Analysis) (now : Instant) (deadline : Duration) : Question :=
  ⟨m.project, .project m.project, m.analysis, now, deadline⟩

/-- The query `ask` puts to the engine for a headline number. -/
def tileQuery (question : Question) (common : MetricCommon) (summary : SummaryStat)
    (schema : ProjectSchema) : Except EngineFailure SeriesQuery :=
  (planFilters (.scalar common summary) schema).map (fun planned ↦
    scalarBase common.measure summary (baseQuery ar question (.scalar common summary) planned))

theorem ask_scalar {question : Question} {common : MetricCommon} {summary : SummaryStat}
    {schema : ProjectSchema} (elapsed : JsNumber)
    (hok : question.analysis.check ar schema = .ok (.scalar common summary))
    (hp : common.measure.requiresPerson = false) :
    ask ar engine question elapsed schema = tileQuery ar question common summary schema >>=
      fun query ↦ engine.series common.measure query >>= headline ar summary := by
  have hcheck : (question.analysis.check ar schema).mapError fromAnalysisError =
      .ok (.scalar common summary) := by rw [hok]; rfl
  rw [ask, hcheck, tileQuery]
  change (if (!queryCapabilities.personAnalytics && common.measure.requiresPerson) = true then _
    else _) = _
  rw [hp, Bool.and_false, if_neg Bool.false_ne_true]
  cases planFilters (.scalar common summary) schema <;> rfl

theorem ask_person {question : Question} {common : MetricCommon} {summary : SummaryStat}
    {schema : ProjectSchema} (elapsed : JsNumber)
    (hok : question.analysis.check ar schema = .ok (.scalar common summary))
    (hp : common.measure.requiresPerson = true) :
    ∃ e, ask ar engine question elapsed schema = .error e := by
  have hcheck : (question.analysis.check ar schema).mapError fromAnalysisError =
      .ok (.scalar common summary) := by rw [hok]; rfl
  rw [ask, hcheck]
  change ∃ e, (if (!queryCapabilities.personAnalytics && common.measure.requiresPerson) = true
    then _ else _) = _
  rw [hp, queryCapabilities, Bool.not_false, Bool.and_true, if_pos rfl]
  exact ⟨_, rfl⟩

theorem validate_of_check {a b : Analysis} {schema : ProjectSchema}
    (h : a.check ar schema = .ok b) : a.validate ar = .ok b := by
  obtain ⟨c, hc, h⟩ := bind_ok h
  rw [hc]
  split at h
  · cases h
  · split at h
    · cases h
    · exact h

/-- The two queries restrict alike: one leaves out the filters the other has none of. -/
theorem queries_agree {m : Monitor Analysis} {catalog : DimensionCatalog} {schema : ProjectSchema}
    (hcat : ∀ key, catalog.status key = schema.dimensions.status key) {common : MetricCommon}
    {summary : SummaryStat} (now : Instant) (deadline : Duration) :
    (tileQuery ar (tileQuestion m now deadline) common summary schema).toOption.map
        SeriesQuery.normal =
      (scalarQuery ar catalog common summary m.project now).toOption.map SeriesQuery.normal := by
  obtain ⟨hindexed, hscan, hblocked⟩ :=
    @answerability_scalar schema.dimensions common summary
  rw [tileQuery, planFilters, scalarQuery, classifyPredicate_congr hcat]
  cases hc : classifyPredicate schema.dimensions common.condition with
  | indexed plan queries =>
    rw [hindexed plan queries hc]
    obtain ⟨event, filters⟩ := plan
    cases filters <;> rfl
  | scan reasons =>
    obtain ⟨all, ha⟩ := hscan reasons hc
    rw [ha]
    rfl
  | unanswerable reasons =>
    obtain ⟨all, ha⟩ := hblocked reasons hc
    rw [ha]
    rfl

theorem engineObserver_scalar {m : Monitor Analysis} {common : MetricCommon}
    {summary : SummaryStat} (catalog : DimensionCatalog) (now : Instant)
    (hm : m.analysis.validate ar = .ok (.scalar common summary))
    (hp : common.measure.requiresPerson = false) :
    engineObserver ar engine catalog m now =
      observeScalar ar engine catalog common summary m.project now := by
  rw [engineObserver, hm]
  obtain ⟨measure, condition, window⟩ := common
  match measure with
  | .count | .sum _ | .unique .visit => rfl
  | .unique .person => cases hp

theorem engineObserver_person {m : Monitor Analysis} {common : MetricCommon}
    {summary : SummaryStat} (catalog : DimensionCatalog) (now : Instant)
    (hm : m.analysis.validate ar = .ok (.scalar common summary))
    (hp : common.measure.requiresPerson = true) :
    ∃ detail, engineObserver ar engine catalog m now = .unobservable detail false := by
  rw [engineObserver, hm]
  obtain ⟨measure, condition, window⟩ := common
  match measure with
  | .unique .person => exact ⟨_, rfl⟩
  | .count | .sum _ | .unique .visit => cases hp

/-- One outcome is the same number on a tile and for a monitor, or none on both. -/
theorem headline_iff (summary : SummaryStat) (outcome : EngineOutcome Series) (v : JsNumber)
    (at' : Instant) :
    Except.bind outcome (headline ar summary) = .ok ⟨.scalar v, at'⟩ ↔
      observeOutcome ar summary outcome = .observed v at' := by
  cases outcome with
  | error e => exact iff_of_false (by rintro ⟨⟩) (by cases e <;> rintro ⟨⟩)
  | ok outcome =>
    change headline ar summary outcome = _ ↔ _
    rw [headline, observeOutcome]
    cases summary.apply ar (outcome.value.buckets.map (·.value)) with
    | none => exact iff_of_false (by rintro ⟨⟩) (by rintro ⟨⟩)
    | some collapsed => exact ⟨by rintro ⟨⟩; rfl, by rintro ⟨⟩; rfl⟩

/-- A monitor observes a number exactly when its tile shows it, and the two put the same query to
the engine. -/
theorem monitor_measures_tile {m : Monitor Analysis} {catalog : DimensionCatalog}
    {schema : ProjectSchema} (hcat : ∀ key, catalog.status key = schema.dimensions.status key)
    {common : MetricCommon} {summary : SummaryStat} (hm : m.analysis = .scalar common summary)
    (hok : m.analysis.check ar schema = .ok m.analysis) (now : Instant) (deadline : Duration)
    (elapsed : JsNumber) :
    (∀ v at', ask ar engine (tileQuestion m now deadline) elapsed schema = .ok ⟨.scalar v, at'⟩ ↔
      engineObserver ar engine catalog m now = .observed v at') ∧
    (tileQuery ar (tileQuestion m now deadline) common summary schema).toOption.map
        SeriesQuery.normal =
      (scalarQuery ar catalog common summary m.project now).toOption.map SeriesQuery.normal := by
  have hqueries := @queries_agree ar m catalog schema hcat common summary now deadline
  refine ⟨fun v at' ↦ ?_, hqueries⟩
  have hcheck : (tileQuestion m now deadline).analysis.check ar schema =
      .ok (.scalar common summary) := hok.trans (congrArg Except.ok hm)
  have hvalid := validate_of_check ar hcheck
  cases hp : common.measure.requiresPerson with
  | true =>
    obtain ⟨e, he⟩ := ask_person ar engine elapsed hcheck hp
    obtain ⟨detail, hd⟩ := engineObserver_person ar engine catalog now hvalid hp
    rw [he, hd]
    exact iff_of_false (by rintro ⟨⟩) (by rintro ⟨⟩)
  | false =>
    rw [ask_scalar ar engine elapsed hcheck hp, engineObserver_scalar ar engine catalog now hvalid hp,
      observeScalar]
    cases ht : tileQuery ar (tileQuestion m now deadline) common summary schema with
    | error e =>
      cases hs : scalarQuery ar catalog common summary m.project now with
      | error refusal => exact iff_of_false (by rintro ⟨⟩) (by rintro ⟨⟩)
      | ok query =>
        rw [ht, hs] at hqueries
        cases hqueries
    | ok tile =>
      cases hs : scalarQuery ar catalog common summary m.project now with
      | error refusal =>
        rw [ht, hs] at hqueries
        cases hqueries
      | ok query =>
        rw [ht, hs] at hqueries
        have hnormal : tile.normal = query.normal := Option.some.inj hqueries
        have hsame : engine.series common.measure tile = engine.series common.measure query := by
          rw [← engine.series_normal, hnormal, engine.series_normal]
        change Except.bind (engine.series common.measure tile) (headline ar summary) = _ ↔
          observeOutcome ar summary (engine.series common.measure query) = _
        rw [hsame]
        exact headline_iff ar summary _ v at'

end

/-- An engine that has counted five and then seven. -/
def sampleEngine : AnalyticsEngine where
  counts _ := .ok ⟨⟨[⟨0, (5 : ℤ)⟩, ⟨86400000, (7 : ℤ)⟩], none⟩, 172800000⟩
  uniques _ := .error (.unavailable (js "no actors"))
  sums name _ := .error (.invalidQuery (quoted name ++ js " is not a declared measure"))
  countsBy _ := .ok ⟨[], 172800000⟩
  uniquesBy _ := .error (.unavailable (js "no actors"))
  sumsBy name _ := .error (.invalidQuery (quoted name ++ js " is not a declared measure"))
  funnel _ := .error (.notImplemented .retention)
  counts_normal _ := rfl
  uniques_normal _ := rfl
  sums_normal _ _ := rfl

def ordersAbroad : MetricCommon :=
  ⟨.count, some (.not (.eq (.dimension .country) (.str (js "GB")))), .relative (2 : ℤ) .day⟩

def ordersMonitor : Monitor Analysis where
  id := js "m"
  workspace := js "w"
  project := js "p"
  name := js "Orders"
  analysis := .scalar ordersAbroad .total
  threshold := ⟨.below, (100 : ℤ)⟩
  cooldown := defaultCooldown
  channels := []
  enabled := true
  state := .ok
  lastNotifiedAt := none
  lastValue := none
  lastAttemptAt := none
  lastMeasuredAt := none
  evaluationError := none
  evaluationClaim := none

theorem monitor_measures_tile_sample :
    engineObserver nodeArithmetic sampleEngine defaultCatalog ordersMonitor 172800000 =
      .observed (12 : ℤ) 172800000 :=
  ((@monitor_measures_tile nodeArithmetic sampleEngine ordersMonitor defaultCatalog
    ⟨defaultCatalog, []⟩ (fun _ ↦ rfl) ordersAbroad .total rfl rfl 172800000 5000 (0 : ℤ)).1 _ _).1
    rfl

end Counted.Dashboarding
