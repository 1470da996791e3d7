import Counted.Analytics.Engine

namespace Counted.Analytics

open Ingestion

structure QueryCapabilities where
  personAnalytics : Bool
  numericPropertyAggregations : Bool

def queryCapabilities : QueryCapabilities := ⟨false, false⟩

structure Point where
  bucketStart : JsString
  value : JsNumber
  deriving DecidableEq

structure SplitSeries where
  key : Option JsString
  label : JsString
  points : List Point
  deriving DecidableEq

structure ReadoutRow where
  label : JsString
  value : JsNumber
  keys : Option (List (Option JsString))
  deriving DecidableEq

inductive ReadoutValue
  | scalar (value : JsNumber)
  | series (points : List Point) (split : Option (List SplitSeries))
  | breakdown (dimensions : List (JsString × JsString)) (rows : List ReadoutRow)
  | funnel (result : FunnelResult)
  deriving DecidableEq

abbrev Answer := Except EngineFailure (Computed ReadoutValue)

structure Question where
  project : ProjectId
  scope : EngineScope
  analysis : Analysis
  now : Instant
  deadline : Duration

def fromAnalysisError : AnalysisError → EngineFailure
  | .invalidAnalysis detail => .invalidQuery detail
  | .windowTooLarge max => .invalidQuery
    (js "the window is longer than the maximum of " ++ (max : JsNumber).toJs ++ js "ms")
  | .unknownDimension dimension => .invalidQuery (js "no such dimension: " ++ dimension)
  | .unknownMeasure measure => .invalidQuery (js "no such measure: " ++ measure)

/-- What a metric analysis restricts its query to. -/
structure Planned where
  event : Option EventRestriction
  filters : Filters
  predicate : Option Predicate

def planFilters (a : Analysis) (schema : ProjectSchema) : Except EngineFailure Planned :=
  match a.answerability schema.dimensions with
  | .indexed plan _ => .ok ⟨plan.event, plan.filters, none⟩
  | .unanswerable reasons => .error (.invalidQuery (js "this question cannot be answered: " ++
      JsString.join (js "; ") (reasons.map describeBlocker)))
  | .scan _ => .ok ⟨none, [], a.condition⟩

def fieldKey : FieldRef → JsString
  | .property key => js "property:" ++ key
  | .dimension d => d.text

def unsetLabel : JsString := js "(not set)"

def pointOf (b : EngineBucket) : Point := ⟨Calendar.toISOString b.start, b.value⟩

def BreakdownEntry.readout (row : BreakdownEntry) : ReadoutRow where
  label := match row.keys with
    | some keys => JsString.join (js " · ") (keys.map (·.getD unsetLabel))
    | none => row.key.getD unsetLabel
  value := row.value
  keys := row.keys

section

variable (ar : Arithmetic) (engine : AnalyticsEngine)

/-- The step of an analysis that has none of its own. -/
def coarsest (a : Analysis) : Step := a.window.defaultGrain ar

def baseQuery (question : Question) (a : Analysis) (planned : Planned) : SeriesQuery where
  scope := question.scope
  bounds := resolveWindow ar a.window question.now
  step := match a with
    | .series _ grain _ _ => grain
    | a => coarsest ar a
  groupBy := none
  wholeWindow := false
  event := planned.event
  filters := some planned.filters
  predicate := planned.predicate

/-- The query of a headline number: distinct people are counted over the window, not by bucket. -/
def scalarBase (measure : Measure) (summary : SummaryStat) (base : SeriesQuery) : SeriesQuery :=
  { base with wholeWindow := measure matches .unique _ && summary = .total }

def breakdownQuery (base : SeriesQuery) (groupBy : GroupKey) (order : SortDirection)
    (limit : JsNumber) : BreakdownQuery :=
  { base with groupBy, order, limit }

/-- The headline number of the buckets. -/
def headline (summary : SummaryStat) (outcome : Computed Series) : Answer :=
  match summary.apply ar (outcome.value.buckets.map (·.value)) with
  | some collapsed => .ok ⟨.scalar collapsed, outcome.computedAt⟩
  | none => .error (.invalidQuery (js "the window produced no buckets, so \"" ++ summary.text ++
      js "\" has no value"))

def askScalar (measure : Measure) (summary : SummaryStat) (base : SeriesQuery) : Answer :=
  engine.series measure (scalarBase measure summary base) >>= headline ar summary

def askSeries (measure : Measure) (base : SeriesQuery) : Answer := do
  let outcome ← engine.series measure base
  return ⟨.series (outcome.value.buckets.map pointOf) none, outcome.computedAt⟩

/-- `new Map` of the groups by key: the last of a key stands. -/
def groupOf (groups : List SeriesGroup) (key : Option JsString) : Option SeriesGroup :=
  groups.reverse.find? (fun g ↦ g.key = key)

/-- Ranks once over the period, then keeps those same groups in every bucket. -/
def askSplitSeries (question : Question) (elapsed : JsNumber) (measure : Measure)
    (field : FieldRef) (limit : Option JsNumber) (base : SeriesQuery) : Answer := do
  let ranked ← engine.breakdown measure
    (breakdownQuery base (.one (fieldKey field)) .desc (limit.getD (maxSeriesGroups : ℤ)))
  if ranked.value.isEmpty then return ⟨.series [] (some []), ranked.computedAt⟩
  else if (ar.sub question.deadline elapsed).le (0 : ℤ) then throw (.timeout question.deadline)
  else
    let outcome ← engine.series measure { base with groupBy := some (fieldKey field) }
    match outcome.value.groups with
    | none => throw (.invalidQuery (js "the engine did not return the requested trend groups"))
    | some groups =>
      if ranked.value.any (fun row ↦ (groupOf groups row.key).isNone) then
        throw (.unavailable (js "The trend groups changed while reading. Try again."))
      else return ⟨.series [] (some (ranked.value.map (fun row ↦
        ⟨row.key, row.key.getD unsetLabel,
          (((groupOf groups row.key).map (·.buckets)).getD []).map pointOf⟩))), outcome.computedAt⟩

def askBreakdown (measure : Measure) (groupBy : Grouping) (order : SortDirection)
    (limit : JsNumber) (base : SeriesQuery) : Answer := do
  let key := match groupBy with
    | .one field => GroupKey.one (fieldKey field)
    | .tuple fields => .tuple (fields.map fieldKey)
  let outcome ← engine.breakdown measure (breakdownQuery base key order limit)
  let fields := groupBy.fields
  if 1 < fields.length && outcome.value.any (fun row ↦
      row.keys.map List.length != some fields.length) then
    throw (.invalidQuery (js "the engine did not return every breakdown property"))
  else return ⟨.breakdown (fields.map (fun field ↦ (field.key, field.key)))
    (outcome.value.map BreakdownEntry.readout), outcome.computedAt⟩

/-- Three steps of one bare event name each; anything else is refused with the reason. -/
def askFunnel (question : Question) (f : Funnel) : Answer := do
  let name (i : ℕ) : JsString := ((f.steps[i]?.map (·.events)).getD []).headD []
  match f.answerability with
  | .unanswerable reasons => throw (.invalidQuery (js "this funnel cannot be answered: " ++
      JsString.join (js "; ") (reasons.map describeBlocker)))
  | .scan reasons => throw (.invalidQuery (js "this funnel cannot be answered: " ++
      JsString.join (js "; ") (reasons.map describeScanReason)))
  | .indexed .. =>
    let outcome ← engine.funnel {
      scope := question.scope
      bounds := resolveWindow ar f.window question.now
      steps := (name 0, name 1, name 2)
      within := some f.conversionWindow.within }
    match f.summarize ar outcome.value with
    | .error e => throw (.unavailable
        (js "the engine returned inconsistent funnel counts: " ++ e.detail))
    | .ok result => return ⟨.funnel result, outcome.computedAt⟩

/-- Answers a metric analysis whose restrictions are planned. -/
def askMetric (question : Question) (elapsed : JsNumber) (planned : Planned) : Analysis → Answer
  | .funnel f => askFunnel ar engine question f
  | .scalar common summary => askScalar ar engine common.measure summary
    (baseQuery ar question (.scalar common summary) planned)
  | .series common grain none limit =>
    askSeries engine common.measure (baseQuery ar question (.series common grain none limit) planned)
  | .series common grain (some field) limit =>
    askSplitSeries ar engine question elapsed common.measure field limit
      (baseQuery ar question (.series common grain (some field) limit) planned)
  | .breakdown common groupBy order limit => askBreakdown engine common.measure groupBy order limit
    (baseQuery ar question (.breakdown common groupBy order limit) planned)

/-- Answers one question. `elapsed` is how long the ranking of a split series took. -/
def ask (question : Question) (elapsed : JsNumber) (schema : ProjectSchema) : Answer := do
  let a ← (question.analysis.check ar schema).mapError fromAnalysisError
  if !queryCapabilities.personAnalytics && a.requiresPerson then
    throw (.invalidQuery (js
      "Person-based analytics are not available yet. Choose unique visits or a visit funnel."))
  else if let .funnel f := a then askFunnel ar engine question f
  else askMetric ar engine question elapsed (← planFilters a schema) a

end

end Counted.Analytics
