import Counted.Analytics.Analysis

namespace Counted.Analytics

open Ingestion

inductive EngineScope
  | workspace (workspace : JsString)
  | project (project : ProjectId)
  deriving DecidableEq

structure SeriesQuery where
  scope : EngineScope
  bounds : TimeBounds
  step : Step
  groupBy : Option JsString
  wholeWindow : Bool
  event : Option EventRestriction
  filters : Option Filters
  predicate : Option Predicate

/-- The same query with filters that filter nothing left out. -/
def SeriesQuery.normal (q : SeriesQuery) : SeriesQuery :=
  { q with filters := q.filters.filter (fun filters ↦ !filters.isEmpty) }

inductive GroupKey
  | one (key : JsString)
  | tuple (keys : List JsString)

structure BreakdownQuery where
  scope : EngineScope
  bounds : TimeBounds
  step : Step
  event : Option EventRestriction
  filters : Option Filters
  predicate : Option Predicate
  groupBy : GroupKey
  order : SortDirection
  limit : JsNumber

structure FunnelQuery where
  scope : EngineScope
  bounds : TimeBounds
  steps : JsString × JsString × JsString
  within : Option JsNumber

/-- A bucket of the port, whose value is any number. -/
structure EngineBucket where
  start : Instant
  value : JsNumber
  deriving DecidableEq

structure SeriesGroup where
  key : Option JsString
  buckets : List EngineBucket
  deriving DecidableEq

structure Series where
  buckets : List EngineBucket
  groups : Option (List SeriesGroup)
  deriving DecidableEq

/-- A row of a breakdown. The key is `none` where the events carry no value. -/
structure BreakdownEntry where
  key : Option JsString
  keys : Option (List (Option JsString))
  value : JsNumber
  deriving DecidableEq

inductive MissingFeature | retention | groupBy | nestedPredicates
  deriving DecidableEq

def MissingFeature.text : MissingFeature → JsString
  | .retention => js "retention"
  | .groupBy => js "group_by"
  | .nestedPredicates => js "nested_predicates"

inductive EngineFailure
  | timeout (budget : Duration)
  | unavailable (detail : JsString)
  | invalidQuery (detail : JsString)
  | notImplemented (feature : MissingFeature)
  deriving DecidableEq

structure Computed (α : Type) where
  value : α
  computedAt : Instant

/-- An outcome has no zero value. -/
abbrev EngineOutcome (α : Type) := Except EngineFailure (Computed α)

/-- The port through which questions become numbers. Filters left out are no filters. -/
structure AnalyticsEngine where
  counts : SeriesQuery → EngineOutcome Series
  uniques : SeriesQuery → EngineOutcome Series
  sums : JsString → SeriesQuery → EngineOutcome Series
  countsBy : BreakdownQuery → EngineOutcome (List BreakdownEntry)
  uniquesBy : BreakdownQuery → EngineOutcome (List BreakdownEntry)
  sumsBy : JsString → BreakdownQuery → EngineOutcome (List BreakdownEntry)
  funnel : FunnelQuery → EngineOutcome (List JsNumber)
  counts_normal : ∀ q, counts q.normal = counts q
  uniques_normal : ∀ q, uniques q.normal = uniques q
  sums_normal : ∀ name q, sums name q.normal = sums name q

/-- `runSeries`. -/
def AnalyticsEngine.series (engine : AnalyticsEngine) : Measure → SeriesQuery → EngineOutcome Series
  | .count => engine.counts
  | .unique _ => engine.uniques
  | .sum name => engine.sums name

/-- `runBreakdown`. -/
def AnalyticsEngine.breakdown (engine : AnalyticsEngine) :
    Measure → BreakdownQuery → EngineOutcome (List BreakdownEntry)
  | .count => engine.countsBy
  | .unique _ => engine.uniquesBy
  | .sum name => engine.sumsBy name

theorem AnalyticsEngine.series_normal (engine : AnalyticsEngine) (m : Measure) (q : SeriesQuery) :
    engine.series m q.normal = engine.series m q := by
  cases m with
  | count => exact engine.counts_normal q
  | unique basis => exact engine.uniques_normal q
  | sum name => exact engine.sums_normal name q

end Counted.Analytics
