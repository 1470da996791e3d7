import Counted.Litics.Index

namespace Counted.Litics

open Analytics Calendar

/-- `SEGMENT_RETENTION_DAYS`. -/
def segmentRetentionDays : ℕ := 760

/-- `DECLARED_MEASURES`. -/
def declaredMeasures : List JsString := []

def refuse {α : Type} (detail : JsString) : Except EngineFailure α := .error (.invalidQuery detail)

/-- The whole milliseconds a date keeps of the bounds. -/
def dates (bounds : TimeBounds) : Bounds :=
  ⟨(toInteger bounds.fromMs).getD 0, (toInteger bounds.toMs).getD 0⟩

def isFinite : JsNumber → Bool
  | .finite _ => true
  | _ => false

def boundsProblem (bounds : TimeBounds) : Option JsString :=
  if !isFinite bounds.fromMs then some (js "the window start is not a time")
  else if !isFinite bounds.toMs then some (js "the window end is not a time")
  else if bounds.toMs.le bounds.fromMs then some (js "the window ends at or before it starts")
  else none

/-- The leaf an event restriction is folded in as. -/
def eventLeaf : EventRestriction → Predicate
  | .one name => .eq (.dimension .eventType) (.str name)
  | .anyOf names => .isIn (.dimension .eventType) (names.map .str)

def filterLeaf (f : JsString × JsString) : Predicate := .eq (.parse f.1) (.str f.2)

/-- Flattens the event and the filters into one plan, and lets the domain say whether it can be
served. An empty list of events is passed on as it is, in place of a filter of its name. -/
def planFiltersOn (catalog : DimensionCatalog) (event : Option EventRestriction)
    (filters : Filters) : Except EngineFailure IndexedPlan :=
  match event with
  | some (.anyOf []) => .ok ⟨event, filters.filter (fun f ↦ f.1 ≠ DimensionName.eventType.text)⟩
  | _ =>
    let leaves := (event.map eventLeaf).toList ++ filters.map filterLeaf
    if leaves.isEmpty then .ok ⟨none, []⟩
    else match classifyPredicate catalog (some (.and leaves)) with
      | .indexed plan _ => .ok plan
      | other => refuse other.describe

/-- The catalog is a constant of the adapter. -/
def planFilters (event : Option EventRestriction) (filters : Filters) :
    Except EngineFailure IndexedPlan := planFiltersOn defaultCatalog event filters

/-- Why this deployment cannot sum a measure. -/
def undeclaredMeasure : Option JsString → Option JsString
  | none => none
  | some measure =>
    if declaredMeasures.contains measure then none
    else if declaredMeasures.isEmpty then some (js
      "no numeric measure is declared on this deployment, so \"" ++ measure ++ js
      "\" cannot be summed; measures are additive facts carried on every event and Counted collects none yet")
    else some (js "\"" ++ measure ++ js "\" is not a declared measure; declared: " ++
      JsString.join (js ", ") declaredMeasures)

/-- Whether a window that starts there is inside what the compactor still keeps. -/
def reach (start now : Instant) : Except EngineFailure Unit :=
  if start < now - segmentRetentionDays * dayMs then
    refuse (js "events are kept " ++ natText segmentRetentionDays ++ js
      " days and the window starts before that; ask over a shorter window")
  else .ok ()

/-- Whether a dimension can be split on, in the domain's words. -/
def groupable (name : JsString) : Option JsString :=
  match defaultCatalog.status name with
  | .planned => some (Answerability.describe (.unanswerable [.dimensionNotCollected name]))
  | .unknown => some (Answerability.describe (.scan [.undeclaredDimension name]))
  | .indexed | .scanned => none

def refuseIf : Option JsString → Except EngineFailure Unit
  | some problem => refuse problem
  | none => .ok ()

/-- How a series is assembled: the dense grid of the answer, and the reads. -/
structure SeriesPlan where
  step : Step
  starts : List Instant
  calls : List RangeQuery
  groupBy : Option JsString

/-- The interval of a step, of which a month has none. -/
def stepInterval : Step → Option Duration
  | .hour => some hourMs
  | .day => some dayMs
  | .week => some (7 * dayMs)
  | .month => none

def tooManyBuckets (step : Step) (n : ℕ) : JsString :=
  js "that window at " ++ step.text ++ js " granularity is " ++ natText n ++
    js " buckets, over the " ++ natText maxBuckets ++ js " limit"

/-- `additive` when the values of the buckets may be added up here. A monthly series is read by
day and folded when they may, and else with one read for each month. -/
def planSeriesBase (q : SeriesQuery) (now : Instant) (additive : Bool)
    (measure : Option JsString) : Except EngineFailure SeriesPlan := do
  refuseIf (boundsProblem q.bounds)
  refuseIf (undeclaredMeasure measure)
  let filters ← planFilters q.event (q.filters.getD [])
  let bounds := dates q.bounds
  let starts := gridStarts bounds q.step
  if maxBuckets < starts.length then refuse (tooManyBuckets q.step starts.length)
  else match starts with
    | [] => return ⟨q.step, starts, [], none⟩
    | first :: _ =>
      match stepInterval q.step, additive with
      | some interval, _ =>
        reach first now
        return ⟨q.step, starts, [⟨first, bounds.toMs, interval, filters, []⟩], none⟩
      | none, true =>
        reach first now
        return ⟨.month, starts, [⟨first, bounds.toMs, dayMs, filters, []⟩], none⟩
      | none, false =>
        let calls ← (monthSpans bounds).mapM (fun span ↦ do
          reach span.start now
          return ⟨span.start, span.toMs, span.days * dayMs, filters, []⟩)
        return ⟨.month, starts, calls, none⟩

/-- Keeps the grouping and the distinct count of a whole period on the same read path. -/
def planSeries (q : SeriesQuery) (now : Instant) (additive : Bool)
    (measure : Option JsString) : Except EngineFailure SeriesPlan := do
  let base ← planSeriesBase q now additive measure
  refuseIf (q.groupBy.bind groupable)
  let plan ← if q.wholeWindow then
      match wholeWindowStride (dates q.bounds) q.step with
      | none => refuse (js "the window ends at or before it starts")
      | some (origin, stride) => do
        let filters ← planFilters q.event (q.filters.getD [])
        reach origin now
        pure ⟨q.step, [origin], [⟨origin, (dates q.bounds).toMs, stride, filters, []⟩], none⟩
    else pure base
  return { plan with
    groupBy := q.groupBy
    calls := plan.calls.map (fun call ↦ { call with groupBy := q.groupBy.toList }) }

structure BreakdownPlan where
  groupBy : List JsString
  order : SortDirection
  limit : JsNumber
  call : RangeQuery

def keysOf : GroupKey → List JsString
  | .one key => [key]
  | .tuple keys => keys

/-- One read, grouped by declared dimensions, over the whole window in a single bin. -/
def planBreakdown (q : BreakdownQuery) (now : Instant) (measure : Option JsString) :
    Except EngineFailure BreakdownPlan := do
  refuseIf (boundsProblem q.bounds)
  refuseIf (undeclaredMeasure measure)
  if !q.limit.isInteger || q.limit.lt (1 : ℤ) then
    refuse (js "a breakdown needs a whole-number limit of at least 1, not " ++ q.limit.toJs)
  let names := keysOf q.groupBy
  if names.length < 1 ∨ 3 < names.length ∨ ¬ names.Nodup then
    refuse (js "a breakdown needs one to three distinct properties")
  refuseIf (names.findSome? groupable)
  let filters ← planFilters q.event (q.filters.getD [])
  match wholeWindowStride (dates q.bounds) q.step with
  | none => refuse (js "the window ends at or before it starts")
  | some (origin, stride) =>
    reach origin now
    return ⟨names, q.order, q.limit, ⟨origin, (dates q.bounds).toMs, stride, filters, names⟩⟩

end Counted.Litics
