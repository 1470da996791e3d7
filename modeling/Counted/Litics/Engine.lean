import Counted.Litics.Raw

namespace Counted.Litics

open Analytics Foundations Calendar

/-- What the engine is built over: a clock, the reads of the index, of counts or of distinct
visits, and the reader of events. -/
structure Readers where
  now : Instant
  range : Bool → EngineScope → RangeQuery → Except EngineFailure (List Row)
  raw : EngineScope → Bounds → Except EngineFailure (List RawEvent)

def malformed (column : JsString) : EngineFailure :=
  .unavailable (js "the engine returned a row whose \"" ++ column ++ js "\" was not a number")

/-- A row as a bucket, under its value of the column a series is split by. -/
def keyed (groupBy : Option JsString) (row : Row) :
    Except EngineFailure (Option JsString × Bucket) :=
  match groupBy with
  | none => .ok (none, ⟨row.bucket, row.value⟩)
  | some name =>
    match JsObject.get row.groups name with
    | some key => .ok (key, ⟨row.bucket, row.value⟩)
    | none => .error (malformed name)

def engineBuckets (starts : List Instant) (step : Step) (rows : List Bucket) : List EngineBucket :=
  (densify starts step rows).map (fun b ↦ ⟨b.start, (b.value : ℤ)⟩)

def runSeries (now : Instant) (plan : SeriesPlan)
    (read : RangeQuery → Except EngineFailure (List Row)) : Except EngineFailure (Computed Series) :=
  if plan.calls.isEmpty then .ok ⟨⟨[], none⟩, now⟩
  else do
    let rows ← plan.calls.mapM (fun call ↦ do (← read call).mapM (keyed plan.groupBy))
    if plan.groupBy.isSome then
      let groups := groupBy (·.1) [] (fun items row ↦ items ++ [row.2]) rows.flatten
      return ⟨⟨[], some (groups.map (fun g ↦
        ⟨g.1, engineBuckets plan.starts plan.step g.2⟩))⟩, now⟩
    else
      return ⟨⟨engineBuckets plan.starts plan.step (rows.flatten.map (·.2)), none⟩, now⟩

def keyAt (row : Row) (name : JsString) : Except EngineFailure (Option JsString) :=
  match JsObject.get row.groups name with
  | some key => .ok key
  | none => .error (.unavailable (js "the engine returned a row whose \"" ++ name ++
      js "\" was not a dimension value"))

/-- The rows as entries. No two may be of one tuple. -/
def entries (fields : List JsString) :
    List JsString → List Row → Except EngineFailure (List BreakdownEntry)
  | _, [] => .ok []
  | seen, row :: rows => do
    let keys ← fields.mapM (keyAt row)
    if seen.contains (tupleText keys) then
      .error (.unavailable (js "the engine returned more than one bucket for " ++
        JsString.join (js ", ") fields ++ js " = " ++ tupleText keys))
    else return entryOf keys row.value :: (← entries fields (tupleText keys :: seen) rows)

section

variable (rt : Runtime)

def runBreakdown (now : Instant) (plan : BreakdownPlan)
    (read : RangeQuery → Except EngineFailure (List Row)) :
    Except EngineFailure (Computed (List BreakdownEntry)) := do
  let rows ← entries plan.groupBy [] (← read plan.call)
  return ⟨rank rt plan.order plan.limit rows, now⟩

namespace Readers

variable (r : Readers)

/-- `counts`, and `uniques` of visits. -/
def series (unique : Bool) (q : SeriesQuery) : Except EngineFailure (Computed Series) :=
  if needsRaw q.predicate q.groupBy.toList then do
    let _ ← planSeries { q with groupBy := none, predicate := none } r.now true none
    let events ← r.raw q.scope (dates q.bounds)
    let value ← (rawSeries rt events q unique).mapError .invalidQuery
    return ⟨value, r.now⟩
  else do
    let plan ← planSeries q r.now (!unique) none
    runSeries r.now plan (r.range unique q.scope)

/-- `countsBy`, and `uniquesBy`. -/
def breakdown (unique : Bool) (q : BreakdownQuery) :
    Except EngineFailure (Computed (List BreakdownEntry)) :=
  let fields := keysOf q.groupBy
  if needsRaw q.predicate fields then
    if fields.length < 1 ∨ 3 < fields.length ∨ ¬ fields.Nodup then
      refuse (js "A breakdown needs one to three different properties.")
    else do
      let _ ← planBreakdown { q with
        groupBy := .one DimensionName.eventType.text, predicate := none } r.now none
      let events ← r.raw q.scope (dates q.bounds)
      return ⟨rawBreakdown rt events q unique, r.now⟩
  else do
    let plan ← planBreakdown q r.now none
    runBreakdown rt r.now plan (r.range unique q.scope)

end Readers

end

end Counted.Litics
