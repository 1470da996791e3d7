import Counted.Kernel.RoundTrip
import Counted.Litics.DateGrid
import Counted.Litics.Tuples

namespace Counted.Litics.Cells

open Analytics Foundations Calendar

/-- A value of a row, as the driver hands it over. A `Date` has its time, none if invalid. -/
inductive Cell
  | undefined
  | null
  | boolean (b : Bool)
  | number (n : JsNumber)
  | string (s : JsString)
  | date (time : Option ℤ)
  | object
  deriving DecidableEq

abbrev RangeRow := List (JsString × Cell)

/-- What a read throws, as far as it is looked at. -/
structure Cause where
  aborted : Bool
  segment : Bool
  code : JsString
  rangeError : Bool
  message : JsString

def cancelled : EngineFailure :=
  .unavailable (js "the caller cancelled the query before it finished")

def failureFor (cause : Cause) (budget : Duration) : EngineFailure :=
  if cause.aborted then cancelled
  else if cause.segment then .unavailable cause.message
  else if cause.code = js "57014" then .timeout budget
  else if cause.code = js "42P01" ∨ cause.code = js "3F000" then
    .unavailable (js "the analytics schema is not present — run the litics migrations (" ++
      cause.message ++ js ")")
  else if cause.code ∈ [js "53300", js "53400", js "57P01", js "57P02", js "57P03"] then
    .unavailable cause.message
  else if cause.code = js "42501" then
    .unavailable (js "the analytics role lacks a grant (" ++ cause.message ++ js ")")
  else if cause.rangeError || cause.message.startsWith (js "litics:") then
    .invalidQuery cause.message
  else .unavailable cause.message

/-- The reader of one question: whether the budget is spent before a read, and its answer. -/
structure Reader where
  expired : RangeQuery → Bool
  read : RangeQuery → Except Cause (List RangeRow)

def cellAt (row : RangeRow) (column : JsString) : Cell := (JsObject.get row column).getD .undefined

/-- A bucket, whose time is none where it is that of an invalid date. -/
structure Parsed where
  at' : Option ℤ
  value : JsNumber
  deriving DecidableEq

def keyAt (row : RangeRow) (column : JsString) : Option (Option JsString) :=
  match JsObject.get row column with
  | some .null | some .undefined => some none
  | some (.string s) => some (some s)
  | _ => none

def timestampAt (rt : Runtime) (row : RangeRow) (column : JsString) : Option (Option ℤ) :=
  match cellAt row column with
  | .date time => some time
  | .string s => (dateParse rt s).map some
  | _ => none

section

-- `number` is `Number` of a text
variable (number : JsString → JsNumber)

def numberAt (row : RangeRow) (column : JsString) : Option JsNumber :=
  match cellAt row column with
  | .number n => if isFinite n then some n else none
  | .string s => if isFinite (number s) then some (number s) else none
  | _ => none

def entry (keys : List (Option JsString)) (value : JsNumber) : BreakdownEntry :=
  match keys with
  | [key] => ⟨key, none, value⟩
  | keys => ⟨some (tupleText keys), some keys, value⟩

def notDimension (field : JsString) : EngineFailure :=
  .unavailable (js "the engine returned a row whose \"" ++ field ++
    js "\" was not a dimension value")

def repeated (fields : List JsString) (tuple : JsString) : EngineFailure :=
  .unavailable (js "the engine returned more than one bucket for " ++
    JsString.join (js ", ") fields ++ js " = " ++ tuple)

def keysOfRow (fields : List JsString) (row : RangeRow) :
    Except EngineFailure (List (Option JsString)) :=
  fields.mapM (fun field ↦ match keyAt row field with
    | some key => .ok key
    | none => .error (notDimension field))

def tuples (fields : List JsString) (column : JsString) :
    List JsString → List RangeRow → Except EngineFailure (List BreakdownEntry)
  | _, [] => .ok []
  | seen, row :: rows => do
    let keys ← keysOfRow fields row
    match numberAt number row column with
    | none => throw (malformed column)
    | some value =>
      if seen.contains (tupleText keys) then throw (repeated fields (tupleText keys))
      else return entry keys value :: (← tuples fields column (tupleText keys :: seen) rows)

variable (rt : Runtime)

def readBucket (row : RangeRow) (column : JsString) : Option Parsed :=
  match timestampAt rt row (js "bucket"), numberAt number row column with
  | some at', some value => some ⟨at', value⟩
  | _, _ => none

def keyed (column : JsString) (groupBy : Option JsString) (row : RangeRow) :
    Except EngineFailure (Option JsString × Parsed) :=
  match readBucket number rt row column with
  | none => .error (malformed column)
  | some parsed =>
    match groupBy with
    | none => .ok (none, parsed)
    | some name =>
      match keyAt row name with
      | none => .error (malformed name)
      | some key => .ok (key, parsed)

/-- The position of a row on the grid, none where its date is none. -/
def slot (step : Step) (parsed : Parsed) : Option Instant :=
  parsed.at'.bind (fun t ↦ DateGrid.alignFloor t step)

def densify (starts : List Instant) (step : Step) (rows : List Parsed) : List EngineBucket :=
  let byStart := groupBy (slot step) ((0 : ℤ) : JsNumber) (fun total row ↦ rt.add total row.value) rows
  starts.map (fun start ↦
    ⟨start, ((byStart.find? (fun p ↦ p.1 = some start)).map (·.2)).getD ((0 : ℤ) : JsNumber)⟩)

variable (now : Instant) (deadline : Duration) (reader : Reader) (column : JsString)

def readCall (groupBy : Option JsString) (call : RangeQuery) :
    Except EngineFailure (List (Option JsString × Parsed)) :=
  if reader.expired call then .error (.timeout deadline)
  else do
    let result ← (reader.read call).mapError (fun cause ↦ failureFor cause deadline)
    result.mapM (keyed number rt column groupBy)

def runSeries (plan : SeriesPlan) : Except EngineFailure (Computed Series) :=
  if plan.calls.isEmpty then .ok ⟨⟨[], none⟩, now⟩
  else do
    let rows ← plan.calls.mapM (readCall number rt deadline reader column plan.groupBy)
    if plan.groupBy.isSome then
      let groups := groupBy (·.1) [] (fun items row ↦ items ++ [row.2]) rows.flatten
      return ⟨⟨[], some (groups.map (fun g ↦ ⟨g.1, densify rt plan.starts plan.step g.2⟩))⟩, now⟩
    else return ⟨⟨densify rt plan.starts plan.step (rows.flatten.map (·.2)), none⟩, now⟩

def runBreakdown (plan : BreakdownPlan) : Except EngineFailure (Computed (List BreakdownEntry)) := do
  let result ← (reader.read plan.call).mapError (fun cause ↦ failureFor cause deadline)
  let rows ← tuples number plan.groupBy column [] result
  return ⟨rank rt plan.order plan.limit rows, now⟩

end

end Counted.Litics.Cells
