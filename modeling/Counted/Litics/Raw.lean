import Counted.Litics.Plan

namespace Counted.Litics

open Analytics Foundations Calendar

/-- What a bucket has gathered. The actors are kept for a distinct count only. -/
structure Tally where
  n : ℕ
  actors : List JsString

namespace Tally

def empty : Tally := ⟨0, []⟩

def add (unique : Bool) (t : Tally) (actor : JsString) : Tally :=
  ⟨t.n + 1, if unique && !t.actors.contains actor then t.actors ++ [actor] else t.actors⟩

def value (unique : Bool) (t : Tally) : ℕ := if unique then t.actors.length else t.n

end Tally

/-- `fields` are those a query is grouped by. A property has no column of the index. -/
def needsRaw (predicate : Option Predicate) (fields : List JsString) : Bool :=
  predicate.isSome || fields.any (fun name ↦ name.startsWith (js "property:"))

/-- The number of edges that are not after an instant, found by halving. -/
def edgeSearch (edges : List Instant) (ts : ℤ) : ℕ → ℕ → ℕ → ℕ
  | 0, lo, _ => lo
  | fuel + 1, lo, hi =>
    if lo < hi then
      let mid := (lo + hi) / 2
      if edges.getD mid 0 ≤ ts then edgeSearch edges ts fuel (mid + 1) hi
      else edgeSearch edges ts fuel lo mid
    else lo

/-- How many cells a split series may have. -/
def maxCells : ℕ := 100000

def tooManyCells : JsString := js
  "This property split has too many groups and time intervals. Choose a coarser interval or filter the property."

abbrev Groups := List (Option JsString × List Tally)

section

variable (rt : Runtime)

/-- The field a series is split by. A blank name is none. -/
def splitField (q : SeriesQuery) : Option JsString := q.groupBy.filter (fun name ↦ name ≠ [])

def seriesKey (q : SeriesQuery) (event : RawEvent) : Option JsString :=
  (splitField q).bind (valueAt rt event)

def seriesEdges (q : SeriesQuery) : List Instant :=
  let starts := gridStarts (dates q.bounds) q.step
  if q.wholeWindow then starts.take 1 else starts

/-- Puts an event into its bucket, unless it opens a group too many. -/
def addEvent (q : SeriesQuery) (unique : Bool) (edges : List Instant) (groups : Groups)
    (event : RawEvent) : Except JsString Groups :=
  let key := seriesKey rt q event
  if groups.all (fun g ↦ g.1 ≠ key) ∧ maxCells < (groups.length + 1) * edges.length then
    .error tooManyCells
  else match edgeSearch edges event.ts edges.length 0 edges.length with
    | 0 => .ok groups
    | i + 1 => .ok (upsert (fun _ ↦ key) (edges.map (fun _ ↦ Tally.empty))
        (fun buckets event ↦ buckets.modify i (·.add unique event.actor)) groups event)

def rawSeries (events : List RawEvent) (q : SeriesQuery) (unique : Bool) :
    Except JsString Series := do
  let edges := seriesEdges q
  let initial : Groups :=
    if (splitField q).isNone then [(none, edges.map (fun _ ↦ Tally.empty))] else []
  let groups ← (events.filter (fun event ↦
    included rt event q.predicate q.event (q.filters.getD []))).foldlM
      (addEvent rt q unique edges) initial
  let values := groups.map (fun g ↦ SeriesGroup.mk g.1 ((edges.zip g.2).map (fun b ↦
    ⟨b.1, ((b.2.value unique : ℕ) : ℤ)⟩)))
  return if (splitField q).isSome then ⟨[], some values⟩
    else ⟨(values.head?.map (·.buckets)).getD [], none⟩

/-- `JSON.stringify` of the values a row is grouped by. -/
def tupleText (keys : List (Option JsString)) : JsString :=
  (Json.arr (keys.map (fun k ↦ (k.map Json.str).getD .null))).stringify

/-- A row has one key, or the text of a tuple of them. -/
def entryOf (keys : List (Option JsString)) (value : ℕ) : BreakdownEntry :=
  match keys with
  | [key] => ⟨key, none, (value : ℤ)⟩
  | keys => ⟨some (tupleText keys), some keys, (value : ℤ)⟩

/-- Whether one row may stand before another: by value, and those of one value by key. -/
def precedes (order : SortDirection) (a b : BreakdownEntry) : Bool :=
  if a.value = b.value then
    rt.localeCompare (a.key.getD []) (b.key.getD []) != .gt
  else match order with
    | .desc => b.value.lt a.value
    | .asc => a.value.lt b.value

def rank (order : SortDirection) (limit : JsNumber) (rows : List BreakdownEntry) :
    List BreakdownEntry :=
  (rows.mergeSort (precedes rt order)).take ((toInteger limit).getD 0).toNat

/-- `groups.get(key) ?? {keys, n: 0}`, with the event added. -/
def addToGroup (unique : Bool) (fields : List JsString)
    (group : Option (List (Option JsString) × Tally)) (event : RawEvent) :
    Option (List (Option JsString) × Tally) :=
  let group := group.getD (fields.map (valueAt rt event), .empty)
  some (group.1, group.2.add unique event.actor)

def rawBreakdown (events : List RawEvent) (q : BreakdownQuery) (unique : Bool) :
    List BreakdownEntry :=
  let fields := keysOf q.groupBy
  let groups := groupBy (fun event ↦ tupleText (fields.map (valueAt rt event))) none
    (addToGroup rt unique fields)
    (events.filter (fun event ↦ included rt event q.predicate q.event (q.filters.getD [])))
  rank rt q.order q.limit (groups.filterMap (fun g ↦
    g.2.map (fun group ↦ entryOf group.1 (group.2.value unique))))

end

/-- How far a visit is through a funnel, and the counts so far. -/
structure FunnelCursor where
  actor : Option JsString
  stage : ℕ
  previous : JsNumber
  deadline : JsNumber
  counts : List ℕ

def eventType (event : RawEvent) : Option JsString :=
  match event.dimension DimensionName.eventType.text with
  | .json (.str name) => some name
  | _ => none

def minNumber (a b : JsNumber) : JsNumber :=
  if a = .nan ∨ b = .nan then .nan else if b.lt a then b else a

def funnelSteps (q : FunnelQuery) : List JsString := [q.steps.1, q.steps.2.1, q.steps.2.2]

section

variable (ar : Arithmetic)

/-- Every stage takes a later event of its own. -/
def followEvent (q : FunnelQuery) (c : FunnelCursor) (event : RawEvent) : FunnelCursor :=
  let c := if c.actor = some event.actor then c
    else { c with actor := some event.actor, stage := 0 }
  let ts : JsNumber := event.ts
  if (funnelSteps q)[c.stage]? = none ∨ eventType event ≠ (funnelSteps q)[c.stage]? then c
  else if 0 < c.stage ∧ (ts.le c.previous ∨ c.deadline.le ts) then c
  else
    { c with
      deadline := if c.stage = 0 then
          minNumber q.bounds.toMs (ar.add ts (q.within.getD (7 * dayMs : ℤ)))
        else c.deadline
      counts := c.counts.modify c.stage (· + 1)
      previous := ts
      stage := c.stage + 1 }

def visitOrder (a b : RawEvent) : Bool :=
  match ar.localeCompare a.actor b.actor with
  | .lt => true
  | .gt => false
  | .eq => a.ts ≤ b.ts

/-- An ordered funnel of visits. -/
def rawFunnel (events : List RawEvent) (q : FunnelQuery) : List ℕ :=
  let ordered := (events.filter (fun event ↦
    (funnelSteps q).contains ((eventType event).getD []))).mergeSort (visitOrder ar)
  (ordered.foldl (followEvent ar q) ⟨none, 0, (0 : ℤ), (0 : ℤ), [0, 0, 0]⟩).counts

end

end Counted.Litics
