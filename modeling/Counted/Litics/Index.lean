import Counted.Analytics.Engine
import Counted.Foundations.Grouping

namespace Counted.Litics

open Analytics Foundations

/-- An event as the stream stores it: a column for each dimension, and the properties. -/
structure StoredEvent where
  ts : ℤ
  actor : JsString
  column : DimensionName → Option JsString
  properties : List (JsString × Json)

namespace StoredEvent

/-- What the raw reader makes of a stored event. Every column becomes an own property. -/
def record (e : StoredEvent) : RawEvent where
  ts := e.ts
  actor := e.actor
  dimensions := dimensions.map (fun d ↦ (d.text, e.column d))
  properties := e.properties

def columnAt (e : StoredEvent) (name : JsString) : Option JsString :=
  (dimensions.find? (fun d ↦ d.text == name)).bind e.column

/-- Whether an event is in the columns a read is restricted to. -/
def passes (e : StoredEvent) (filters : IndexedPlan) : Bool :=
  filters.event.all (fun r ↦ r.names.any (fun name ↦ e.column .eventType = some name)) &&
    filters.filters.all (fun f ↦ e.columnAt f.1 = some f.2)

end StoredEvent

/-- One read of the index. The start of the range is also the origin of its bins. -/
structure RangeQuery where
  fromMs : Instant
  toMs : Instant
  stride : Duration
  filters : IndexedPlan
  groupBy : List JsString

/-- A row that comes back: of one bin and one value for each column grouped by. -/
structure Row where
  bucket : Instant
  groups : List (JsString × Option JsString)
  value : ℕ

namespace RangeQuery

def selects (q : RangeQuery) (e : StoredEvent) : Bool :=
  q.fromMs ≤ e.ts && e.ts < q.toMs && e.passes q.filters

def bin (q : RangeQuery) (e : StoredEvent) : Instant :=
  q.fromMs + (e.ts - q.fromMs) / q.stride * q.stride

def cellOf (q : RangeQuery) (e : StoredEvent) : Instant × List (Option JsString) :=
  (q.bin e, q.groupBy.map e.columnAt)

end RangeQuery

/-- How many there are, or how many different visits. -/
def measured (unique : Bool) (actors : List JsString) : ℕ :=
  if unique then (distinctKeys id actors).length else actors.length

/-- The exact answer of the index: a row for each cell that holds an event. -/
def exactRows (q : RangeQuery) (unique : Bool) (store : List StoredEvent) : List Row :=
  let selected := store.filter q.selects
  (distinctKeys q.cellOf selected).map (fun c ↦
    { bucket := c.1
      groups := q.groupBy.zip c.2
      value := measured unique ((selected.filter (fun e ↦ q.cellOf e = c)).map (·.actor)) })

theorem find_dimension (d : DimensionName) :
    dimensions.find? (fun c ↦ c.text == d.text) = some d := by
  cases d <;> decide

theorem StoredEvent.columnAt_text (e : StoredEvent) (d : DimensionName) :
    e.columnAt d.text = e.column d := by
  rw [columnAt, find_dimension, Option.bind_some]

theorem StoredEvent.dimension_record (e : StoredEvent) (d : DimensionName) :
    e.record.dimension d.text = (match e.column d with
      | some s => .json (.str s)
      | none => .json .null) := by
  have hget : JsObject.get e.record.dimensions d.text = some (e.column d) := by
    rw [JsObject.get, record, List.find?_map]
    have hf : ((fun f : JsString × Option JsString ↦ decide (f.1 = d.text)) ∘
        fun c ↦ (DimensionName.text c, e.column c)) = (fun c ↦ c.text == d.text) := by
      funext c
      exact Bool.eq_iff_iff.2 (by simp)
    rw [hf, find_dimension]
    rfl
  rw [RawEvent.dimension, hget]
  cases e.column d <;> rfl

/-- Both readers find the same value in a column. -/
theorem StoredEvent.valueAt_record (rt : Runtime) (e : StoredEvent) (d : DimensionName) :
    valueAt rt e.record d.text = e.columnAt d.text := by
  have hp : d.text.startsWith (js "property:") = false := by cases d <;> decide
  rw [Analytics.valueAt, hp, e.dimension_record, e.columnAt_text]
  cases e.column d <;> rfl

end Counted.Litics
