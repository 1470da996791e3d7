import Counted.Kernel.NumberText

namespace Counted

/-- The runtime with the operations on doubles, each of which rounds. -/
structure Arithmetic extends Runtime where
  sub : JsNumber → JsNumber → JsNumber
  mul : JsNumber → JsNumber → JsNumber
  div : JsNumber → JsNumber → JsNumber

namespace Analytics

def nodeRuntime : Runtime where
  dateParse _ := none
  localeCompare s t := if s = t then .eq else if JsString.le s t then .lt else .gt
  add
    | .finite a, .finite b => .finite (.scaled ((a.aligned b).1 + (a.aligned b).2) (min a.exp b.exp))
    | _, _ => .nan
  functionText name := js "function " ++ name ++ js "() \x7b [native code] \x7d"

/-- Decimal arithmetic, quotients to thirty places. -/
def nodeArithmetic : Arithmetic where
  toRuntime := nodeRuntime
  sub
    | .finite a, .finite b => .finite (a.sub b)
    | _, _ => .nan
  mul
    | .finite a, .finite b => .finite (.scaled (a.mant * b.mant) (a.exp + b.exp))
    | _, _ => .nan
  div
    | .finite a, .finite b =>
      if b.mant = 0 then .nan
      else .finite (.scaled (a.mant * 10 ^ 30 / b.mant) (a.exp - b.exp - 30))
    | _, _ => .nan

inductive CountingBasis | visit | person
  deriving DecidableEq

def CountingBasis.text : CountingBasis → JsString
  | .visit => js "visit"
  | .person => js "person"

/-- The name of a sum is that of a declared measure, not of a property. -/
inductive Measure
  | count
  | unique (basis : CountingBasis)
  | sum (name : JsString)
  deriving DecidableEq

namespace Measure

/-- Whether the measure can only be answered on identified events. -/
def requiresPerson (m : Measure) : Bool := m = .unique .person

def readsMeasure : Measure → Option JsString
  | .sum name => some name
  | _ => none

def toKey : Measure → JsString
  | .count => js "count"
  | .unique basis => js "unique:" ++ basis.text
  | .sum name => js "sum:" ++ name

end Measure

/-- How a series collapses to one headline number. -/
inductive SummaryStat | total | average | peak | low | latest
  deriving DecidableEq

namespace SummaryStat

def text : SummaryStat → JsString
  | .total => js "total"
  | .average => js "average"
  | .peak => js "peak"
  | .low => js "low"
  | .latest => js "latest"

/-- `SUMMARY_STATS`. -/
def all : List SummaryStat := [.total, .average, .peak, .low, .latest]

variable (ar : Arithmetic)

def sum (series : List JsNumber) : JsNumber := series.foldl ar.add (0 : ℤ)

/-- Nothing has a total, and neither a peak nor a latest value. -/
def apply (stat : SummaryStat) : List JsNumber → Option JsNumber
  | [] => if stat = .total then some (0 : ℤ) else none
  | first :: rest =>
    match stat with
    | .total => some (sum ar (first :: rest))
    | .average => some (ar.div (sum ar (first :: rest)) ((first :: rest).length : ℤ))
    | .peak => some ((first :: rest).foldl (fun a b ↦ if a.lt b then b else a) first)
    | .low => some ((first :: rest).foldl (fun a b ↦ if b.lt a then b else a) first)
    | .latest => some ((first :: rest).getLastD first)

end SummaryStat

end Analytics

end Counted
