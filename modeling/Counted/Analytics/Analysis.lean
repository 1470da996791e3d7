import Counted.Analytics.Funnel

namespace Counted.Analytics

inductive SortDirection | asc | desc
  deriving DecidableEq

def SortDirection.text : SortDirection → JsString
  | .asc => js "asc"
  | .desc => js "desc"

/-- What a breakdown is by: one field, or a tuple of fields. -/
inductive Grouping
  | one (field : FieldRef)
  | tuple (fields : List FieldRef)

/-- `breakdownFields`. -/
def Grouping.fields : Grouping → List FieldRef
  | .one field => [field]
  | .tuple fields => fields

structure MetricCommon where
  measure : Measure
  condition : Option Predicate
  window : Window

/-- The single serializable definition of a question. -/
inductive Analysis
  | scalar (common : MetricCommon) (summary : SummaryStat)
  | series (common : MetricCommon) (grain : Grain) (groupBy : Option FieldRef)
      (limit : Option JsNumber)
  | breakdown (common : MetricCommon) (groupBy : Grouping) (order : SortDirection)
      (limit : JsNumber)
  | funnel (funnel : Funnel)

inductive AnalysisError
  | invalidAnalysis (detail : JsString)
  | windowTooLarge (max : Duration)
  | unknownDimension (dimension : JsString)
  | unknownMeasure (measure : JsString)
  deriving DecidableEq

def maxBreakdownLimit : ℕ := 100

def maxBreakdownFields : ℕ := 3

def maxSeriesGroups : ℕ := 3

structure ProjectSchema where
  dimensions : DimensionCatalog
  measures : List JsString

mutual

/-- The defects of the groups and value lists of a predicate, in the order of its nodes. -/
def nodeDefects : Predicate → List AnalysisDefect
  | .group op operands =>
    (if operands.isEmpty then [.emptyPredicateGroup op] else []) ++ nodeDefectsOf operands
  | .not operand => nodeDefects operand
  | .member op _ values => if values = [] then [.emptyValueList op] else []
  | .compare .. | .text .. | .order .. | .presence .. => []

def nodeDefectsOf : List Predicate → List AnalysisDefect
  | [] => []
  | p :: operands => nodeDefects p ++ nodeDefectsOf operands

end

def blankProperty : FieldRef → Bool
  | .property key => blank key
  | .dimension _ => false

def predicateDefects (p : Predicate) : List AnalysisDefect :=
  nodeDefects p ++ (p.fields.filter blankProperty).map (fun _ ↦ .emptyPropertyKey)

def windowDefects : Window → List AnalysisDefect
  | .relative amount _ => if amount.le (0 : ℤ) then [.nonPositiveWindow amount] else []
  | .absolute fromMs toMs => if toMs.le fromMs then [.invertedWindow] else []

def limitDefects (limit : JsNumber) (max : ℕ) : List AnalysisDefect :=
  if limit.isInteger && !limit.lt (1 : ℤ) && !JsNumber.lt (max : ℤ) limit then []
  else [.limitOutOfRange limit max]

def MetricCommon.defects (c : MetricCommon) : List AnalysisDefect :=
  (if c.measure.readsMeasure.any blank then [.emptyMeasureName] else []) ++
    (c.condition.map predicateDefects).getD []

/-- What is wrong with a grouping wherever it stands. -/
def groupDefects (groups : List FieldRef) : List AnalysisDefect :=
  (if (groups.map FieldRef.toKey).Nodup then []
    else [.invalidGrouping (js "a property cannot be grouped twice")]) ++
  (groups.filter (fun f ↦ blank f.key)).map (fun _ ↦ .emptyPropertyKey)

namespace Analysis

def window : Analysis → Window
  | .scalar common _ | .series common .. | .breakdown common .. => common.window
  | .funnel f => f.window

def condition : Analysis → Option Predicate
  | .scalar common _ | .series common .. | .breakdown common .. => common.condition
  | .funnel _ => none

def groupedFields : Analysis → List FieldRef
  | .breakdown _ groupBy .. => groupBy.fields
  | .series _ _ groupBy _ => groupBy.toList
  | .scalar .. | .funnel _ => []

def requiresPerson : Analysis → Bool
  | .scalar common _ | .series common .. | .breakdown common .. => common.measure.requiresPerson
  | .funnel f => f.basis = .person

/-- Every field the analysis mentions, each once. -/
def fields : Analysis → List FieldRef
  | .funnel f => (.dimension .eventType ::
      f.steps.flatMap (fun s ↦ (s.condition.map Predicate.fields).getD [])).eraseDups
  | a => ((a.condition.map Predicate.fields).getD [] ++ a.groupedFields).eraseDups

def MetricCommon.keys (shape : JsString) (c : MetricCommon) : List JsString :=
  [shape, c.measure.toKey, js "wh:" ++ (c.condition.map Predicate.toKey).getD [],
    js "wn:" ++ c.window.toKey]

def groupingKey (groups : List FieldRef) : JsString :=
  js "by:" ++ JsString.join (js ",") (groups.map FieldRef.toKey)

/-- A stable key for the whole question. -/
def toKey : Analysis → JsString
  | .funnel f => js "funnel;" ++ f.toKey ++ js ";wn:" ++ f.window.toKey
  | .scalar common summary =>
    JsString.join (js ";") (MetricCommon.keys (js "scalar") common ++ [js "sm:" ++ summary.text])
  | .series common grain groupBy limit =>
    JsString.join (js ";") (MetricCommon.keys (js "series") common ++ [js "gr:" ++ grain.text] ++
      (groupBy.map (fun field ↦ [groupingKey [field],
        js "li:" ++ (limit.getD (maxSeriesGroups : ℤ)).toJs])).getD [])
  | .breakdown common groupBy order limit =>
    JsString.join (js ";") (MetricCommon.keys (js "breakdown") common ++
      [groupingKey groupBy.fields, js "or:" ++ order.text, js "li:" ++ limit.toJs])

/-- Every structural problem, all at once. -/
def defects : Analysis → List AnalysisDefect
  | .funnel f =>
    f.defects ++ f.steps.flatMap (fun s ↦ (s.condition.map predicateDefects).getD []) ++
      windowDefects f.window
  | .scalar common _ => common.defects ++ windowDefects common.window
  | .series common _ groupBy limit =>
    common.defects ++ groupDefects groupBy.toList ++
      (limit.map (fun limit ↦ limitDefects limit maxSeriesGroups ++
        if groupBy.isNone then
          [.invalidGrouping (js "a series limit requires a split property")] else [])).getD [] ++
      windowDefects common.window
  | .breakdown common groupBy _ limit =>
    common.defects ++
      (if groupBy.fields.length < 1 ∨ maxBreakdownFields < groupBy.fields.length then
        [.invalidGrouping (js "a breakdown needs one to three properties")] else []) ++
      groupDefects groupBy.fields ++ limitDefects limit maxBreakdownLimit ++
      windowDefects common.window

section

variable (ar : Arithmetic)

/-- Structural validity and the ceiling on the window. Does not need a schema. -/
def validate (a : Analysis) : Except AnalysisError Analysis :=
  if a.defects ≠ [] then .error (.invalidAnalysis (describeDefects a.defects))
  else if JsNumber.lt maxWindow (a.window.maximumSpan ar) then .error (.windowTooLarge maxWindow)
  else .ok a

def fieldFault (schema : ProjectSchema) : FieldRef → Option AnalysisError
  | .property key =>
    if key.startsWith (js "$") then some (.invalidAnalysis
      (js "Reserved event metadata cannot be queried as a custom property."))
    else none
  | .dimension d =>
    if schema.dimensions.status d.text = .unknown then some (.unknownDimension d.text) else none

def measureFault (schema : ProjectSchema) : Analysis → Option AnalysisError
  | .scalar common _ | .series common .. | .breakdown common .. =>
    (common.measure.readsMeasure.filter (fun name ↦ !schema.measures.contains name)).map
      .unknownMeasure
  | .funnel _ => none

/-- Validity against what a project has. -/
def check (a : Analysis) (schema : ProjectSchema) : Except AnalysisError Analysis := do
  let a ← a.validate ar
  match a.fields.findSome? (fieldFault schema) with
  | some e => throw e
  | none =>
    match a.measureFault schema with
    | some e => throw e
    | none => return a

end

/-- Whether a field can be grouped by off the index. -/
def groupAvailability (catalog : DimensionCatalog) (field : FieldRef) : Option Answerability :=
  let status := catalog.status field.key
  if status = .planned then some (.unanswerable [.dimensionNotCollected field.key])
  else if status = .unknown ∨ status = .scanned ∨ field matches .property _ then
    some (.scan [if field.isShadowed then .shadowedDimension field.key
      else .undeclaredDimension field.key])
  else none

/-- How, and how expensively, the engine can answer. A split series costs two queries. -/
def answerability (a : Analysis) (catalog : DimensionCatalog) : Answerability :=
  match a with
  | .funnel f =>
    worst (f.answerability :: f.steps.map (fun s ↦ classifyPredicate catalog s.condition))
  | a =>
    match worst (classifyPredicate catalog a.condition ::
        a.groupedFields.filterMap (groupAvailability catalog)) with
    | .indexed plan _ => .indexed plan (if a matches .series _ _ (some _) _ then 2 else 1)
    | other => other

end Analysis

end Counted.Analytics
