import Counted.Analytics.RawEvent

namespace Counted.Analytics

/-- The flat form of a predicate: one restriction of the event name, and one value for each of
some dimensions. -/
structure IndexedPlan where
  event : Option EventRestriction
  filters : Filters

inductive PredicateOp
  | compare (op : CompareOp)
  | member (op : MemberOp)
  | text (op : TextOp)
  | order (op : OrderOp)
  | presence (op : PresenceOp)
  deriving DecidableEq

inductive ScanReason
  | unsupportedOperator (op : PredicateOp)
  | disjunction
  | negation
  | undeclaredDimension (key : JsString)
  | shadowedDimension (key : JsString)
  | repeatedDimension (key : JsString)
  | nonStringValue (key : JsString)
  deriving DecidableEq

inductive Blocker
  | dimensionNotCollected (key : JsString)
  | stepCountUnsupported (count supported : ℕ)
  | stepPredicateUnsupported (index : ℕ)
  | multiEventStepUnsupported (index : ℕ)
  deriving DecidableEq

inductive Answerability
  | indexed (plan : IndexedPlan) (queries : ℕ)
  | scan (reasons : List ScanReason)
  | unanswerable (reasons : List Blocker)

/-- What the loop over the conjuncts has gathered. -/
structure Classifying where
  blockers : List Blocker
  reasons : List ScanReason
  plan : IndexedPlan

namespace Classifying

def initial : Classifying := ⟨[], [], ⟨none, []⟩⟩

def reason (s : Classifying) (r : ScanReason) : Classifying :=
  { s with reasons := s.reasons ++ [r] }

def block (s : Classifying) (key : JsString) : Classifying :=
  { s with blockers := s.blockers ++ [.dimensionNotCollected key] }

def restrict (s : Classifying) (r : EventRestriction) : Classifying :=
  { s with plan.event := some r }

def filter (s : Classifying) (key value : JsString) : Classifying :=
  { s with plan.filters := JsObject.set s.plan.filters key value }

end Classifying

variable (catalog : DimensionCatalog)

/-- The planned fields of a branch that is a scan. -/
def collectBlockers (s : Classifying) (p : Predicate) : Classifying :=
  (p.fields.filter (fun f ↦ catalog.status f.key = .planned)).foldl (fun s f ↦ s.block f.key) s

def stringValues (values : List ScalarValue) : Option (List JsString) :=
  values.mapM (fun v ↦ match v with
    | .str s => some s
    | _ => none)

def classifyEventSet (s : Classifying) (key : JsString) (values : List ScalarValue) : Classifying :=
  if values = [] then s.reason (.nonStringValue key)
  else match stringValues values with
    | none => s.reason (.nonStringValue key)
    | some names =>
      if s.plan.event.isSome then s.reason (.repeatedDimension key)
      else s.restrict (.anyOf names.eraseDups)

def classifyEquality (s : Classifying) (field : FieldRef) (value : ScalarValue) : Classifying :=
  let status := catalog.status field.key
  if field.isShadowed then s.reason (.shadowedDimension field.key)
  else if status = .unknown ∨ status = .scanned then s.reason (.undeclaredDimension field.key)
  else match value with
    | .str text =>
      if field.key = DimensionName.eventType.text then
        if s.plan.event.isSome then s.reason (.repeatedDimension field.key)
        else s.restrict (.one text)
      else if s.plan.filters.any (fun f ↦ f.1 = field.key) then
        s.reason (.repeatedDimension field.key)
      else s.filter field.key text
    | _ => s.reason (.nonStringValue field.key)

/-- A leaf on a field, by the branches below the check that the field is collected. -/
def classifyField (s : Classifying) (field : FieldRef) (rest : Classifying → Classifying) :
    Classifying :=
  if catalog.status field.key = .planned then s.block field.key else rest s

/-- The body of the loop. An `and` is no conjunct. -/
def classifyLeaf (s : Classifying) : Predicate → Classifying
  | .group .and _ => s
  | .group .or operands => collectBlockers catalog (s.reason .disjunction) (.group .or operands)
  | .not operand => collectBlockers catalog (s.reason .negation) (.not operand)
  | .member .isIn field values => classifyField catalog s field (fun s ↦
      if field = .dimension .eventType then classifyEventSet s field.key values
      else s.reason (.unsupportedOperator (.member .isIn)))
  | .compare .eq field value =>
    classifyField catalog s field (fun s ↦ classifyEquality catalog s field value)
  | .compare .neq field _ =>
    classifyField catalog s field (·.reason (.unsupportedOperator (.compare .neq)))
  | .member .notIn field _ =>
    classifyField catalog s field (·.reason (.unsupportedOperator (.member .notIn)))
  | .text op field _ =>
    classifyField catalog s field (·.reason (.unsupportedOperator (.text op)))
  | .order op field _ =>
    classifyField catalog s field (·.reason (.unsupportedOperator (.order op)))
  | .presence op field =>
    classifyField catalog s field (·.reason (.unsupportedOperator (.presence op)))

def Classifying.answer (s : Classifying) : Answerability :=
  if s.blockers ≠ [] then .unanswerable s.blockers
  else if s.reasons ≠ [] then .scan s.reasons
  else .indexed s.plan 1

def classifyPredicate (predicate : Option Predicate) : Answerability :=
  match predicate with
  | none => .indexed ⟨none, []⟩ 1
  | some p => (p.conjuncts.foldl (classifyLeaf catalog) .initial).answer

def PredicateOp.name : PredicateOp → JsString
  | .compare op => op.name
  | .member op => op.name
  | .text op => op.name
  | .order op => op.name
  | .presence op => op.name

def quoted (key : JsString) : JsString := js "`" ++ key ++ js "`"

def describeScanReason : ScanReason → JsString
  | .unsupportedOperator op => quoted op.name ++ js " is not an indexed filter"
  | .disjunction => js "an `or` cannot be expressed as dimension equality"
  | .negation => js "a negation cannot be expressed as dimension equality"
  | .undeclaredDimension key => quoted key ++ js " is not a declared dimension"
  | .shadowedDimension key =>
    js "the property " ++ quoted key ++ js " shares a name with a Counted dimension"
  | .repeatedDimension key => quoted key ++ js " is constrained twice"
  | .nonStringValue key => quoted key ++ js " is compared to a non-string value"

def describeBlocker : Blocker → JsString
  | .dimensionNotCollected key => quoted key ++ js " is not collected yet"
  | .stepCountUnsupported count supported =>
    js "the engine funnels exactly " ++ natText supported ++ js " steps, this one has " ++
      natText count
  | .stepPredicateUnsupported index =>
    js "step " ++ natText (index + 1) ++ js " carries a filter the engine cannot apply per step"
  | .multiEventStepUnsupported index =>
    js "step " ++ natText (index + 1) ++ js " accepts more than one event"

namespace Answerability

def describe : Answerability → JsString
  | .indexed _ 1 => js "answered from indexed dimensions"
  | .indexed _ queries =>
    js "answered from indexed dimensions, " ++ natText queries ++ js " queries"
  | .scan reasons =>
    js "raw scan: " ++ JsString.join (js "; ") (reasons.map describeScanReason)
  | .unanswerable reasons =>
    js "not available: " ++ JsString.join (js "; ") (reasons.map describeBlocker)

def blockers : Answerability → List Blocker
  | .unanswerable reasons => reasons
  | _ => []

def scans : Answerability → List ScanReason
  | .scan reasons => reasons
  | _ => []

end Answerability

/-- `Object.assign(filters, part.filters)`, and the event of the last part that has one. -/
def mergePlan (merged : IndexedPlan × ℕ) : Answerability → IndexedPlan × ℕ
  | .indexed plan queries =>
    (⟨plan.event.or merged.1.event,
      plan.filters.foldl (fun filters f ↦ JsObject.set filters f.1 f.2) merged.1.filters⟩,
      max merged.2 queries)
  | _ => merged

/-- Combines the parts of one question. The worst wins, its reasons each once. -/
def worst (parts : List Answerability) : Answerability :=
  let blockers := parts.flatMap Answerability.blockers
  let scans := parts.flatMap Answerability.scans
  if blockers ≠ [] then .unanswerable blockers.eraseDups
  else if scans ≠ [] then .scan scans.eraseDups
  else
    let merged := parts.foldl mergePlan (⟨none, []⟩, 1)
    .indexed merged.1 merged.2

end Counted.Analytics
