import Counted.Analytics.StoredAnalysis
import Counted.Ingestion.Admission

namespace Counted.Analytics

inductive WireSource | dimension | property
  deriving DecidableEq

/-- The name of a dimension is open on the wire. -/
structure WireFieldRef where
  source : WireSource
  key : JsString
  deriving DecidableEq

inductive WirePredicate
  | compare (op : CompareOp) (field : WireFieldRef) (value : ScalarValue)
  | member (op : MemberOp) (field : WireFieldRef) (values : List ScalarValue)
  | text (op : TextOp) (field : WireFieldRef) (value : JsString)
  | order (op : OrderOp) (field : WireFieldRef) (value : JsNumber)
  | presence (op : PresenceOp) (field : WireFieldRef)
  | group (op : GroupOp) (operands : List WirePredicate)
  | not (operand : WirePredicate)

/-- The bounds of an absolute window are timestamps. -/
inductive WireWindow
  | relative (amount : JsNumber) (unit : RelativeUnit)
  | absolute (fromISO toISO : JsString)

structure WireFunnelStep where
  label : Option JsString
  events : List JsString
  condition : Option WirePredicate

structure WireFunnel where
  steps : List WireFunnelStep
  window : WireWindow
  conversionWindowMs : JsNumber
  basis : CountingBasis

inductive WireGrouping
  | one (field : WireFieldRef)
  | tuple (fields : List WireFieldRef)

structure WireCommon where
  measure : Measure
  condition : Option WirePredicate
  window : WireWindow

inductive WireAnalysis
  | scalar (common : WireCommon) (summary : SummaryStat)
  | series (common : WireCommon) (grain : Grain) (groupBy : Option WireFieldRef)
      (limit : Option JsNumber)
  | breakdown (common : WireCommon) (groupBy : WireGrouping) (order : SortDirection)
      (limit : JsNumber)
  | funnel (funnel : WireFunnel)

def fromFieldRef : FieldRef → WireFieldRef
  | .dimension d => ⟨.dimension, d.text⟩
  | .property key => ⟨.property, key⟩

mutual

def fromPredicate : Predicate → WirePredicate
  | .group op operands => .group op (fromPredicates operands)
  | .not operand => .not (fromPredicate operand)
  | .compare op field value => .compare op (fromFieldRef field) value
  | .member op field values => .member op (fromFieldRef field) values
  | .text op field value => .text op (fromFieldRef field) value
  | .order op field value => .order op (fromFieldRef field) value
  | .presence op field => .presence op (fromFieldRef field)

def fromPredicates : List Predicate → List WirePredicate
  | [] => []
  | p :: operands => fromPredicate p :: fromPredicates operands

end

/-- `Instant.toISO`. The text of no date is not one of a timestamp; the source throws. -/
def toISO : JsNumber → JsString
  | .finite d => (Calendar.timeClip d).elim [] Calendar.toISOString
  | _ => []

def fromWindow : Window → WireWindow
  | .relative amount unit => .relative amount unit
  | .absolute fromMs toMs => .absolute (toISO fromMs) (toISO toMs)

def fromMeasure : Measure → Measure
  | .count => .count
  | .unique basis => .unique basis
  | .sum name => .sum name

def fromFunnelStep (s : FunnelStep) : WireFunnelStep :=
  { label := s.label, events := s.events, condition := s.condition.map fromPredicate }

def fromGrouping : Grouping → WireGrouping
  | .one field => .one (fromFieldRef field)
  | .tuple fields => .tuple (fields.map fromFieldRef)

def fromCommon (c : MetricCommon) : WireCommon :=
  { measure := fromMeasure c.measure
    condition := c.condition.map fromPredicate
    window := fromWindow c.window }

def fromAnalysis : Analysis → WireAnalysis
  | .funnel f => .funnel
      { steps := f.steps.map fromFunnelStep
        window := fromWindow f.window
        conversionWindowMs := f.conversionWindow.within
        basis := f.basis }
  | .scalar common summary => .scalar (fromCommon common) summary
  | .series common grain groupBy limit =>
    .series (fromCommon common) grain (groupBy.map fromFieldRef) limit
  | .breakdown common groupBy order limit =>
    .breakdown (fromCommon common) (fromGrouping groupBy) order limit

/-- A wire value as the object it is. -/
def WireFieldRef.json (f : WireFieldRef) : Json :=
  .obj [(js "source", .str (match f.source with
    | .dimension => js "dimension"
    | .property => js "property")), (js "key", .str f.key)]

mutual

def WirePredicate.json : WirePredicate → Json
  | .compare op field value =>
    .obj [(js "op", .str op.name), (js "field", field.json), (js "value", value.json)]
  | .member op field values =>
    .obj [(js "op", .str op.name), (js "field", field.json),
      (js "values", .arr (values.map ScalarValue.json))]
  | .text op field value =>
    .obj [(js "op", .str op.name), (js "field", field.json), (js "value", .str value)]
  | .order op field value =>
    .obj [(js "op", .str op.name), (js "field", field.json), (js "value", .num value)]
  | .presence op field => .obj [(js "op", .str op.name), (js "field", field.json)]
  | .group op operands =>
    .obj [(js "op", .str op.name), (js "operands", .arr (wireJsons operands))]
  | .not operand => .obj [(js "op", .str (js "not")), (js "operand", operand.json)]

def wireJsons : List WirePredicate → List Json
  | [] => []
  | p :: operands => p.json :: wireJsons operands

end

def WireWindow.json : WireWindow → Json
  | .relative amount unit =>
    .obj [(js "kind", .str (js "relative")), (js "amount", .num amount),
      (js "unit", .str unit.text)]
  | .absolute fromISO toISO =>
    .obj [(js "kind", .str (js "absolute")), (js "from", .str fromISO), (js "to", .str toISO)]

def WireFunnelStep.json (s : WireFunnelStep) : Json :=
  .obj (member (js "label") .str s.label ++ (js "events", .arr (s.events.map .str)) ::
    member (js "where") WirePredicate.json s.condition)

def WireFunnel.json (f : WireFunnel) : Json :=
  .obj [(js "steps", .arr (f.steps.map WireFunnelStep.json)), (js "window", f.window.json),
    (js "conversionWindowMs", .num f.conversionWindowMs), (js "basis", .str f.basis.text)]

def WireCommon.members (c : WireCommon) : List (JsString × Json) :=
  [(js "measure", c.measure.json), (js "window", c.window.json)] ++
    member (js "where") WirePredicate.json c.condition

def WireGrouping.json : WireGrouping → Json
  | .one field => field.json
  | .tuple fields => .arr (fields.map WireFieldRef.json)

def WireAnalysis.json : WireAnalysis → Json
  | .scalar common summary =>
    .obj ((js "shape", .str (js "scalar")) :: (js "summary", .str summary.text) :: common.members)
  | .series common grain groupBy limit =>
    .obj ((js "shape", .str (js "series")) :: (js "grain", .str grain.text) ::
      (common.members ++
        (member (js "by") WireFieldRef.json groupBy ++ member (js "limit") .num limit)))
  | .breakdown common groupBy order limit =>
    .obj ((js "shape", .str (js "breakdown")) :: (js "by", groupBy.json) ::
      (js "order", .str order.text) :: (js "limit", .num limit) :: common.members)
  | .funnel f => .obj [(js "shape", .str (js "funnel")), (js "funnel", f.json)]

/-- Why no analysis comes out. `broken` is an exception, or a value that is no analysis: nothing
checks what is read against the type. -/
inductive WireFault
  | refused (error : AnalysisError)
  | broken
  deriving DecidableEq

def orBroken {α : Type} : Option α → Except WireFault α
  | some a => .ok a
  | none => .error .broken

def toFieldRef (wire : Json) : Except WireFault FieldRef := do
  let fields ← orBroken (objectOf (some wire))
  let source ← orBroken (stringOf (JsObject.get fields (js "source")))
  let key ← orBroken (stringOf (JsObject.get fields (js "key")))
  if source = js "dimension" then
    match dimensions.find? (fun d ↦ d.text = key) with
    | some d => .ok (.dimension d)
    | none => .error (.refused (.unknownDimension key))
  else if source = js "property" then .ok (.property key)
  else .error .broken

/-- A value as it is, where it is a scalar. -/
def scalarOf : Json → Option ScalarValue
  | .null => some .null
  | .str s => some (.str s)
  | .bool b => some (.bool b)
  | .num n => some (.num n)
  | _ => none

def anyNumberOf : Option Json → Option JsNumber
  | some (.num n) => some n
  | _ => none

def toLeaf (fields : List (JsString × Json)) (field : FieldRef) : PredicateOp → Option Predicate
  | .compare op => ((JsObject.get fields (js "value")).bind scalarOf).map (.compare op field)
  | .member op =>
    ((arrayOf (JsObject.get fields (js "values"))).bind (·.mapM scalarOf)).map (.member op field)
  | .text op => (stringOf (JsObject.get fields (js "value"))).map (.text op field)
  | .order op => (anyNumberOf (JsObject.get fields (js "value"))).map (.order op field)
  | .presence op => some (.presence op field)

/-- The source recurses without a bound. The fuel here is the depth of the value. -/
def toPredicateAt : ℕ → Json → Except WireFault Predicate
  | n + 1, .obj fields => do
    match ← orBroken (oneOf NodeOp.name nodeOps (JsObject.get fields (js "op"))) with
    | .group op =>
      let operands ← orBroken (arrayOf (JsObject.get fields (js "operands")))
      return .group op (← operands.mapM (toPredicateAt n))
    | .negation =>
      let operand ← orBroken (JsObject.get fields (js "operand"))
      return .not (← toPredicateAt n operand)
    | .leaf op =>
      let field ← orBroken (JsObject.get fields (js "field"))
      orBroken (toLeaf fields (← toFieldRef field) op)
  | _, _ => .error .broken

def toPredicate (wire : Json) : Except WireFault Predicate := toPredicateAt wire.depth wire

/-- What `Date.parse` makes a string of. -/
def dateText : Option Json → Option JsString
  | none => some (js "undefined")
  | some .null => some (js "null")
  | some (.bool b) => some (if b then js "true" else js "false")
  | some (.num n) => some n.toJs
  | some (.str s) => some s
  | some _ => none

section

variable (rt : Runtime)

/-- `Instant.fromISO`, whose `Date.parse` also reads what `toISOString` writes. -/
def fromISO (raw : JsString) : Option Instant :=
  Ingestion.instantFromISO { rt with dateParse := Calendar.dateParse rt } raw

def toInstant (bound : JsString) (raw : Option Json) : Except WireFault JsNumber := do
  let text ← orBroken (dateText raw)
  match fromISO rt text with
  | some t => .ok (t : JsNumber)
  | none => .error (.refused (.invalidAnalysis
      (js "window." ++ bound ++ js " is not an instant: " ++ text)))

def toWindow (wire : Option Json) : Except WireFault Window := do
  let fields ← orBroken (objectOf wire)
  let kind ← orBroken (stringOf (JsObject.get fields (js "kind")))
  if kind = js "relative" then
    let amount ← orBroken (anyNumberOf (JsObject.get fields (js "amount")))
    let unit ← orBroken (oneOf Step.text grains (JsObject.get fields (js "unit")))
    return .relative amount unit
  else if kind = js "absolute" then
    let fromMs ← toInstant rt (js "from") (JsObject.get fields (js "from"))
    let toMs ← toInstant rt (js "to") (JsObject.get fields (js "to"))
    return .absolute fromMs toMs
  else .error .broken

def toMeasure (wire : Option Json) : Except WireFault Measure := do
  let fields ← orBroken (objectOf wire)
  let kind ← orBroken (stringOf (JsObject.get fields (js "kind")))
  if kind = js "count" then return .count
  else if kind = js "unique" then
    return .unique (← orBroken (oneOf CountingBasis.text bases (JsObject.get fields (js "basis"))))
  else if kind = js "sum" then
    return .sum (← orBroken (stringOf (JsObject.get fields (js "name"))))
  else .error .broken

def toCondition : Option Json → Except WireFault (Option Predicate)
  | none => .ok none
  | some wire => (toPredicate wire).map some

def toFunnelStep (wire : Json) : Except WireFault FunnelStep := do
  let fields ← orBroken (objectOf (some wire))
  let condition ← toCondition (JsObject.get fields (js "where"))
  let events ← orBroken (arrayOf (JsObject.get fields (js "events")))
  let events ← orBroken (events.mapM (fun e ↦ stringOf (some e)))
  let label ← orBroken (optional (fun j ↦ stringOf (some j)) (JsObject.get fields (js "label")))
  return { label, events, condition }

def toFunnel (wire : Option Json) : Except WireFault Funnel := do
  let fields ← orBroken (objectOf wire)
  let steps ← orBroken (arrayOf (JsObject.get fields (js "steps")))
  let steps ← steps.mapM toFunnelStep
  let window ← toWindow rt (JsObject.get fields (js "window"))
  let within ← orBroken (anyNumberOf (JsObject.get fields (js "conversionWindowMs")))
  let basis ← orBroken (oneOf CountingBasis.text bases (JsObject.get fields (js "basis")))
  return { steps, window, conversionWindow := ⟨within⟩, basis }

def truthy : Json → Bool
  | .null => false
  | .bool b => b
  | .num n => n != (0 : ℤ) && n != .nan
  | .str s => s != []
  | .arr _ | .obj _ => true

def toCommon (fields : List (JsString × Json)) : Except WireFault MetricCommon := do
  let window ← toWindow rt (JsObject.get fields (js "window"))
  let condition ← toCondition (JsObject.get fields (js "where"))
  let measure ← toMeasure (JsObject.get fields (js "measure"))
  return { measure, condition, window }

def toSplit : Option Json → Except WireFault (Option FieldRef)
  | none => .ok none
  | some wire => if truthy wire then (toFieldRef wire).map some else .ok none

def toGrouping : Option Json → Except WireFault Grouping
  | some (.arr fields) => (fields.mapM toFieldRef).map .tuple
  | some wire => (toFieldRef wire).map .one
  | none => .error .broken

/-- Reads an analysis off the wire. Structural validity is another question. -/
def toAnalysis (wire : Json) : Except WireFault Analysis := do
  let fields ← orBroken (objectOf (some wire))
  let shape := stringOf (JsObject.get fields (js "shape"))
  if shape = some (js "funnel") then
    return .funnel (← toFunnel rt (JsObject.get fields (js "funnel")))
  else
    let common ← toCommon rt fields
    let shape ← orBroken shape
    if shape = js "scalar" then
      return .scalar common
        (← orBroken (oneOf SummaryStat.text SummaryStat.all (JsObject.get fields (js "summary"))))
    else if shape = js "series" then
      let split ← toSplit (JsObject.get fields (js "by"))
      let grain ← orBroken (oneOf Step.text grains (JsObject.get fields (js "grain")))
      let limit ← orBroken
        (optional (fun j ↦ anyNumberOf (some j)) (JsObject.get fields (js "limit")))
      return .series common grain split limit
    else if shape = js "breakdown" then
      let groupBy ← toGrouping (JsObject.get fields (js "by"))
      let order ← orBroken (oneOf SortDirection.text directions (JsObject.get fields (js "order")))
      let limit ← orBroken (anyNumberOf (JsObject.get fields (js "limit")))
      return .breakdown common groupBy order limit
    else .error .broken

end

end Counted.Analytics
