import Counted.Analytics.Analysis
import Counted.Kernel.RoundTrip

namespace Counted.Analytics

/-- A value as the worker stores it: itself, without the members that are undefined. -/
def FieldRef.json (f : FieldRef) : Json :=
  .obj [(js "source", .str (match f with
    | .dimension _ => js "dimension"
    | .property _ => js "property")), (js "key", .str f.key)]

def ScalarValue.json : ScalarValue → Json
  | .str s => .str s
  | .num n => .num n
  | .bool b => .bool b
  | .null => .null

mutual

def Predicate.json : Predicate → Json
  | .compare op field value =>
    .obj [(js "op", .str op.name), (js "field", field.json), (js "value", value.json)]
  | .member op field values =>
    .obj [(js "op", .str op.name), (js "field", field.json),
      (js "values", .arr (values.map ScalarValue.json))]
  | .text op field value =>
    .obj [(js "op", .str op.name), (js "field", field.json), (js "value", .str value)]
  | .order op field value =>
    .obj [(js "op", .str op.name), (js "field", field.json), (js "value", .num value)]
  | .presence op field => .obj [(js "op", .str op.name), (js "field", field.json)]
  | .group op operands => .obj [(js "op", .str op.name), (js "operands", .arr (jsons operands))]
  | .not operand => .obj [(js "op", .str (js "not")), (js "operand", operand.json)]

def jsons : List Predicate → List Json
  | [] => []
  | p :: operands => p.json :: jsons operands

end

theorem jsons_eq (operands : List Predicate) : jsons operands = operands.map Predicate.json := by
  induction operands with
  | nil => rfl
  | cons p operands ih => rw [jsons, ih, List.map_cons]

def Window.json : Window → Json
  | .relative amount unit =>
    .obj [(js "kind", .str (js "relative")), (js "amount", .num amount),
      (js "unit", .str unit.text)]
  | .absolute fromMs toMs =>
    .obj [(js "kind", .str (js "absolute")), (js "from", .num fromMs), (js "to", .num toMs)]

def Measure.json : Measure → Json
  | .count => .obj [(js "kind", .str (js "count"))]
  | .unique basis => .obj [(js "kind", .str (js "unique")), (js "basis", .str basis.text)]
  | .sum name => .obj [(js "kind", .str (js "sum")), (js "name", .str name)]

/-- A member that is left out where there is no value. -/
def member {α : Type} (key : JsString) (json : α → Json) (value : Option α) :
    List (JsString × Json) :=
  (value.map (fun a ↦ (key, json a))).toList

def FunnelStep.json (s : FunnelStep) : Json :=
  .obj ((js "events", .arr (s.events.map .str)) ::
    (member (js "where") Predicate.json s.condition ++ member (js "label") .str s.label))

def Funnel.json (f : Funnel) : Json :=
  .obj [(js "steps", .arr (f.steps.map FunnelStep.json)), (js "window", f.window.json),
    (js "conversionWindow", .obj [(js "within", .num f.conversionWindow.within)]),
    (js "basis", .str f.basis.text)]

def MetricCommon.members (c : MetricCommon) : List (JsString × Json) :=
  [(js "measure", c.measure.json), (js "window", c.window.json)] ++
    member (js "where") Predicate.json c.condition

def Grouping.json : Grouping → Json
  | .one field => field.json
  | .tuple fields => .arr (fields.map FieldRef.json)

/-- `analysisCodec.encode` of the worker. -/
def Analysis.json : Analysis → Json
  | .scalar common summary =>
    .obj ((js "shape", .str (js "scalar")) :: (js "summary", .str summary.text) :: common.members)
  | .series common grain groupBy limit =>
    .obj ((js "shape", .str (js "series")) :: (js "grain", .str grain.text) ::
      (common.members ++ member (js "by") FieldRef.json groupBy ++ member (js "limit") .num limit))
  | .breakdown common groupBy order limit =>
    .obj ((js "shape", .str (js "breakdown")) :: (js "by", groupBy.json) ::
      (js "order", .str order.text) :: (js "limit", .num limit) :: common.members)
  | .funnel f => .obj [(js "shape", .str (js "funnel")), (js "funnel", f.json)]

/-- What the worker reads of a column: `none` for `null` and for what is missing. -/
def objectOf : Option Json → Option (List (JsString × Json))
  | some (.obj fields) => some fields
  | _ => none

def arrayOf : Option Json → Option (List Json)
  | some (.arr items) => some items
  | _ => none

def stringOf : Option Json → Option JsString
  | some (.str s) => some s
  | _ => none

/-- `str`: an empty string is none. -/
def nonEmptyOf (raw : Option Json) : Option JsString := (stringOf raw).filter (· ≠ [])

/-- `num`: a finite number. -/
def numberOf : Option Json → Option JsNumber
  | some (.num (.finite d)) => some (.finite d)
  | _ => none

def oneOf {α : Type} (text : α → JsString) (allowed : List α) (raw : Option Json) : Option α :=
  (stringOf raw).bind (fun s ↦ allowed.find? (fun a ↦ text a = s))

def grains : List Grain := [.hour, .day, .week, .month]

def bases : List CountingBasis := [.visit, .person]

def directions : List SortDirection := [.asc, .desc]

/-- The source of a field is read, never derived again from its name. -/
def readField (raw : Option Json) : Option FieldRef := do
  let fields ← objectOf raw
  let key ← nonEmptyOf (JsObject.get fields (js "key"))
  let source ← stringOf (JsObject.get fields (js "source"))
  if source = js "dimension" then
    (dimensions.find? (fun d ↦ d.text = key)).map .dimension
  else if source = js "property" then some (.property key)
  else none

def readScalar : Json → Option ScalarValue
  | .null => some .null
  | .str s => some (.str s)
  | .bool b => some (.bool b)
  | .num (.finite d) => some (.num (.finite d))
  | _ => none

inductive NodeOp
  | group (op : GroupOp)
  | negation
  | leaf (op : PredicateOp)

def NodeOp.name : NodeOp → JsString
  | .group op => op.name
  | .negation => js "not"
  | .leaf op => op.name

def nodeOps : List NodeOp :=
  [.group .and, .group .or, .negation] ++
    [PredicateOp.compare .eq, .compare .neq, .member .isIn, .member .notIn, .text .contains,
      .text .startsWith, .text .endsWith, .order .gt, .order .gte, .order .lt, .order .lte,
      .presence .exists, .presence .notExists].map .leaf

/-- A leaf of a predicate whose field has been read. -/
def readLeaf (fields : List (JsString × Json)) (field : FieldRef) : PredicateOp → Option Predicate
  | .compare op => ((JsObject.get fields (js "value")).bind readScalar).map (.compare op field)
  | .member op => do
    let values ← arrayOf (JsObject.get fields (js "values"))
    (values.mapM readScalar).map (.member op field)
  | .text op => (stringOf (JsObject.get fields (js "value"))).map (.text op field)
  | .order op => (numberOf (JsObject.get fields (js "value"))).map (.order op field)
  | .presence op => some (.presence op field)

/-- `predicate` at a depth from which it may go `n - 1` levels further down. -/
def readPredicate : ℕ → Json → Option Predicate
  | n + 1, .obj fields => do
    match ← oneOf NodeOp.name nodeOps (JsObject.get fields (js "op")) with
    | .group op =>
      let operands ← arrayOf (JsObject.get fields (js "operands"))
      (operands.mapM (readPredicate n)).map (.group op)
    | .negation => ((JsObject.get fields (js "operand")).bind (readPredicate n)).map .not
    | .leaf op =>
      let field ← readField (JsObject.get fields (js "field"))
      readLeaf fields field op
  | _, _ => none

/-- A predicate is read down to this depth. -/
def maxDepth : ℕ := 32

def readWindow (raw : Option Json) : Option Window := do
  let fields ← objectOf raw
  let kind ← stringOf (JsObject.get fields (js "kind"))
  if kind = js "relative" then
    let amount ← numberOf (JsObject.get fields (js "amount"))
    let unit ← oneOf Step.text grains (JsObject.get fields (js "unit"))
    return .relative amount unit
  else if kind = js "absolute" then
    let fromMs ← numberOf (JsObject.get fields (js "from"))
    let toMs ← numberOf (JsObject.get fields (js "to"))
    return .absolute fromMs toMs
  else none

def readMeasure (raw : Option Json) : Option Measure := do
  let fields ← objectOf raw
  let kind ← stringOf (JsObject.get fields (js "kind"))
  if kind = js "count" then return .count
  else if kind = js "unique" then
    (oneOf CountingBasis.text bases (JsObject.get fields (js "basis"))).map .unique
  else if kind = js "sum" then (nonEmptyOf (JsObject.get fields (js "name"))).map .sum
  else none

/-- A member that may be left out, read where it is there. -/
def optional {α β : Type} (read : α → Option β) : Option α → Option (Option β)
  | none => some none
  | some raw => (read raw).map some

def readStep (raw : Json) : Option FunnelStep := do
  let fields ← objectOf raw
  let events ← arrayOf (JsObject.get fields (js "events"))
  if events.isEmpty then none
  else
    let events ← events.mapM (fun e ↦ nonEmptyOf (some e))
    let label ← optional (fun j ↦ nonEmptyOf (some j)) (JsObject.get fields (js "label"))
    let condition ← optional (readPredicate (maxDepth + 1)) (JsObject.get fields (js "where"))
    return { label, events, condition }

def readFunnel (raw : Option Json) : Option Funnel := do
  let fields ← objectOf raw
  let steps ← arrayOf (JsObject.get fields (js "steps"))
  let steps ← steps.mapM readStep
  let window ← readWindow (JsObject.get fields (js "window"))
  let basis ← oneOf CountingBasis.text bases (JsObject.get fields (js "basis"))
  -- the domain nests the number, the contract names it for its unit
  let nested := (objectOf (JsObject.get fields (js "conversionWindow"))).bind
    (fun c ↦ numberOf (JsObject.get c (js "within")))
  let within ← nested.or (numberOf (JsObject.get fields (js "conversionWindowMs")))
  return { steps, window, conversionWindow := ⟨within⟩, basis }

/-- The limit of a breakdown. -/
def readLimit (raw : Option Json) : Option JsNumber :=
  (numberOf raw).filter (fun n ↦
    n.isInteger && !n.le (0 : ℤ) && !JsNumber.lt ((maxBreakdownLimit : ℤ) : JsNumber) n)

/-- A `where` that is `null` is as one that is missing. -/
def readCondition : Option Json → Option (Option Predicate)
  | none | some .null => some none
  | some raw => (readPredicate (maxDepth + 1) raw).map some

def readCommon (fields : List (JsString × Json)) : Option MetricCommon := do
  let measure ← readMeasure (JsObject.get fields (js "measure"))
  let window ← readWindow (JsObject.get fields (js "window"))
  let condition ← readCondition (JsObject.get fields (js "where"))
  return { measure, condition, window }

/-- A stored value as an analysis, if it is one. -/
def parseAnalysis (raw : Json) : Option Analysis := do
  let fields ← objectOf raw
  let shape := stringOf (JsObject.get fields (js "shape"))
  if shape = some (js "funnel") then
    (readFunnel (JsObject.get fields (js "funnel"))).map .funnel
  else
    let common ← readCommon fields
    let shape ← shape
    if shape = js "scalar" then
      (oneOf SummaryStat.text SummaryStat.all (JsObject.get fields (js "summary"))).map
        (.scalar common)
    else if shape = js "series" then
      let grain ← oneOf Step.text grains (JsObject.get fields (js "grain"))
      return .series common grain none none
    else if shape = js "breakdown" then
      let field ← readField (JsObject.get fields (js "by"))
      let order ← oneOf SortDirection.text directions (JsObject.get fields (js "order"))
      let limit ← readLimit (JsObject.get fields (js "limit"))
      return .breakdown common (.one field) order limit
    else none

end Counted.Analytics
