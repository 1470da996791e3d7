import Counted.Analytics.Predicate

namespace Counted.Analytics

/-- What reading a property of an object gives. A plain object inherits functions, and from
`__proto__` the object that has them. -/
inductive JsValue
  | undefined
  | json (j : Json)
  | function (name : JsString)
  | prototype

/-- `null` for a dimension is an own property, which the reader sets for every dimension. -/
structure RawEvent where
  ts : ℤ
  actor : JsString
  dimensions : List (JsString × Option JsString)
  properties : List (JsString × Json)

def inheritedValue (key : JsString) : JsValue :=
  if key = js "__proto__" then .prototype
  else if JsObject.inherited.contains key then .function key
  else .undefined

namespace RawEvent

/-- `event.dimensions[key]`. -/
def dimension (event : RawEvent) (key : JsString) : JsValue :=
  match JsObject.get event.dimensions key with
  | some (some s) => .json (.str s)
  | some none => .json .null
  | none => inheritedValue key

def property (event : RawEvent) (key : JsString) : JsValue :=
  match JsObject.get event.properties key with
  | some j => .json j
  | none => inheritedValue key

end RawEvent

/-- Properties of the sink's own cannot be asked for. -/
def fieldValue (event : RawEvent) : FieldRef → JsValue
  | .property key => if key.startsWith (js "$") then .undefined else event.property key
  | .dimension d => event.dimension d.text

namespace JsValue

/-- `===` with a scalar. No object is one. -/
def strictEq : JsValue → ScalarValue → Bool
  | .json (.str s), .str t => s = t
  | .json (.num n), .num m => n.strictEq m
  | .json (.bool b), .bool c => b = c
  | .json .null, .null => true
  | _, _ => false

def isNullish : JsValue → Bool
  | .undefined | .json .null => true
  | _ => false

end JsValue

def TextOp.holds (s t : JsString) : TextOp → Bool
  | .contains => s.includes t
  | .startsWith => s.startsWith t
  | .endsWith => s.endsWith t

def OrderOp.holds (n m : JsNumber) : OrderOp → Bool
  | .gt => m.lt n
  | .gte => m.le n
  | .lt => n.lt m
  | .lte => n.le m

mutual

def Predicate.matches (event : RawEvent) : Predicate → Bool
  | .group .and operands => matchesAll event operands
  | .group .or operands => matchesSome event operands
  | .not operand => !operand.matches event
  | .compare .eq field value => (fieldValue event field).strictEq value
  | .compare .neq field value => !(fieldValue event field).strictEq value
  | .member .isIn field values => values.any (fieldValue event field).strictEq
  | .member .notIn field values => !values.any (fieldValue event field).strictEq
  | .presence .exists field => !(fieldValue event field).isNullish
  | .presence .notExists field => (fieldValue event field).isNullish
  | .text op field value =>
    match fieldValue event field with
    | .json (.str s) => op.holds s value
    | _ => false
  | .order op field value =>
    match fieldValue event field with
    | .json (.num n) => op.holds n value
    | _ => false

def matchesAll (event : RawEvent) : List Predicate → Bool
  | [] => true
  | p :: operands => p.matches event && matchesAll event operands

def matchesSome (event : RawEvent) : List Predicate → Bool
  | [] => false
  | p :: operands => p.matches event || matchesSome event operands

end

theorem matchesAll_eq (event : RawEvent) (operands : List Predicate) :
    matchesAll event operands = operands.all (·.matches event) := by
  induction operands with
  | nil => rfl
  | cons p operands ih => rw [matchesAll, ih, List.all_cons]

theorem matchesSome_eq (event : RawEvent) (operands : List Predicate) :
    matchesSome event operands = operands.any (·.matches event) := by
  induction operands with
  | nil => rfl
  | cons p operands ih => rw [matchesSome, ih, List.any_cons]

variable (rt : Runtime)

/-- `String(value)`, but of an object its JSON, and `null` of no value. -/
def JsValue.text : JsValue → Option JsString
  | .undefined | .json .null => none
  | .json (.str s) => some s
  | .json (.num n) => some n.toJs
  | .json (.bool true) => some (js "true")
  | .json (.bool false) => some (js "false")
  | .json j => some j.stringify
  | .function name => some (rt.functionText name)
  | .prototype => some (Json.obj []).stringify

/-- The value of a field a query names, a property of the customer's by its prefix. -/
def valueAt (event : RawEvent) (key : JsString) : Option JsString :=
  if key.startsWith (js "property:") then
    (fieldValue event (.property (key.drop 9))).text rt
  else (event.dimension key).text rt

inductive EventRestriction
  | one (name : JsString)
  | anyOf (names : List JsString)

def EventRestriction.names : EventRestriction → List JsString
  | .one name => [name]
  | .anyOf names => names

abbrev Filters := List (JsString × JsString)

/-- Whether an event passes the restrictions of a query that reads the index. -/
def passes (event : RawEvent) (restriction : Option EventRestriction) (filters : Filters) : Bool :=
  restriction.all (fun r ↦ r.names.any
    (fun name ↦ (event.dimension (js "event_type")).strictEq (.str name))) &&
    filters.all (fun f ↦ valueAt rt event f.1 = some f.2)

def included (event : RawEvent) (predicate : Option Predicate)
    (restriction : Option EventRestriction) (filters : Filters) : Bool :=
  predicate.all (·.matches event) && passes rt event restriction filters

/-- One event of each kind, which counts wherever the model is run. -/
example : included ⟨fun _ ↦ none, fun _ _ ↦ .eq, fun a _ ↦ a, id⟩
    ⟨0, js "a", [(js "event_type", some (js "open"))], [(js "plan", .str (js "pro"))]⟩
    (some (.eq (.property (js "plan")) (.str (js "pro")))) (some (.one (js "open"))) [] = true := by
  decide

end Counted.Analytics
