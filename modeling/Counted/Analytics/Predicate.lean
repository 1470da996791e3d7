import Counted.Analytics.Field

namespace Counted.Analytics

inductive CompareOp | eq | neq
  deriving DecidableEq

inductive MemberOp | isIn | notIn
  deriving DecidableEq

inductive TextOp | contains | startsWith | endsWith
  deriving DecidableEq

inductive OrderOp | gt | gte | lt | lte
  deriving DecidableEq

inductive PresenceOp | exists | notExists
  deriving DecidableEq

inductive GroupOp | and | or
  deriving DecidableEq

/-- The sixteen operators of the source, those with the same operands in one constructor. -/
inductive Predicate
  | compare (op : CompareOp) (field : FieldRef) (value : ScalarValue)
  | member (op : MemberOp) (field : FieldRef) (values : List ScalarValue)
  | text (op : TextOp) (field : FieldRef) (value : JsString)
  | order (op : OrderOp) (field : FieldRef) (value : JsNumber)
  | presence (op : PresenceOp) (field : FieldRef)
  | group (op : GroupOp) (operands : List Predicate)
  | not (operand : Predicate)

def CompareOp.name : CompareOp → JsString
  | .eq => js "eq"
  | .neq => js "neq"

def MemberOp.name : MemberOp → JsString
  | .isIn => js "in"
  | .notIn => js "notIn"

def TextOp.name : TextOp → JsString
  | .contains => js "contains"
  | .startsWith => js "startsWith"
  | .endsWith => js "endsWith"

def OrderOp.name : OrderOp → JsString
  | .gt => js "gt"
  | .gte => js "gte"
  | .lt => js "lt"
  | .lte => js "lte"

def PresenceOp.name : PresenceOp → JsString
  | .exists => js "exists"
  | .notExists => js "notExists"

def GroupOp.name : GroupOp → JsString
  | .and => js "and"
  | .or => js "or"

def scalarKey : ScalarValue → JsString
  | .null => js "null"
  | .str s => js "string:" ++ s
  | .num n => js "number:" ++ n.toJs
  | .bool true => js "boolean:true"
  | .bool false => js "boolean:false"

namespace Predicate

def eq (field : FieldRef) (value : ScalarValue) : Predicate := .compare .eq field value

def isIn (field : FieldRef) (values : List ScalarValue) : Predicate := .member .isIn field values

/-- `and` of one operand collapses. -/
def and : List Predicate → Predicate
  | [p] => p
  | operands => .group .and operands

def or : List Predicate → Predicate
  | [p] => p
  | operands => .group .or operands

mutual

/-- Every field a predicate touches, in traversal order, with repeats. -/
def fields : Predicate → List FieldRef
  | .compare _ field _ | .member _ field _ | .text _ field _ | .order _ field _
  | .presence _ field => [field]
  | .group _ operands => fieldsOf operands
  | .not operand => fields operand

def fieldsOf : List Predicate → List FieldRef
  | [] => []
  | p :: operands => fields p ++ fieldsOf operands

end

mutual

/-- Flattens nested `and`s into their leaves. -/
def conjuncts : Predicate → List Predicate
  | .group .and operands => conjunctsOf operands
  | p => [p]

def conjunctsOf : List Predicate → List Predicate
  | [] => []
  | p :: operands => conjuncts p ++ conjunctsOf operands

end

mutual

/-- A stable key. `and` and `or` sort the keys of their operands, `in` those of its values. -/
def toKey : Predicate → JsString
  | .compare op field value =>
    op.name ++ js "(" ++ field.toKey ++ js "," ++ scalarKey value ++ js ")"
  | .member op field values =>
    op.name ++ js "(" ++ field.toKey ++ js ",[" ++
      JsString.join (js ",") (JsString.sort (values.map scalarKey)) ++ js "])"
  | .text op field value => op.name ++ js "(" ++ field.toKey ++ js ",string:" ++ value ++ js ")"
  | .order op field value =>
    op.name ++ js "(" ++ field.toKey ++ js ",number:" ++ value.toJs ++ js ")"
  | .presence op field => op.name ++ js "(" ++ field.toKey ++ js ")"
  | .group op operands =>
    op.name ++ js "(" ++ JsString.join (js ",") (JsString.sort (toKeys operands)) ++ js ")"
  | .not operand => js "not(" ++ toKey operand ++ js ")"

def toKeys : List Predicate → List JsString
  | [] => []
  | p :: operands => toKey p :: toKeys operands

end

theorem fieldsOf_eq (operands : List Predicate) :
    fieldsOf operands = operands.flatMap fields := by
  induction operands with
  | nil => rfl
  | cons p operands ih => rw [fieldsOf, ih, List.flatMap_cons]

theorem conjunctsOf_eq (operands : List Predicate) :
    conjunctsOf operands = operands.flatMap conjuncts := by
  induction operands with
  | nil => rfl
  | cons p operands ih => rw [conjunctsOf, ih, List.flatMap_cons]

theorem toKeys_eq (operands : List Predicate) : toKeys operands = operands.map toKey := by
  induction operands with
  | nil => rfl
  | cons p operands ih => rw [toKeys, ih, List.map_cons]

section

variable {P : Predicate → Prop}
  (compare : ∀ op field value, P (.compare op field value))
  (member : ∀ op field values, P (.member op field values))
  (text : ∀ op field value, P (.text op field value))
  (order : ∀ op field value, P (.order op field value))
  (presence : ∀ op field, P (.presence op field))
  (group : ∀ op operands, (∀ p ∈ operands, P p) → P (.group op operands))
  (not : ∀ operand, P operand → P (.not operand))

include compare member text order presence group not

/-- Induction with a hypothesis for each operand of a group. -/
@[elab_as_elim, induction_eliminator]
theorem induct : ∀ p : Predicate, P p := by
  have hall : ∀ n, ∀ p : Predicate, sizeOf p ≤ n → P p := by
    intro n
    induction n with
    | zero =>
      intro p hp
      cases p <;> simp at hp
    | succ n ih =>
      intro p hp
      match p with
      | .compare op field value => exact compare op field value
      | .member op field values => exact member op field values
      | .text op field value => exact text op field value
      | .order op field value => exact order op field value
      | .presence op field => exact presence op field
      | .group op operands =>
        refine group op operands (fun q hq ↦ ih q ?_)
        have := List.sizeOf_lt_of_mem hq
        simp only [Predicate.group.sizeOf_spec] at hp
        omega
      | .not operand =>
        refine not operand (ih operand ?_)
        simp only [Predicate.not.sizeOf_spec] at hp
        omega
  exact fun p ↦ hall _ p le_rfl

end

end Predicate

end Counted.Analytics
