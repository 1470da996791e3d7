import Counted.Foundations.Recursion
import Counted.Kernel.Json
import Counted.Kernel.Whole

namespace Counted.Openapi

open Foundations

/-- A schema: the own fields of an object. Those that are read have the types declared for them. -/
abbrev Schema := List (JsString × Json)

def fieldsOf : Json → Schema
  | .obj fields => fields
  | _ => []

def itemsOf : Json → List Json
  | .arr items => items
  | _ => []

/-- A field that is there and is not `null`. -/
def field (s : Schema) (key : JsString) : Option Json :=
  (JsObject.get s key).bind fun
    | .null => none
    | v => some v

inductive Failure
  | onlyLocal
  | missing (ref : JsString)
  | circular
  /-- A property of `undefined` is read. -/
  | typeError
  deriving DecidableEq

/-! ### References -/

/-- `$ref`, unless it is empty. -/
def ref (s : Schema) : Option JsString :=
  match JsObject.get s (js "$ref") with
  | some (.str t) => if t = [] then none else some t
  | _ => none

/-- `replaceAll` of a tilde and a digit. -/
def unescape (digit replacement : UInt16) : JsString → JsString
  | [] => []
  | [u] => [u]
  | u :: v :: t =>
    if u = 126 ∧ v = digit then replacement :: unescape digit replacement t
    else u :: unescape digit replacement (v :: t)

/-- An own property of an object or an array. -/
def child (value : Json) (key : JsString) : Option Json :=
  match value with
  | .obj fields => JsObject.get fields key
  | .arr items =>
    if key = js "length" then some (.num (items.length : ℤ))
    else ((List.range items.length).find? (fun i ↦ natText i = key)).bind (items[·]?)
  | _ => none

def pointer (document : Json) (t : JsString) : Option Json :=
  ((t.drop 2).splitOn 47).foldlM
    (fun value part ↦ child value (unescape 48 126 (unescape 49 47 part))) document

/-- Defines a property of an object literal. -/
def put (fields : Schema) (key : JsString) (value : Json) : Schema :=
  if fields.any (fun f ↦ f.1 = key) then fields.map fun f ↦ if f.1 = key then (key, value) else f
  else fields ++ [(key, value)]

/-- `{ ...a, ...b }`. -/
def spread (a b : Schema) : Schema := b.foldl (fun acc f ↦ put acc f.1 f.2) a

def localRef (document : Json) (source : Schema) (t : JsString) : Except Failure Schema :=
  if !JsString.startsWith t (js "#/") then .error .onlyLocal
  else
    match pointer document t with
    | none => .error (.missing t)
    | some value => .ok (spread (fieldsOf value) (source.filter (·.1 ≠ js "$ref")))

/-! ### The calls -/

/-- What `initialValue` builds. A seed can be a property that every object inherits. -/
inductive Value
  | json (v : Json)
  | obj (fields : List (JsString × Value))
  | arr (items : List Value)
  | inherited (name : JsString)

/-- A turn of the loop over references, and a call of either function. -/
inductive Call
  | chase (schema : Schema) (seen : List JsString)
  | resolve (source : Schema)
  | value (source : Schema) (depth : ℕ)

abbrev Answer : Call → Type
  | .chase _ _ => Schema
  | .resolve _ => Schema
  | .value _ _ => Value

def chaseRefs (document : Json) (schema : Schema) (seen : List JsString) :
    Prog Answer Failure Schema :=
  match ref schema with
  | none => pure schema
  | some t =>
    if t ∈ seen then .fail .circular
    else do
      let next ← Prog.ofExcept (localRef document schema t)
      Prog.ask (Call.chase next (t :: seen))

def properties (s : Schema) : Schema := ((field s (js "properties")).map fieldsOf).getD []

/-- `required ?? []`. -/
def required (s : Schema) : List JsString :=
  ((field s (js "required")).map itemsOf).getD [] |>.filterMap fun
    | .str t => some t
    | _ => none

def merged (schema : Schema) (parts : List Schema) : Schema :=
  put (put schema (js "properties") (.obj ((parts.flatMap properties ++ properties schema).foldl
      (fun acc f ↦ JsObject.set acc f.1 f.2) [])))
    (js "required") (.arr ((parts.flatMap required ++ required schema).eraseDups.map .str))

def resolveSchema (source : Schema) : Prog Answer Failure Schema := do
  let schema ← Prog.ask (Call.chase source [])
  match field schema (js "allOf") with
  | none => pure schema
  | some allOf => do
    let parts ← Prog.each (fun part ↦ Prog.ask (Call.resolve (fieldsOf part))) (itemsOf allOf)
    pure (merged schema parts)

/-- `default`, `const` or the first of `enum`. -/
def given (s : Schema) : Option Json :=
  (JsObject.get s (js "default")).or ((JsObject.get s (js "const")).or
    (((field s (js "enum")).map itemsOf).getD []).head?)

/-- `oneOf ?? anyOf`. -/
def alternatives (s : Schema) : Option (List Json) :=
  ((field s (js "oneOf")).or (field s (js "anyOf"))).map itemsOf

def typeOf (s : Schema) : Option JsString :=
  match JsObject.get s (js "type") with
  | some (.arr items) => (items.filterMap fun
      | .str t => some t
      | _ => none).find? (· ≠ js "null")
  | some (.str t) => some t
  | _ => none

def describesObject (s : Schema) : Bool :=
  typeOf s = some (js "object") || (field s (js "properties")).isSome

/-- `seeds[key]`, which finds inherited properties too. -/
def seedOf (seeds : Schema) (key : JsString) : Option Value :=
  match JsObject.get seeds key with
  | some v => some (.json v)
  | none => if key ∈ JsObject.inherited then some (.inherited key) else none

/-- The properties that are filled in. -/
def included (seeds s : Schema) : Schema :=
  (properties s).filter fun f ↦ (required s).contains f.1 || (seedOf seeds f.1).isSome

/-- `Array.from({ length: Math.min(minItems ?? 0, 20) })`. -/
def itemCount (s : Schema) : ℕ :=
  match field s (js "minItems") with
  | some (.num (.finite d)) => ⌊min d.toRat 20⌋.toNat
  | some (.num (.infinity false)) => 20
  | _ => 0

/-- `minimum ?? (exclusiveMinimum !== undefined ? exclusiveMinimum + 1 : 0)`. -/
def least (s : Schema) : JsNumber :=
  match JsObject.get s (js "minimum"), JsObject.get s (js "exclusiveMinimum") with
  | some (.num n), _ => n
  | _, some (.num n) => n.plus (1 : ℤ)
  | _, _ => (0 : ℤ)

def scalar (s : Schema) : Json :=
  if typeOf s = some (js "boolean") then .bool false
  else if typeOf s = some (js "number") ∨ typeOf s = some (js "integer") then .num (least s)
  else if typeOf s = some (js "null") then .null
  else .str []

/-- `seeds[key] ?? initialValue(..)`, with the key. -/
def entryOf (seeds : Schema) (depth : ℕ) (f : JsString × Json) :
    Prog Answer Failure (JsString × Value) :=
  match seedOf seeds f.1 with
  | none | some (.json .null) => do
    let v ← Prog.ask (Call.value (fieldsOf f.2) (depth + 1))
    pure (f.1, v)
  | some v => pure (f.1, v)

def byType (seeds : Schema) (schema : Schema) (depth : ℕ) : Prog Answer Failure Value :=
  if describesObject schema then
    if 12 < depth then pure (.obj [])
    else do
      let fields ← Prog.each (entryOf seeds depth) (included seeds schema)
      pure (.obj fields)
  else if typeOf schema = some (js "array") then do
    let items ← Prog.each
      (fun _ ↦ Prog.ask
        (Call.value (((field schema (js "items")).map fieldsOf).getD []) (depth + 1)))
      (List.range (itemCount schema))
    pure (.arr items)
  else pure (.json (scalar schema))

def valueOf (seeds : Schema) (schema : Schema) (depth : ℕ) : Prog Answer Failure Value :=
  match given schema with
  | some v => pure (.json v)
  | none =>
    match alternatives schema with
    | some [] => .fail .typeError
    | some (first :: _) => Prog.ask (Call.value (fieldsOf first) (depth + 1))
    | none => byType seeds schema depth

def initialValue (seeds : Schema) (source : Schema) (depth : ℕ) : Prog Answer Failure Value := do
  let schema ← Prog.ask (Call.resolve source)
  valueOf seeds schema depth

def body (document : Json) (seeds : Schema) : (c : Call) → Prog Answer Failure (Answer c)
  | .chase schema seen => chaseRefs document schema seen
  | .resolve source => resolveSchema source
  | .value source depth => initialValue seeds source depth

end Counted.Openapi
