import Counted.Foundations.FormEncoding
import Counted.Kernel.Json

namespace Counted.Mcp

open Foundations

inductive Method
  | get
  | post
  | put
  | patch
  | delete
  deriving DecidableEq

inductive QueryStyle
  | primitive
  | array
  | commaDelimitedArray
  | commaDelimitedObject
  | json
  deriving DecidableEq

/-- `{braces}` in path order: `open` holds what has been read after a brace. -/
def pathParamsFrom : Option JsString → JsString → List JsString
  | _, [] => []
  | none, u :: s => pathParamsFrom (if u = 123 then some [] else none) s
  | some name, u :: s =>
    if u = 125 then
      if name = [] then pathParamsFrom none s else name :: pathParamsFrom none s
    else pathParamsFrom (some (name ++ [u])) s

def pathParamsOf (path : JsString) : List JsString := pathParamsFrom none path

structure Route where
  method : Method
  path : JsString
  query : List (JsString × QueryStyle)

def Route.pathParams (route : Route) : List JsString := pathParamsOf route.path

structure Tool where
  id : JsString
  route : Route

abbrev Arguments := List (JsString × Json)

inductive RequestBuildFailure
  | missingPathParam (param : JsString)
  | unusablePathParam (param received : JsString)
  | undeclaredQueryParam (field : JsString)

/-- Why no request is built. -/
inductive Stop
  | refused (failure : RequestBuildFailure)
  | threw

/-- A body is the value that its text is written from. -/
structure Request where
  method : Method
  url : JsString
  headers : List (JsString × JsString)
  body : Option Json

/-! ### Values as text -/

mutual

/-- `String(value)`. An object that has a `toString` of its own cannot be converted. -/
def stringOf : Json → Option JsString
  | .null => some (js "null")
  | .bool b => some (if b then js "true" else js "false")
  | .num n => some n.toJs
  | .str s => some s
  | .arr items => (textsOf items).map (JsString.join (js ","))
  | .obj fields =>
    if fields.any (fun f ↦ f.1 = js "toString") then none else some (js "[object Object]")

/-- What `join` writes for the items. -/
def textsOf : List Json → Option (List JsString)
  | [] => some []
  | .null :: items => (textsOf items).map ([] :: ·)
  | item :: items => (stringOf item).bind fun t ↦ (textsOf items).map (t :: ·)

end

/-- `Object.entries`. -/
def entriesOf : Json → Option Arguments
  | .null => none
  | .obj fields => some fields
  | .arr items => some (items.mapIdx fun i item ↦ (natText i, item))
  | .str s => some (s.mapIdx fun i u ↦ (natText i, .str [u]))
  | _ => some []

/-- `Array.isArray(value) ? value : [value]`. -/
def itemsOf : Json → List Json
  | .arr items => items
  | v => [v]

/-- The values that `appendQuery` appends under a name. -/
def appended : QueryStyle → Json → Option (List JsString)
  | .primitive, v => (stringOf v).map fun t ↦ [t]
  | .array, v => (itemsOf v).mapM stringOf
  | .commaDelimitedArray, v =>
    ((itemsOf v).mapM stringOf).map fun texts ↦ [JsString.join (js ",") texts]
  | .commaDelimitedObject, v => (entriesOf v).bind fun entries ↦
    (entries.mapM fun f ↦ (stringOf f.2).map fun t ↦ [f.1, t]).map fun texts ↦
      [JsString.join (js ",") texts.flatten]
  | .json, v => some [v.stringify]

/-! ### The request -/

/-- What reading a property of an object that is written as a literal can find. -/
inductive Property (α : Type)
  | own (value : α)
  | inherited
  | missing

def propertyOf {α : Type} (fields : List (JsString × α)) (key : JsString) : Property α :=
  match JsObject.get fields key with
  | some v => .own v
  | none => if key ∈ JsObject.inherited then .inherited else .missing

def typeof : Json → JsString
  | .bool _ => js "boolean"
  | .num _ => js "number"
  | .str _ => js "string"
  | _ => js "object"

/-- `encodeURIComponent(String(value))`. -/
def encoded (t : JsString) : Except Stop JsString :=
  match encodeComponent t with
  | some s => .ok s
  | none => .error .threw

def paramText (args : Arguments) (param : JsString) : Except Stop JsString :=
  match propertyOf args param with
  | .missing | .own .null => .error (.refused (.missingPathParam param))
  | .own (.str s) => encoded s
  | .own (.num n) => encoded n.toJs
  | .own v => .error (.refused (.unusablePathParam param (typeof v)))
  | .inherited => .error (.refused (.unusablePathParam param
      (if param = js "__proto__" then js "object" else js "function")))

/-- `replace` with a text in which no dollar stands. -/
def replaceFirst (needle replacement : JsString) : JsString → JsString
  | [] => []
  | u :: s =>
    if needle.isPrefixOf (u :: s) then replacement ++ (u :: s).drop needle.length
    else u :: replaceFirst needle replacement s

def braced (param : JsString) : JsString := 123 :: param ++ [125]

def fillPath (route : Route) (args : Arguments) : Except Stop JsString :=
  route.pathParams.foldlM (fun path param ↦ do
    let text ← paramText args param
    return replaceFirst (braced param) text path) route.path

def isBodyless : Method → Bool
  | .get => true
  | _ => false

/-- The query and the body after a field. -/
def addField (route : Route) (acc : List (JsString × JsString) × Arguments) (f : JsString × Json) :
    Except Stop (List (JsString × JsString) × Arguments) :=
  if f.1 ∈ route.pathParams then .ok acc
  else
    match propertyOf route.query f.1 with
    | .own style =>
      match appended style f.2 with
      | some texts => .ok (acc.1 ++ texts.map fun t ↦ (f.1, t), acc.2)
      | none => .error .threw
    | .inherited => .ok acc
    | .missing =>
      if isBodyless route.method then .error (.refused (.undeclaredQueryParam f.1))
      else .ok (acc.1, JsObject.set acc.2 f.1 f.2)

/-- `replace(/\/$/, "")`. -/
def withoutSlash (baseUrl : JsString) : JsString :=
  if baseUrl.getLast? = some 47 then baseUrl.dropLast else baseUrl

def headersOf (route : Route) (token : Option JsString) : List (JsString × JsString) :=
  (js "accept", js "application/json") ::
    (token.toList.map fun t ↦ (js "authorization", js "Bearer " ++ t)) ++
      if isBodyless route.method then [] else [(js "content-type", js "application/json")]

def buildRequest (baseUrl : JsString) (tool : Tool) (args : Arguments) (token : Option JsString) :
    Except Stop Request := do
  let path ← fillPath tool.route args
  let (query, body) ← args.foldlM (addField tool.route) ([], [])
  let search := formText query
  return {
    method := tool.route.method
    url := withoutSlash baseUrl ++ path ++ if search = [] then [] else 63 :: search
    headers := headersOf tool.route token
    body := if isBodyless tool.route.method then none else some (.obj body) }

end Counted.Mcp
