import Counted.Foundations.StableSort
import Counted.Kernel.JsonText

namespace Counted.AgentTelemetry

open Foundations

/-- The types `typeof` tells apart that JSON does not know, other than `undefined`. -/
inductive Foreign
  | bigint
  | function
  | symbol

def Foreign.name : Foreign → JsString
  | .bigint => js "bigint"
  | .function => js "function"
  | .symbol => js "symbol"

/-- What `canonicalize` can be given. An object holds its entries in enumeration order. -/
inductive Value
  | undefined
  | null
  | bool (b : Bool)
  | num (n : JsNumber)
  | str (s : JsString)
  | foreign (f : Foreign)
  | arr (items : List Value)
  | obj (fields : List (JsString × Value))

/-- `a < b ? -1 : a > b ? 1 : 0` on strings. -/
def KeyLe (s t : JsString) : Prop := JsString.le s t = true

instance : DecidableRel KeyLe := fun s t ↦ inferInstanceAs (Decidable (JsString.le s t = true))

instance : Std.Total KeyLe := ⟨JsString.le_total⟩

instance : IsTrans JsString KeyLe := ⟨fun _ _ _ ↦ JsString.le_trans⟩

instance : Std.Antisymm KeyLe := ⟨fun _ _ ↦ JsString.le_antisymm⟩

def refuses (what : JsString) : JsString := js "a setup projection cannot contain " ++ what

/-- One entry of an object, or the refusal of its value. -/
def entryText (entry : JsString × Except JsString JsString) : Except JsString JsString := do
  let text ← entry.2
  return Json.quote entry.1 ++ js ":" ++ text

mutual

def canonicalize : Value → Except JsString JsString
  | .null => .ok (js "null")
  | .num (.finite d) => .ok (Json.stringify (.num (.finite d)))
  | .num _ => .error (refuses (js "a non-finite number"))
  | .bool b => .ok (Json.stringify (.bool b))
  | .str s => .ok (Json.stringify (.str s))
  | .arr items => do
    let parts ← canonicalizeItems items
    return js "[" ++ JsString.join (js ",") parts ++ js "]"
  | .obj fields => do
    let parts ← (sortBy KeyLe (·.1) (canonicalizeEntries fields)).mapM entryText
    return [123] ++ JsString.join (js ",") parts ++ [125]
  | .undefined => .error (refuses (js "undefined"))
  | .foreign f => .error (refuses f.name)

def canonicalizeItems : List Value → Except JsString (List JsString)
  | [] => .ok []
  | v :: items => do
    let text ← canonicalize v
    let texts ← canonicalizeItems items
    return text :: texts

/-- The entries that are not `undefined`. -/
def canonicalizeEntries : List (JsString × Value) → List (JsString × Except JsString JsString)
  | [] => []
  | (_, .undefined) :: fields => canonicalizeEntries fields
  | (key, v) :: fields => (key, canonicalize v) :: canonicalizeEntries fields

end

structure PromptDigest where
  id : JsString
  sha256 : JsString
  deriving DecidableEq

inductive AgentHost
  | claudeCode
  | opencode
  | codex
  | gemini
  | generic
  deriving DecidableEq

def AgentHost.name : AgentHost → JsString
  | .claudeCode => js "claude-code"
  | .opencode => js "opencode"
  | .codex => js "codex"
  | .gemini => js "gemini"
  | .generic => js "generic"

structure Tools where
  allow : List JsString
  deny : List JsString
  mode : Option JsString

structure Sampling where
  temperature : Option JsNumber
  topP : Option JsNumber
  reasoningEffort : Option JsString

structure SetupProjection where
  host : AgentHost
  model : Option JsString
  prompts : List PromptDigest
  tools : Tools
  sampling : Sampling

def setupSpec : JsString := js "counted.setup/1"

namespace Value

def text : Option JsString → Value
  | none => .null
  | some s => .str s

def number : Option JsNumber → Value
  | none => .null
  | some n => .num n

def texts (l : List JsString) : Value := .arr (l.map .str)

end Value

def PromptDigest.value (p : PromptDigest) : Value :=
  .obj [(js "id", .str p.id), (js "sha256", .str p.sha256)]

def Tools.value (t : Tools) : Value :=
  .obj [(js "allow", .texts t.allow), (js "deny", .texts t.deny), (js "mode", .text t.mode)]

def Sampling.value (s : Sampling) : Value :=
  .obj [(js "reasoningEffort", .text s.reasoningEffort), (js "temperature", .number s.temperature),
    (js "topP", .number s.topP)]

/-- The projection as an object. Its keys stand in the order of their text here. -/
def SetupProjection.value (p : SetupProjection) : Value :=
  .obj [(js "host", .str p.host.name), (js "model", .text p.model),
    (js "prompts", .arr (p.prompts.map PromptDigest.value)), (js "sampling", p.sampling.value),
    (js "spec", .str setupSpec), (js "tools", p.tools.value)]

def normalize (p : SetupProjection) : SetupProjection :=
  { p with
    prompts := sortBy KeyLe PromptDigest.id p.prompts
    tools := { p.tools with
      allow := JsString.sort p.tools.allow
      deny := JsString.sort p.tools.deny } }

/-! ### Objects that enumerate their keys differently -/

/-- One value is the other with the keys of its objects in another order. -/
inductive Value.Rearranged : Value → Value → Prop
  | refl (v : Value) : Rearranged v v
  | trans {u v w : Value} : Rearranged u v → Rearranged v w → Rearranged u w
  | item (pre post : List Value) {v w : Value} : Rearranged v w →
      Rearranged (.arr (pre ++ v :: post)) (.arr (pre ++ w :: post))
  | field (pre post : List (JsString × Value)) (key : JsString) {v w : Value} : Rearranged v w →
      Rearranged (.obj (pre ++ (key, v) :: post)) (.obj (pre ++ (key, w) :: post))
  | keys {fields others : List (JsString × Value)} : fields.Perm others →
      Rearranged (.obj fields) (.obj others)

/-- A JSON value. The keys of an object are distinct. -/
inductive Value.IsJson : Value → Prop
  | null : IsJson .null
  | bool (b : Bool) : IsJson (.bool b)
  | num (d : Decimal) : IsJson (.num (.finite d))
  | str (s : JsString) : IsJson (.str s)
  | arr {items : List Value} : (∀ v ∈ items, IsJson v) → IsJson (.arr items)
  | obj {fields : List (JsString × Value)} : (fields.map (·.1)).Nodup →
      (∀ f ∈ fields, IsJson f.2) → IsJson (.obj fields)

structure JsonValue where
  value : Value
  isJson : value.IsJson

/-- The object `normalize` returns, its keys in whatever order the caller's were. -/
structure Spelling (p : SetupProjection) where
  value : Value
  spells : (normalize p).value.Rearranged value

/-- The text that is hashed. -/
def fingerprintInput {p : SetupProjection} (v : Spelling p) : Except JsString JsString :=
  canonicalize v.value

/-- Somewhere in the value there is `undefined`. -/
inductive Value.HoldsUndefined : Value → Prop
  | undefined : HoldsUndefined .undefined
  | item {items : List Value} {v : Value} : v ∈ items → HoldsUndefined v → HoldsUndefined (.arr items)
  | field {fields : List (JsString × Value)} {f : JsString × Value} : f ∈ fields →
      HoldsUndefined f.2 → HoldsUndefined (.obj fields)

/-- Something in the value has no canonical text. A field that is `undefined` does not count. -/
inductive Value.Unwritable : Value → Prop
  | undefined : Unwritable .undefined
  | foreign (f : Foreign) : Unwritable (.foreign f)
  | infinity (negative : Bool) : Unwritable (.num (.infinity negative))
  | nan : Unwritable (.num .nan)
  | item {items : List Value} {v : Value} : v ∈ items → Unwritable v → Unwritable (.arr items)
  | field {fields : List (JsString × Value)} {f : JsString × Value} : f ∈ fields →
      f.2 ≠ .undefined → Unwritable f.2 → Unwritable (.obj fields)

end Counted.AgentTelemetry
