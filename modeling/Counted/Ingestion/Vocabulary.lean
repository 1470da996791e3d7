import Counted.Ingestion.Batch

namespace Counted.Ingestion

/-- One field of the generated agent vocabulary. -/
inductive FieldSpec
  | string (optional : Bool) (maxLength : Option ℕ)
  | integer (optional : Bool) (min : Option ℤ)
  | enum (optional : Bool) (values : List JsString)

def FieldSpec.optional : FieldSpec → Bool
  | .string o _ | .integer o _ | .enum o _ => o

def agentHosts : List JsString :=
  [js "claude-code", js "opencode", js "codex", js "gemini", js "generic"]

/-- `AGENT_EVENT_FIELDS`, whose keys are `AGENT_EVENTS`. -/
def agentEventFields : List (JsString × List (JsString × FieldSpec)) :=
  [(js "agent_session_start",
      [(js "model", .string true (some 120)), (js "mode", .string true (some 40)),
        (js "host", .enum false agentHosts)]),
    (js "agent_session_end",
      [(js "durationMs", .integer true (some 0)), (js "toolUseCount", .integer true (some 0)),
        (js "fileEditCount", .integer true (some 0))]),
    (js "agent_tool_use",
      [(js "tool", .string false (some 80)),
        (js "outcome", .enum false [js "success", js "error", js "denied"]),
        (js "durationMs", .integer true (some 0))]),
    (js "agent_file_edit",
      [(js "path", .string false (some 400)),
        (js "action", .enum false [js "create", js "edit", js "delete"]),
        (js "language", .string true (some 40))]),
    (js "agent_command_run",
      [(js "command", .string false (some 64)), (js "exitCode", .integer true none)])]

/-- The keys of `AGENT_CONTEXT_FIELDS`. -/
def contextKeys : List JsString :=
  [js "setupHash", js "setupSpec", js "setupHostSpec", js "model", js "setupLabel"]

def claimsAgentVocabulary (name : JsString) : Bool := name.startsWith (js "agent_")

def checkField (name : JsString) (spec : FieldSpec) : Option PropertyValue → Option JsString
  | none | some .null => if spec.optional then none else some (name ++ js " is required")
  | some value =>
    match spec with
    | .integer _ min =>
      match value with
      | .num d =>
        if !(JsNumber.finite d).isInteger then some (name ++ js " must be an integer")
        else match min with
          | none => none
          | some m =>
            if d.lt m then some (name ++ js " must be at least " ++ (m : Decimal).toJs) else none
      | _ => some (name ++ js " must be an integer")
    | .enum _ values =>
      match value with
      | .str s =>
        if values.contains s then none
        else some (name ++ js " must be one of " ++ JsString.join (js ", ") values)
      | _ => some (name ++ js " must be a string")
    | .string _ maxLength =>
      match value with
      | .str s =>
        match maxLength with
        | none => none
        | some n =>
          if n < s.length then
            some (name ++ js " must be at most " ++ natText n ++ js " characters")
          else none
      | _ => some (name ++ js " must be a string")

/-- Every problem of one event's own properties. `name in spec` also finds what `spec` inherits
from `Object.prototype`. -/
def checkAgainst (spec : List (JsString × FieldSpec)) (properties : List (JsString × PropertyValue)) :
    List JsString :=
  spec.filterMap (fun f ↦ checkField f.1 f.2 (JsObject.get properties f.1)) ++
    (properties.filter (fun p ↦ !((spec.map (·.1)).contains p.1 || JsObject.inherited.contains p.1))).map
      (fun p ↦ p.1 ++ js " is not a property of this event")

/-- Longest event name. -/
def maxEventNameLength : ℕ := 128

/-- `UNUSABLE_IN_A_NAME`: whitespace of any kind, C0 and DEL. -/
def unusableInAName (u : UInt16) : Bool := JsString.isSpace u || u ≤ 0x1f || u == 0x7f

def checkEventName (name : JsString) (index : ℕ) : Option EventAdmissionError :=
  if name.length = 0 then some (.malformedEvent index (js "name is required"))
  else if maxEventNameLength < name.length then
    some (.malformedEvent index
      (js "name must be at most " ++ natText maxEventNameLength ++ js " characters"))
  else if name.any unusableInAName then
    some (.malformedEvent index (js "name must not contain whitespace or control characters"))
  else none

def checkAgentVocabulary (name : JsString) (properties : List (JsString × PropertyValue))
    (index : ℕ) : Option EventAdmissionError :=
  if !claimsAgentVocabulary name then none
  else match JsObject.get agentEventFields name with
    | none => some (.unknownEventName name)
    | some spec =>
      let own := (properties.filter (fun p ↦ !contextKeys.contains p.1)).foldl
        (fun own p ↦ JsObject.set own p.1 p.2) []
      match checkAgainst spec own with
      | [] => none
      | problems => some (.malformedEvent index (JsString.join (js "; ") problems))

end Counted.Ingestion
