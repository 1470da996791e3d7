import Counted.AgentTelemetry.Fingerprint
import Counted.Foundations.Run

namespace Counted.AgentTelemetry

open Foundations

/-! ### Reading a host's event -/

abbrev HostEvent := List (JsString × Json)

/-- The kinds of `Action`. -/
inductive ActionKind
  | sessionStart
  | sessionEnd
  | toolUse
  | fileEdit
  | commandRun
  deriving DecidableEq

structure Reading where
  sessionId : Option JsString
  cwd : Option JsString
  model : Option JsString
  actions : List ActionKind

/-- A text that is not empty. -/
def str : Option Json → Option JsString
  | some (.str s) => if s = [] then none else some s
  | _ => none

def obj : Option Json → List (JsString × Json)
  | some (.obj fields) => fields
  | _ => []

/-- `input[a] ?? input[b] ?? ..`. -/
def firstOf (input : HostEvent) (keys : List JsString) : Option Json :=
  keys.findSome? fun key ↦ (JsObject.get input key).bind fun
    | .null => none
    | value => some value

def claudeCode (input : HostEvent) : Reading :=
  let event := str (JsObject.get input (js "hook_event_name"))
  let tool := (str (JsObject.get input (js "tool_name"))).getD (js "unknown")
  let toolInput := obj (JsObject.get input (js "tool_input"))
  { sessionId := str (JsObject.get input (js "session_id"))
    cwd := str (JsObject.get input (js "cwd"))
    model := str (JsObject.get input (js "model"))
    actions :=
      if event = some (js "SessionStart") then [.sessionStart]
      else if event = some (js "SessionEnd") then [.sessionEnd]
      else if event = some (js "PostToolUse") ∨ event = some (js "PostToolUseFailure") then
        [.toolUse] ++
          (if (str (JsObject.get toolInput (js "file_path"))).isSome &&
              (tool = js "Write" || tool = js "Edit" || tool = js "MultiEdit") then [.fileEdit]
            else []) ++
          (if (str (JsObject.get toolInput (js "command"))).isSome && tool = js "Bash" then
            [.commandRun] else [])
      else [] }

def stdinShaped (input : HostEvent) : Reading :=
  let type := str (firstOf input [js "type", js "event", js "hook_event_name"])
  let args := obj (firstOf input [js "args", js "tool_input", js "arguments"])
  { sessionId := str (firstOf input [js "session_id", js "sessionId", js "conversation_id"])
    cwd := str (firstOf input [js "cwd", js "workspace"])
    model := str (JsObject.get input (js "model"))
    actions :=
      if type = some (js "session_start") ∨ type = some (js "SessionStart") ∨
        type = some (js "start") then [.sessionStart]
      else if type = some (js "session_end") ∨ type = some (js "SessionEnd") ∨
        type = some (js "stop") then [.sessionEnd]
      else if type = some (js "tool_use") ∨ type = some (js "tool_call") ∨
        type = some (js "PostToolUse") then
        [.toolUse] ++
          (if (str (firstOf args [js "file_path", js "filePath", js "path"])).isSome then [.fileEdit]
            else []) ++
          (if (str (firstOf args [js "command", js "cmd"])).isSome then [.commandRun] else [])
      else [] }

def hosts : AgentHost → HostEvent → Reading
  | .claudeCode => claudeCode
  | .opencode => fun _ ↦ ⟨none, none, none, []⟩
  | _ => stdinShaped

/-! ### The setup -/

/-- What a hook finds in a directory. The settings are as `JSON.parse` reads them. -/
structure Directory where
  claudeMd : Option JsString
  agents : Option (List (JsString × Option JsString))
  settings : Option Json

def strings : Option Json → List JsString
  | some (.arr items) => items.filterMap fun
    | .str s => some s
    | _ => none
  | _ => []

def emptyProjection (host : AgentHost) : SetupProjection :=
  ⟨host, none, [], ⟨[], [], none⟩, ⟨none, none, none⟩⟩

/-- The digest of every definition that can be read, by the name of its file. -/
def agentPrompts (sha256 : JsString → JsString) (files : List (JsString × Option JsString)) :
    List PromptDigest :=
  (sortBy KeyLe (·.1) files).filterMap fun file ↦
    file.2.map fun content ↦ ⟨js ".claude/agents/" ++ file.1, sha256 content⟩

def claudeCodeProjection (sha256 : JsString → JsString) (dir : Directory)
    (model permissionMode : Option JsString) : SetupProjection :=
  let permissions := obj (JsObject.get (obj dir.settings) (js "permissions"))
  { emptyProjection .claudeCode with
    model
    prompts := (dir.claudeMd.map fun content ↦ ⟨js "CLAUDE.md", sha256 content⟩).toList ++
      agentPrompts sha256 (dir.agents.getD [])
    tools :=
      ⟨strings (JsObject.get permissions (js "allow")), strings (JsObject.get permissions (js "deny")),
        permissionMode⟩ }

def projectionFor (sha256 : JsString → JsString) (host : AgentHost) (dir : Directory)
    (model mode : Option JsString) : SetupProjection :=
  if host = .claudeCode then claudeCodeProjection sha256 dir model mode
  else { emptyProjection host with model, tools := ⟨[], [], mode⟩ }

structure Fingerprint where
  setupHash : JsString
  setupSpec : JsString
  setupHostSpec : JsString
  deriving DecidableEq

/-- Of a projection without numbers, whose text there always is. The version of every host is 1. -/
def setupFingerprint (sha256 : JsString → JsString) (p : SetupProjection) : Fingerprint :=
  ⟨(sha256 ((canonicalize (normalize p).value).toOption.getD [])).take 16, setupSpec,
    setupSpec ++ js "+" ++ p.host.name⟩

structure CachedSetup where
  projection : SetupProjection
  fingerprint : Fingerprint

def compute (sha256 : JsString → JsString) (host : AgentHost) (dir : Directory)
    (model mode : Option JsString) : CachedSetup :=
  let projection := projectionFor sha256 host dir model mode
  ⟨projection, setupFingerprint sha256 projection⟩

/-- `\w`, the full stop and the hyphen stay. -/
def sanitized (sessionId : JsString) : JsString :=
  sessionId.map fun u ↦ if (48 ≤ u && u ≤ 57) || (65 ≤ u && u ≤ 90) || (97 ≤ u && u ≤ 122) ||
    u = 95 || u = 46 || u = 45 then u else 95

/-- The name of the file in the temporary directory. -/
def cachePath (host : AgentHost) (sessionId : JsString) : JsString :=
  js "counted-setup-" ++ host.name ++ js "-" ++ sanitized sessionId ++ js ".json"

/-- The temporary directory: a name opens the file it stands for, unless the system refuses it. -/
structure TemporaryDirectory where
  file : JsString → Option JsString

/-- What the files hold. Reading a setup back from its JSON gives the setup. -/
abbrev Caches := JsString → Option CachedSetup

structure Resolved where
  setup : CachedSetup
  /-- It was read from the cache. -/
  cached : Bool
  caches : Caches

def resolveSetup (sha256 : JsString → JsString) (tmp : TemporaryDirectory) (host : AgentHost)
    (caches : Caches) (sessionId : Option JsString) (dir : Directory) (model mode : Option JsString)
    (first : Bool) : Resolved :=
  match sessionId with
  | none => ⟨compute sha256 host dir model mode, false, caches⟩
  | some id =>
    let path := tmp.file (cachePath host id)
    if !first then
      match path.bind caches with
      | some setup => ⟨setup, true, caches⟩
      | none => ⟨compute sha256 host dir none mode, false, caches⟩
    else
      let setup := compute sha256 host dir model mode
      match path with
      | some file => ⟨setup, false, Function.update caches file (some setup)⟩
      | none => ⟨setup, false, caches⟩

/-! ### One hook process -/

structure AgentContext where
  fingerprint : Fingerprint
  model : Option JsString
  setupLabel : Option JsString

def truncate (value : JsString) (max : ℕ) : JsString :=
  if value.length ≤ max then value else value.take (max - 1) ++ [0x2026]

/-- Every text is within its bound. -/
def validateAgentContext (c : AgentContext) : Bool :=
  c.fingerprint.setupHash.length ≤ 64 && c.fingerprint.setupSpec.length ≤ 40 &&
    c.fingerprint.setupHostSpec.length ≤ 60 && c.model.all (·.length ≤ 120) &&
      c.setupLabel.all (·.length ≤ 80)

/-- What the tracker stamps on every event from now on, `none` where it ignores the setup. -/
def registerSetup (sha256 : JsString → JsString) (label : Option JsString) (p : SetupProjection) :
    Option AgentContext :=
  let next : AgentContext := ⟨setupFingerprint sha256 p, p.model, label.map (truncate · 80)⟩
  if validateAgentContext next then some next else none

/-- A process: the event on its input, its environment and the machine as it finds it. -/
structure Invocation where
  input : HostEvent
  key : Option JsString
  label : Option JsString
  cwd : JsString
  disk : JsString → Directory

/-- An invocation that sent events, and the setup they were stamped with. -/
structure Handled where
  invocation : Invocation
  setup : CachedSetup
  cached : Bool
  context : Option AgentContext

structure Hooks where
  caches : Caches := fun _ ↦ none
  handled : List Handled := []

namespace Invocation

variable (host : AgentHost) (i : Invocation)

def reading : Reading := hosts host i.input

/-- There is a key, and there is something to do. -/
def acts : Bool := i.key.any (·.trim ≠ []) && (i.reading host).actions ≠ []

def session : Option JsString := (i.reading host).sessionId

def starts : Bool := (i.reading host).actions.contains .sessionStart

def directory : Directory := i.disk ((i.reading host).cwd.getD i.cwd)

def mode : Option JsString :=
  match JsObject.get i.input (js "permission_mode") with
  | some (.str s) => some s
  | _ => none

end Invocation

/-- `handle`. -/
def handle (sha256 : JsString → JsString) (tmp : TemporaryDirectory) (host : AgentHost) (s : Hooks)
    (i : Invocation) : Option Hooks :=
  if i.acts host then
    let resolved := resolveSetup sha256 tmp host s.caches (i.session host) (i.directory host)
      (i.reading host).model i.mode (i.starts host)
    some ⟨resolved.caches, s.handled ++ [⟨i, resolved.setup, resolved.cached,
      registerSetup sha256 i.label resolved.setup.projection⟩]⟩
  else some s

end Counted.AgentTelemetry
