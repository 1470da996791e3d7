import Counted.Sdk.Threaded

namespace Counted.Sdk

/-- Visits are told apart by the order they were started in. -/
structure ScriptEvent where
  name : JsString
  userId : Option JsString
  visit : ℕ
  occurredAt : ℕ
  deriving DecidableEq

/-- What a program does with one client, each flush finished before the next step. -/
inductive ScriptStep
  | track (name : JsString)
  | identify (userId : JsString)
  | reset
  | flush
  | shutdown
  | advance (ms : ℕ)

/-- The answer to each request in turn, and the jitter that goes with it. -/
abbrev Server := ℕ → Heard × NNRat

def acceptingServer : Server := fun _ ↦ (.answer ⟨202, none, none, 0⟩, 0)

/-- A client, the time, the requests it has made, and what was answered with success. -/
structure Conversation where
  client : SdkClient ScriptEvent
  person : Option JsString
  visit : Option ℕ
  visits : ℕ
  visitSeen : ℕ
  clock : ℕ
  sent : List (List ScriptEvent)
  acknowledged : List ScriptEvent

/-- `visitTimeoutMs`. -/
def visitTimeoutMs : ℕ := 30 * 60 * 1000

/-- The characters of `White_Space`, which Go and Rust strip. -/
def isWhiteSpace (u : UInt16) : Bool :=
  (9 ≤ u && u ≤ 13) || u == 32 || u == 0x85 || u == 0xA0 || u == 0x1680 ||
    (0x2000 ≤ u && u ≤ 0x200A) || u == 0x2028 || u == 0x2029 || u == 0x202F || u == 0x205F ||
    u == 0x3000

/-- `strip` takes the four separators of ASCII as well. -/
def Sdk.isSpace : Sdk → UInt16 → Bool
  | .javaScript, u => JsString.isSpace u
  | .python, u => isWhiteSpace u || (28 ≤ u && u ≤ 31)
  | .go, u | .rust, u => isWhiteSpace u

def Sdk.trim (sdk : Sdk) (s : JsString) : JsString :=
  (s.dropWhile sdk.isSpace).rdropWhile sdk.isSpace

def Heard.accepts : Heard → Bool
  | .answer a => 200 ≤ a.status && a.status < 300
  | .failed => false

namespace Conversation

variable (sdk : Sdk) (k : SdkSizes) (server : Server) (c : Conversation)

def initial : Conversation := ⟨.initial, none, none, 0, 0, 0, [], []⟩

/-- The requests made since. -/
def flush : Conversation :=
  let batch := c.client.batch (sdk.traits k) c.clock
  let client := c.client.taken (sdk.traits k) c.clock
  if batch = [] then { c with client }
  else
    let reply := server c.sent.length
    { c with
      client := client.settle (sdk.traits k) batch reply.1 c.clock reply.2
      sent := c.sent ++ [batch]
      acknowledged := if reply.1.accepts then c.acknowledged ++ batch else c.acknowledged }

def startVisit : Conversation :=
  { c with visit := some c.visits, visits := c.visits + 1, visitSeen := c.clock }

/-- Rolls over after inactivity. -/
def currentVisit : Conversation × ℕ :=
  match c.visit with
  | none => (c.startVisit, c.visits)
  | some v =>
    if visitTimeoutMs < c.clock - c.visitSeen then (c.startVisit, c.visits)
    else ({ c with visitSeen := c.clock }, v)

def track (name : JsString) : Conversation :=
  if c.client.closed || c.client.disabled then c
  else
    let (d, visit) := c.currentVisit
    let d := { d with client := d.client.push (sdk.traits k) ⟨name, d.person, visit, d.clock⟩ }
    if (sdk.traits k).flushesWhenFull && k.maxBatch ≤ d.client.buffer.length then
      d.flush sdk k server
    else d

def identify (userId : JsString) : Conversation :=
  { c with person := if sdk.trim userId = [] then none else some (sdk.trim userId) }

def reset : Conversation := { c.startVisit with person := none }

def shutdown : Conversation :=
  { c with client := { c.client with closed := true } }.flush sdk k server

def step : ScriptStep → Conversation
  | .track name => c.track sdk k server name
  | .identify userId => c.identify sdk userId
  | .reset => c.reset
  | .flush => c.flush sdk k server
  | .shutdown => c.shutdown sdk k server
  | .advance ms => { c with clock := c.clock + ms }

def play (l : List ScriptStep) : Conversation := l.foldl (step sdk k server) c

end Conversation

end Counted.Sdk
