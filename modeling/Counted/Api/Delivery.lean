import Counted.Api.IngestRoute
import Counted.Ingestion.History
import Counted.Analytics.ExactlyOnce
import Counted.Sdk.Books

namespace Counted.Sdk

open Ingestion Analytics

namespace QueuedEvent

/-- A field that is not there is left out. -/
def fields (e : QueuedEvent) : List (JsString × Json) :=
  [(js "name", .str e.name), (js "visitId", .str e.visitId)] ++
    (e.userId.map fun u ↦ (js "userId", Json.str u)).toList ++
    [(js "occurredAt", .str e.occurredAt), (js "idempotencyKey", .str e.idempotencyKey)] ++
    (e.properties.map fun ps ↦
      (js "properties", Json.obj (ps.map fun p ↦ (p.1, propertyJson p.2)))).toList ++
    (e.systemProperties.map fun ps ↦
      (js "systemProperties", Json.obj (ps.map fun p ↦ (p.1, nullable p.2)))).toList

/-- What `JSON.stringify` writes of an event. -/
def json (e : QueuedEvent) : Json := .obj e.fields

/-- The key the server files an event under, whenever it arrives: the client's, and the instant the
event was tracked. -/
def filedUnder (rt : Runtime) (e : QueuedEvent) : Option DedupKey :=
  if e.idempotencyKey = [] then none
  else (instantFromISO rt e.occurredAt).map (fun t ↦ dedupKey e.idempotencyKey (t : ℤ))

end QueuedEvent

/-- The body of a request: `JSON.stringify({ events })`. -/
def bodyOf (events : List QueuedEvent) : Json :=
  .obj [(js "events", .arr (events.map QueuedEvent.json))]

/-- What answers a request in its client's place: a proxy, or nobody. None of them says `2xx`. -/
def Reply.isFailure : Reply → Bool
  | .ok _ => false
  | .problem .. | .failed _ => true

/-- What a client does that is not hearing an answer. -/
def ClientAction.isOwn : ClientAction → Bool
  | .reply .. => false
  | .track .. | .flush _ | .timer _ | .hidden _ | .shutdown _ => true

end Counted.Sdk

namespace Counted.Ingestion

def EventAdmissionError.kind : EventAdmissionError → JsString
  | .malformedEvent .. => js "MalformedEvent"
  | .unknownEventName _ => js "UnknownEventName"
  | .clockSkew .. => js "ClockSkew"
  | .personIdRequired => js "PersonIdRequired"
  | .personIdTooLong .. => js "PersonIdTooLong"
  | .personIdLooksLikeEmail => js "PersonIdLooksLikeEmail"

/-- What drives the coalescer besides requests and the sink. -/
def Action.isInternal : Action → Bool
  | .submit _ | .sinkAnswer .. => false
  | .quotaAnswer .. | .tick _ | .drain _ | .drainResume .. | .recordAnswer .. | .finish .. => true

end Counted.Ingestion

namespace Counted.Api

open Foundations Ingestion Analytics Sdk
open Projects (VerifiedCredential)

/-- `fromBatchAdmissionError` and `problem`: what a refusal says of itself. The data of a fault
replaces what it has the name of. -/
def refusalOf : BatchAdmissionError → IngestFailure
  | .batchTooLarge .. => ⟨413, js "PAYLOAD_TOO_LARGE", js "The batch is too large."⟩
  | .payloadTooLarge .. => payloadTooLarge
  | .planExceeded .. => ⟨402, js "PAYMENT_REQUIRED", js "The workspace plan does not allow this."⟩
  | .rateLimited _ => ⟨429, js "TOO_MANY_REQUESTS", js "Too many requests."⟩
  | .sinkUnavailable detail => ⟨503, js "SERVICE_UNAVAILABLE", detail⟩

def retryable : BatchAdmissionError → Bool
  | .rateLimited _ | .sinkUnavailable _ => true
  | .batchTooLarge .. | .payloadTooLarge .. | .planExceeded .. => false

/-- `retry-after` is in whole seconds, and at least one. -/
def retryAfterSeconds : BatchAdmissionError → Option ℤ
  | .rateLimited retryAfterMs => some (max 1 (-(-retryAfterMs / 1000)))
  | _ => none

/-- The end of `handleIngest`, as `sendBatch` reads it. The header is not exposed to the pages of
other origins, and what the quota throws is answered by the last resort. -/
def replyOf (crossOrigin : Bool) : Settlement → Reply
  | .ack (.committed accepted deduplicated rejected _) => .ok (some
    { accepted, deduplicated
      rejected := rejected.length
      outcomes := rejected.map (fun r ↦ (false, some r.error.kind))
      quota := none })
  | .ack (.refused error _) =>
    .problem (refusalOf error).status (some (retryable error)) (some (refusalOf error).detail)
      (if crossOrigin then none else (retryAfterSeconds error).map fun s ↦ ((s * 1000 : ℤ) : JsNumber))
  | .threw _ => .problem 500 none none none

/-- What `writeBatch` returns, as the coalescer awaits it. -/
def answerOf : Except WriteFailure WriteReceipt → SinkAnswer
  | .ok receipt => .ok receipt
  | .error failure => .err failure

/-- One deployment, and a client with a key of one of its projects. -/
structure Pipeline where
  ingest : IngestDeps
  commit : GroupCommitDeps
  digest : ProjectId → DedupKey → Digest
  arithmetic : Arithmetic
  options : CountedOptions
  project : ProjectId

/-- A client, the coalescer and the store. Each `submit` is a request with a batch of the client in
it, or somebody else's. Each call of `writeBatch` has had its transaction, and may not have been
answered yet. -/
structure World where
  client : Session
  server : State
  db : Db
  posts : List (Option (List QueuedEvent))
  calls : List Call
  results : List (ℕ × Except WriteFailure WriteReceipt)

/-- A batch the client sent may arrive any number of times, at any time and by any way, and what it
hears may be the answer to any request that carried the batch it is waiting for. -/
inductive WorldAction
  | client (a : ClientAction)
  | arrive (k : ℕ) (credential : VerifiedCredential) (forwardedFor : Option JsString) (bytes : ℕ)
      (at' : Instant)
  | foreign (batch : IngestBatch)
  | server (a : Action)
  | write (id : ℕ) (faults : Faults)
  | answer (id : ℕ)
  | hear (id : ℕ) (crossOrigin : Bool) (now random : JsNumber)
  | fail (reply : Reply) (now random : JsNumber)

namespace World

variable (d : Pipeline) (w : World)

def initial : World := ⟨Session.initial d.options, .initial, .empty, [], [], []⟩

def arrive (k : ℕ) (credential : VerifiedCredential) (forwardedFor : Option JsString) (bytes : ℕ)
    (at' : Instant) : Option World := do
  let events ← w.client.sent[k]?
  guard (credential.project = some d.project)
  let batch ← (d.ingest.batchOf credential ⟨forwardedFor, bytes, some (bodyOf events)⟩ at').toOption
  let server ← w.server.step d.commit (.submit batch)
  return { w with server, posts := w.posts ++ [some events] }

def write (id : ℕ) (faults : Faults) : Option World := do
  let c ← w.server.commits[id]?
  guard (id ∉ w.results.map (·.1))
  let call : Call := ⟨c.group.project, c.group.events, faults⟩
  let r := writeBatch d.digest w.db call
  return { w with db := r.1, calls := w.calls ++ [call], results := w.results ++ [(id, r.2)] }

def answer (id : ℕ) : Option World := do
  let r ← Keyed.lookup (·.1) id w.results
  let server ← w.server.step d.commit (.sinkAnswer id (answerOf r.2))
  return { w with server }

def reply (r : Reply) (now random : JsNumber) : Option World := do
  let client ← w.client.step d.arithmetic d.options (.reply r now random)
  return { w with client }

def hear (id : ℕ) (crossOrigin : Bool) (now random : JsNumber) : Option World := do
  let events ← w.posts[id]?.join
  guard (w.client.inFlight = some events)
  let o ← Keyed.lookup (·.1) id w.server.settled
  w.reply d (replyOf crossOrigin o.2) now random

def step (w : World) : WorldAction → Option World
  | .client a => do
    guard a.isOwn
    let client ← w.client.step d.arithmetic d.options a
    return { w with client }
  | .arrive k credential forwardedFor bytes at' => w.arrive d k credential forwardedFor bytes at'
  | .foreign batch => do
    let server ← w.server.step d.commit (.submit batch)
    return { w with server, posts := w.posts ++ [none] }
  | .server a => do
    guard a.isInternal
    let server ← w.server.step d.commit a
    return { w with server }
  | .write id faults => w.write d id faults
  | .answer id => w.answer d id
  | .hear id crossOrigin now random => w.hear d id crossOrigin now random
  | .fail r now random => do
    guard r.isFailure
    w.reply d r now random

end World

end Counted.Api
