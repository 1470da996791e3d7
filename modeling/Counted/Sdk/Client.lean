import Counted.Ingestion.Batch
import Counted.Analytics.Measure

namespace Counted.Sdk

open Ingestion

structure QueuedEvent where
  name : JsString
  visitId : JsString
  userId : Option JsString
  occurredAt : JsString
  idempotencyKey : JsString
  properties : Option (List (JsString × PropertyValue))
  systemProperties : Option (List (JsString × Option JsString))
  deriving DecidableEq

/-- The on-device queue. Nothing checks that its capacity is not negative. -/
structure EventQueue where
  events : List QueuedEvent
  dropped : ℕ
  capacity : ℤ

namespace EventQueue

variable (q : EventQueue)

def size : ℕ := q.events.length

def excess : ℤ := q.size - q.capacity

/-- The oldest events go first. -/
def trim : EventQueue :=
  if q.excess ≤ 0 then q
  else { q with events := q.events.drop q.excess.toNat, dropped := q.dropped + q.excess.toNat }

/-- The events that `trim` takes out. -/
def spilled : List QueuedEvent := q.events.take q.excess.toNat

def append (event : QueuedEvent) : EventQueue := { q with events := q.events ++ [event] }

def prepend (batch : List QueuedEvent) : EventQueue := { q with events := batch ++ q.events }

def push (event : QueuedEvent) : EventQueue := (q.append event).trim

/-- Up to `limit` events from the front, as `splice` takes them. -/
def take (limit : ℤ) : List QueuedEvent × EventQueue :=
  (q.events.take limit.toNat, { q with events := q.events.drop limit.toNat })

/-- Returns an unsent batch to the head. -/
def requeue (batch : List QueuedEvent) : EventQueue := (q.prepend batch).trim

variable {q}

theorem trim_eq (q : EventQueue) : q.trim =
    ⟨q.events.drop q.excess.toNat, q.dropped + q.excess.toNat, q.capacity⟩ := by
  rw [trim]
  split_ifs with h
  · have hz : q.excess.toNat = 0 := by omega
    rw [hz]
    rfl
  · rfl

theorem trim_of_fits (h : (q.size : ℤ) ≤ q.capacity) : q.trim = q := by
  apply if_pos
  rw [excess]
  omega

theorem spilled_append_trim (q : EventQueue) : q.spilled ++ q.trim.events = q.events := by
  rw [spilled, trim_eq]
  exact List.take_append_drop _ _

theorem size_trim_le (q : EventQueue) : (q.trim.size : ℤ) ≤ max q.capacity 0 := by
  rw [trim_eq, size, List.length_drop, excess, size]
  omega

theorem length_spilled (q : EventQueue) : q.spilled.length = min q.excess.toNat q.size :=
  List.length_take

/-- With a capacity, all that is counted as dropped was there. -/
theorem length_spilled_of_nonneg (h : 0 ≤ q.capacity) : q.spilled.length = q.excess.toNat := by
  rw [length_spilled, excess, size]
  omega

end EventQueue

structure CountedOptions where
  flushIntervalMs : ℤ
  maxBatchSize : ℤ
  maxQueueSize : ℤ

/-- `DEFAULTS`. -/
def defaultOptions : CountedOptions := ⟨5000, 50, 1000⟩

def CountedOptions.batchSize (o : CountedOptions) : ℤ := min o.maxBatchSize 250

/-- `FATAL_STATUSES`. -/
def fatalStatuses : List ℕ := [401, 403]

/-- `RETRYABLE_STATUSES`. -/
def retryableStatuses : List ℕ := [408, 425, 429, 500, 502, 503, 504]

structure ReceiptQuota where
  state : JsString
  used : JsNumber
  limit : Option JsNumber

structure IngestReceipt where
  accepted : ℕ
  deduplicated : ℕ
  rejected : ℕ
  outcomes : List (Bool × Option JsString)
  quota : Option ReceiptQuota

/-- What comes back for a batch: a receipt where the body of a 2xx is one, what a problem states
of itself, or nothing at all. -/
inductive Reply
  | ok (receipt : Option IngestReceipt)
  | problem (status : ℕ) (retryable : Option Bool) (detail : Option JsString)
      (retryAfterMs : Option JsNumber)
  | failed (detail : JsString)

inductive SendOutcome
  | accepted (receipt : IngestReceipt)
  | retry (status : ℕ) (retryAfterMs : Option JsNumber) (detail : JsString)
  | refused (status : ℕ) (detail : JsString)

/-- `sendBatch`. The server's own answer wins over the list of statuses. -/
def outcomeOf (batch : List QueuedEvent) : Reply → SendOutcome
  | .ok receipt => .accepted (receipt.getD ⟨batch.length, 0, 0, [], none⟩)
  | .problem status retryable detail retryAfterMs =>
    let detail := detail.getD (js "HTTP " ++ natText status)
    if retryable.getD (retryableStatuses.contains status) then .retry status retryAfterMs detail
    else .refused status detail
  | .failed detail => .retry 0 none detail

inductive Diagnostic
  | refused (status : ℕ) (detail : JsString)
  | disabled (status : ℕ) (detail : JsString) (discarded : ℕ)
  | dropped (events : ℕ)
  | rejected (events : ℕ) (reasons : List JsString)
  | quota (quota : ReceiptQuota)

/-- Events a diagnostic reports as dropped or discarded. -/
def Diagnostic.losses : Diagnostic → ℕ
  | .disabled _ _ discarded => discarded
  | .dropped events => events
  | .refused .. | .rejected .. | .quota _ => 0

/-- Whether a diagnostic reports that a batch was refused. -/
def Diagnostic.isRefusal : Diagnostic → Bool
  | .refused .. | .disabled .. => true
  | .dropped _ | .rejected .. | .quota _ => false

structure Client where
  queue : EventQueue
  inFlight : Option (List QueuedEvent)
  pausedUntil : JsNumber
  attempt : ℕ
  closed : Bool
  disabled : Bool
  timer : Bool

/-- A client, the diagnostics it has reported, and what has become of the events it was given
while open and enabled. -/
structure Session extends Client where
  diagnostics : List Diagnostic
  tracked : List QueuedEvent
  sent : List (List QueuedEvent)
  acknowledged : List QueuedEvent
  beaconed : List QueuedEvent
  refused : List (List QueuedEvent)
  lost : List QueuedEvent

inductive ClientAction
  | track (event : QueuedEvent) (now : JsNumber)
  | flush (now : JsNumber)
  | timer (now : JsNumber)
  | hidden (sent : Bool)
  | shutdown (now : JsNumber)
  | reply (reply : Reply) (now random : JsNumber)

/-- `Math.min(maxMs, baseMs * factor ** (attempt - 1))`. -/
def backoffCeiling (attempt : ℕ) : ℕ := min 60000 (500 * 2 ^ (attempt - 1))

namespace Session

variable (ar : Arithmetic) (o : CountedOptions) (s : Session)

def initial : Session where
  queue := ⟨[], 0, o.maxQueueSize⟩
  inFlight := none
  pausedUntil := (0 : ℤ)
  attempt := 0
  closed := false
  disabled := false
  timer := 0 < o.flushIntervalMs
  diagnostics := []
  tracked := []
  sent := []
  acknowledged := []
  beaconed := []
  refused := []
  lost := []

def report (d : Diagnostic) : Session := { s with diagnostics := s.diagnostics ++ [d] }

def drain (now : JsNumber) : Session :=
  if s.disabled || s.queue.size = 0 then s
  else if now.lt s.pausedUntil then s
  else
    let taken := s.queue.take o.batchSize
    if taken.1 = [] then { s with queue := taken.2 }
    else { s with queue := taken.2, inFlight := some taken.1, sent := s.sent ++ [taken.1] }

/-- Overlapping calls join. -/
def flush (now : JsNumber) : Session := if s.inFlight.isSome then s else s.drain o now

/-- The event is in the queue, and what it pushed out is lost. -/
def pushed (event : QueuedEvent) : Session := { s with
  queue := s.queue.push event
  tracked := s.tracked ++ [event]
  lost := s.lost ++ (s.queue.append event).spilled }

def track (event : QueuedEvent) (now : JsNumber) : Session :=
  if s.closed || s.disabled then s
  else
    let dropped := (s.queue.push event).dropped - s.queue.dropped
    let t := if 0 < dropped then (s.pushed event).report (.dropped dropped) else s.pushed event
    if o.batchSize ≤ t.queue.size then t.flush o now else t

def reportRejected (receipt : IngestReceipt) : Session :=
  if 0 < receipt.rejected then
    s.report (.rejected receipt.rejected
      ((receipt.outcomes.filter (fun outcome ↦ !outcome.1)).filterMap (·.2)))
  else s

def reportQuota : Option ReceiptQuota → Session
  | some quota => if quota.state ≠ js "ok" then s.report (.quota quota) else s
  | none => s

def reportReceipt (receipt : IngestReceipt) : Session :=
  (s.reportRejected receipt).reportQuota receipt.quota

/-- When to come back: what the server said, or a jittered backoff. -/
def backedOff (retryAfterMs : Option JsNumber) (now random : JsNumber) : Session :=
  match retryAfterMs with
  | some wait => { s with pausedUntil := ar.add now wait }
  | none => { s with
      attempt := s.attempt + 1
      pausedUntil := ar.add now (ar.mul random (backoffCeiling (s.attempt + 1) : ℤ)) }

/-- The batch is back at the head, and what it pushed out is lost. -/
def requeued (batch : List QueuedEvent) : Session := { s with
  queue := s.queue.requeue batch
  lost := s.lost ++ (s.queue.prepend batch).spilled }

/-- A credential that is refused stops the client, and the buffer is discarded. -/
def disable (status : ℕ) (detail : JsString) : Session :=
  { s with
    queue := (s.queue.take s.queue.size).2
    disabled := true
    lost := s.lost ++ (s.queue.take s.queue.size).1 }.report
    (.disabled status detail s.queue.size)

def handle (batch : List QueuedEvent) (now random : JsNumber) : SendOutcome → Session
  | .accepted receipt =>
    { s with attempt := 0, acknowledged := s.acknowledged ++ batch }.reportReceipt receipt
  | .refused status detail =>
    let s := { s with refused := s.refused ++ [batch] }
    if fatalStatuses.contains status then s.disable status detail
    else s.report (.refused status detail)
  | .retry _ retryAfterMs _ => (s.backedOff ar retryAfterMs now random).requeued batch

/-- The page is going away: a beacon, which the browser takes or does not. -/
def hidden (sent : Bool) : Session :=
  let taken := s.queue.take o.batchSize
  let t := { s with queue := taken.2 }
  if taken.1 = [] then t
  else if sent then
    { t with sent := s.sent ++ [taken.1], beaconed := s.beaconed ++ taken.1 }
  else { t.requeued taken.1 with sent := s.sent ++ [taken.1] }

def shutdown (now : JsNumber) : Session :=
  { s with closed := true, timer := false }.flush o now

/-- After a shutdown the timer is stopped and nobody watches the page. -/
def step : ClientAction → Option Session
  | .track event now => some (s.track o event now)
  | .flush now => some (s.flush o now)
  | .timer now => if s.timer then some (s.flush o now) else none
  | .hidden sent => if s.closed then none else some (s.hidden o sent)
  | .shutdown now => some (s.shutdown o now)
  | .reply reply now random => s.inFlight.map fun batch ↦
    { s with inFlight := none }.handle ar batch now random (outcomeOf batch reply)

end Session

end Counted.Sdk
