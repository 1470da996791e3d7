import Counted.Ingestion.Admission
import Counted.Ingestion.Policy
import Counted.Foundations.Keyed
import Counted.Foundations.Intervals

namespace Counted.Ingestion

open Foundations

inductive WriteFailure
  | sinkUnavailable (detail : JsString)
  | timeout

structure WriteReceipt where
  written : JsNumber
  writtenIndices : List JsNumber
  deduplicated : JsNumber

/-- How a `writeBatch` ends. -/
inductive SinkAnswer
  | ok (receipt : WriteReceipt)
  | err (failure : WriteFailure)
  | threw (detail : JsString)

inductive QuotaVerdict
  | allowed
  | planExceeded (limit used : ℕ)
  | rateLimited (retryAfter : Duration)
  | threw (detail : JsString)

/-- A group fact: it counts the events of the other requests too. -/
structure CommitSummary where
  size : ℕ
  written : JsNumber
  deduplicated : JsNumber

inductive Ack
  | committed (accepted deduplicated : ℕ) (rejected : List RejectedEvent)
      (commit : Option CommitSummary)
  | refused (error : BatchAdmissionError) (rejected : List RejectedEvent)

/-- How the promise of a `submit` ends. It throws only when the quota service does. -/
inductive Settlement
  | ack (a : Ack)
  | threw (detail : JsString)

inductive CommitProblem
  | quotaNotRecorded (project : ProjectId) (events : JsNumber) (detail : JsString)
  | sinkThrew (project : ProjectId) (events : ℕ) (detail : JsString)

structure GroupCommitDeps where
  runtime : Runtime
  policy : GroupCommitPolicy := defaultGroupCommitPolicy
  admission : AdmissionPolicy := defaultAdmissionPolicy

/-- A request in a group. `submit` says whose promise `settle` resolves. -/
structure Waiter where
  submit : ℕ
  contributed : ℕ
  offset : ℕ
  duplicates : ℕ
  rejected : List RejectedEvent

structure Group where
  project : ProjectId
  workspace : WorkspaceId
  events : List AdmittedEvent
  keys : List DedupKey
  waiters : List Waiter
  openedAt : Instant

/-- A `submit` suspended at `quota.check`. -/
structure Pending where
  submit : ℕ
  batch : IngestBatch
  outcome : AdmissionOutcome

/-- Where `#commit` is suspended: at `writeBatch`, at `quota.record`, or done with its `finally`
still to run. -/
inductive Phase
  | writing
  | recording (receipt : WriteReceipt)
  | finishing
  | finished

/-- One `writeBatch` and what became of it. `#commits` holds those that have not finished. -/
structure Commit where
  group : Group
  phase : Phase
  answer : Option SinkAnswer

/-- A call of `drain`: what of the history there was when it began to wait, or returned. -/
inductive Drain
  | awaiting (issued : ℕ)
  | resolved (issued settled : ℕ)
  deriving DecidableEq

/-- `groups`, `buffered` and `draining` are the fields of the class, and `checking` and `drains`
the calls suspended in it. `commits`, `submits`, `joined` and `settled` are also its history. -/
structure State where
  groups : List Group
  commits : List Commit
  buffered : ℤ
  draining : Bool
  checking : List Pending
  drains : List Drain
  submits : List IngestBatch
  joined : List Pending
  settled : List (ℕ × Settlement)
  problems : List CommitProblem

def State.initial : State := ⟨[], [], 0, false, [], [], [], [], [], []⟩

inductive Action
  | submit (batch : IngestBatch)
  | quotaAnswer (id : ℕ) (verdict : QuotaVerdict) (opened now : Instant)
  | tick (now : Instant)
  | drain (now : Instant)
  | drainResume (id : ℕ) (now : Instant)
  | sinkAnswer (id : ℕ) (answer : SinkAnswer)
  | recordAnswer (id : ℕ) (failure : Option JsString)
  | finish (id : ℕ) (now : Instant)

namespace WriteReceipt

/-- `new Set(writtenIndices)`. -/
def indices (r : WriteReceipt) : List JsNumber := r.writtenIndices.dedup

def consistent (rt : Runtime) (r : WriteReceipt) (n : ℕ) : Bool :=
  JsNumber.strictEq ((r.indices.length : ℤ) : JsNumber) r.written &&
    (rt.add r.written r.deduplicated).strictEq ((n : ℤ) : JsNumber) &&
    r.indices.all (fun i ↦ i.isInteger && !i.lt ((0 : ℤ) : JsNumber) && i.lt ((n : ℤ) : JsNumber))

/-- How many of the positions of a waiter were newly stored. -/
def accepted (r : WriteReceipt) (w : Waiter) : ℕ :=
  spanCount (fun i ↦ ((i : ℤ) : JsNumber) ∈ r.indices) (w.offset, w.contributed)

end WriteReceipt

def sinkRefusal : WriteFailure → BatchAdmissionError
  | .sinkUnavailable detail => .sinkUnavailable detail
  | .timeout => .sinkUnavailable (js "the sink did not answer in time")

namespace Group

def new (batch : IngestBatch) (openedAt : Instant) : Group :=
  ⟨batch.project, batch.workspace, [], [], [], openedAt⟩

def pending (g : Group) : PendingGroup := ⟨g.events.length, g.waiters.length, g.openedAt⟩

/-- What of a request is not in the group yet. -/
def fresh (g : Group) (p : Pending) : Deduplicated AdmittedEvent :=
  collapseDuplicates p.outcome.admitted g.keys

/-- The request joins, also when all of its events repeat buffered ones. -/
def join (g : Group) (p : Pending) : Group :=
  { g with
    events := g.events ++ (g.fresh p).unique
    keys := g.keys ++ (g.fresh p).unique.filterMap (·.dedupKey)
    waiters := g.waiters ++
      [{ submit := p.submit
         contributed := (g.fresh p).unique.length
         offset := g.events.length
         duplicates := p.outcome.duplicates + (g.fresh p).duplicates
         rejected := p.outcome.rejected }] }

def refuse (g : Group) (error : BatchAdmissionError) : List (ℕ × Settlement) :=
  g.waiters.map (fun w ↦ (w.submit, .ack (.refused error w.rejected)))

def acknowledge (g : Group) (r : WriteReceipt) : List (ℕ × Settlement) :=
  g.waiters.map (fun w ↦ (w.submit, .ack (.committed (r.accepted w)
    (w.duplicates + w.contributed - r.accepted w) w.rejected
    (some ⟨g.events.length, r.written, r.deduplicated⟩))))

end Group

def Commit.active (c : Commit) : Bool :=
  match c.phase with
  | .finished => false
  | _ => true

namespace State

def inFlight (s : State) : ℕ := (s.commits.filter (·.active)).length

def settle (s : State) (l : List (ℕ × Settlement)) : State := { s with settled := s.settled ++ l }

def idle (s : State) : Bool := s.groups.isEmpty && s.inFlight == 0

def groupFor (s : State) (batch : IngestBatch) (opened : Instant) : Group :=
  (Keyed.lookup (·.project) batch.project s.groups).getD (.new batch opened)

def join (s : State) (p : Pending) (opened : Instant) : State :=
  let group := s.groupFor p.batch opened
  { s with
    groups := Keyed.upsert (·.project) (group.join p) s.groups
    buffered := s.buffered + (group.fresh p).unique.length
    joined := s.joined ++ [p] }

def unsuspend (s : State) (id : ℕ) : State :=
  { s with checking := Keyed.remove (·.submit) id s.checking }

/-- Out of the map before the first await, then handed to the sink. -/
def flush (s : State) (g : Group) : State :=
  { s with
    groups := Keyed.remove (·.project) g.project s.groups
    buffered := s.buffered - g.events.length
    commits := s.commits ++ [⟨g, .writing, none⟩] }

def putCommit (s : State) (id : ℕ) (c : Commit) : State := { s with commits := s.commits.set id c }

def putDrain (s : State) (id : ℕ) (d : Drain) : State := { s with drains := s.drains.set id d }

/-- The `catch` of `#commit`. -/
def sinkThrew (s : State) (id : ℕ) (c : Commit) (answer : SinkAnswer) (detail : JsString) : State :=
  let s := (s.putCommit id ⟨c.group, .finishing, some answer⟩).settle
    (c.group.refuse (.sinkUnavailable detail))
  { s with problems := s.problems ++ [.sinkThrew c.group.project c.group.events.length detail] }

end State

def inconsistentReceipt : JsString := js "the sink returned an inconsistent write receipt"

variable (deps : GroupCommitDeps)

namespace State

/-- `#commit` from the answer of the sink to its next await, or to its end. -/
def sinkAnswered (s : State) (id : ℕ) (c : Commit) (answer : SinkAnswer) : State :=
  match answer with
  | .err failure =>
    (s.putCommit id ⟨c.group, .finishing, some answer⟩).settle
      (c.group.refuse (sinkRefusal failure))
  | .threw detail => s.sinkThrew id c answer detail
  | .ok receipt =>
    if receipt.consistent deps.runtime c.group.events.length then
      s.putCommit id ⟨c.group, .recording receipt, some answer⟩
    else s.sinkThrew id c answer inconsistentReceipt

/-- `#commit` from the answer of the quota to its end. -/
def recordAnswered (s : State) (id : ℕ) (c : Commit) (receipt : WriteReceipt)
    (failure : Option JsString) : State :=
  let s := (s.putCommit id { c with phase := .finishing }).settle (c.group.acknowledge receipt)
  let problem := CommitProblem.quotaNotRecorded c.group.project receipt.written
  { s with problems := s.problems ++ failure.toList.map problem }

def due (s : State) (g : Group) (now : Instant) : Bool :=
  (deps.policy.flushReason g.pending s.draining now).isSome

def pumpGroup (now : Instant) (s : State) (g : Group) : State :=
  match deps.policy.decide ⟨some g.pending, s.inFlight, s.draining⟩ now with
  | .flush _ => s.flush g
  | _ => s

/-- `#pump`, over a snapshot of the groups. -/
def pump (now : Instant) (s : State) : State := s.groups.foldl (pumpGroup deps now) s

end State

/-- How the synchronous work of a step ends: there, in `#pump`, or in a turn of the loop of a
`drain`, which pumps and then awaits the commits in flight. -/
inductive Entered
  | done (s : State)
  | pumps (now : Instant) (s : State)
  | loops (id : ℕ) (now : Instant) (s : State)

def backpressure (retryAfter : Duration) (rejected : List RejectedEvent) : Settlement :=
  .ack (.refused (.rateLimited retryAfter) rejected)

namespace State

def enterSubmit (s : State) (batch : IngestBatch) : State :=
  let id := s.submits.length
  let s := { s with submits := s.submits ++ [batch] }
  match admitBatch deps.runtime deps.admission batch with
  | .error e => s.settle [(id, .ack (.refused e []))]
  | .ok outcome =>
    if outcome.admitted.length = 0 then
      s.settle [(id, .ack (.committed 0 outcome.duplicates outcome.rejected none))]
    else if s.draining then
      s.settle [(id, .ack (.refused (.sinkUnavailable (js "the server is shutting down"))
        outcome.rejected))]
    else match deps.policy.receive s.buffered outcome.admitted.length with
      | .refuse retryAfter => s.settle [(id, backpressure retryAfter outcome.rejected)]
      | .accept => { s with checking := s.checking ++ [⟨id, batch, outcome⟩] }

def enterVerdict (s : State) (p : Pending) (verdict : QuotaVerdict) (opened now : Instant) :
    Entered :=
  let s := s.unsuspend p.submit
  match verdict with
  | .planExceeded limit used =>
    .done (s.settle [(p.submit, .ack (.refused (.planExceeded limit used) p.outcome.rejected))])
  | .rateLimited retryAfter => .done (s.settle [(p.submit, backpressure retryAfter p.outcome.rejected)])
  | .threw detail => .done (s.settle [(p.submit, .threw detail)])
  | .allowed =>
    -- checked again: other requests arrived while the quota was asked
    match deps.policy.receive s.buffered p.outcome.admitted.length with
    | .refuse retryAfter => .done (s.settle [(p.submit, backpressure retryAfter p.outcome.rejected)])
    | .accept => .pumps now (s.join p opened)

/-- The head of the loop of `drain`. -/
def enterDrain (s : State) (id : ℕ) (now : Instant) : Entered :=
  if s.idle then .done (s.putDrain id (.resolved s.commits.length s.settled.length)) else .loops id now s

def enter (s : State) : Action → Option Entered
  | .submit batch => some (.done (s.enterSubmit deps batch))
  | .quotaAnswer id verdict opened now =>
    (Keyed.lookup (·.submit) id s.checking).map (fun p ↦ s.enterVerdict deps p verdict opened now)
  | .tick now => some (.pumps now s)
  | .drain now =>
    some (enterDrain { s with draining := true, drains := s.drains ++ [.awaiting 0] }
      s.drains.length now)
  | .drainResume id now =>
    match s.drains[id]? with
    | some (.awaiting issued) =>
      if (s.commits.take issued).any (·.active) then none else some (s.enterDrain id now)
    | _ => none
  | .sinkAnswer id answer =>
    match s.commits[id]? with
    | some ⟨group, .writing, past⟩ => some (.done (s.sinkAnswered deps id ⟨group, .writing, past⟩ answer))
    | _ => none
  | .recordAnswer id failure =>
    match s.commits[id]? with
    | some ⟨group, .recording receipt, past⟩ =>
      some (.done (s.recordAnswered id ⟨group, .recording receipt, past⟩ receipt failure))
    | _ => none
  | .finish id now =>
    match s.commits[id]? with
    | some ⟨group, .finishing, past⟩ => some (.pumps now (s.putCommit id ⟨group, .finished, past⟩))
    | _ => none

def leave : Entered → State
  | .done s => s
  | .pumps now s => s.pump deps now
  | .loops id now s =>
    let s := s.pump deps now
    s.putDrain id (.awaiting s.commits.length)

def step (s : State) (a : Action) : Option State := (s.enter deps a).map (leave deps)

end State

end Counted.Ingestion
