import Counted.Ingestion.GroupCommit
import Counted.Kernel.Calendar

namespace Counted.Analytics

open Foundations Ingestion

/-- What a call of the driver throws. -/
structure Cause where
  code : JsString
  detail : JsString
  deriving DecidableEq

/-- The hex text of a SHA-256. -/
abbrev Digest := JsString

structure EventRow where
  project : ProjectId
  event : AdmittedEvent

/-- What the two tables hold. The key of `ingest_receipts` is unique, so it is a set. -/
structure Db where
  ledger : Finset (ProjectId × Digest)
  rows : List EventRow

def Db.empty : Db := ⟨∅, []⟩

/-- The calls of one `writeBatch` that fail. A `COMMIT` that throws may have been carried out:
then what got lost is its answer. -/
structure Faults where
  connect : Option Cause := none
  start : Option Cause := none
  setTimeout : Option Cause := none
  reserve : Option Cause := none
  insert : Option Cause := none
  rowCount : Option (Option ℕ) := none
  notify : Option Cause := none
  commit : Option (Bool × Cause) := none

/-- A call of `writeBatch`. -/
structure Call where
  project : ProjectId
  events : List AdmittedEvent
  faults : Faults := {}

def failureFor (cause : Cause) : WriteFailure :=
  if cause.code = js "57014" then .timeout
  else if cause.code = js "42P01" ∨ cause.code = js "3F000" then
    .sinkUnavailable (js "the analytics schema is not present — run the domain and litics migrations ("
      ++ cause.detail ++ js ")")
  else .sinkUnavailable cause.detail

/-- `INSERT … ON CONFLICT DO NOTHING RETURNING`: the keys it could insert. -/
def Db.reserve (db : Db) (project : ProjectId) (keys : List Digest) : Db × List Digest :=
  ({ db with ledger := db.ledger ∪ (keys.map (project, ·)).toFinset },
    keys.filter (fun d ↦ (project, d) ∉ db.ledger))

def throwing (fault : Option Cause) : Except Cause Unit :=
  match fault with
  | none => .ok ()
  | some cause => .error cause

/-- The filter of the events: `fresh.delete` keeps the first of each reserved key. -/
def pending (digest : DedupKey → Digest) (fresh : List Digest) (index : ℕ) :
    List AdmittedEvent → List (AdmittedEvent × ℕ)
  | [] => []
  | event :: events =>
    match event.dedupKey.map digest with
    | none => (event, index) :: pending digest fresh (index + 1) events
    | some d =>
      if d ∈ fresh then (event, index) :: pending digest (fresh.erase d) (index + 1) events
      else pending digest fresh (index + 1) events

def miscounted : Cause := ⟨[], js "analytics write count did not match the reserved batch"⟩

variable (digest : ProjectId → DedupKey → Digest)

/-- The keys of a batch, each once and in order, so that overlapping batches cannot deadlock. -/
def keysOf (c : Call) : List Digest :=
  JsString.sort (c.events.map (fun e ↦ e.dedupKey.map (digest c.project))).reduceOption.dedup

def written (db : Db) (c : Call) : List (AdmittedEvent × ℕ) :=
  pending (digest c.project) (db.reserve c.project (keysOf digest c)).2 0 c.events

/-- The transaction up to its `COMMIT`. -/
def transaction (db : Db) (c : Call) : Except Cause (Db × WriteReceipt) := do
  throwing c.faults.start
  throwing c.faults.setTimeout
  if keysOf digest c ≠ [] then throwing c.faults.reserve
  let rows := written digest db c
  if rows ≠ [] then
    throwing c.faults.insert
    if c.faults.rowCount.getD (some rows.length) ≠ some rows.length then .error miscounted
    throwing c.faults.notify
  .ok ({ ledger := (db.reserve c.project (keysOf digest c)).1.ledger
         rows := db.rows ++ rows.map (fun p ↦ ⟨c.project, p.1⟩) },
    { written := (rows.length : ℤ)
      writtenIndices := rows.map (fun p ↦ ((p.2 : ℤ) : JsNumber))
      deduplicated := ((c.events.length : ℤ) - rows.length : ℤ) })

/-- A transaction that does not get as far as `COMMIT` is rolled back with its connection. -/
def writeBatch (db : Db) (c : Call) : Db × Except WriteFailure WriteReceipt :=
  if c.events.length = 0 then (db, .ok ⟨(0 : ℤ), [], (0 : ℤ)⟩)
  else match c.faults.connect with
    | some cause => (db, .error (failureFor cause))
    | none =>
      match transaction digest db c with
      | .error cause => (db, .error (failureFor cause))
      | .ok (stored, receipt) =>
        match c.faults.commit with
        | none => (stored, .ok receipt)
        | some (true, cause) => (stored, .error (failureFor cause))
        | some (false, cause) => (db, .error (failureFor cause))

/-- The tables after a sequence of calls, in the order of their transactions. -/
def serve (db : Db) (calls : List Call) : Db := calls.foldl (fun db c ↦ (writeBatch digest db c).1) db

/-- A function among the dimensions is no JSON: `none`, which `JSON.stringify` leaves out. -/
structure TrackEvent where
  actor : JsString
  type : JsString
  ts : Decimal
  props : List (JsString × Json)
  dims : List (JsString × Option Json)

def propertyJson : PropertyValue → Json
  | .str s => .str s
  | .num d => .num (.finite d)
  | .bool b => .bool b
  | .null => .null

def nullable (s : Option JsString) : Json := (s.map Json.str).getD .null

/-- `system[name] ?? null` for the dimensions the stream declares. What the table of aliases
inherits under a folded spelling is always a function. -/
def systemDims (system : SystemProperties) : List (JsString × Option Json) :=
  [(js "os_name", match system.osName with
      | .name n => some (.str n.text)
      | .inherited _ => none),
    (js "os_version", some (nullable system.osVersion)),
    (js "locale", some (nullable system.locale)),
    (js "app_version", some (nullable system.appVersion)),
    (js "device_model", some (nullable system.deviceModel)),
    (js "sdk_version", some (nullable system.sdkVersion)),
    (js "country", some (nullable system.country))]

def assign (props : List (JsString × Json)) (key : JsString) :
    Option JsString → List (JsString × Json)
  | none => props
  | some s => JsObject.set props key (.str s)

def toTrackEvent (event : AdmittedEvent) : TrackEvent where
  actor := event.visit
  type := event.name
  ts := event.occurredAt
  props := assign (assign (event.properties.map (fun p ↦ (p.1, propertyJson p.2)))
    (js "$person") event.person) (js "$os_name_raw") event.system.osNameRaw
  dims := systemDims event.system

/-- A row of `trackBatch`. `toISOString` throws when there is no such date. -/
def trackRow (tenant : ProjectId) (e : TrackEvent) : Option Json :=
  (Calendar.timeClip e.ts).map (fun ts ↦ .obj
    ([(js "ts", .str (Calendar.toISOString ts)), (js "event_id", .null), (js "actor", .str e.actor),
      (js "tenant", .str tenant), (js "session", .null), (js "type", .str e.type),
      (js "props", .obj e.props)] ++ e.dims.filterMap (fun d ↦ d.2.map (d.1, ·))))

/-- The parameter of the statement one batch becomes. -/
def writeStatement (project : ProjectId) (events : List AdmittedEvent) : Option JsString :=
  ((events.map toTrackEvent).mapM (trackRow project)).map (fun rows ↦ (Json.arr rows).stringify)

/-- Whether the server takes the parameter of a batch. -/
def taken (project : ProjectId) (events : List AdmittedEvent) : Bool :=
  (writeStatement project events).any jsonbTakes

variable (refusal : Cause)

/-- A `writeBatch` in which nothing fails but what the server makes of the parameter. -/
def attempt (db : Db) (project : ProjectId) (events : List AdmittedEvent) : Call where
  project := project
  events := events
  faults.insert :=
    if taken project ((written digest db ⟨project, events, {}⟩).map (·.1)) then none
    else some refusal

end Counted.Analytics
