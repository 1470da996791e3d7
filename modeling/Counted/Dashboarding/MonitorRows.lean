import Counted.Analytics.SharedColumn
import Counted.Dashboarding.Delivery
import Counted.Dashboarding.MonitorStore

namespace Counted.Dashboarding

open Analytics Ingestion

/-- The columns of a row of `monitors`, as the driver reads them. -/
structure MonitorColumns where
  id : JsString
  workspaceId : JsString
  projectId : JsString
  name : JsString
  analysis : Json
  thresholdComparison : JsString
  thresholdValue : JsNumber
  cooldownMs : ℤ
  channels : Json
  enabled : Bool
  state : JsString
  lastNotifiedAt : Option Instant
  lastValue : Option JsNumber
  lastAttemptAt : Option Instant
  lastMeasuredAt : Option Instant
  evaluationError : Option JsString
  evaluationClaimedUntil : Option Instant

/-- What `rehydrate` throws. -/
inductive DecodeError
  | rowDecode (id column : JsString) (value : Json)
  | unreadableAnalysis

def DecodeError.message : DecodeError → JsString
  | .rowDecode id column value =>
    js "monitors." ++ column ++ js " holds " ++ value.stringify ++
      js ", which is not a value this version understands (row " ++ Json.quote id ++ js ")"
  | .unreadableAnalysis => js "the stored analysis is not a shape this version understands"

def comparisons : List (JsString × Comparison) := [(js "above", .above), (js "below", .below)]

def states : List (JsString × MonitorState) := [(js "ok", .ok), (js "breaching", .breaching)]

/-- `decodeText` with the domain's own predicate. -/
def decodeText {α : Type} (allowed : List (JsString × α)) (id column raw : JsString) :
    Except DecodeError α :=
  match allowed.lookup raw with
  | some value => .ok value
  | none => .error (.rowDecode id column (.str raw))

/-- `Number.MAX_SAFE_INTEGER`. -/
def maxSafeInteger : ℕ := 9007199254740991

def millisOf (id column : JsString) (raw : ℤ) : Except DecodeError Duration :=
  if raw.natAbs ≤ maxSafeInteger then .ok raw
  else .error (.rowDecode id column (.str (JsNumber.toJs (raw : JsNumber))))

def channelOf : Json → Option Channel
  | .obj fields =>
    match JsObject.get fields (js "kind"), JsObject.get fields (js "address"),
      JsObject.get fields (js "url") with
    | some (.str kind), address, url =>
      if kind = js "email" then (stringOf address).map .email
      else if kind = js "webhook" then (stringOf url).map .webhook
      else none
    | _, _, _ => none
  | _ => none

def channelsOf (id : JsString) : Json → Except DecodeError (List Channel)
  | .arr items => items.mapM (fun entry ↦
    match channelOf entry with
    | some channel => .ok channel
    | none => .error (.rowDecode id (js "channels") entry))
  | raw => .error (.rowDecode id (js "channels") raw)

/-- `decode` of the worker's codec. -/
def decodeAnalysis (raw : Json) : Except DecodeError Analysis :=
  match parseAnalysis raw with
  | some parsed => .ok parsed
  | none => .error .unreadableAnalysis

/-- The monitor of a row. -/
def rehydrate (row : MonitorColumns) : Except DecodeError (Monitor Analysis) := do
  let comparison ←
    decodeText comparisons row.id (js "threshold_comparison") row.thresholdComparison
  let analysis ← decodeAnalysis row.analysis
  let cooldown ← millisOf row.id (js "cooldown_ms") row.cooldownMs
  let channels ← channelsOf row.id row.channels
  let state ← decodeText states row.id (js "state") row.state
  .ok {
    id := row.id, workspace := row.workspaceId, project := row.projectId, name := row.name
    analysis, threshold := ⟨comparison, row.thresholdValue⟩, cooldown, channels
    enabled := row.enabled, state
    lastNotifiedAt := row.lastNotifiedAt, lastValue := row.lastValue
    lastAttemptAt := row.lastAttemptAt, lastMeasuredAt := row.lastMeasuredAt
    evaluationError := row.evaluationError, evaluationClaim := none }

def Channel.json : Channel → Json
  | .email address => .obj [(js "kind", .str (js "email")), (js "address", .str address)]
  | .webhook url => .obj [(js "kind", .str (js "webhook")), (js "url", .str url)]

def Comparison.text : Comparison → JsString
  | .above => js "above"
  | .below => js "below"

def MonitorState.text : MonitorState → JsString
  | .ok => js "ok"
  | .breaching => js "breaching"

/-- What the worker's `save` writes. -/
def columnsOf (m : Monitor Analysis) : MonitorColumns where
  id := m.id
  workspaceId := m.workspace
  projectId := m.project
  name := m.name
  analysis := Process.worker.column m.analysis
  thresholdComparison := m.threshold.comparison.text
  thresholdValue := m.threshold.value
  cooldownMs := m.cooldown
  channels := .arr (m.channels.map Channel.json)
  enabled := m.enabled
  state := m.state.text
  lastNotifiedAt := m.lastNotifiedAt
  lastValue := m.lastValue
  lastAttemptAt := m.lastAttemptAt
  lastMeasuredAt := m.lastMeasuredAt
  evaluationError := m.evaluationError
  evaluationClaimedUntil := none

namespace MonitorColumns

/-- The upsert's condition for a save that carries a claim. -/
def accepts (row : MonitorColumns) (m : Monitor Analysis) : Bool :=
  row.id == m.id && m.evaluationClaim.all (fun token ↦
    row.lastAttemptAt == some token && row.evaluationClaimedUntil.isSome)

def claim (at' : Instant) (row : MonitorColumns) : MonitorColumns :=
  { row with lastAttemptAt := some at', evaluationClaimedUntil := some (at' + evaluationLease) }

def claimable (at' : Instant) (row : MonitorColumns) : Bool :=
  row.enabled && row.evaluationClaimedUntil.all (· ≤ at')

section

variable (collate : JsString → JsString → Bool)

/-- `ORDER BY last_attempt_at NULLS FIRST, id`. -/
def attemptedFirst (a b : MonitorColumns) : Bool :=
  match a.lastAttemptAt, b.lastAttemptAt with
  | none, some _ => true
  | some _, none => false
  | none, none => !collate b.id a.id
  | some s, some t => s < t || s == t && !collate b.id a.id

/-- The rows a claim takes. -/
def due (limit : ℕ) (at' : Instant) (exclude : List MonitorId) (table : List MonitorColumns) :
    List MonitorColumns :=
  ((table.filter (fun row ↦ row.id ∉ exclude)).filter (claimable at')).mergeSort
    (attemptedFirst collate) |>.take limit

end

end MonitorColumns

/-- What `claimEnabled` returns for a leased row. -/
def claimedMonitor (at' : Instant) (row : MonitorColumns) :
    Except DecodeError (Monitor Analysis) :=
  (rehydrate row).map (fun m ↦ { m with lastAttemptAt := some at', evaluationClaim := some at' })

/-- The statement leases the rows; they are decoded afterwards. -/
def claimEnabled (collate : JsString → JsString → Bool) (limit : ℕ) (at' : Instant)
    (exclude : List MonitorId) (table : List MonitorColumns) :
    List MonitorColumns × Except DecodeError (List (Monitor Analysis)) :=
  let taken := MonitorColumns.due collate limit at' exclude table
  (table.map (fun row ↦ if row.id ∈ taken.map (·.id) then row.claim at' else row),
    taken.mapM (claimedMonitor at'))

/-- The rows and the queued alerts. -/
structure MonitorDatabase where
  monitors : List MonitorColumns
  deliveries : Deliveries

/-- `save` on a monitor that has a row. -/
def MonitorDatabase.save (db : MonitorDatabase) (applied : MonitorApplied Analysis)
    (now : Instant) : MonitorDatabase :=
  if db.monitors.any (MonitorColumns.accepts · applied.monitor) then
    { monitors := db.monitors.map (fun row ↦
        if row.accepts applied.monitor then columnsOf applied.monitor else row)
      deliveries := saveDeliveries applied.monitor applied.events now db.deliveries }
  else db

end Counted.Dashboarding
