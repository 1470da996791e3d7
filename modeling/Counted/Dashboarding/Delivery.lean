import Counted.Dashboarding.Monitor
import Counted.Kernel.Number

namespace Counted.Dashboarding

open Ingestion

variable {A : Type}

/-- Immutable recipient and observation, captured when a transition commits. -/
structure MonitorAlert where
  id : JsString
  monitor : MonitorId
  workspace : JsString
  project : ProjectId
  name : JsString
  channel : Channel
  state : MonitorState
  observed : JsNumber
  threshold : Threshold
  entering : Option Bool
  occurredAt : Instant
  deriving DecidableEq

def alerts (monitor : Monitor A) (kind : JsString) (state : MonitorState) (observed : JsNumber)
    (entering : Option Bool) (at' : Instant) : List MonitorAlert :=
  let eventId := monitor.id ++ js ":" ++ kind ++ js ":" ++ JsNumber.toJs (at' : JsNumber)
  monitor.channels.eraseDups.mapIdx (fun index channel ↦ {
    id := eventId ++ js ":" ++ natText index
    monitor := monitor.id, workspace := monitor.workspace, project := monitor.project
    name := monitor.name, channel, state, observed, threshold := monitor.threshold, entering
    occurredAt := at' })

def alertsFor (monitor : Monitor A) : MonitorEvent → List MonitorAlert
  | .fired _ _ observed _ entering at' =>
    alerts monitor (js "MonitorFired") .breaching observed (some entering) at'
  | .recovered _ _ observed at' => alerts monitor (js "MonitorRecovered") .ok observed none at'
  | .created .. | .renamed .. | .retargeted .. | .reconfigured .. | .enabled .. | .disabled .. => []

/-- A row of `monitor_deliveries`. -/
structure DeliveryRow where
  alert : MonitorAlert
  nextAttemptAt : Instant
  claimedAt : Option Instant
  deliveredAt : Option Instant
  canceledAt : Option Instant
  attempts : ℕ
  lastError : Option JsString
  deriving DecidableEq

abbrev DeliveryRow.id (row : DeliveryRow) : JsString := row.alert.id

def DeliveryRow.isOpen (row : DeliveryRow) : Bool := row.deliveredAt.isNone && row.canceledAt.isNone

abbrev Deliveries := List DeliveryRow

def enqueued (alert : MonitorAlert) : DeliveryRow where
  alert := alert
  nextAttemptAt := alert.occurredAt
  claimedAt := none
  deliveredAt := none
  canceledAt := none
  attempts := 0
  lastError := none

/-- `ON CONFLICT (id) DO NOTHING`. -/
def enqueue (table : Deliveries) (alert : MonitorAlert) : Deliveries :=
  if alert.id ∈ table.map DeliveryRow.id then table else table ++ [enqueued alert]

def MonitorEvent.cancelsAll : MonitorEvent → Bool
  | .retargeted .. | .disabled .. => true
  | .created .. | .renamed .. | .reconfigured .. | .enabled .. | .fired .. | .recovered .. => false

def MonitorEvent.isReconfigured : MonitorEvent → Bool
  | .reconfigured .. => true
  | .created .. | .renamed .. | .retargeted .. | .enabled .. | .disabled .. | .fired ..
  | .recovered .. => false

/-- What a save of the monitor cancels. -/
def canceledBy (monitor : Monitor A) (events : List MonitorEvent) (row : DeliveryRow) : Bool :=
  row.alert.monitor == monitor.id && row.isOpen &&
    (events.any MonitorEvent.cancelsAll ||
      events.any MonitorEvent.isReconfigured && row.alert.channel ∉ monitor.channels)

def DeliveryRow.cancel (now : Instant) (row : DeliveryRow) : DeliveryRow :=
  { row with canceledAt := some now, claimedAt := none }

/-- What `save` does to the deliveries, the monitor's row once written. -/
def saveDeliveries (monitor : Monitor A) (events : List MonitorEvent) (now : Instant)
    (table : Deliveries) : Deliveries :=
  (events.flatMap (alertsFor monitor)).foldl enqueue
    (table.map (fun row ↦ if canceledBy monitor events row then row.cancel now else row))

structure MonitorDelivery where
  alert : MonitorAlert
  attempts : ℕ
  claimedAt : Instant
  deriving DecidableEq

/-- `interval '5 minutes'`. -/
def deliveryLease : Duration := 300000

section

variable (collate : JsString → JsString → Bool)

/-- `(prior.occurred_at, prior.id) < (d.occurred_at, d.id)`, with the text order of the ids. -/
def earlier (prior d : MonitorAlert) : Bool :=
  prior.occurredAt < d.occurredAt ||
    prior.occurredAt == d.occurredAt && collate prior.id d.id

def sameRecipient (prior d : MonitorAlert) : Bool :=
  prior.monitor == d.monitor && prior.channel == d.channel

def isDue (table : Deliveries) (at' : Instant) (d : DeliveryRow) : Bool :=
  d.isOpen && d.nextAttemptAt ≤ at' && d.claimedAt.all (· ≤ at' - deliveryLease) &&
    !table.any (fun prior ↦
      sameRecipient prior.alert d.alert && prior.isOpen && earlier collate prior.alert d.alert)

/-- `ORDER BY d.next_attempt_at, d.occurred_at, d.id`. -/
def attemptsFirst (a b : DeliveryRow) : Bool :=
  a.nextAttemptAt < b.nextAttemptAt ||
    a.nextAttemptAt == b.nextAttemptAt && !earlier collate b.alert a.alert

/-- The rows a claim takes, the rows that other statements hold locked skipped. -/
def due (limit : ℕ) (at' : Instant) (locked : List JsString) (table : Deliveries) : List JsString :=
  (((table.filter (fun d ↦ isDue collate table at' d && d.id ∉ locked)).mergeSort
    (attemptsFirst collate)).take limit).map DeliveryRow.id

def DeliveryRow.claim (at' : Instant) (row : DeliveryRow) : DeliveryRow :=
  { row with claimedAt := some at', attempts := row.attempts + 1 }

def DeliveryRow.delivery (at' : Instant) (row : DeliveryRow) : MonitorDelivery :=
  ⟨row.alert, row.attempts + 1, at'⟩

def claimDeliveries (limit : ℕ) (at' : Instant) (locked : List JsString) (table : Deliveries) :
    Deliveries × List MonitorDelivery :=
  let ids := due collate limit at' locked table
  (table.map (fun row ↦ if row.id ∈ ids then row.claim at' else row),
    (table.filter (fun row ↦ row.id ∈ ids)).map (DeliveryRow.delivery at'))

end

/-- The guard of `completeDelivery` and `failDelivery`. -/
def MonitorDelivery.holds (delivery : MonitorDelivery) (row : DeliveryRow) : Bool :=
  row.id == delivery.alert.id && row.claimedAt == some delivery.claimedAt && row.isOpen

def DeliveryRow.complete (at' : Instant) (row : DeliveryRow) : DeliveryRow :=
  { row with deliveredAt := some at', lastError := none, claimedAt := none }

def completeDelivery (delivery : MonitorDelivery) (at' : Instant) (table : Deliveries) :
    Deliveries :=
  table.map (fun row ↦ if delivery.holds row then row.complete at' else row)

def backoffMs (attempts : ℕ) : Duration := min 3600000 (30000 * 2 ^ min (attempts - 1) 7)

def DeliveryRow.fail (error : JsString) (next : Instant) (row : DeliveryRow) : DeliveryRow :=
  { row with lastError := some (error.take 2000), claimedAt := none, nextAttemptAt := next }

def failDelivery (delivery : MonitorDelivery) (error : JsString) (at' : Instant)
    (table : Deliveries) : Deliveries :=
  table.map (fun row ↦
    if delivery.holds row then row.fail error (at' + backoffMs delivery.attempts) else row)

section

variable {collate : JsString → JsString → Bool} {table : Deliveries}

theorem isDue_mono {s t : Instant} (h : s ≤ t) {d : DeliveryRow}
    (hd : isDue collate table s d = true) : isDue collate table t d = true := by
  simp only [isDue, Bool.and_eq_true, decide_eq_true_eq, Option.all_eq_true] at hd ⊢
  refine ⟨⟨⟨hd.1.1.1, hd.1.1.2.trans h⟩, fun claimed hc ↦ ?_⟩, hd.2⟩
  have := hd.1.2 claimed hc
  simp only [Instant, Duration] at *
  omega

/-- A claim that comes back empty has left nothing that was due. -/
theorem not_due_of_nothing_claimed {at' : Instant}
    (h : (claimDeliveries collate 1 at' [] table).2 = []) :
    ∀ row ∈ table, isDue collate table at' row = false := by
  intro row hrow
  by_contra hd
  rw [Bool.not_eq_false] at hd
  rw [claimDeliveries, List.map_eq_nil_iff, List.filter_eq_nil_iff] at h
  have hmem : row ∈ (table.filter (fun d ↦ isDue collate table at' d && d.id ∉ [])).mergeSort
      (attemptsFirst collate) := List.mem_mergeSort.2 (List.mem_filter.2 ⟨hrow, by simp [hd]⟩)
  obtain ⟨first, rest, hs⟩ := List.exists_cons_of_ne_nil (List.ne_nil_of_mem hmem)
  have hfirst : first ∈ table := by
    have hin := List.mem_mergeSort.1 (hs ▸ List.mem_cons_self : first ∈ _)
    exact (List.mem_filter.1 hin).1
  refine h first hfirst (decide_eq_true ?_)
  rw [due, hs]
  exact List.mem_singleton_self _

end

theorem backoffMs_pos (attempts : ℕ) : 0 < backoffMs attempts :=
  lt_min (by decide) (by positivity)

end Counted.Dashboarding
