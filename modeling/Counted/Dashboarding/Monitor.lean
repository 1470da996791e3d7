import Counted.Kernel.Json
import Counted.Ingestion.Batch

namespace Counted.Dashboarding

open Ingestion

inductive Comparison | above | below
  deriving DecidableEq

/-- What counts as bad, as a number. -/
structure Threshold where
  comparison : Comparison
  value : JsNumber
  deriving DecidableEq

/-- Strict on both sides. -/
def Threshold.isBreached (t : Threshold) (observed : JsNumber) : Bool :=
  match t.comparison with
  | .above => t.value.lt observed
  | .below => observed.lt t.value

inductive Channel
  | email (address : JsString)
  | webhook (url : JsString)
  deriving DecidableEq

inductive MonitorState | ok | breaching
  deriving DecidableEq

abbrev MonitorId := JsString

/-- A standing threshold over an analysis. -/
structure Monitor (A : Type) where
  id : MonitorId
  workspace : JsString
  project : ProjectId
  name : JsString
  analysis : A
  threshold : Threshold
  cooldown : Duration
  channels : List Channel
  enabled : Bool
  state : MonitorState
  lastNotifiedAt : Option Instant
  lastValue : Option JsNumber
  lastAttemptAt : Option Instant
  lastMeasuredAt : Option Instant
  evaluationError : Option JsString
  evaluationClaim : Option Instant

inductive SilentReason | disabled | withinThreshold | coolingDown
  deriving DecidableEq

inductive MonitorDecision
  | fire (observed : JsNumber) (threshold : Threshold) (entering : Bool)
  | recover (observed : JsNumber)
  | silent (reason : SilentReason) (observed : JsNumber)
  deriving DecidableEq

inductive MonitorEvent
  | created (monitor : MonitorId) (workspace : JsString) (project : ProjectId) (name : JsString)
      (at' : Instant)
  | renamed (monitor : MonitorId) (name : JsString) (at' : Instant)
  | retargeted (monitor : MonitorId) (at' : Instant)
  | reconfigured (monitor : MonitorId) (at' : Instant)
  | enabled (monitor : MonitorId) (at' : Instant)
  | disabled (monitor : MonitorId) (at' : Instant)
  | fired (monitor : MonitorId) (project : ProjectId) (observed : JsNumber) (threshold : Threshold)
      (entering : Bool) (at' : Instant)
  | recovered (monitor : MonitorId) (project : ProjectId) (observed : JsNumber) (at' : Instant)
  deriving DecidableEq

inductive MonitorError
  | nameRequired
  | nameUnchanged
  | noSuchMonitor (monitor : MonitorId)
  | negativeCooldown
  | analysisMustBeScalar
  | invalidAnalysis (detail : JsString)
  | alreadyEnabled
  | alreadyDisabled
  deriving DecidableEq

structure MonitorSettings where
  cooldown : Option Duration
  channels : Option (List Channel)

/-- `DEFAULT_COOLDOWN`: an hour. -/
def defaultCooldown : Duration := 3600000

variable {A : Type}

structure MonitorApplied (A : Type) where
  monitor : Monitor A
  events : List MonitorEvent

abbrev MonitorResult (A : Type) := Except MonitorError (MonitorApplied A)

namespace Monitor

def create (id : MonitorId) (workspace : JsString) (project : ProjectId) (name : JsString)
    (analysis : A) (threshold : Threshold) (at' : Instant) (settings : MonitorSettings) :
    MonitorResult A :=
  let trimmed := name.trim
  let cooldown := settings.cooldown.getD defaultCooldown
  if trimmed = [] then .error .nameRequired
  else if cooldown < 0 then .error .negativeCooldown
  else .ok {
    monitor := {
      id, workspace, project, name := trimmed, analysis, threshold, cooldown
      channels := settings.channels.getD []
      enabled := true, state := .ok
      lastNotifiedAt := none, lastValue := none, lastAttemptAt := none, lastMeasuredAt := none
      evaluationError := none, evaluationClaim := none }
    events := [.created id workspace project trimmed at'] }

variable (m : Monitor A)

/-- An attempt that measured nothing is no observation. -/
def measurementUnavailable (detail : JsString) (at' : Instant) : Monitor A :=
  { m with lastAttemptAt := some at', evaluationError := some detail }

/-- Whether the monitor stays quiet in a breach it has announced. -/
def coolingDown (now : Instant) : Bool :=
  m.lastNotifiedAt.any (fun since ↦ now - since < m.cooldown)

/-- What an observation means. It fires when it enters breach, and again once the cooldown has
elapsed. -/
def decide (observed : JsNumber) (now : Instant) : MonitorDecision :=
  if !m.enabled then .silent .disabled observed
  else if !m.threshold.isBreached observed then
    if m.state = .breaching then .recover observed else .silent .withinThreshold observed
  else if m.state = .ok then .fire observed m.threshold true
  else if m.coolingDown now then .silent .coolingDown observed
  else .fire observed m.threshold false

def measured (observed : JsNumber) (now : Instant) : Monitor A :=
  { m with
    lastAttemptAt := some now, lastMeasuredAt := some now, evaluationError := none
    lastValue := some observed }

/-- Records the outcome of a decision. -/
def apply (now : Instant) : MonitorDecision → MonitorApplied A
  | .fire observed _ entering =>
    ⟨{ m.measured observed now with state := .breaching, lastNotifiedAt := some now },
      [.fired m.id m.project observed m.threshold entering now]⟩
  | .recover observed =>
    ⟨{ m.measured observed now with state := .ok }, [.recovered m.id m.project observed now]⟩
  | .silent _ observed => ⟨m.measured observed now, []⟩

def rename (name : JsString) (at' : Instant) : MonitorResult A :=
  let trimmed := name.trim
  if trimmed = [] then .error .nameRequired
  else if trimmed = m.name then .error .nameUnchanged
  else .ok ⟨{ m with name := trimmed }, [.renamed m.id trimmed at']⟩

/-- Changes what is measured, or what counts as bad. The recorded state described a different
question. -/
def retarget (analysis : A) (threshold : Threshold) (at' : Instant) : MonitorResult A :=
  .ok ⟨{ m with
    analysis, threshold, state := .ok
    lastNotifiedAt := none, lastValue := none, lastAttemptAt := none, lastMeasuredAt := none
    evaluationError := none }, [.retargeted m.id at']⟩

/-- Changes how it is announced. Breach state survives. -/
def reconfigure (settings : MonitorSettings) (at' : Instant) : MonitorResult A :=
  let cooldown := settings.cooldown.getD m.cooldown
  if cooldown < 0 then .error .negativeCooldown
  else .ok ⟨{ m with cooldown, channels := settings.channels.getD m.channels },
    [.reconfigured m.id at']⟩

def enable (at' : Instant) : MonitorResult A :=
  if m.enabled then .error .alreadyEnabled
  else .ok ⟨{ m with
    enabled := true, lastNotifiedAt := none, lastValue := none, lastAttemptAt := none
    lastMeasuredAt := none, evaluationError := none }, [.enabled m.id at']⟩

/-- Disabling also clears breach state. -/
def disable (at' : Instant) : MonitorResult A :=
  if !m.enabled then .error .alreadyDisabled
  else .ok ⟨{ m with enabled := false, state := .ok }, [.disabled m.id at']⟩

/-- `decide`, then `apply`. -/
def evaluate (observed : JsNumber) (now : Instant) : MonitorApplied A :=
  m.apply now (m.decide observed now)

end Monitor

end Counted.Dashboarding
