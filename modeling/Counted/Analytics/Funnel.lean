import Counted.Analytics.Answerability
import Counted.Analytics.Window

namespace Counted.Analytics

/-- The ways a question can be malformed. -/
inductive AnalysisDefect
  | invalidGrouping (detail : JsString)
  | emptyEventName
  | emptyPropertyKey
  | emptyMeasureName
  | emptyPredicateGroup (op : GroupOp)
  | emptyValueList (op : MemberOp)
  | limitOutOfRange (limit : JsNumber) (max : ℕ)
  | nonPositiveWindow (amount : JsNumber)
  | invertedWindow
  | tooFewSteps (count min : ℕ)
  | tooManySteps (count max : ℕ)
  | stepWithoutEvents (index : ℕ)
  | nonPositiveConversionWindow
  deriving DecidableEq

def describeDefect : AnalysisDefect → JsString
  | .invalidGrouping detail => detail
  | .emptyEventName => js "an event name is blank"
  | .emptyPropertyKey => js "a property name is blank"
  | .emptyMeasureName => js "the measure to sum is unnamed"
  | .emptyPredicateGroup op => js "an " ++ quoted op.name ++ js " has no operands"
  | .emptyValueList op => js "an " ++ quoted op.name ++ js " has no values"
  | .limitOutOfRange limit max =>
    js "limit " ++ limit.toJs ++ js " is outside 1.." ++ natText max
  | .nonPositiveWindow amount => js "a window of " ++ amount.toJs ++ js " covers no time"
  | .invertedWindow => js "the window ends before it starts"
  | .tooFewSteps count min =>
    js "a funnel needs at least " ++ natText min ++ js " steps, this one has " ++ natText count
  | .tooManySteps count max =>
    js "a funnel takes at most " ++ natText max ++ js " steps, this one has " ++ natText count
  | .stepWithoutEvents index => js "step " ++ natText (index + 1) ++ js " names no events"
  | .nonPositiveConversionWindow =>
    js "the conversion window gives nobody any time to convert"

def describeDefects (defects : List AnalysisDefect) : JsString :=
  JsString.join (js "; ") (defects.map describeDefect)

/-- `condition` is what the source calls `where`. -/
structure FunnelStep where
  label : Option JsString
  events : List JsString
  condition : Option Predicate

def FunnelStep.shownAs (s : FunnelStep) (index : ℕ) : JsString :=
  s.label.getD (if s.events = [] then js "Step " ++ natText (index + 1)
    else JsString.join (js " or ") s.events)

structure Funnel where
  steps : List FunnelStep
  window : Window
  conversionWindow : ConversionWindow
  basis : CountingBasis

def minFunnelSteps : ℕ := 2

def maxFunnelSteps : ℕ := 10

/-- The engine's builder takes a triple. -/
def engineFunnelSteps : ℕ := 3

structure FunnelStepResult where
  label : JsString
  reached : JsNumber
  rate : JsNumber
  cumulativeRate : JsNumber
  droppedOff : JsNumber
  deriving DecidableEq

structure FunnelResult where
  steps : List FunnelStepResult
  overallRate : JsNumber
  deriving DecidableEq

inductive FunnelSummaryError
  | countMismatch (detail : JsString)
  | nonMonotonicCounts (detail : JsString)

def FunnelSummaryError.detail : FunnelSummaryError → JsString
  | .countMismatch detail | .nonMonotonicCounts detail => detail

def blank (s : JsString) : Bool := s.trim = []

namespace Funnel

def toKey (f : Funnel) : JsString :=
  JsString.join (js ";")
    [js "steps:" ++ JsString.join (js ">") (f.steps.map (fun s ↦
        JsString.join (js "+") (JsString.sort s.events) ++
          (s.condition.map (fun p ↦ js "@" ++ p.toKey)).getD [])),
      f.conversionWindow.toKey, js "basis:" ++ f.basis.text]

def defects (f : Funnel) : List AnalysisDefect :=
  (if f.steps.length < minFunnelSteps then
    [.tooFewSteps f.steps.length minFunnelSteps] else []) ++
  (if maxFunnelSteps < f.steps.length then
    [.tooManySteps f.steps.length maxFunnelSteps] else []) ++
  f.steps.zipIdx.flatMap (fun s ↦
    (if s.1.events = [] then [.stepWithoutEvents s.2] else []) ++
      (if s.1.events.any blank then [.emptyEventName] else [])) ++
  (if f.conversionWindow.isPositive then [] else [.nonPositiveConversionWindow])

/-- Exactly three steps, each of one bare event name. -/
def answerability (f : Funnel) : Answerability :=
  let blockers : List Blocker :=
    (if f.steps.length ≠ engineFunnelSteps then
      [.stepCountUnsupported f.steps.length engineFunnelSteps] else []) ++
    f.steps.zipIdx.flatMap (fun s ↦
      (if s.1.condition.isSome then [.stepPredicateUnsupported s.2] else []) ++
        (if 1 < s.1.events.length then [.multiEventStepUnsupported s.2] else []))
  if blockers ≠ [] then .unanswerable blockers else .indexed ⟨none, []⟩ 1

variable (ar : Arithmetic)

/-- A denominator of zero gives zero. -/
def percent (part whole : JsNumber) : JsNumber :=
  if whole = (0 : ℤ) then (0 : ℤ) else ar.mul (ar.div part whole) (100 : ℤ)

/-- `Math.max(0, n)`. -/
def atLeastZero (n : JsNumber) : JsNumber :=
  if n = .nan then .nan else if JsNumber.lt (0 : ℤ) n then n else (0 : ℤ)

def firstRise : ℕ → List JsNumber → Option FunnelSummaryError
  | i, prev :: here :: counts =>
    if prev.lt here then
      some (.nonMonotonicCounts (js "step " ++ natText i ++ js " (" ++ here.toJs ++
        js ") exceeds step " ++ natText (i - 1) ++ js " (" ++ prev.toJs ++ js ")"))
    else firstRise (i + 1) (here :: counts)
  | _, _ => none

/-- Turns counts per step into rates. They must not rise. -/
def summarize (f : Funnel) (counts : List JsNumber) : Except FunnelSummaryError FunnelResult :=
  if counts.length ≠ f.steps.length then
    .error (.countMismatch (natText counts.length ++ js " counts for " ++
      natText f.steps.length ++ js " steps"))
  else match firstRise 1 counts with
    | some e => .error e
    | none =>
      let first := counts.headD (0 : ℤ)
      .ok {
        steps := (counts.zip f.steps).zipIdx.map (fun c ↦
          let prev := if c.2 = 0 then c.1.1 else counts.getD (c.2 - 1) (0 : ℤ)
          { label := c.1.2.shownAs c.2
            reached := c.1.1
            rate := if c.2 = 0 then (100 : ℤ) else percent ar c.1.1 prev
            cumulativeRate := percent ar c.1.1 first
            droppedOff := if c.2 = 0 then (0 : ℤ) else atLeastZero (ar.sub prev c.1.1) })
        overallRate := percent ar (counts.getLastD (0 : ℤ)) first }

end Funnel

end Counted.Analytics
