import Counted.Analytics.Bucketing
import Counted.Analytics.Measure

namespace Counted.Analytics

open Calendar

abbrev Grain := Step

abbrev RelativeUnit := Step

/-- An instant is any number: nothing checks that it is whole, or that it is one at all. -/
inductive Window
  | relative (amount : JsNumber) (unit : RelativeUnit)
  | absolute (fromMs toMs : JsNumber)
  deriving DecidableEq

structure TimeBounds where
  fromMs : JsNumber
  toMs : JsNumber
  deriving DecidableEq

/-- `MAX_WINDOW`: two years. -/
def maxWindow : Duration := 730 * dayMs

/-- `String` of what `typeof` says is a number, and the unit behind it. -/
def Window.toKey : Window → JsString
  | .relative amount unit => js "rel:" ++ amount.toJs ++ unit.text
  | .absolute fromMs toMs => js "abs:" ++ fromMs.toJs ++ js "-" ++ toMs.toJs

section

variable (ar : Arithmetic)

/-- The largest span a window can cover, without a clock. A month is at most 31 days. -/
def Window.maximumSpan : Window → JsNumber
  | .absolute fromMs toMs => ar.sub toMs fromMs
  | .relative amount .hour => ar.mul amount hourMs
  | .relative amount .day => ar.mul amount dayMs
  | .relative amount .week => ar.mul (ar.mul amount (7 : ℤ)) dayMs
  | .relative amount .month => ar.mul amount (31 * dayMs : ℤ)

/-- A grain that gives a readable number of buckets. -/
def Window.defaultGrain : Window → Grain
  | .relative _ .hour => .hour
  | .relative amount .day =>
    if amount.le (2 : ℤ) then .hour else if amount.le (60 : ℤ) then .day else .week
  | .relative amount .week => if amount.le (12 : ℤ) then .day else .week
  | .relative amount .month => if amount.le (3 : ℤ) then .day else .month
  | .absolute fromMs toMs =>
    let span := ar.sub toMs fromMs
    if span.le (2 * dayMs : ℤ) then .hour
    else if span.le (60 * dayMs : ℤ) then .day
    else if span.le (365 * dayMs : ℤ) then .week
    else .month

/-- `ToIntegerOrInfinity` of a finite number. -/
def truncate (d : Decimal) : ℤ :=
  if 0 ≤ d.exp then d.mant * 10 ^ d.exp.toNat else d.mant.tdiv (10 ^ (-d.exp).toNat)

def toInteger : JsNumber → Option ℤ
  | .finite d => some (truncate d)
  | _ => none

/-- The time value of a date, none for `Invalid Date`. -/
def clip (t : ℤ) : Option ℤ := if |t| ≤ maxTime then some t else none

/-- `Date.UTC` reads the years 0 to 99 as those of the twentieth century. -/
def daysInMonth (year : ℤ) (month : ℕ) : ℤ :=
  let y := if 0 ≤ year ∧ year ≤ 99 then 1900 + year else year
  monthStart y (month + 1) - monthStart y month

/-- Goes back whole calendar months, to the end of a month that is too short. -/
def minusMonths (t : ℤ) (amount : JsNumber) : Option ℤ :=
  let day := t / dayMs
  let year := yearFromDay day
  let month := monthFromDay day
  let first := monthStart year month
  do
    let _ ← clip (first * dayMs + t % dayMs)
    let months ← toInteger (ar.sub ((month : ℤ) : JsNumber) amount)
    let year' := year + months / 12
    let month' := (months % 12).toNat
    let start ← clip (monthStart year' month' * dayMs + t % dayMs)
    clip (start + (min (day - first + 1) (daysInMonth year' month') - 1) * dayMs)

/-- The start of a relative window that ends at `t`. -/
def unitsBack (t : ℤ) (amount : JsNumber) : RelativeUnit → Option ℤ
  | .hour => do
    let hours ← toInteger (ar.sub (t % dayMs / hourMs : ℤ) amount)
    clip (t / dayMs * dayMs + hours * hourMs + t % hourMs)
  | .day => daysBack amount
  | .week => daysBack (ar.mul amount (7 : ℤ))
  | .month => minusMonths ar t amount
where
  daysBack (amount : JsNumber) : Option ℤ := do
    let day := t / dayMs
    let first := monthStart (yearFromDay day) (monthFromDay day)
    let date ← toInteger (ar.sub (day - first + 1 : ℤ) amount)
    clip ((first + date - 1) * dayMs + t % dayMs)

/-- Resolves a window against the caller's `now`. A date that is none has the time `NaN`. -/
def resolveWindow (w : Window) (now : Instant) : TimeBounds :=
  match w with
  | .absolute fromMs toMs => ⟨fromMs, toMs⟩
  | .relative amount unit =>
    ⟨match (clip now).bind (fun t ↦ unitsBack ar t amount unit) with
      | some t => (t : JsNumber)
      | none => .nan, (now : JsNumber)⟩

end

/-- How long a funnel gives someone to get from the first step to the last. -/
structure ConversionWindow where
  within : JsNumber
  deriving DecidableEq

namespace ConversionWindow

def isPositive (c : ConversionWindow) : Bool := JsNumber.lt (0 : ℤ) c.within

def toKey (c : ConversionWindow) : JsString := js "cw:" ++ c.within.toJs

end ConversionWindow

end Counted.Analytics
