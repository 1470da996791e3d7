import Counted.Foundations.Intervals
import Counted.Kernel.Calendar
import Counted.Ingestion.Batch

namespace Counted.Analytics

open Foundations Calendar

inductive Step | hour | day | week | month
  deriving DecidableEq

def Step.text : Step → JsString
  | .hour => js "hour"
  | .day => js "day"
  | .week => js "week"
  | .month => js "month"

structure Bounds where
  fromMs : Instant
  toMs : Instant

def hourMs : Duration := 3600000

/-- Milliseconds per step, for the three steps that have a fixed length. -/
def stepMillis : Step → Option Duration
  | .hour => some hourMs
  | .day => some dayMs
  | .week => some (7 * dayMs)
  | .month => none

/-- Floors an instant onto the step's calendar boundary. Weeks are Monday-based: on a Sunday,
`getUTCDay` being 0, it walks back six days. -/
def alignFloor (at' : Instant) (step : Step) : Instant :=
  let day := at' / dayMs
  match step with
  | .hour => at' / hourMs * hourMs
  | .day => day * dayMs
  | .week => (day - ((day + 4) % 7 + 6) % 7) * dayMs
  | .month => monthStart (yearFromDay day) (monthFromDay day) * dayMs

/-- The next grid position. A month later is the same day and time of the next month. -/
def advance (start : Instant) (step : Step) : Instant :=
  match stepMillis step with
  | some fixed => start + fixed
  | none =>
    let day := start / dayMs
    let y := yearFromDay day
    let m := monthFromDay day
    (monthStart y (m + 1) + (day - monthStart y m)) * dayMs + start % dayMs

/-- A ceiling on how many buckets one answer may contain. -/
def maxBuckets : ℕ := 20000

def gridLoop (stop : Instant) (step : Step) : ℕ → Instant → List Instant
  | 0, _ => []
  | n + 1, cursor =>
    if cursor < stop then
      cursor :: (if advance cursor step ≤ cursor then []
        else gridLoop stop step n (advance cursor step))
    else []

/-- Every bucket start in order, and one more than the ceiling when there are too many. -/
def gridStarts (bounds : Bounds) (step : Step) : List Instant :=
  gridLoop bounds.toMs step (maxBuckets + 1) (alignFloor bounds.fromMs step)

def ceilDiv (a b : ℤ) : ℤ := -(-a / b)

/-- The stride that puts the whole window into a single bin, with the origin of that bin. -/
def wholeWindowStride (bounds : Bounds) (step : Step) : Option (Instant × Duration) :=
  let origin := alignFloor bounds.fromMs step
  let span := bounds.toMs - origin
  if span ≤ 0 then none
  else if step ≠ .hour then some (origin, ceilDiv span dayMs * dayMs)
  else
    let hours := max 1 (ceilDiv span hourMs)
    -- one more hour keeps litics off the daily grid when the window does not start on it
    let stride := if origin % dayMs ≠ 0 ∧ hours % 24 = 0 then hours + 1 else hours
    some (origin, stride * hourMs)

/-- A calendar month, its data cut off at the window's end. -/
structure MonthSpan where
  start : Instant
  toMs : Instant
  days : ℤ

/-- `Math.round`. -/
def round (a b : ℤ) : ℤ := (2 * a + b) / (2 * b)

def monthSpans (bounds : Bounds) : List MonthSpan :=
  (gridStarts bounds .month).map (fun start ↦
    let next := advance start .month
    { start, toMs := min next bounds.toMs, days := round (next - start) dayMs })

structure Bucket where
  start : Instant
  value : ℕ
  deriving DecidableEq

/-- Folds rows onto the grid, those that land on one position summed. -/
def densify (starts : List Instant) (step : Step) (rows : List Bucket) : List Bucket :=
  starts.map (fun start ↦
    ⟨start, ((rows.filter (fun row ↦ alignFloor row.start step = start)).map (·.value)).sum⟩)

/-- The months of all years in one row. -/
def monthEdge (i : ℤ) : ℤ := monthStart (i / 12) (i % 12).toNat

theorem monthEdge_eq (y : ℤ) {m : ℕ} (hm : m < 12) : monthEdge (12 * y + m) = monthStart y m := by
  have hy : (12 * y + m) / 12 = y := by omega
  have hi : ((12 * y + m) % 12).toNat = m := by omega
  rw [monthEdge, hy, hi]

theorem monthEdge_succ (y : ℤ) {m : ℕ} (hm : m < 12) :
    monthEdge (12 * y + m + 1) = monthStart y (m + 1) := by
  rcases Nat.lt_or_ge (m + 1) 12 with h | h
  · have := monthEdge_eq y h
    rwa [Nat.cast_add, Nat.cast_one, ← add_assoc] at this
  · obtain rfl : m = 11 := by omega
    have := monthEdge_eq (y + 1) (m := 0) (by norm_num)
    rw [monthStart_zero] at this
    rw [monthStart_twelve, ← this]
    congr 1
    push_cast
    ring

theorem monthEdge_strictMono : StrictMono monthEdge := by
  refine strictMono_int_of_lt_succ (fun i ↦ ?_)
  obtain ⟨y, m, hm, rfl⟩ : ∃ (y : ℤ) (m : ℕ), m < 12 ∧ i = 12 * y + m :=
    ⟨i / 12, (i % 12).toNat, by omega, by omega⟩
  rw [monthEdge_eq y hm, monthEdge_succ y hm]
  exact monthStart_lt y hm

def monthGrid : Grid where
  edge i := monthEdge i * dayMs
  index t := 12 * yearFromDay (t / dayMs) + monthFromDay (t / dayMs)
  edge_index_le t := by
    obtain ⟨hm, hlo, -⟩ := monthFromDay_spec (t / dayMs)
    rw [monthEdge_eq _ hm]
    simp only [dayMs] at *
    omega
  lt_edge_succ t := by
    obtain ⟨hm, -, hhi⟩ := monthFromDay_spec (t / dayMs)
    rw [monthEdge_succ _ hm]
    simp only [dayMs] at *
    omega
  strictMono i j h := by
    have := monthEdge_strictMono h
    simp only [dayMs]
    omega

/-- The calendar of a step. The Monday after the epoch is its fifth day. -/
def Step.grid : Step → Grid
  | .hour => .uniform hourMs (by decide) 0
  | .day => .uniform dayMs (by decide) 0
  | .week => .uniform (7 * dayMs) (by decide) (4 * dayMs)
  | .month => monthGrid

theorem alignFloor_eq (t : ℤ) (step : Step) : alignFloor t step = step.grid.floor t := by
  cases step with
  | hour =>
    change t / 3600000 * 3600000 = (0 + 3600000 * ((t - 0) / 3600000) : ℤ)
    omega
  | day =>
    change t / 86400000 * 86400000 = (0 + 86400000 * ((t - 0) / 86400000) : ℤ)
    omega
  | week =>
    change (t / 86400000 - ((t / 86400000 + 4) % 7 + 6) % 7) * 86400000 =
      (4 * 86400000 + 7 * 86400000 * ((t - 4 * 86400000) / (7 * 86400000)) : ℤ)
    omega
  | month =>
    obtain ⟨hm, -, -⟩ := monthFromDay_spec (t / dayMs)
    simp only [alignFloor, Step.grid, Grid.floor, monthGrid, monthEdge_eq _ hm]

theorem advance_edge (i : ℤ) (step : Step) :
    advance (step.grid.edge i) step = step.grid.edge (i + 1) := by
  cases step with
  | hour =>
    simp only [advance, stepMillis, Step.grid, Grid.uniform]
    ring
  | day =>
    simp only [advance, stepMillis, Step.grid, Grid.uniform]
    ring
  | week =>
    simp only [advance, stepMillis, Step.grid, Grid.uniform]
    ring
  | month =>
    have hd : monthGrid.edge i / dayMs = monthEdge i := by
      simp only [monthGrid, dayMs]
      omega
    have hi := monthGrid.index_edge i
    obtain ⟨hm, -, -⟩ := monthFromDay_spec (monthEdge i)
    simp only [monthGrid] at hi hd
    rw [hd] at hi
    have he := monthEdge_succ (yearFromDay (monthEdge i)) hm
    have he' := monthEdge_eq (yearFromDay (monthEdge i)) hm
    rw [hi] at he he'
    simp only [advance, stepMillis, Step.grid, monthGrid, hd, ← he, ← he']
    rw [sub_self, add_zero, Int.mul_emod_left, add_zero]

theorem gridLoop_eq (stop : Instant) (step : Step) (n : ℕ) (i : ℤ) :
    gridLoop stop step n (step.grid.edge i) =
      (List.range (min n (step.grid.index (stop - 1) + 1 - i).toNat)).map
        (fun k : ℕ ↦ step.grid.edge (i + k)) := by
  induction n generalizing i with
  | zero => simp [gridLoop]
  | succ n ih =>
    have hstop : step.grid.edge i < stop ↔ i ≤ step.grid.index (stop - 1) := by
      rw [← Grid.edge_le_iff]
      omega
    have hadv : ¬ step.grid.edge (i + 1) ≤ step.grid.edge i :=
      not_le.2 (step.grid.strictMono (by omega))
    rw [gridLoop, advance_edge, if_neg hadv, ih]
    split_ifs with h
    · rw [hstop] at h
      have hk : min (n + 1) (step.grid.index (stop - 1) + 1 - i).toNat =
          min n (step.grid.index (stop - 1) + 1 - (i + 1)).toNat + 1 := by omega
      rw [hk, List.range_succ_eq_map, List.map_cons, List.map_map]
      simp only [Nat.cast_zero, add_zero, List.cons.injEq, true_and]
      refine List.map_congr_left (fun k _ ↦ ?_)
      simp only [Function.comp_apply, Nat.cast_succ]
      congr 1
      ring
    · rw [hstop] at h
      have hk : min (n + 1) (step.grid.index (stop - 1) + 1 - i).toNat = 0 := by omega
      rw [hk]
      rfl

theorem gridStarts_eq {bounds : Bounds} {step : Step}
    (h : (gridStarts bounds step).length ≤ maxBuckets) :
    gridStarts bounds step = step.grid.starts bounds.fromMs bounds.toMs := by
  have hg := gridLoop_eq bounds.toMs step (maxBuckets + 1) (step.grid.index bounds.fromMs)
  rw [gridStarts, alignFloor_eq, Grid.floor, hg, List.length_map, List.length_range] at h
  rw [gridStarts, alignFloor_eq, Grid.floor, hg, Grid.starts, min_eq_right (by omega)]

example : gridStarts ⟨1709210096789, 1714521600000⟩ .month =
    [1706745600000, 1709251200000, 1711929600000] := by decide

end Counted.Analytics
