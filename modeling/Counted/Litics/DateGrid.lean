import Counted.Foundations.Decoding
import Counted.Litics.Plan
import Counted.Litics.Windows

namespace Counted.Litics.DateGrid

open Analytics Calendar Foundations

/-- `alignFloor` on a `Date`, none being `Invalid Date`. Every setter leaves one beyond the range. -/
def alignFloor (at' : Instant) (step : Step) : Option Instant := do
  let d ← clip at'
  match step with
  | .hour => clip (d / hourMs * hourMs)
  | .day => clip (d / dayMs * dayMs)
  | .week => do
    let midnight ← clip (d / dayMs * dayMs)
    let back := ((midnight / dayMs + 4) % 7 + 6) % 7
    clip (midnight - back * dayMs)
  | .month => do
    let midnight ← clip (d / dayMs * dayMs)
    let day := midnight / dayMs
    clip (monthStart (yearFromDay day) (monthFromDay day) * dayMs)

/-- A fixed step is added to the number, past the range of `Date` too. -/
def advance (start : Instant) (step : Step) : Option Instant :=
  match stepMillis step with
  | some fixed => some (start + fixed)
  | none => do
    let d ← clip start
    clip (Analytics.advance d step)

/-- Neither `NaN < end` nor `NaN <= cursor` holds. -/
def gridLoop (stop : Instant) (step : Step) : ℕ → Option Instant → List Instant
  | 0, _ | _ + 1, none => []
  | n + 1, some cursor =>
    if cursor < stop then
      cursor :: (if (advance cursor step).any (· ≤ cursor) then []
        else gridLoop stop step n (advance cursor step))
    else []

def gridStarts (bounds : Bounds) (step : Step) : List Instant :=
  gridLoop bounds.toMs step (maxBuckets + 1) (alignFloor bounds.fromMs step)

/-- The days of a month that has no end are `NaN`. -/
structure MonthSpan where
  start : Instant
  toMs : Instant
  days : Option ℤ

def monthSpans (bounds : Bounds) : List MonthSpan :=
  (gridStarts bounds .month).map (fun start ↦
    let next := advance start .month
    { start
      toMs := (next.filter (· ≤ bounds.toMs)).getD bounds.toMs
      days := next.map (fun next ↦ round (next - start) dayMs) })

/-- The start of the bucket, and how far it reaches. -/
def Holds (step : Step) (start t : Instant) : Prop :=
  ∃ next, advance start step = some next ∧ start ≤ t ∧ t < next

/-- The grid of a window: what its buckets must be for each event to be in one of them. -/
structure Tiles (b : Bounds) (step : Step) : Prop where
  floors : ∀ t, b.fromMs ≤ t → t < b.toMs →
    ∃ s, alignFloor t step = some s ∧ s ≤ t ∧ alignFloor s step = some s
  monotone : ∀ t u s v, b.fromMs ≤ t → t ≤ u → u < b.toMs →
    alignFloor t step = some s → alignFloor u step = some v → s ≤ v
  advances : ∀ t s, b.fromMs ≤ t → t < b.toMs → alignFloor t step = some s →
    ∃ next, advance s step = some next ∧ s < next ∧
      (|next| ≤ maxTime → alignFloor next step = some next) ∧
      ∀ u, s ≤ u → u < next → |u| ≤ maxTime → alignFloor u step = some s
  starts : (gridStarts b step).length ≤ maxBuckets →
    (gridStarts b step).Pairwise (· < ·) ∧
      (gridStarts b step).head? = alignFloor b.fromMs step ∧
      (∀ i s t, (gridStarts b step)[i]? = some s → (gridStarts b step)[i + 1]? = some t →
        advance s step = some t) ∧
      ∀ t, b.fromMs ≤ t → t < b.toMs → ∃! s, s ∈ gridStarts b step ∧ Holds step s t
  months : step = .month → (gridStarts b step).length ≤ maxBuckets →
    (monthSpans b).map (·.start) = gridStarts b step ∧
      (∀ span ∈ monthSpans b, ∃ next days, advance span.start .month = some next ∧
        span.toMs = min next b.toMs ∧ span.days = some days ∧
        next - span.start = days * dayMs) ∧
      (∀ i s t, (monthSpans b)[i]? = some s → (monthSpans b)[i + 1]? = some t →
        s.toMs = t.start) ∧
      (monthSpans b).getLast?.map (·.toMs) = some b.toMs
  ends : (gridStarts b step).length ≤ maxBuckets + 1
  refuses : maxBuckets < (gridStarts b step).length → ∀ q now additive measure plan,
    dates q.bounds = b → q.step = step → planSeriesBase q now additive measure ≠ .ok plan

/-- Whether the first bucket starts within the range of `Date`, and the month after the last
one too. -/
def InRange (b : Bounds) (step : Step) : Prop :=
  -maxTime ≤ Analytics.alignFloor b.fromMs step ∧
    (step = .month →
      Analytics.advance (Analytics.alignFloor (b.toMs - 1) .month) .month ≤ maxTime)

theorem clip_eq {t : ℤ} (h : |t| ≤ maxTime) : clip t = some t := if_pos h

theorem clip_some {t s : ℤ} (h : clip t = some s) : |t| ≤ maxTime ∧ t = s := by
  rw [clip] at h
  split_ifs at h with ht
  exact ⟨ht, Option.some.inj h⟩

variable {b : Bounds} {step : Step} {t : ℤ}

theorem midnight_clip (ht : |t| ≤ maxTime) : clip (t / dayMs * dayMs) = some (t / dayMs * dayMs) := by
  apply clip_eq
  rw [abs_le] at *
  simp only [maxTime, dayMs] at *
  omega

theorem alignFloor_eq (ht : |t| ≤ maxTime) : alignFloor t step = clip (step.grid.floor t) := by
  have hday : t / dayMs * dayMs / dayMs = t / dayMs := Int.mul_ediv_cancel _ (by decide)
  rw [← Analytics.alignFloor_eq, alignFloor, clip_eq ht]
  cases step with
  | hour | day => rfl
  | week =>
    simp only [Option.bind_eq_bind, Option.bind_some, midnight_clip ht, Analytics.alignFloor, hday]
    congr 1
    ring
  | month =>
    simp only [Option.bind_eq_bind, Option.bind_some, midnight_clip ht, Analytics.alignFloor, hday]

theorem alignFloor_some (ht : |t| ≤ maxTime) (hlo : -maxTime ≤ step.grid.floor t) :
    alignFloor t step = some (step.grid.floor t) := by
  rw [alignFloor_eq ht]
  exact clip_eq (abs_le.2 ⟨hlo, (step.grid.floor_le t).trans (abs_le.1 ht).2⟩)

theorem advance_edge {i : ℤ} (hlo : |step.grid.edge i| ≤ maxTime) : advance (step.grid.edge i) step =
    if step = .month then clip (step.grid.edge (i + 1)) else some (step.grid.edge (i + 1)) := by
  have hnext := Analytics.advance_edge i step
  cases step with
  | month => rw [advance, if_pos rfl, stepMillis, clip_eq hlo, ← hnext]; rfl
  | hour | day | week => rw [if_neg (by decide), ← hnext]; rfl

theorem advance_some {i : ℤ} (hlo : |step.grid.edge i| ≤ maxTime)
    (hhi : step = .month → step.grid.edge (i + 1) ≤ maxTime) :
    advance (step.grid.edge i) step = some (step.grid.edge (i + 1)) := by
  have hlt := step.grid.strictMono (show i < i + 1 by omega)
  rw [advance_edge hlo]
  split_ifs with h
  · exact clip_eq (abs_le.2 ⟨(abs_le.1 hlo).1.trans hlt.le, hhi h⟩)
  · rfl

theorem gridLoop_length_le (stop : Instant) (n : ℕ) (cursor : Option Instant) :
    (gridLoop stop step n cursor).length ≤ n := by
  induction n generalizing cursor with
  | zero => simp [gridLoop]
  | succ n ih =>
    cases cursor with
    | none => simp [gridLoop]
    | some cursor =>
      rw [gridLoop]
      split_ifs
      · simp
      · rw [List.length_cons]
        exact Nat.succ_le_succ (ih _)
      · simp

theorem gridLoop_eq (hto : b.toMs ≤ maxTime) (n : ℕ) {i : ℤ} (hlo : -maxTime ≤ step.grid.edge i) :
    gridLoop b.toMs step n (some (step.grid.edge i)) =
      Analytics.gridLoop b.toMs step n (step.grid.edge i) := by
  induction n generalizing i with
  | zero => rfl
  | succ n ih =>
    have hlt := step.grid.strictMono (show i < i + 1 by omega)
    rw [gridLoop, Analytics.gridLoop, Analytics.advance_edge, if_neg (not_le.2 hlt)]
    by_cases hstop : step.grid.edge i < b.toMs
    · have hrange : |step.grid.edge i| ≤ maxTime := abs_le.2 ⟨hlo, hstop.le.trans hto⟩
      rw [if_pos hstop, if_pos hstop, advance_edge hrange]
      by_cases hnext : step.grid.edge (i + 1) ≤ maxTime
      · have hclip : clip (step.grid.edge (i + 1)) = some (step.grid.edge (i + 1)) :=
          clip_eq (abs_le.2 ⟨hlo.trans hlt.le, hnext⟩)
        rw [hclip, ite_self, ← ih (hlo.trans hlt.le), if_neg]
        simpa using hlt
      · -- the next start is past the window, so both stop here
        have hend : ¬ step.grid.edge (i + 1) < b.toMs := not_lt.2 (hto.trans (not_le.1 hnext).le)
        have hpast : Analytics.gridLoop b.toMs step n (step.grid.edge (i + 1)) = [] := by
          cases n with
          | zero => rfl
          | succ n => rw [Analytics.gridLoop, if_neg hend]
        have hpast' (o : Option Instant) (ho : o = none ∨ o = some (step.grid.edge (i + 1))) :
            gridLoop b.toMs step n o = [] := by
          cases n with
          | zero => rfl
          | succ n =>
            rcases ho with rfl | rfl
            · rfl
            · rw [gridLoop, if_neg hend]
        rw [hpast, hpast', ite_self]
        split_ifs
        · exact .inl (if_neg (fun h ↦ hnext (abs_le.1 h).2))
        · exact .inr rfl
    · rw [if_neg hstop, if_neg hstop]

section

variable (hfrom : |b.fromMs| ≤ maxTime) (hto : |b.toMs| ≤ maxTime)

include hfrom hto

theorem gridStarts_eq (hlo : -maxTime ≤ step.grid.floor b.fromMs) :
    gridStarts b step = Analytics.gridStarts b step := by
  rw [gridStarts, alignFloor_some hfrom hlo, Analytics.gridStarts, Analytics.alignFloor_eq]
  exact gridLoop_eq (abs_le.1 hto).2 _ hlo

theorem gridStarts_length_le :
    (gridStarts b step).length ≤ (Analytics.gridStarts b step).length := by
  by_cases hlo : -maxTime ≤ step.grid.floor b.fromMs
  · rw [gridStarts_eq hfrom hto hlo]
  · have hnone : alignFloor b.fromMs step = none := by
      rw [alignFloor_eq hfrom]
      exact if_neg (fun h ↦ hlo (abs_le.1 h).1)
    rw [gridStarts, hnone, gridLoop]
    exact Nat.zero_le _

/-- More buckets than the limit are refused and not cut off. -/
theorem planSeriesBase_refuses (hmany : maxBuckets < (gridStarts b step).length) (q : SeriesQuery)
    (now : Instant) (additive : Bool) (measure : Option JsString) (plan : SeriesPlan)
    (hb : dates q.bounds = b) (hs : q.step = step) :
    planSeriesBase q now additive measure ≠ .ok plan := by
  have hover := hmany.trans_le (gridStarts_length_le hfrom hto)
  intro h
  rw [planSeriesBase, hb, hs] at h
  obtain ⟨-, -, h⟩ := bind_ok h
  obtain ⟨-, -, h⟩ := bind_ok h
  obtain ⟨filters, -, h⟩ := bind_ok h
  rw [if_pos hover] at h
  cases h

end

theorem inRange_iff : InRange b step ↔ -maxTime ≤ step.grid.floor b.fromMs ∧
    (step = .month → step.grid.edge (step.grid.index (b.toMs - 1) + 1) ≤ maxTime) := by
  rw [InRange, Analytics.alignFloor_eq]
  refine and_congr_right' (forall_congr' ?_)
  rintro rfl
  rw [Analytics.alignFloor_eq, Grid.floor, Analytics.advance_edge]

/-- A bucket of the window starts at a date, and ends where the next one starts. -/
theorem bucket_dates (hto : |b.toMs| ≤ maxTime) (hin : InRange b step) {i : ℤ}
    (hi : step.grid.index b.fromMs ≤ i) (hlt : step.grid.edge i < b.toMs) :
    |step.grid.edge i| ≤ maxTime ∧
      advance (step.grid.edge i) step = some (step.grid.edge (i + 1)) := by
  obtain ⟨hlo, hhi⟩ := inRange_iff.1 hin
  have hge : step.grid.floor b.fromMs ≤ step.grid.edge i := step.grid.strictMono.monotone hi
  have hrange : |step.grid.edge i| ≤ maxTime :=
    abs_le.2 ⟨hlo.trans hge, hlt.le.trans (abs_le.1 hto).2⟩
  refine ⟨hrange, advance_some hrange (fun hm ↦ le_trans ?_ (hhi hm))⟩
  have hle : i ≤ step.grid.index (b.toMs - 1) := step.grid.edge_le_iff.1 (Int.le_sub_one_of_lt hlt)
  exact step.grid.strictMono.monotone (by omega)

section

variable (hfrom : |b.fromMs| ≤ maxTime) (hto : |b.toMs| ≤ maxTime) (hin : InRange b step)

include hfrom hto hin

theorem floor_dates (ht : b.fromMs ≤ t) (hlt : t < b.toMs) :
    |t| ≤ maxTime ∧ alignFloor t step = some (step.grid.floor t) := by
  obtain ⟨hlo, -⟩ := inRange_iff.1 hin
  have hrange : |t| ≤ maxTime :=
    abs_le.2 ⟨(abs_le.1 hfrom).1.trans ht, hlt.le.trans (abs_le.1 hto).2⟩
  have hmono := step.grid.strictMono.monotone (step.grid.index_mono ht)
  exact ⟨hrange, alignFloor_some hrange (hlo.trans hmono)⟩

theorem floors_laws (ht : b.fromMs ≤ t) (hlt : t < b.toMs) :
    ∃ s, alignFloor t step = some s ∧ s ≤ t ∧ alignFloor s step = some s := by
  obtain ⟨-, hfloor⟩ := floor_dates hfrom hto hin ht hlt
  have hle := step.grid.floor_le t
  obtain ⟨hrange, -⟩ := bucket_dates hto hin (step.grid.index_mono ht) (hle.trans_lt hlt)
  have hself : step.grid.floor (step.grid.floor t) = step.grid.floor t := Grid.floor_edge _ _
  have hagain := @alignFloor_some step _ hrange (hself.symm ▸ (abs_le.1 hrange).1)
  exact ⟨_, hfloor, hle, hagain.trans (congrArg some hself)⟩

theorem advances_laws {s : Instant} (ht : b.fromMs ≤ t) (hlt : t < b.toMs)
    (hs : alignFloor t step = some s) :
    ∃ next, advance s step = some next ∧ s < next ∧
      (|next| ≤ maxTime → alignFloor next step = some next) ∧
      ∀ u, s ≤ u → u < next → |u| ≤ maxTime → alignFloor u step = some s := by
  obtain ⟨-, hfloor⟩ := floor_dates hfrom hto hin ht hlt
  obtain rfl : step.grid.floor t = s := Option.some.inj (hfloor.symm.trans hs)
  have hstop := (step.grid.floor_le t).trans_lt hlt
  obtain ⟨hrange, hnext⟩ := bucket_dates hto hin (step.grid.index_mono ht) hstop
  refine ⟨_, hnext, step.grid.strictMono (by omega), fun hn ↦ ?_, fun u hu hlast hru ↦ ?_⟩
  · have hself := Grid.floor_edge step.grid (step.grid.index t + 1)
    rw [alignFloor_some hn (hself.symm ▸ (abs_le.1 hn).1), hself]
  · have hindex : step.grid.index u = step.grid.index t := Grid.index_eq_iff _ |>.2 ⟨hu, hlast⟩
    have hsame : step.grid.floor u = step.grid.floor t := by rw [Grid.floor, hindex]; rfl
    rw [alignFloor_some hru (hsame.symm ▸ (abs_le.1 hrange).1), hsame]

theorem mem_gridStarts (hfew : (gridStarts b step).length ≤ maxBuckets) {s : Instant} :
    s ∈ gridStarts b step ↔
      ∃ i, step.grid.edge i = s ∧ step.grid.index b.fromMs ≤ i ∧ step.grid.edge i < b.toMs := by
  have hsame := gridStarts_eq hfrom hto (inRange_iff.1 hin).1
  rw [hsame] at hfew ⊢
  rw [Analytics.gridStarts_eq hfew, Grid.mem_starts]

theorem getElem?_gridStarts (hfew : (gridStarts b step).length ≤ maxBuckets) {i : ℕ} {s : Instant}
    (hs : (gridStarts b step)[i]? = some s) :
    step.grid.edge (step.grid.index b.fromMs + i) = s := by
  have hsame := gridStarts_eq hfrom hto (inRange_iff.1 hin).1
  rw [hsame] at hfew hs
  rw [Analytics.gridStarts_eq hfew, Grid.starts, List.getElem?_map] at hs
  obtain ⟨k, hk, rfl⟩ := Option.map_eq_some_iff.1 hs
  obtain ⟨_, hki⟩ := List.getElem?_eq_some_iff.1 hk
  rw [List.getElem_range] at hki
  rw [hki]

end

section

variable (hfrom : |b.fromMs| ≤ maxTime) (hto : |b.toMs| ≤ maxTime) (hlt : b.fromMs < b.toMs)
  (hin : InRange b step) (hfew : (gridStarts b step).length ≤ maxBuckets)

include hfrom hto hin hfew

theorem starts_consecutive {i : ℕ} {s u : Instant} (hs : (gridStarts b step)[i]? = some s)
    (hu : (gridStarts b step)[i + 1]? = some u) : advance s step = some u := by
  have hedge := getElem?_gridStarts hfrom hto hin hfew hs
  have hnext := getElem?_gridStarts hfrom hto hin hfew hu
  obtain ⟨j, hj, -, hstop⟩ := (mem_gridStarts hfrom hto hin hfew).1 (List.mem_of_getElem? hs)
  rw [← hj] at hedge
  obtain rfl := step.grid.strictMono.injective hedge
  rw [← hj, (bucket_dates hto hin (by omega) hstop).2, ← hnext]
  push_cast
  rw [add_assoc]

theorem one_bucket (ht : b.fromMs ≤ t) (hstop : t < b.toMs) :
    ∃! s, s ∈ gridStarts b step ∧ Holds step s t := by
  have hle := step.grid.floor_le t
  have hindex := step.grid.index_mono ht
  obtain ⟨-, hnext⟩ := bucket_dates hto hin hindex (hle.trans_lt hstop)
  refine ⟨step.grid.floor t, ⟨(mem_gridStarts hfrom hto hin hfew).2 ⟨_, rfl, hindex,
    hle.trans_lt hstop⟩, _, hnext, hle, step.grid.lt_edge_succ t⟩, ?_⟩
  rintro s ⟨hs, next, hadvance, hlo, hhi⟩
  obtain ⟨i, rfl, hi, hi'⟩ := (mem_gridStarts hfrom hto hin hfew).1 hs
  rw [(bucket_dates hto hin hi hi').2, Option.some.injEq] at hadvance
  have hsame : step.grid.index t = i := (Grid.index_eq_iff _).2 ⟨hlo, hadvance ▸ hhi⟩
  rw [Grid.floor, hsame]

omit hfew in
theorem starts_laws (hlt : b.fromMs < b.toMs) (hfew : (gridStarts b step).length ≤ maxBuckets) :
    (gridStarts b step).Pairwise (· < ·) ∧
      (gridStarts b step).head? = alignFloor b.fromMs step ∧
      (∀ i s t, (gridStarts b step)[i]? = some s → (gridStarts b step)[i + 1]? = some t →
        advance s step = some t) ∧
      ∀ t, b.fromMs ≤ t → t < b.toMs → ∃! s, s ∈ gridStarts b step ∧ Holds step s t := by
  refine ⟨?_, ?_, fun i s u ↦ starts_consecutive hfrom hto hin hfew,
    fun t ↦ one_bucket hfrom hto hin hfew⟩
  · have hsame := gridStarts_eq hfrom hto (inRange_iff.1 hin).1
    rw [hsame] at hfew ⊢
    rw [Analytics.gridStarts_eq hfew]
    exact Grid.starts_pairwise _ _ _
  · obtain ⟨-, hfloor⟩ := floor_dates hfrom hto hin le_rfl hlt
    have hstop := (step.grid.floor_le b.fromMs).trans_lt hlt
    rw [gridStarts, hfloor, gridLoop, if_pos hstop]
    rfl

end

theorem monthEdge_days (i : ℤ) :
    round (Step.month.grid.edge (i + 1) - Step.month.grid.edge i) dayMs * dayMs =
      Step.month.grid.edge (i + 1) - Step.month.grid.edge i := by
  simp only [Step.grid, monthGrid, Analytics.round, dayMs]
  omega

section

variable (hfrom : |b.fromMs| ≤ maxTime) (hto : |b.toMs| ≤ maxTime) (hlt : b.fromMs < b.toMs)
  (hin : InRange b .month) (hfew : (gridStarts b .month).length ≤ maxBuckets)

include hfrom hto hin hfew

theorem monthSpan_whole {start : Instant} (hs : start ∈ gridStarts b .month) :
    ∃ next, advance start .month = some next ∧
      ((advance start .month).filter (· ≤ b.toMs)).getD b.toMs = min next b.toMs ∧
      (advance start .month).map (fun next ↦ round (next - start) dayMs) =
        some (round (next - start) dayMs) ∧ next - start = round (next - start) dayMs * dayMs := by
  obtain ⟨i, rfl, hi, hstop⟩ := (mem_gridStarts hfrom hto hin hfew).1 hs
  obtain ⟨-, hnext⟩ := bucket_dates hto hin hi hstop
  refine ⟨_, hnext, ?_, by rw [hnext]; rfl, (monthEdge_days i).symm⟩
  rw [hnext]
  by_cases hle : Step.month.grid.edge (i + 1) ≤ b.toMs
  · simp [hle, Option.filter]
  · simp [hle, Option.filter, (not_le.1 hle).le]

theorem monthSpans_consecutive {i : ℕ} {s u : MonthSpan} (hs : (monthSpans b)[i]? = some s)
    (hu : (monthSpans b)[i + 1]? = some u) : s.toMs = u.start := by
  rw [monthSpans, List.getElem?_map] at hs hu
  obtain ⟨start, hstart, rfl⟩ := Option.map_eq_some_iff.1 hs
  obtain ⟨later, hlater, rfl⟩ := Option.map_eq_some_iff.1 hu
  obtain ⟨next, hnext, hend, -⟩ := monthSpan_whole hfrom hto hin hfew (List.mem_of_getElem? hstart)
  have hadvance := starts_consecutive hfrom hto hin hfew hstart hlater
  obtain rfl : next = later := Option.some.inj (hnext.symm.trans hadvance)
  obtain ⟨j, rfl, -, hstop⟩ :=
    (mem_gridStarts hfrom hto hin hfew).1 (List.mem_of_getElem? hlater)
  exact hend.trans (min_eq_left hstop.le)

theorem monthSpans_last (hlt : b.fromMs < b.toMs) :
    (monthSpans b).getLast?.map (·.toMs) = some b.toMs := by
  have hlen : (gridStarts b .month).length =
      (Step.month.grid.index (b.toMs - 1) + 1 - Step.month.grid.index b.fromMs).toNat := by
    have hsame := gridStarts_eq hfrom hto (inRange_iff.1 hin).1
    rw [hsame] at hfew ⊢
    rw [Analytics.gridStarts_eq hfew, Grid.starts_length]
  have hindex := Step.month.grid.index_mono (Int.le_sub_one_of_lt hlt)
  have hi : (gridStarts b .month).length - 1 < (gridStarts b .month).length := by omega
  have hget := List.getElem?_eq_getElem hi
  have hedge := getElem?_gridStarts hfrom hto hin hfew hget
  obtain ⟨next, hnext, hend, -⟩ :=
    monthSpan_whole hfrom hto hin hfew (List.mem_of_getElem? hget)
  rw [monthSpans, List.getLast?_map, List.getLast?_eq_getElem?, hget, Option.map_some,
    Option.map_some]
  refine congrArg some (hend.trans (min_eq_right ?_))
  obtain ⟨j, hj, hge, hstop⟩ :=
    (mem_gridStarts hfrom hto hin hfew).1 (List.mem_of_getElem? hget)
  obtain rfl := Step.month.grid.strictMono.injective (hj.trans hedge.symm)
  obtain ⟨-, hn⟩ := bucket_dates hto hin hge hstop
  rw [hedge] at hn
  obtain rfl := Option.some.inj (hnext.symm.trans hn)
  have hlast : Step.month.grid.index b.fromMs + ((gridStarts b .month).length - 1 : ℕ) =
      Step.month.grid.index (b.toMs - 1) := by omega
  have hpast := Step.month.grid.lt_edge_succ (b.toMs - 1)
  rw [hlast]
  exact Int.le_of_sub_one_lt hpast

end

/-- The grid is as it should be where its buckets are dates. -/
theorem tiles_iff (b : Bounds) (step : Step) (hfrom : |b.fromMs| ≤ maxTime)
    (hto : |b.toMs| ≤ maxTime) (hlt : b.fromMs < b.toMs) : Tiles b step ↔ InRange b step := by
  constructor
  · intro h
    rw [inRange_iff]
    obtain ⟨s, hs, -, -⟩ := h.floors b.fromMs le_rfl hlt
    rw [alignFloor_eq hfrom] at hs
    refine ⟨(abs_le.1 (clip_some hs).1).1, ?_⟩
    rintro rfl
    have hle : b.fromMs ≤ b.toMs - 1 := Int.le_sub_one_of_lt hlt
    have hlast : b.toMs - 1 < b.toMs := Int.sub_one_lt_of_le le_rfl
    have hrange : |b.toMs - 1| ≤ maxTime :=
      abs_le.2 ⟨(abs_le.1 hfrom).1.trans hle, hlast.le.trans (abs_le.1 hto).2⟩
    obtain ⟨s, hs, -, -⟩ := h.floors (b.toMs - 1) hle hlast
    obtain ⟨next, hnext, -, -⟩ := h.advances (b.toMs - 1) s hle hlast hs
    rw [alignFloor_eq hrange] at hs
    obtain ⟨hdate, rfl⟩ := clip_some hs
    rw [Grid.floor, advance_edge hdate, if_pos rfl] at hnext
    exact (abs_le.1 (clip_some hnext).1).2
  · intro hin
    refine ⟨fun t ↦ floors_laws hfrom hto hin, fun t u s v ht htu hu hs hv ↦ ?_,
      fun t s ↦ advances_laws hfrom hto hin, starts_laws hfrom hto hin hlt, ?_,
      gridLoop_length_le _ _ _, planSeriesBase_refuses hfrom hto⟩
    · obtain ⟨-, hs'⟩ := floor_dates hfrom hto hin ht (htu.trans_lt hu)
      obtain ⟨-, hv'⟩ := floor_dates hfrom hto hin (ht.trans htu) hu
      obtain rfl := Option.some.inj (hs'.symm.trans hs)
      obtain rfl := Option.some.inj (hv'.symm.trans hv)
      exact step.grid.strictMono.monotone (step.grid.index_mono htu)
    · rintro rfl hfew
      refine ⟨?_, ?_, fun i s t ↦ monthSpans_consecutive hfrom hto hin hfew,
        monthSpans_last hfrom hto hin hfew hlt⟩
      · rw [monthSpans, List.map_map]
        exact List.map_id _
      · intro span hspan
        obtain ⟨start, hstart, rfl⟩ := List.mem_map.1 hspan
        obtain ⟨next, hnext, hend, hdays, hlen⟩ := monthSpan_whole hfrom hto hin hfew hstart
        exact ⟨next, _, hnext, hend, hdays, hlen⟩

theorem tiles_iff_sample : Tiles ⟨1709210096789, 1714521600000⟩ .month ↔
    InRange ⟨1709210096789, 1714521600000⟩ .month :=
  tiles_iff ⟨1709210096789, 1714521600000⟩ .month (by decide) (by decide) (by decide)

/-- The earliest date is in a month that starts before it. -/
theorem earliest_month_has_no_bucket :
    gridStarts ⟨-8640000000000000, -8639999999999999⟩ .month = [] ∧
      ¬ Tiles ⟨-8640000000000000, -8639999999999999⟩ .month := by
  refine ⟨by decide, fun h ↦ ?_⟩
  obtain ⟨s, hs, -, -⟩ := h.floors (-8640000000000000) (by decide) (by decide)
  have hnone : alignFloor (-8640000000000000) .month = none := by decide
  rw [hnone] at hs
  cases hs

section

/-- A window with no start has a span that is not finite. -/
def wholeWindowStride (bounds : Bounds) (step : Step) : Option (Instant × Duration) := do
  let origin ← alignFloor bounds.fromMs step
  let span := bounds.toMs - origin
  if span ≤ 0 then none
  else if step ≠ .hour then some (origin, ceilDiv span dayMs * dayMs)
  else
    let hours := max 1 (ceilDiv span hourMs)
    let stride := if origin % dayMs ≠ 0 ∧ hours % 24 = 0 then hours + 1 else hours
    some (origin, stride * hourMs)

variable {b : Bounds} {step : Step} {origin : Instant}

theorem alignFloor_idem {t s : Instant} (h : alignFloor t step = some s) :
    alignFloor s step = some s ∧ Analytics.alignFloor t step = s := by
  have ht : |t| ≤ maxTime := by
    by_contra hn
    rw [alignFloor, clip, if_neg hn] at h
    cases h
  rw [alignFloor_eq ht] at h
  obtain ⟨hs, rfl⟩ := clip_some h
  have hself : step.grid.floor (step.grid.floor t) = step.grid.floor t := Grid.floor_edge _ _
  refine ⟨?_, Analytics.alignFloor_eq t step⟩
  rw [alignFloor_eq hs, hself, h]

/-- Where the origin is a date this is the stride the planner reads with. -/
theorem wholeWindowStride_dates (h : alignFloor b.fromMs step = some origin) :
    wholeWindowStride b step = Analytics.wholeWindowStride b step := by
  rw [wholeWindowStride, Analytics.wholeWindowStride, h, (alignFloor_idem h).2]
  rfl

/-- How many hours a window takes, one more where the bins would be whole days. -/
theorem hours_stride {origin span hours : ℤ} (hspan : span ≤ hours * hourMs) (hpos : 1 ≤ hours) :
    let stride := if origin % dayMs ≠ 0 ∧ hours % 24 = 0 then hours + 1 else hours
    span ≤ stride * hourMs ∧ 1 ≤ stride ∧ (¬ dayMs ∣ origin → ¬ dayMs ∣ stride * hourMs) := by
  simp only [hourMs, dayMs] at *
  split_ifs <;> omega

/-- Every event of a window is in the first bin, and the bins are on no coarser grid. -/
theorem one_bin (b : Bounds) (step : Step) (origin : Instant)
    (ho : alignFloor b.fromMs step = some origin) (hlt : origin < b.toMs) :
    ∃ stride, wholeWindowStride b step = some (origin, stride) ∧ 0 < stride ∧
      alignFloor origin step = some origin ∧
      (∀ ts, origin ≤ ts → ts < b.toMs → origin + (ts - origin) / stride * stride = origin) ∧
      (step = .hour → ¬ dayMs ∣ origin → ¬ dayMs ∣ stride) := by
  have hspan : ¬ b.toMs - origin ≤ 0 := not_le.2 (Int.sub_pos_of_lt hlt)
  obtain ⟨stride, hstride, hcover, hday⟩ : ∃ stride,
      wholeWindowStride b step = some (origin, stride) ∧ b.toMs - origin ≤ stride ∧
        (step = .hour → ¬ dayMs ∣ origin → ¬ dayMs ∣ stride) := by
    rw [wholeWindowStride, ho]
    simp only [Option.bind_eq_bind, Option.bind_some, if_neg hspan]
    by_cases hs : step = .hour
    · rw [if_neg (not_not.2 hs)]
      have hceil := le_ceilDiv_mul (b.toMs - origin) (c := hourMs) (by decide)
      have hmax := mul_le_mul_of_nonneg_right
        (le_max_right 1 (ceilDiv (b.toMs - origin) hourMs)) (show 0 ≤ hourMs by decide)
      obtain ⟨hcover, -, hday⟩ := @hours_stride origin _ _ (hceil.trans hmax) (le_max_left _ _)
      exact ⟨_, rfl, hcover, fun _ ↦ hday⟩
    · rw [if_pos hs]
      exact ⟨_, rfl, le_ceilDiv_mul _ (by decide), fun h ↦ absurd h hs⟩
  have hpos : 0 < stride := (not_le.1 hspan).trans_le hcover
  refine ⟨stride, hstride, hpos, (alignFloor_idem ho).1, fun ts hts hstop ↦ ?_, hday⟩
  have hzero : (ts - origin) / stride = 0 := by
    apply Int.ediv_eq_zero_of_lt
    · exact Int.sub_nonneg_of_le hts
    · exact (Int.sub_lt_sub_right hstop origin).trans_le hcover
  rw [hzero, zero_mul, add_zero]

theorem one_bin_sample : ∃ stride,
    wholeWindowStride ⟨1709204400000, 1709290800000⟩ .hour = some (1709204400000, stride) ∧
      ¬ dayMs ∣ stride := by
  obtain ⟨stride, h, -, -, -, hday⟩ :=
    one_bin ⟨1709204400000, 1709290800000⟩ .hour 1709204400000 (by decide) (by decide)
  exact ⟨stride, h, hday rfl (by decide)⟩

end

end Counted.Litics.DateGrid
