import Counted.Foundations.Decoding
import Counted.Litics.Cells
import Counted.Litics.SeriesLaw

namespace Counted.Litics.Cells

open Analytics Foundations Calendar

/-- What a row of a series says. -/
structure Reading where
  key : Option JsString
  at' : ℤ
  value : JsNumber

/-- A cell that holds a finite number, or the text of one. -/
def Holds (number : JsString → JsNumber) (cell : Cell) (n : JsNumber) : Prop :=
  isFinite n = true ∧
    (cell = .number n ∨ ∃ s, cell = .string s ∧ blank s = false ∧ number s = n)

/-- A cell that holds a date, or the text of one. -/
def Marks (rt : Runtime) (cell : Cell) (t : ℤ) : Prop :=
  cell = .date (some t) ∨ ∃ s, cell = .string s ∧ dateParse rt s = some t

/-- An own column that holds a value of a dimension, or that there is none. -/
def Labels (row : RangeRow) (column : JsString) : Option JsString → Prop
  | some s => JsObject.get row column = some (.string s)
  | none => JsObject.get row column = some .null ∨ JsObject.get row column = some .undefined

/-- A row without a blank for its number and without an invalid date. -/
def Clean (column : JsString) (row : RangeRow) : Prop :=
  (∀ s, cellAt row column = .string s → blank s = false) ∧
    cellAt row (js "bucket") ≠ .date none

/-- What a row says in each of its columns. -/
structure Means (number : JsString → JsNumber) (rt : Runtime) (column : JsString)
    (groupBy : Option JsString) (row : RangeRow) (r : Reading) : Prop where
  bucket : Marks rt (cellAt row (js "bucket")) r.at'
  value : Holds number (cellAt row column) r.value
  key : match groupBy with
    | none => r.key = none
    | some name => Labels row name r.key

/-- A tuple of keys and the value of a row that says so. -/
def Tells (number : JsString → JsNumber) (fields : List JsString) (column : JsString)
    (row : RangeRow) (t : List (Option JsString) × JsNumber) : Prop :=
  List.Forall₂ (Labels row) fields t.1 ∧ Holds number (cellAt row column) t.2

section

variable {number : JsString → JsNumber} {rt : Runtime} {row : RangeRow} {column : JsString}
  {groupBy : Option JsString} {fields : List JsString}

theorem keyAt_iff {key : Option JsString} : keyAt row column = some key ↔ Labels row column key := by
  rw [keyAt]
  cases hget : JsObject.get row column with
  | none => cases key <;> simp [Labels, hget]
  | some cell => cases cell <;> cases key <;> simp [Labels, hget]

theorem numberAt_iff {n : JsNumber}
    (hclean : ∀ s, cellAt row column = .string s → blank s = false) :
    numberAt number row column = some n ↔ Holds number (cellAt row column) n := by
  rw [numberAt, Holds]
  cases hcell : cellAt row column with
  | number m =>
    simp only [Option.ite_none_right_eq_some, Option.some.injEq, Cell.number.injEq]
    grind
  | string s =>
    have hblank := hclean s hcell
    simp only [Option.ite_none_right_eq_some, Option.some.injEq]
    grind
  | undefined | null | boolean | date | object => simp

theorem timestampAt_iff {at' : Option ℤ} (hclean : cellAt row column ≠ .date none) :
    timestampAt rt row column = some at' ↔ ∃ t, at' = some t ∧ Marks rt (cellAt row column) t := by
  rw [timestampAt]
  cases hcell : cellAt row column with
  | date time =>
    cases time with
    | none => exact absurd hcell hclean
    | some t => simp [Marks, eq_comm]
  | string s =>
    simp only [Option.map_eq_some_iff, Marks]
    grind
  | undefined | null | boolean | number | object => simp [Marks]

theorem readBucket_iff {p : Parsed} (hclean : Clean column row) :
    readBucket number rt row column = some p ↔ ∃ t n, Marks rt (cellAt row (js "bucket")) t ∧
      Holds number (cellAt row column) n ∧ p = ⟨some t, n⟩ := by
  have hnumber {n : JsNumber} := @numberAt_iff number row column n hclean.1
  have htime {at' : Option ℤ} := @timestampAt_iff rt row (js "bucket") at' hclean.2
  constructor
  · intro h
    rw [readBucket] at h
    cases hat : timestampAt rt row (js "bucket") with
    | none =>
      rw [hat] at h
      cases h
    | some at' =>
      cases hn : numberAt number row column with
      | none =>
        rw [hat, hn] at h
        cases h
      | some n =>
        rw [hat, hn] at h
        cases h
        obtain ⟨t, rfl, ht⟩ := htime.1 hat
        exact ⟨t, n, ht, hnumber.1 hn, rfl⟩
  · intro h
    obtain ⟨t, n, ht, hn, rfl⟩ := h
    rw [readBucket, htime.2 ⟨t, rfl, ht⟩, hnumber.2 hn]

theorem keyed_iff {p : Option JsString × Parsed} (hclean : Clean column row) :
    keyed number rt column groupBy row = .ok p ↔
      ∃ r, Means number rt column groupBy row r ∧ p = (r.key, ⟨some r.at', r.value⟩) := by
  have hbucket {p : Parsed} := @readBucket_iff number rt row column p hclean
  constructor
  · intro h
    rw [keyed] at h
    cases hb : readBucket number rt row column with
    | none =>
      rw [hb] at h
      cases h
    | some parsed =>
      obtain ⟨t, n, ht, hn, rfl⟩ := hbucket.1 hb
      rw [hb] at h
      cases groupBy with
      | none =>
        cases h
        exact ⟨⟨none, t, n⟩, ⟨ht, hn, rfl⟩, rfl⟩
      | some name =>
        cases hk : keyAt row name with
        | none =>
          simp only [hk] at h
          cases h
        | some key =>
          simp only [hk] at h
          cases h
          exact ⟨⟨key, t, n⟩, ⟨ht, hn, keyAt_iff.1 hk⟩, rfl⟩
  · intro h
    obtain ⟨r, ⟨ht, hn, hk⟩, rfl⟩ := h
    rw [keyed, hbucket.2 ⟨_, _, ht, hn, rfl⟩]
    cases groupBy with
    | none =>
      change r.key = none at hk
      rw [hk]
    | some name => simp only [keyAt_iff.2 hk]

/-- Every row says something, and this is what is read. -/
theorem mapM_keyed_iff {rows : List RangeRow} {ps : List (Option JsString × Parsed)}
    (hclean : ∀ row ∈ rows, Clean column row) :
    rows.mapM (keyed number rt column groupBy) = .ok ps ↔
      ∃ rs, List.Forall₂ (Means number rt column groupBy) rows rs ∧
        ps = rs.map (fun r ↦ (r.key, ⟨some r.at', r.value⟩)) := by
  rw [mapM_ok_iff]
  induction rows generalizing ps with
  | nil => simp [List.forall₂_nil_left_iff]
  | cons row rows ih =>
    rw [List.forall_mem_cons] at hclean
    rw [List.forall₂_cons_left_iff]
    constructor
    · intro h
      obtain ⟨p, rest, hp, hrest, rfl⟩ := h
      obtain ⟨r, hr, rfl⟩ := (keyed_iff hclean.1).1 hp
      obtain ⟨rs, hrs, rfl⟩ := (ih hclean.2).1 hrest
      exact ⟨r :: rs, .cons hr hrs, rfl⟩
    · intro h
      obtain ⟨rs, hrs, rfl⟩ := h
      cases hrs with
      | @cons _ r _ rs hr hrs =>
        exact ⟨_, _, (keyed_iff hclean.1).2 ⟨r, hr, rfl⟩, (ih hclean.2).2 ⟨rs, hrs, rfl⟩, rfl⟩

theorem keysOfRow_iff {keys : List (Option JsString)} :
    keysOfRow fields row = .ok keys ↔ List.Forall₂ (Labels row) fields keys := by
  rw [keysOfRow, mapM_ok_iff]
  constructor
  · intro h
    refine h.imp (fun field key hkey ↦ keyAt_iff.1 ?_)
    cases hat : keyAt row field with
    | none =>
      simp only [hat] at hkey
      cases hkey
    | some k =>
      simp only [hat] at hkey
      cases hkey
      rfl
  · intro h
    refine h.imp (fun field key hkey ↦ ?_)
    rw [keyAt_iff.2 hkey]

/-- All rows are told apart, and this is what they say. -/
theorem tuples_iff {rows : List RangeRow} {seen : List JsString} {es : List BreakdownEntry}
    (hclean : ∀ row ∈ rows, ∀ s, cellAt row column = .string s → blank s = false) :
    tuples number fields column seen rows = .ok es ↔
      ∃ ts, List.Forall₂ (Tells number fields column) rows ts ∧ (ts.map (·.1)).Nodup ∧
        (∀ t ∈ ts, tupleText t.1 ∉ seen) ∧ es = ts.map (fun t ↦ entry t.1 t.2) := by
  induction rows generalizing seen es with
  | nil => simp [tuples, List.forall₂_nil_left_iff, eq_comm]
  | cons row rows ih =>
    rw [List.forall_mem_cons] at hclean
    have hnumber {n : JsNumber} := @numberAt_iff number row column n hclean.1
    rw [tuples]
    constructor
    · intro h
      obtain ⟨keys, hkeys, h⟩ := bind_ok h
      cases hn : numberAt number row column with
      | none =>
        simp only [hn] at h
        cases h
      | some n =>
        simp only [hn] at h
        split_ifs at h with hseen
        obtain ⟨rest, hrest, h⟩ := bind_ok h
        cases h
        obtain ⟨ts, hts, hnodup, hfresh, rfl⟩ := (ih hclean.2).1 hrest
        have hnew : ∀ t ∈ ts, tupleText t.1 ≠ tupleText keys := fun t ht he ↦
          hfresh t ht (he ▸ List.mem_cons_self)
        refine ⟨(keys, n) :: ts, .cons ⟨keysOfRow_iff.1 hkeys, hnumber.1 hn⟩ hts, ?_, ?_, rfl⟩
        · rw [List.map_cons, List.nodup_cons]
          refine ⟨fun hmem ↦ ?_, hnodup⟩
          obtain ⟨t, ht, he⟩ := List.mem_map.1 hmem
          exact hnew t ht (congrArg tupleText he)
        · rw [List.forall_mem_cons]
          refine ⟨by simpa using hseen, fun t ht hmem ↦ hfresh t ht (.tail _ hmem)⟩
    · intro h
      obtain ⟨ts, hts, hnodup, hfresh, rfl⟩ := h
      cases hts with
      | @cons _ t _ ts ht hts =>
        rw [List.forall_mem_cons] at hfresh
        rw [List.map_cons, List.nodup_cons] at hnodup
        have hseen : ¬ seen.contains (tupleText t.1) = true := by simpa using hfresh.1
        have hrest := (@ih (tupleText t.1 :: seen) _ hclean.2).2 ⟨ts, hts, hnodup.2, fun u hu hmem ↦ by
          rcases List.mem_cons.1 hmem with he | hmem
          · exact hnodup.1 (List.mem_map.2 ⟨u, hu, tupleText_injective he⟩)
          · exact hfresh.2 u hu hmem, rfl⟩
        rw [keysOfRow_iff.2 ht.1, ok_bind, hnumber.2 ht.2]
        simp only [if_neg hseen, hrest]
        rfl

/-- A read in time that was not refused. -/
def Answers (reader : Reader) (call : RangeQuery) (rows : List RangeRow) : Prop :=
  reader.expired call = false ∧ reader.read call = .ok rows

/-- The readings of a group that are in one bucket. -/
def landed (plan : SeriesPlan) (readings : List Reading) (key : Option JsString)
    (start : Instant) : List Reading :=
  readings.filter (fun r ↦ r.key = key ∧ DateGrid.alignFloor r.at' plan.step = some start)

def sumOf (rt : Runtime) (readings : List Reading) : JsNumber :=
  (readings.map (·.value)).foldl rt.add (0 : ℤ)

/-- A series whose buckets are the sums of what landed in them. -/
structure Shows (rt : Runtime) (plan : SeriesPlan) (readings : List Reading) (s : Series) :
    Prop where
  shape : s.groups.isSome = plan.groupBy.isSome ∧ (s.groups.isSome = true → s.buckets = [])
  keys : (everyGroup s).map (·.key) =
    if plan.groupBy.isSome then distinctKeys (·.key) readings else [none]
  starts : ∀ g ∈ everyGroup s, g.buckets.map (·.start) = plan.starts
  values : ∀ g ∈ everyGroup s, ∀ b ∈ g.buckets, b.value = sumOf rt (landed plan readings g.key b.start)

section

variable {now : Instant} {deadline : Duration} {reader : Reader} {plan : SeriesPlan}

def Reading.pair (r : Reading) : Option JsString × Parsed := (r.key, ⟨some r.at', r.value⟩)

theorem mapError_ok {ε δ α : Type} {x : Except ε α} {f : ε → δ} {a : α}
    (h : x.mapError f = .ok a) : x = .ok a := by
  cases x with
  | error e => cases h
  | ok b => exact congrArg Except.ok (Except.ok.inj h)

theorem readCall_iff {call : RangeQuery} {ps : List (Option JsString × Parsed)}
    (hclean : ∀ rows, Answers reader call rows → ∀ row ∈ rows, Clean column row) :
    readCall number rt deadline reader column groupBy call = .ok ps ↔
      ∃ rows rs, Answers reader call rows ∧
        List.Forall₂ (Means number rt column groupBy) rows rs ∧ ps = rs.map Reading.pair := by
  constructor
  · intro h
    rw [readCall] at h
    split_ifs at h with hlate
    obtain ⟨rows, hread, h⟩ := bind_ok h
    have hrows : Answers reader call rows := ⟨Bool.eq_false_iff.2 hlate, mapError_ok hread⟩
    obtain ⟨rs, hrs, rfl⟩ := (mapM_keyed_iff (hclean rows hrows)).1 h
    exact ⟨rows, rs, hrows, hrs, rfl⟩
  · intro h
    obtain ⟨rows, rs, hrows, hrs, rfl⟩ := h
    rw [readCall, if_neg (Bool.eq_false_iff.1 hrows.1), hrows.2]
    exact (mapM_keyed_iff (hclean rows hrows)).2 ⟨rs, hrs, rfl⟩

theorem densify_eq (starts : List Instant) (step : Step) (rows : List Parsed) :
    densify rt starts step rows = starts.map (fun start ↦ ⟨start,
      ((rows.filter (fun row ↦ slot step row = some start)).map (·.value)).foldl rt.add (0 : ℤ)⟩) := by
  rw [densify]
  refine List.map_congr_left (fun start _ ↦ ?_)
  rw [groupBy_get, List.foldl_map]

theorem foldl_concat {α β : Type} (f : α → β) (l : List α) (m : List β) :
    l.foldl (fun items a ↦ items ++ [f a]) m = m ++ l.map f := by
  induction l generalizing m with
  | nil => exact (List.append_nil m).symm
  | cons a l ih => rw [List.foldl_cons, ih, List.append_assoc, List.singleton_append, List.map_cons]

/-- The series of the readings of all calls. -/
def seriesOf (rt : Runtime) (plan : SeriesPlan) (readings : List Reading) : Series :=
  let bucketsOf (key : Option JsString) := plan.starts.map (fun start ↦
    EngineBucket.mk start (sumOf rt (landed plan readings key start)))
  if plan.groupBy.isSome then
    ⟨[], some ((distinctKeys (·.key) readings).map (fun key ↦ ⟨key, bucketsOf key⟩))⟩
  else ⟨bucketsOf none, none⟩

theorem seriesOf_shows {readings : List Reading} :
    Shows rt plan readings (seriesOf rt plan readings) := by
  by_cases hsplit : plan.groupBy.isSome = true
  · rw [seriesOf, if_pos hsplit]
    refine ⟨⟨hsplit.symm, fun _ ↦ rfl⟩, ?_, ?_, ?_⟩
    · rw [if_pos hsplit, everyGroup, Option.getD_some, List.map_map]
      exact List.map_id _
    · intro g hg
      obtain ⟨key, -, rfl⟩ := List.mem_map.1 hg
      rw [List.map_map]
      exact List.map_id _
    · intro g hg b hb
      obtain ⟨key, -, rfl⟩ := List.mem_map.1 hg
      obtain ⟨start, -, rfl⟩ := List.mem_map.1 hb
      rfl
  · rw [seriesOf, if_neg hsplit]
    refine ⟨⟨?_, fun h ↦ by cases h⟩, ?_, ?_, ?_⟩
    · exact (Bool.eq_false_iff.2 hsplit).symm
    · rw [if_neg hsplit]
      rfl
    · intro g hg
      obtain rfl := List.mem_singleton.1 hg
      rw [List.map_map]
      exact List.map_id _
    · intro g hg b hb
      obtain rfl := List.mem_singleton.1 hg
      obtain ⟨start, -, rfl⟩ := List.mem_map.1 hb
      rfl

theorem bucketsOf_pairs {readings : List Reading} (key : Option JsString) :
    densify rt plan.starts plan.step
      (((readings.map Reading.pair).filter (fun p ↦ p.1 = key)).map (·.2)) =
      plan.starts.map (fun start ↦ ⟨start, sumOf rt (landed plan readings key start)⟩) := by
  rw [densify_eq]
  refine List.map_congr_left (fun start _ ↦ ?_)
  have hlanded : (((readings.map Reading.pair).filter (fun p ↦ p.1 = key)).map (·.2)).filter
      (fun row ↦ slot plan.step row = some start) =
      (landed plan readings key start).map (fun r ↦ r.pair.2) := by
    rw [List.filter_map, List.filter_map, List.filter_map, List.map_map, List.filter_filter, landed]
    refine congrArg (List.map _) (List.filter_congr (fun r _ ↦ ?_))
    rw [Bool.eq_iff_iff, Bool.and_eq_true, decide_eq_true_iff, and_comm]
    exact and_congr decide_eq_true_iff decide_eq_true_iff
  rw [hlanded, List.map_map]
  rfl

theorem groups_pairs {readings : List Reading} :
    (Foundations.groupBy (·.1) [] (fun items row ↦ items ++ [row.2])
      (readings.map Reading.pair)).map
      (fun g : Option JsString × List Parsed ↦
        SeriesGroup.mk g.1 (densify rt plan.starts plan.step g.2)) =
      (distinctKeys (·.key) readings).map (fun key ↦ ⟨key, plan.starts.map (fun start ↦
        ⟨start, sumOf rt (landed plan readings key start)⟩)⟩) := by
  have hkeys : distinctKeys (fun p : Option JsString × Parsed ↦ p.1) (readings.map Reading.pair) =
      distinctKeys (·.key) readings := by
    rw [distinctKeys, distinctKeys, List.map_map]
    rfl
  rw [groupBy_eq, List.map_map, hkeys]
  refine List.map_congr_left (fun key _ ↦ ?_)
  simp only [Function.comp_apply, foldl_concat, List.nil_append, bucketsOf_pairs]

theorem runSeries_eq (hcalls : plan.calls ≠ []) {rows : List (List (Option JsString × Parsed))}
    {readings : List Reading} (hkeys : plan.groupBy = none → ∀ r ∈ readings, r.key = none)
    (hrows : plan.calls.mapM (readCall number rt deadline reader column plan.groupBy) = .ok rows)
    (hflat : rows.flatten = readings.map Reading.pair) :
    runSeries number rt now deadline reader column plan = .ok ⟨seriesOf rt plan readings, now⟩ := by
  have hsome : ¬ plan.calls.isEmpty = true := by simpa using hcalls
  rw [runSeries, if_neg hsome, hrows, ok_bind, hflat, seriesOf]
  by_cases hsplit : plan.groupBy.isSome = true
  · simp only [if_pos hsplit, groups_pairs]
    rfl
  · have hnone := hkeys (Option.not_isSome_iff_eq_none.1 hsplit)
    have hall : (readings.map Reading.pair).filter (fun p ↦ p.1 = none) =
        readings.map Reading.pair := by
      rw [List.filter_eq_self]
      intro p hp
      obtain ⟨r, hr, rfl⟩ := List.mem_map.1 hp
      exact decide_eq_true (hnone r hr)
    have hbuckets := @bucketsOf_pairs rt plan readings none
    rw [hall] at hbuckets
    rw [if_neg hsplit, if_neg hsplit, hbuckets]
    rfl

/-- What all reads of a series say. -/
theorem readCalls_iff {calls : List RangeQuery} {rows : List (List (Option JsString × Parsed))}
    (hclean : ∀ call ∈ calls, ∀ answer, Answers reader call answer →
      ∀ row ∈ answer, Clean column row) :
    calls.mapM (readCall number rt deadline reader column groupBy) = .ok rows ↔
      ∃ answers rs, List.Forall₂ (Answers reader) calls answers ∧
        List.Forall₂ (List.Forall₂ (Means number rt column groupBy)) answers rs ∧
        rows = rs.map (List.map Reading.pair) := by
  rw [mapM_ok_iff]
  induction calls generalizing rows with
  | nil => simp [List.forall₂_nil_left_iff]
  | cons call calls ih =>
    rw [List.forall_mem_cons] at hclean
    rw [List.forall₂_cons_left_iff]
    constructor
    · intro h
      obtain ⟨ps, rest, hps, hrest, rfl⟩ := h
      obtain ⟨answer, rs, hanswer, hrs, rfl⟩ := (readCall_iff hclean.1).1 hps
      obtain ⟨answers, rss, hanswers, hrss, rfl⟩ := (ih hclean.2).1 hrest
      exact ⟨answer :: answers, rs :: rss, .cons hanswer hanswers, .cons hrs hrss, rfl⟩
    · intro h
      obtain ⟨answers, rss, hanswers, hrss, rfl⟩ := h
      cases hanswers with
      | @cons _ answer _ answers hanswer hanswers =>
        cases hrss with
        | @cons _ rs _ rss hrs hrss =>
          exact ⟨_, _, (readCall_iff hclean.1).2 ⟨answer, rs, hanswer, hrs, rfl⟩,
            (ih hclean.2).2 ⟨answers, rss, hanswers, hrss, rfl⟩, rfl⟩

theorem runSeries_ok_iff (hcalls : plan.calls ≠ [])
    (hclean : ∀ call ∈ plan.calls, ∀ rows, Answers reader call rows →
      ∀ row ∈ rows, Clean column row) {v : Computed Series} :
    runSeries number rt now deadline reader column plan = .ok v ↔
      ∃ answers rs, List.Forall₂ (Answers reader) plan.calls answers ∧
        List.Forall₂ (List.Forall₂ (Means number rt column plan.groupBy)) answers rs ∧
        v = ⟨seriesOf rt plan rs.flatten, now⟩ := by
  have hkeys {answers : List (List RangeRow)} {rs : List (List Reading)}
      (h : List.Forall₂ (List.Forall₂ (Means number rt column plan.groupBy)) answers rs) :
      plan.groupBy = none → ∀ r ∈ rs.flatten, r.key = none := by
    intro hnone r hr
    have hrows := List.rel_flatten h
    obtain ⟨row, -, hmeans⟩ := forall₂_left hrows.flip hr
    have hkey := hmeans.key
    rwa [hnone] at hkey
  have hflat (rs : List (List Reading)) :
      (rs.map (List.map Reading.pair)).flatten = rs.flatten.map Reading.pair := List.map_flatten.symm
  constructor
  · intro h
    cases hread : plan.calls.mapM (readCall number rt deadline reader column plan.groupBy) with
    | error e =>
      have hsome : ¬ plan.calls.isEmpty = true := by simpa using hcalls
      rw [runSeries, if_neg hsome, hread] at h
      cases h
    | ok rows =>
      obtain ⟨answers, rs, hanswers, hrs, rfl⟩ := (readCalls_iff hclean).1 hread
      rw [runSeries_eq hcalls (hkeys hrs) hread (hflat rs)] at h
      exact ⟨answers, rs, hanswers, hrs, (Except.ok.inj h).symm⟩
  · intro h
    obtain ⟨answers, rs, hanswers, hrs, rfl⟩ := h
    exact runSeries_eq hcalls (hkeys hrs)
      ((readCalls_iff hclean).2 ⟨answers, rs, hanswers, hrs, rfl⟩) (hflat rs)

theorem runBreakdown_ok_iff {plan : BreakdownPlan}
    (hclean : ∀ rows, reader.read plan.call = .ok rows →
      ∀ row ∈ rows, ∀ s, cellAt row column = .string s → blank s = false)
    {v : Computed (List BreakdownEntry)} :
    runBreakdown number rt now deadline reader column plan = .ok v ↔
      ∃ rows ts, reader.read plan.call = .ok rows ∧
        List.Forall₂ (Tells number plan.groupBy column) rows ts ∧ (ts.map (·.1)).Nodup ∧
        v = ⟨rank rt plan.order plan.limit (ts.map (fun t ↦ entry t.1 t.2)), now⟩ := by
  constructor
  · intro h
    obtain ⟨rows, hread, h⟩ := bind_ok h
    obtain ⟨es, hes, h⟩ := bind_ok h
    have hrows := mapError_ok hread
    obtain ⟨ts, hts, hnodup, -, rfl⟩ := (tuples_iff (hclean rows hrows)).1 hes
    exact ⟨rows, ts, hrows, hts, hnodup, (Except.ok.inj h).symm⟩
  · intro h
    obtain ⟨rows, ts, hrows, hts, hnodup, rfl⟩ := h
    have hes := (tuples_iff (hclean rows hrows)).2
      ⟨ts, hts, hnodup, fun _ _ hmem ↦ absurd hmem List.not_mem_nil, rfl⟩
    rw [runBreakdown, hrows]
    change tuples number plan.groupBy column [] rows >>= _ = _
    rw [hes]
    rfl

/-- Flooring loses no row inside the window. -/
theorem floor_mem_starts {b : Bounds} {step : Step} {origin t : ℤ}
    (ho : DateGrid.alignFloor b.fromMs step = some origin) (hto : |b.toMs| ≤ maxTime)
    (hfew : (DateGrid.gridStarts b step).length ≤ maxBuckets) (hlo : origin ≤ t)
    (hhi : t < b.toMs) :
    ∃ start ∈ DateGrid.gridStarts b step, DateGrid.alignFloor t step = some start := by
  have hfrom : |b.fromMs| ≤ maxTime := by
    by_contra hn
    rw [DateGrid.alignFloor, clip, if_neg hn] at ho
    cases ho
  rw [DateGrid.alignFloor_eq hfrom] at ho
  obtain ⟨hfloor, rfl⟩ := DateGrid.clip_some ho
  have hbelow := (abs_le.1 hfloor).1
  have hindex := step.grid.index_mono hlo
  rw [Grid.index_floor] at hindex
  have hmono := step.grid.strictMono.monotone hindex
  have ht : |t| ≤ maxTime := abs_le.2 ⟨hbelow.trans hlo, hhi.le.trans (abs_le.1 hto).2⟩
  rw [DateGrid.gridStarts_eq hfrom hto hbelow] at hfew ⊢
  refine ⟨_, ?_, DateGrid.alignFloor_some ht (hbelow.trans hmono)⟩
  rw [gridStarts_eq hfew, Grid.mem_starts]
  exact ⟨_, rfl, hindex, (step.grid.floor_le t).trans_lt hhi⟩

end

/-- An answer is a success only when every row says something, and its numbers are then those of
the rows. -/
theorem failures_stay_failures (number : JsString → JsNumber) (rt : Runtime) (now : Instant)
    (deadline : Duration) (reader : Reader) (column : JsString)
    (hadd : ∀ n, isFinite n = true → rt.add (0 : ℤ) n = n) :
    (∀ plan : SeriesPlan, plan.calls ≠ [] → (∀ call ∈ plan.calls, ∀ rows,
        Answers reader call rows → ∀ row ∈ rows, Clean column row) →
      ((∃ v, runSeries number rt now deadline reader column plan = .ok v) ↔
        ∀ call ∈ plan.calls, ∃ rows, Answers reader call rows ∧
          ∀ row ∈ rows, ∃ r, Means number rt column plan.groupBy row r) ∧
      ∀ v, runSeries number rt now deadline reader column plan = .ok v →
        ∃ answers readings, List.Forall₂ (Answers reader) plan.calls answers ∧
          List.Forall₂ (Means number rt column plan.groupBy) answers.flatten readings ∧
          v.computedAt = now ∧ Shows rt plan readings v.value ∧
          (∀ g ∈ everyGroup v.value, ∀ b ∈ g.buckets, ∀ r,
            landed plan readings g.key b.start = [r] → b.value = r.value) ∧
          ∀ (b : Bounds) (origin : ℤ), plan.starts = DateGrid.gridStarts b plan.step →
            plan.starts.length ≤ maxBuckets → |b.toMs| ≤ maxTime →
            DateGrid.alignFloor b.fromMs plan.step = some origin →
            ∀ r ∈ readings, origin ≤ r.at' → r.at' < b.toMs →
              ∃ start ∈ plan.starts, DateGrid.alignFloor r.at' plan.step = some start) ∧
    ∀ plan : BreakdownPlan, (∀ rows, reader.read plan.call = .ok rows →
        ∀ row ∈ rows, ∀ s, cellAt row column = .string s → blank s = false) →
      ∀ v, runBreakdown number rt now deadline reader column plan = .ok v ↔
        ∃ rows ts, reader.read plan.call = .ok rows ∧
          List.Forall₂ (Tells number plan.groupBy column) rows ts ∧ (ts.map (·.1)).Nodup ∧
          v = ⟨rank rt plan.order plan.limit (ts.map (fun t ↦ entry t.1 t.2)), now⟩ := by
  refine ⟨fun plan hcalls hclean ↦ ⟨⟨?_, ?_⟩, ?_⟩, fun plan hclean v ↦ runBreakdown_ok_iff hclean⟩
  · intro h call hcall
    obtain ⟨v, hv⟩ := h
    obtain ⟨answers, rs, hanswers, hrs, -⟩ := (runSeries_ok_iff hcalls hclean).1 hv
    obtain ⟨rows, hmem, hrows⟩ := forall₂_left hanswers hcall
    obtain ⟨readings, -, hreadings⟩ := forall₂_left hrs hmem
    refine ⟨rows, hrows, fun row hrow ↦ ?_⟩
    obtain ⟨r, -, hr⟩ := forall₂_left hreadings hrow
    exact ⟨r, hr⟩
  · intro h
    have hall : ∀ call ∈ plan.calls, ∃ p : List RangeRow × List Reading,
        Answers reader call p.1 ∧ List.Forall₂ (Means number rt column plan.groupBy) p.1 p.2 := by
      intro call hcall
      obtain ⟨rows, hrows, hmeans⟩ := h call hcall
      obtain ⟨rs, hrs⟩ := exists_forall₂ hmeans
      exact ⟨(rows, rs), hrows, hrs⟩
    obtain ⟨ps, hps⟩ := exists_forall₂ hall
    refine ⟨_, (runSeries_ok_iff hcalls hclean).2 ⟨ps.map (·.1), ps.map (·.2), ?_, ?_, rfl⟩⟩
    · rw [List.forall₂_map_right_iff]
      exact hps.imp (fun _ _ hp ↦ hp.1)
    · rw [List.forall₂_map_left_iff, List.forall₂_map_right_iff, List.forall₂_same]
      intro p hp
      obtain ⟨call, -, hp⟩ := forall₂_left hps.flip hp
      exact hp.2
  · intro v hv
    obtain ⟨answers, rs, hanswers, hrs, rfl⟩ := (runSeries_ok_iff hcalls hclean).1 hv
    have hmeans := List.rel_flatten hrs
    refine ⟨answers, rs.flatten, hanswers, hmeans, rfl, seriesOf_shows, ?_, ?_⟩
    · intro g hg b hb r hr
      have hin : r ∈ rs.flatten := (List.mem_filter.1 (hr ▸ List.mem_singleton_self r)).1
      obtain ⟨row, -, hrow⟩ := forall₂_left hmeans.flip hin
      rw [seriesOf_shows.values g hg b hb, hr]
      exact hadd _ hrow.value.1
    · intro b origin hstarts hfew hto ho r _ hlo hhi
      rw [hstarts] at hfew ⊢
      exact floor_mem_starts ho hto hfew hlo hhi

end

/-- No text is a number. -/
def noNumber (_ : JsString) : JsNumber := .nan

def dailyRow (day : ℤ) (n : JsNumber) : RangeRow :=
  [(js "bucket", .date (some (day * dayMs))), (js "n", .number n)]

theorem dailyRow_clean (day : ℤ) (n : JsNumber) : Clean (js "n") (dailyRow day n) := by
  constructor
  · intro s hs
    cases hs
  · intro h
    cases h

/-- Two days, read at once. -/
def twoDays : SeriesPlan :=
  ⟨.day, [0, dayMs], [⟨0, 2 * dayMs, dayMs, ⟨none, []⟩, []⟩], none⟩

def byUrl : BreakdownPlan :=
  ⟨[js "url"], .desc, (10 : ℤ), ⟨0, 2 * dayMs, 2 * dayMs, ⟨none, []⟩, [js "url"]⟩⟩

def answering (rows : List RangeRow) : Reader := ⟨fun _ ↦ false, fun _ ↦ .ok rows⟩

theorem zero_add_node (n : JsNumber) (h : isFinite n = true) : nodeRuntime.add (0 : ℤ) n = n := by
  cases n with
  | finite d =>
    have hplus : Decimal.plus (0 : ℤ) d = d := by
      apply Decimal.toRat_injective
      rw [Decimal.plus_toRat, Decimal.intCast_toRat, Int.cast_zero, zero_add]
    exact congrArg JsNumber.finite hplus
  | infinity | nan => cases h

theorem failures_stay_failures_sample :
    (∃ v, runSeries noNumber nodeRuntime 0 1000 (answering [dailyRow 0 (3 : ℤ), dailyRow 1 (4 : ℤ)])
      (js "n") twoDays = .ok v) ∧
    ∃ v, runBreakdown noNumber nodeRuntime 0 1000
      (answering [[(js "url", .null), (js "n", .number (3 : ℤ))]]) (js "n") byUrl = .ok v := by
  constructor
  · refine (((failures_stay_failures noNumber nodeRuntime 0 1000 _ (js "n") zero_add_node).1 twoDays
      (by simp [twoDays]) ?_).1).2 ?_
    · intro call _ rows hrows row hrow
      cases hrows.2
      rcases List.mem_cons.1 hrow with rfl | hrow
      · exact dailyRow_clean _ _
      · obtain rfl := List.mem_singleton.1 hrow
        exact dailyRow_clean _ _
    · intro call _
      refine ⟨_, ⟨rfl, rfl⟩, fun row hrow ↦ ?_⟩
      rcases List.mem_cons.1 hrow with rfl | hrow
      · exact ⟨⟨none, 0, (3 : ℤ)⟩, .inl rfl, ⟨rfl, .inl rfl⟩, rfl⟩
      · obtain rfl := List.mem_singleton.1 hrow
        exact ⟨⟨none, dayMs, (4 : ℤ)⟩, .inl rfl, ⟨rfl, .inl rfl⟩, rfl⟩
  · refine ⟨_, ((failures_stay_failures noNumber nodeRuntime 0 1000 _ (js "n") zero_add_node).2 byUrl
      ?_ _).2 ⟨_, [([none], (3 : ℤ))], rfl, .cons ⟨.cons (.inl rfl) .nil, rfl, .inl rfl⟩ .nil, ?_, rfl⟩⟩
    · intro rows hrows row hrow s hs
      cases hrows
      obtain rfl := List.mem_singleton.1 hrow
      cases hs
    · exact List.nodup_singleton _

/-- Two rows of one day become one number that neither of them holds. -/
theorem repeated_bucket_is_summed :
    runSeries noNumber nodeRuntime 0 1000 (answering [dailyRow 0 (3 : ℤ), dailyRow 0 (4 : ℤ)])
      (js "n") twoDays = .ok ⟨⟨[⟨0, (7 : ℤ)⟩, ⟨dayMs, (0 : ℤ)⟩], none⟩, 0⟩ := by
  rfl

end Counted.Litics.Cells
