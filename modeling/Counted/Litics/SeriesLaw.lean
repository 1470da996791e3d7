import Counted.Analytics.Summary
import Counted.Litics.DateGrid
import Counted.Litics.Tallies

namespace Counted.Litics

open Analytics Foundations Calendar

/-- The buckets of a series. -/
def gridOf (q : SeriesQuery) : List Instant :=
  let starts := DateGrid.gridStarts (dates q.bounds) q.step
  if q.wholeWindow then starts.take 1 else starts

/-- The bucket of an event, which is that of every event where the window is not divided. -/
def slotOf (q : SeriesQuery) (event : RawEvent) : Option Instant :=
  DateGrid.alignFloor (if q.wholeWindow then (dates q.bounds).fromMs else event.ts) q.step

/-- What a bucket is to show of its events. -/
def valueOf (unique : Bool) (events : List RawEvent) : ℕ :=
  if unique then (events.map (·.actor)).toFinset.card else events.length

def everyGroup (s : Series) : List SeriesGroup := s.groups.getD [⟨none, s.buckets⟩]

/-- A series in which each event of a query is counted once. -/
structure Conserves (rt : Runtime) (q : SeriesQuery) (unique : Bool) (events : List RawEvent)
    (s : Series) : Prop where
  shape : s.groups.isSome = (splitField q).isSome ∧ (s.groups.isSome = true → s.buckets = [])
  keys : ((everyGroup s).map (·.key)).Nodup
  starts : ∀ g ∈ everyGroup s, g.buckets.map (·.start) = gridOf q
  placed : ∀ e ∈ kept rt q events, seriesKey rt q e ∈ (everyGroup s).map (·.key) ∧
    ∃ start ∈ gridOf q, slotOf q e = some start
  values : ∀ g ∈ everyGroup s, ∀ bucket ∈ g.buckets, bucket.value =
    (valueOf unique ((kept rt q events).filter (fun e ↦
      seriesKey rt q e = g.key ∧ slotOf q e = some bucket.start)) : ℤ)
  total : unique = false → ∃ counts : List ℕ,
    ((everyGroup s).flatMap (·.buckets)).map (·.value) = numbers counts ∧
      counts.sum = (kept rt q events).length

/-- The same refusal, or the same series up to the order of its groups. -/
def SameSplit : Except JsString Series → Except JsString Series → Prop
  | .error e, .error e' => e = e'
  | .ok s, .ok t => SameSeries s t
  | _, _ => False

/-- Whether a split has more cells than a series may have. -/
def TooMany (rt : Runtime) (q : SeriesQuery) (events : List RawEvent) : Prop :=
  (splitField q).isSome = true ∧
    maxCells < (distinctKeys (seriesKey rt q) (kept rt q events)).length * (gridOf q).length

theorem sum_filter_length {α κ : Type} [DecidableEq κ] {key : α → κ} {labels : List κ} {l : List α}
    (hn : labels.Nodup) (h : ∀ a ∈ l, key a ∈ labels) :
    (labels.map (fun k ↦ (l.filter (fun a ↦ key a = k)).length)).sum = l.length := by
  induction l with
  | nil => simp
  | cons a l ih =>
    have hone : (labels.map (fun k ↦ if key a = k then 1 else 0)).sum = 1 := by
      rw [← List.sum_toFinset _ hn, Finset.sum_ite_eq,
        if_pos (List.mem_toFinset.2 (h a List.mem_cons_self))]
    have hsplit : labels.map (fun k ↦ ((a :: l).filter (fun b ↦ key b = k)).length) =
        labels.map (fun k ↦ (l.filter (fun b ↦ key b = k)).length + if key a = k then 1 else 0) := by
      refine List.map_congr_left (fun k _ ↦ ?_)
      rw [List.filter_cons]
      by_cases hk : key a = k
      · rw [if_pos (decide_eq_true hk), if_pos hk, List.length_cons]
      · rw [if_neg (by simpa using hk), if_neg hk, add_zero]
    rw [hsplit, List.sum_map_add, ih (fun b hb ↦ h b (List.mem_cons_of_mem a hb)), hone,
      List.length_cons]

theorem measured_eq (unique : Bool) (events : List RawEvent) :
    measured unique (events.map (·.actor)) = valueOf unique events := by
  rw [measured, valueOf, List.length_map]
  split_ifs with hu
  · have hset : (events.map (·.actor)).toFinset =
        (distinctKeys id (events.map (·.actor))).toFinset := by
      ext actor
      simp [mem_distinctKeys]
    rw [hset, List.toFinset_card_of_nodup (distinctKeys_nodup _)]
  · rfl

section

variable {rt : Runtime} {q : SeriesQuery} {unique : Bool} {events : List RawEvent}
  {origin : Instant}

section

variable (ho : DateGrid.alignFloor (dates q.bounds).fromMs q.step = some origin)

include ho

theorem origin_dates : |(dates q.bounds).fromMs| ≤ maxTime ∧
    -maxTime ≤ q.step.grid.floor (dates q.bounds).fromMs ∧
    origin = alignFloor (dates q.bounds).fromMs q.step := by
  have hfrom : |(dates q.bounds).fromMs| ≤ maxTime := by
    by_contra hn
    rw [DateGrid.alignFloor, clip, if_neg hn] at ho
    cases ho
  rw [DateGrid.alignFloor_eq hfrom] at ho
  obtain ⟨hfloor, rfl⟩ := DateGrid.clip_some ho
  exact ⟨hfrom, (abs_le.1 hfloor).1, (alignFloor_eq _ _).symm⟩

variable (hto : |(dates q.bounds).toMs| ≤ maxTime)

include hto

theorem gridOf_eq : gridOf q = seriesEdges q := by
  obtain ⟨hfrom, hlo, -⟩ := origin_dates ho
  rw [gridOf, DateGrid.gridStarts_eq hfrom hto hlo]
  rfl

theorem slotOf_eq {e : RawEvent} (hlo : (dates q.bounds).fromMs ≤ e.ts)
    (hhi : e.ts < (dates q.bounds).toMs) :
    slotOf q e = some (alignFloor (if q.wholeWindow then (dates q.bounds).fromMs else e.ts) q.step) := by
  obtain ⟨hfrom, hfloor, -⟩ := origin_dates ho
  have hts : |e.ts| ≤ maxTime := abs_le.2 ⟨(abs_le.1 hfrom).1.trans hlo, hhi.le.trans (abs_le.1 hto).2⟩
  have hmono := q.step.grid.strictMono.monotone (q.step.grid.index_mono hlo)
  rw [slotOf, alignFloor_eq]
  split_ifs
  · exact DateGrid.alignFloor_some hfrom hfloor
  · exact DateGrid.alignFloor_some hts (hfloor.trans hmono)

variable (hfew : (DateGrid.gridStarts (dates q.bounds) q.step).length ≤ maxBuckets)

include hfew

theorem starts_few : (gridStarts (dates q.bounds) q.step).length ≤ maxBuckets := by
  obtain ⟨hfrom, hlo, -⟩ := origin_dates ho
  rwa [← DateGrid.gridStarts_eq hfrom hto hlo]

theorem gridOf_pairwise : (gridOf q).Pairwise (· < ·) := by
  have hstarts : (gridStarts (dates q.bounds) q.step).Pairwise (· < ·) := by
    rw [gridStarts_eq (starts_few ho hto hfew)]
    exact Grid.starts_pairwise _ _ _
  rw [gridOf_eq ho hto, seriesEdges]
  split_ifs
  · exact hstarts.sublist (List.take_sublist _ _)
  · exact hstarts

theorem gridOf_nodup : (gridOf q).Nodup := (gridOf_pairwise ho hto hfew).imp ne_of_lt

/-- No gap is left between two buckets. -/
theorem gridOf_consecutive {i : ℕ} {s t : Instant} (hs : (gridOf q)[i]? = some s)
    (ht : (gridOf q)[i + 1]? = some t) : DateGrid.advance s q.step = some t := by
  obtain ⟨-, hlo, -⟩ := origin_dates ho
  have hedge {j : ℕ} {u : Instant} (hu : (gridStarts (dates q.bounds) q.step)[j]? = some u) :
      u = q.step.grid.edge (q.step.grid.index (dates q.bounds).fromMs + j) ∧ |u| ≤ maxTime := by
    rw [gridStarts_eq (starts_few ho hto hfew)] at hu
    obtain ⟨k, rfl, hk, hstop⟩ := (Grid.mem_starts _).1 (List.mem_of_getElem? hu)
    rw [Grid.starts, List.getElem?_map] at hu
    obtain ⟨n, hn, hku⟩ := Option.map_eq_some_iff.1 hu
    obtain ⟨_, rfl⟩ := List.getElem?_eq_some_iff.1 hn
    rw [List.getElem_range] at hku
    have hfloor := q.step.grid.strictMono.monotone hk
    exact ⟨hku.symm, abs_le.2 ⟨hlo.trans hfloor, hstop.le.trans (abs_le.1 hto).2⟩⟩
  rw [gridOf_eq ho hto, seriesEdges] at hs ht
  split_ifs at hs ht with hw
  · have hlen := (List.getElem?_eq_some_iff.1 ht).1
    rw [List.length_take] at hlen
    omega
  · obtain ⟨rfl, hsdate⟩ := hedge hs
    obtain ⟨rfl, htdate⟩ := hedge ht
    push_cast at htdate ⊢
    rw [← add_assoc] at htdate ⊢
    exact DateGrid.advance_some hsdate (fun _ ↦ (abs_le.1 htdate).2)

variable (hin : ∀ e ∈ events, (dates q.bounds).fromMs ≤ e.ts ∧ e.ts < (dates q.bounds).toMs)

include hin

theorem kept_slotted : Slotted (seriesEdges q) (fun e ↦ alignFloor
    (if q.wholeWindow then (dates q.bounds).fromMs else e.ts) q.step) (kept rt q events) := by
  intro e he
  obtain ⟨hlo, hhi⟩ := hin e (List.mem_filter.1 he).1
  have hfloor : alignFloor (dates q.bounds).fromMs q.step ≤ e.ts := by
    rw [alignFloor_eq]
    exact (q.step.grid.floor_le _).trans hlo
  rw [seriesEdges]
  split_ifs with hw
  · obtain ⟨rest, hstarts⟩ := @starts_head (dates q.bounds) q.step (hlo.trans_lt hhi)
    refine ⟨0, ?_, ?_⟩
    · rw [hstarts]
      simp [edgeSearch, hfloor]
    · rw [hstarts]
      rfl
  · exact edgeSearch_starts (starts_few ho hto hfew) hfloor hhi

/-- Groups of keys, each holding its own events, and no event left out. -/
theorem conserves_of {keys : List (Option JsString)} {s : Series} (hnodup : keys.Nodup)
    (hkeys : ∀ e ∈ kept rt q events, seriesKey rt q e ∈ keys)
    (hshape : s.groups.isSome = (splitField q).isSome ∧ (s.groups.isSome = true → s.buckets = []))
    (hs : everyGroup s = keys.map (fun k ↦ ⟨k, bucketsFor unique (seriesEdges q) (fun e ↦ alignFloor
      (if q.wholeWindow then (dates q.bounds).fromMs else e.ts) q.step)
      ((kept rt q events).filter (fun e ↦ seriesKey rt q e = k))⟩)) :
    Conserves rt q unique events s := by
  have hslots := @kept_slotted rt _ _ _ ho hto hfew hin
  have hedges := gridOf_eq ho hto
  have hslot {e : RawEvent} (he : e ∈ kept rt q events) := slotOf_eq ho hto
    (hin e (List.mem_filter.1 he).1).1 (hin e (List.mem_filter.1 he).1).2
  refine ⟨hshape, ?_, ?_, ?_, ?_, ?_⟩
  · rw [hs, List.map_map]
    simpa [Function.comp_def] using hnodup
  · intro g hg
    rw [hs] at hg
    obtain ⟨k, -, rfl⟩ := List.mem_map.1 hg
    rw [hedges, bucketsFor, List.map_map]
    exact List.map_id _
  · intro e he
    rw [hs, List.map_map]
    obtain ⟨i, -, hi⟩ := hslots e he
    rw [hedges]
    refine ⟨?_, _, List.mem_of_getElem? hi, hslot he⟩
    simpa [Function.comp_def] using hkeys e he
  · intro g hg bucket hb
    rw [hs] at hg
    obtain ⟨k, -, rfl⟩ := List.mem_map.1 hg
    obtain ⟨start, -, rfl⟩ := List.mem_map.1 hb
    dsimp only
    rw [measured_eq, List.filter_filter]
    refine congrArg (fun l ↦ (((valueOf unique l : ℕ) : ℤ) : JsNumber))
      (List.filter_congr (fun e he ↦ ?_))
    have hiff : slotOf q e = some start ↔ alignFloor
        (if q.wholeWindow then (dates q.bounds).fromMs else e.ts) q.step = start := by
      rw [hslot he, Option.some.injEq]
    rw [Bool.decide_and, decide_eq_decide.2 hiff, Bool.and_comm]
  · intro hu
    subst hu
    refine ⟨keys.flatMap (fun k ↦ (seriesEdges q).map (fun start ↦
      (((kept rt q events).filter (fun e ↦ seriesKey rt q e = k)).filter (fun e ↦ alignFloor
        (if q.wholeWindow then (dates q.bounds).fromMs else e.ts) q.step = start)).length)), ?_, ?_⟩
    · rw [hs, numbers, List.map_flatMap, List.map_flatMap, List.flatMap_map]
      refine List.flatMap_congr (fun k _ ↦ ?_)
      rw [bucketsFor, List.map_map, List.map_map]
      refine List.map_congr_left (fun start _ ↦ ?_)
      simp only [Function.comp_apply, measured, Bool.false_eq_true, if_false, List.length_map]
    · have hgroup (k : Option JsString) := @sum_filter_length _ _ _ (fun e : RawEvent ↦ alignFloor
        (if q.wholeWindow then (dates q.bounds).fromMs else e.ts) q.step) (seriesEdges q)
        ((kept rt q events).filter (fun e ↦ seriesKey rt q e = k))
        (hedges ▸ gridOf_nodup ho hto hfew) (fun e he ↦ by
          obtain ⟨i, -, hi⟩ := hslots e (List.mem_filter.1 he).1
          exact List.mem_of_getElem? hi)
      rw [List.flatMap_def, List.sum_flatten, List.map_map]
      simp only [Function.comp_def, hgroup]
      exact sum_filter_length hnodup hkeys

end

theorem valueOf_perm {events events' : List RawEvent} (h : events.Perm events') :
    valueOf unique events = valueOf unique events' := by
  rw [valueOf, valueOf, List.toFinset_eq_of_perm _ _ (h.map _), h.length_eq]

theorem bucketsFor_perm {edges : List Instant} {slot : RawEvent → Instant}
    {events events' : List RawEvent} (h : events.Perm events') :
    bucketsFor unique edges slot events = bucketsFor unique edges slot events' := by
  refine List.map_congr_left (fun s _ ↦ ?_)
  rw [measured_eq, measured_eq, valueOf_perm (h.filter _)]

end

/-- A series counts each event of its window once, in the bucket it is floored to, and does not
depend on the order of the events but for the order of its groups. -/
theorem series_conserves (rt : Runtime) (q : SeriesQuery) (unique : Bool) (events : List RawEvent)
    (origin : Instant) (ho : DateGrid.alignFloor (dates q.bounds).fromMs q.step = some origin)
    (hto : |(dates q.bounds).toMs| ≤ maxTime)
    (hfew : (DateGrid.gridStarts (dates q.bounds) q.step).length ≤ maxBuckets)
    (hin : ∀ e ∈ events, (dates q.bounds).fromMs ≤ e.ts ∧ e.ts < (dates q.bounds).toMs) :
    (gridOf q).Pairwise (· < ·) ∧
    (∀ i s t, (gridOf q)[i]? = some s → (gridOf q)[i + 1]? = some t →
      DateGrid.advance s q.step = some t) ∧
    (TooMany rt q events → rawSeries rt events q unique = .error tooManyCells) ∧
    (¬ TooMany rt q events →
      ∃ s, rawSeries rt events q unique = .ok s ∧ Conserves rt q unique events s) ∧
    ∀ events', events.Perm events' →
      SameSplit (rawSeries rt events q unique) (rawSeries rt events' q unique) := by
  have hedges := gridOf_eq ho hto
  have hnodup := gridOf_nodup ho hto hfew
  have hslots := @kept_slotted rt _ _ _ ho hto hfew hin
  refine ⟨gridOf_pairwise ho hto hfew, fun i s t ↦ gridOf_consecutive ho hto hfew, ?_, ?_, ?_⟩
  · rintro ⟨hs, hcells⟩
    rw [hedges] at hcells
    exact rawSeries_refused hs hslots hcells
  · intro hroom
    by_cases hs : (splitField q).isSome = true
    · have hcells : (distinctKeys (seriesKey rt q) (kept rt q events)).length *
          (seriesEdges q).length ≤ maxCells := by
        rw [← hedges]
        exact not_lt.1 (fun h ↦ hroom ⟨hs, h⟩)
      refine ⟨_, rawSeries_split hs (hedges ▸ hnodup) hslots hcells, ?_⟩
      refine conserves_of ho hto hfew hin (distinctKeys_nodup _) ?_ ⟨hs.symm, fun _ ↦ rfl⟩ rfl
      intro e he
      exact mem_distinctKeys.2 ⟨e, he, rfl⟩
    · have hnone : splitField q = none := by simpa using hs
      have hkey : ∀ e ∈ kept rt q events, seriesKey rt q e = none := fun e _ ↦ by
        rw [seriesKey, hnone, Option.bind_none]
      have hall : (kept rt q events).filter (fun e ↦ seriesKey rt q e = none) =
          kept rt q events := by
        rw [List.filter_eq_self]
        exact fun e he ↦ decide_eq_true (hkey e he)
      refine ⟨_, rawSeries_unsplit hnone (hedges ▸ hnodup) hslots, ?_⟩
      refine @conserves_of rt q unique events origin ho hto hfew hin [none] _
        (List.nodup_singleton _) ?_ ?_ ?_
      · intro e he
        rw [hkey e he]
        exact List.mem_singleton_self _
      · rw [hnone]
        exact ⟨rfl, by intro h; cases h⟩
      · rw [List.map_singleton, hall]
        rfl
  · intro events' hperm
    have hkept : (kept rt q events).Perm (kept rt q events') := hperm.filter _
    have hslots' := @kept_slotted rt _ _ _ ho hto hfew
      (fun e he ↦ hin e (hperm.mem_iff.2 he))
    have hkeys := @distinctKeys_perm _ _ _ (seriesKey rt q) _ _ hkept
    by_cases hs : (splitField q).isSome = true
    · by_cases hcells : (distinctKeys (seriesKey rt q) (kept rt q events)).length *
          (seriesEdges q).length ≤ maxCells
      · have hcells' := hcells
        rw [hkeys.length_eq] at hcells'
        rw [rawSeries_split hs (hedges ▸ hnodup) hslots hcells,
          rawSeries_split hs (hedges ▸ hnodup) hslots' hcells']
        refine ⟨rfl, ?_⟩
        dsimp only
        simp only [bucketsFor_perm (hkept.filter _)]
        exact hkeys.map _
      · have hcells' := not_le.1 hcells
        rw [hkeys.length_eq] at hcells'
        rw [rawSeries_refused hs hslots (not_le.1 hcells), rawSeries_refused hs hslots' hcells']
        rfl
    · have hnone : splitField q = none := by simpa using hs
      rw [rawSeries_unsplit hnone (hedges ▸ hnodup) hslots,
        rawSeries_unsplit hnone (hedges ▸ hnodup) hslots', bucketsFor_perm hkept]
      exact ⟨rfl, trivial⟩

def byCountry : SeriesQuery where
  scope := .project (js "p")
  bounds := ⟨(0 : ℤ), (86400000 : ℤ)⟩
  step := .day
  groupBy := some (js "country")
  wholeWindow := false
  event := none
  filters := none
  predicate := none

def visitFrom (country : JsString) : RawEvent :=
  ⟨3600000, natText 1, [(js "country", some country)], []⟩

theorem series_conserves_sample :
    ∃ s, rawSeries nodeRuntime [visitFrom (js "US"), visitFrom (js "FR")] byCountry false = .ok s ∧
      Conserves nodeRuntime byCountry false [visitFrom (js "US"), visitFrom (js "FR")] s := by
  have hin : ∀ e ∈ [visitFrom (js "US"), visitFrom (js "FR")],
      (dates byCountry.bounds).fromMs ≤ e.ts ∧ e.ts < (dates byCountry.bounds).toMs := by
    intro e he
    rcases List.mem_pair.1 he with rfl | rfl <;> decide
  obtain ⟨-, -, -, hok, -⟩ := series_conserves nodeRuntime byCountry false
    [visitFrom (js "US"), visitFrom (js "FR")] 0 (by decide) (by decide) (by decide) hin
  exact hok (fun h ↦ absurd h.2 (by decide))

/-- The groups stand in the order in which their first events were read. -/
theorem groups_in_reading_order :
    rawSeries nodeRuntime [visitFrom (js "US"), visitFrom (js "FR")] byCountry false =
      .ok ⟨[], some [⟨some (js "US"), [⟨0, (1 : ℤ)⟩]⟩, ⟨some (js "FR"), [⟨0, (1 : ℤ)⟩]⟩]⟩ ∧
    rawSeries nodeRuntime [visitFrom (js "FR"), visitFrom (js "US")] byCountry false ≠
      rawSeries nodeRuntime [visitFrom (js "US"), visitFrom (js "FR")] byCountry false := by
  constructor
  · rfl
  · intro h
    have hgroups : (rawSeries nodeRuntime [visitFrom (js "FR"), visitFrom (js "US")] byCountry
        false).toOption = some ⟨[], some [⟨some (js "FR"), [⟨0, (1 : ℤ)⟩]⟩,
          ⟨some (js "US"), [⟨0, (1 : ℤ)⟩]⟩]⟩ := rfl
    rw [h] at hgroups
    exact absurd hgroups (by decide)

end Counted.Litics
