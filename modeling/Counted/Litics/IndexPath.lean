import Counted.Litics.Windows

namespace Counted.Litics

open Analytics Foundations Calendar

/-- The reads of the index answer exactly, their rows in any order. -/
def ExactRange (read : RangeQuery → Except EngineFailure (List Row)) (unique : Bool)
    (store : List StoredEvent) : Prop :=
  ∀ q, ∃ rows, read q = .ok rows ∧ rows.Perm (exactRows q unique store)

/-- The events of a window that starts at a time and ends before another. -/
def between (start stop : Instant) (filters : IndexedPlan) (store : List StoredEvent) :
    List StoredEvent :=
  store.filter (fun e ↦ start ≤ e.ts && e.ts < stop && e.passes filters)

section

variable {unique : Bool} {split : Option DimensionName} {bin bin' : StoredEvent → Instant}
  {events store : List StoredEvent}

theorem cellRows_congr (h : ∀ e ∈ events, bin e = bin' e) :
    cellRows bin split unique events = cellRows bin' split unique events := by
  have hkey : ∀ e ∈ events, (bin e, keyOf split e) = (bin' e, keyOf split e) :=
    fun e he ↦ congrArg (·, keyOf split e) (h e he)
  rw [cellRows, cellRows, distinctKeys_congr hkey]
  refine List.map_congr_left (fun c _ ↦ ?_)
  congr 2
  exact List.filter_congr (fun e he ↦ by rw [hkey e he])

/-- The cells of events read bin by bin are the cells of all of them. -/
theorem cellRows_flatMap {bins : List Instant} (hn : bins.Nodup)
    (hmem : ∀ e ∈ events, bin e ∈ bins) :
    (bins.flatMap (fun s ↦ cellRows bin split unique (events.filter (fun e ↦ bin e = s)))).Perm
      (cellRows bin split unique events) := by
  let key (e : StoredEvent) := (bin e, keyOf split e)
  let toRow (c : Instant × Option JsString) : Row :=
    ⟨c.1, groupsOf split c.2, measureOf unique (events.filter (fun e ↦ key e = c))⟩
  have hpart (s : Instant) : cellRows bin split unique (events.filter (fun e ↦ bin e = s)) =
      (distinctKeys key (events.filter (fun e ↦ bin e = s))).map toRow := by
    refine List.map_congr_left (fun c hc ↦ ?_)
    obtain ⟨a, ha, rfl⟩ := mem_distinctKeys.1 hc
    have has : bin a = s := of_decide_eq_true (List.mem_filter.1 ha).2
    simp only [toRow, List.filter_filter]
    congr 2
    refine List.filter_congr (fun e _ ↦ Bool.eq_iff_iff.2 ?_)
    simp only [Bool.and_eq_true, decide_eq_true_eq]
    exact and_iff_left_of_imp (fun h ↦ (Prod.ext_iff.1 h).1.trans has)
  have hkeys : (bins.flatMap (fun s ↦ distinctKeys key (events.filter (fun e ↦ bin e = s)))).Perm
      (distinctKeys key events) := by
    rw [List.perm_ext_iff_of_nodup _ (distinctKeys_nodup _)]
    · intro c
      simp only [List.mem_flatMap, mem_distinctKeys, List.mem_filter, decide_eq_true_eq]
      constructor
      · rintro ⟨s, -, e, ⟨he, -⟩, rfl⟩
        exact ⟨e, he, rfl⟩
      · rintro ⟨e, he, rfl⟩
        exact ⟨bin e, hmem e he, e, ⟨he, rfl⟩, rfl⟩
    · refine List.nodup_flatMap.2 ⟨fun s _ ↦ distinctKeys_nodup _, hn.imp ?_⟩
      intro s t hst
      rw [Function.onFun, List.disjoint_left]
      intro c hc hc'
      obtain ⟨a, ha, rfl⟩ := mem_distinctKeys.1 hc
      obtain ⟨a', ha', he⟩ := mem_distinctKeys.1 hc'
      have has : bin a = s := of_decide_eq_true (List.mem_filter.1 ha).2
      have hat : bin a' = t := of_decide_eq_true (List.mem_filter.1 ha').2
      exact hst (has.symm.trans ((Prod.ext_iff.1 he).1.symm.trans hat))
  simp only [hpart]
  rw [← List.map_flatMap]
  exact hkeys.map toRow

/-- Reads that answer exactly give every row under its key. -/
theorem mapM_keyed {read : RangeQuery → Except EngineFailure (List Row)}
    (hread : ExactRange read unique store) {calls : List RangeQuery}
    (hcalls : ∀ call ∈ calls, call.groupBy = (split.map DimensionName.text).toList) :
    ∃ (pairs : List (List (Option JsString × Bucket))) (rows : List Row), calls.mapM (fun call ↦ do
        (← read call).mapM (keyed (split.map DimensionName.text))) = .ok pairs ∧
      pairs.flatten = rows.map pairOf ∧
      rows.Perm (calls.flatMap (fun call ↦ cellRows call.bin split unique
        (store.filter call.selects))) := by
  induction calls with
  | nil => exact ⟨[], [], rfl, rfl, .refl _⟩
  | cons call calls ih =>
    rw [List.forall_mem_cons] at hcalls
    obtain ⟨pairs, rows, hm, hp, hperm⟩ := ih hcalls.2
    obtain ⟨here, hr, hrp⟩ := hread call
    rw [exactRows_split call hcalls.1] at hrp
    have hkeyed : here.mapM (keyed (split.map DimensionName.text)) = .ok (here.map pairOf) := by
      have hrow : ∀ row ∈ here, keyed (split.map DimensionName.text) row = .ok (pairOf row) := by
        intro row hrow
        obtain ⟨c, -, rfl⟩ := List.mem_map.1 (hrp.mem_iff.1 hrow)
        exact keyed_groupsOf rfl
      clear hr hrp
      induction here with
      | nil => rfl
      | cons row here ih =>
        rw [List.forall_mem_cons] at hrow
        rw [List.mapM_cons, hrow.1, ih hrow.2]
        rfl
    refine ⟨here.map pairOf :: pairs, here ++ rows, ?_, ?_, ?_⟩
    · rw [List.mapM_cons, hr, hm]
      simp only [ok_bind, hkeyed]
      rfl
    · rw [List.flatten_cons, hp, List.map_append]
    · rw [List.flatMap_cons]
      exact hrp.append hperm

end

/-- The bins of a fixed step are those of its calendar. -/
theorem bin_fixed {step : Step} {interval : Duration} (h : stepInterval step = some interval)
    (from' ts : ℤ) : alignFloor from' step + (ts - alignFloor from' step) / interval * interval =
      alignFloor ts step := by
  cases step with
  | hour =>
    obtain rfl := Option.some.inj h
    change (from' / 3600000 * 3600000 + (ts - from' / 3600000 * 3600000) / 3600000 * 3600000 : ℤ) =
      ts / 3600000 * 3600000
    omega
  | day =>
    obtain rfl := Option.some.inj h
    change (from' / 86400000 * 86400000 +
      (ts - from' / 86400000 * 86400000) / 86400000 * 86400000 : ℤ) = ts / 86400000 * 86400000
    omega
  | week =>
    obtain rfl := Option.some.inj h
    -- the fifth day of the epoch is a Monday
    have hweek (t : ℤ) : alignFloor t .week =
        (4 * 86400000 + 7 * 86400000 * ((t - 4 * 86400000) / (7 * 86400000)) : ℤ) :=
      alignFloor_eq t .week
    rw [hweek, hweek]
    change (_ + (ts - _) / (7 * 86400000) * (7 * 86400000) : ℤ) = _
    omega
  | month => cases h

/-- The days a monthly count is read by fall into the months of their events. -/
theorem bin_day (from' ts : ℤ) :
    alignFloor (alignFloor from' .month + (ts - alignFloor from' .month) / dayMs * dayMs) .month =
      alignFloor ts .month := by
  have hday : (alignFloor from' .month + (ts - alignFloor from' .month) / dayMs * dayMs) / dayMs =
      ts / dayMs := by
    have h (m : ℤ) : (m * 86400000 + (ts - m * 86400000) / 86400000 * 86400000 : ℤ) / 86400000 =
        ts / 86400000 := by omega
    exact h _
  simp only [alignFloor] at hday ⊢
  rw [hday]

/-- A month is a whole number of days. -/
theorem month_days (i : ℤ) : round (advance (monthGrid.edge i) .month - monthGrid.edge i) dayMs *
    dayMs = monthGrid.edge (i + 1) - monthGrid.edge i := by
  have ha : advance (monthGrid.edge i) .month = monthGrid.edge (i + 1) := advance_edge i .month
  have he (j : ℤ) : monthGrid.edge j = monthEdge j * dayMs := rfl
  have h (m n : ℤ) : (2 * (m * 86400000 - n * 86400000) + 86400000) / (2 * 86400000) * 86400000 =
      m * 86400000 - n * 86400000 := by omega
  rw [ha, he, he]
  exact h _ _

/-- A month is one bin of its own read. -/
theorem bin_month {i ts : ℤ} (hlo : monthGrid.edge i ≤ ts) (hhi : ts < monthGrid.edge (i + 1)) :
    monthGrid.edge i + (ts - monthGrid.edge i) / (monthGrid.edge (i + 1) - monthGrid.edge i) *
      (monthGrid.edge (i + 1) - monthGrid.edge i) = alignFloor ts .month := by
  have hfloor : alignFloor ts .month = monthGrid.edge i := by
    have hg : alignFloor ts .month = monthGrid.floor ts := alignFloor_eq ts .month
    rw [hg, Grid.floor_eq_edge_iff, Grid.index_eq_iff]
    exact ⟨hlo, hhi⟩
  rw [hfloor, Int.ediv_eq_zero_of_lt (by omega) (by omega), zero_mul, add_zero]

section

variable {unique : Bool} {split : Option DimensionName} {step : Step} {b : Bounds}
  {filters : IndexedPlan} {store : List StoredEvent} {now : Instant}
  {read : RangeQuery → Except EngineFailure (List Row)}

theorem runSeries_eq {starts : List Instant} {calls : List RangeQuery} (hne : calls ≠ [])
    {pairs : List (List (Option JsString × Bucket))}
    (h : calls.mapM (fun call ↦ do
      (← read call).mapM (keyed (split.map DimensionName.text))) = .ok pairs) :
    runSeries now ⟨step, starts, calls, split.map DimensionName.text⟩ read =
      .ok ⟨assembled starts step split pairs.flatten, now⟩ := by
  have hempty : calls.isEmpty = false := by simpa using hne
  rw [runSeries]
  simp only [hempty, h, Bool.false_eq_true, if_false, ok_bind]
  cases split <;> rfl

theorem runSeries_call (starts : List Instant) (hread : ExactRange read unique store)
    {call : RangeQuery} (hcall : call.groupBy = (split.map DimensionName.text).toList)
    (hbin : ∀ e ∈ store.filter call.selects, alignFloor (call.bin e) step = alignFloor e.ts step)
    (hone : unique → ∀ e ∈ store.filter call.selects, call.bin e = alignFloor e.ts step) :
    ∃ s, runSeries now ⟨step, starts, [call], split.map DimensionName.text⟩ read = .ok ⟨s, now⟩ ∧
      SameSeries s (seriesOf unique step starts split (store.filter call.selects)) := by
  have hcalls : ∀ c ∈ [call], c.groupBy = (split.map DimensionName.text).toList :=
    List.forall_mem_singleton.2 hcall
  obtain ⟨pairs, rows, hm, hp, hperm⟩ := mapM_keyed hread hcalls
  rw [List.flatMap_cons, List.flatMap_nil, List.append_nil] at hperm
  refine ⟨_, runSeries_eq (List.cons_ne_nil _ _) hm, ?_⟩
  rw [hp]
  exact assembled_cells starts hperm hbin hone

/-- What the index answers a series with. -/
theorem runSeries_index (hb : b.fromMs < b.toMs) (hmax : (gridStarts b step).length ≤ maxBuckets)
    (hread : ExactRange read unique store) :
    ∃ s, runSeries now ⟨step, gridStarts b step, callsOf (!unique) b step filters
        (split.map DimensionName.text).toList, split.map DimensionName.text⟩ read = .ok ⟨s, now⟩ ∧
      SameSeries s (seriesOf unique step (gridStarts b step) split
        (between (alignFloor b.fromMs step) b.toMs filters store)) := by
  cases hi : stepInterval step with
  | some interval =>
    have hcalls : callsOf (!unique) b step filters (split.map DimensionName.text).toList =
        [⟨alignFloor b.fromMs step, b.toMs, interval, filters,
          (split.map DimensionName.text).toList⟩] := by
      unfold callsOf
      rw [hi]
    have hbin (e : StoredEvent) : alignFloor b.fromMs step +
        (e.ts - alignFloor b.fromMs step) / interval * interval = alignFloor e.ts step :=
      bin_fixed hi b.fromMs e.ts
    rw [hcalls]
    refine runSeries_call _ hread rfl (fun e _ ↦ ?_) (fun _ e _ ↦ hbin e)
    rw [RangeQuery.bin, hbin, alignFloor_eq, alignFloor_eq]
    exact step.grid.floor_edge _
  | none =>
    obtain rfl : step = .month := by cases step <;> first | rfl | cases hi
    cases unique with
    | false =>
      exact runSeries_call _ hread rfl (fun e _ ↦ bin_day b.fromMs e.ts) nofun
    | true =>
      have hstarts := gridStarts_eq hmax
      have hgrid : Step.grid .month = monthGrid := rfl
      let callOf (start : Instant) : RangeQuery :=
        ⟨start, min (advance start .month) b.toMs,
          Analytics.round (advance start .month - start) dayMs * dayMs, filters,
          (split.map DimensionName.text).toList⟩
      have hcalls : callsOf false b .month filters (split.map DimensionName.text).toList =
          (gridStarts b .month).map callOf := by
        simp only [callsOf, stepInterval, monthSpans, List.map_map]
        rfl
      let bin (e : StoredEvent) := alignFloor e.ts .month
      let events := between (alignFloor b.fromMs .month) b.toMs filters store
      have hbin {i ts : ℤ} : alignFloor ts .month = monthGrid.edge i ↔
          monthGrid.edge i ≤ ts ∧ ts < monthGrid.edge (i + 1) := by
        rw [alignFloor_eq, hgrid, Grid.floor_eq_edge_iff, Grid.index_eq_iff]
      have hselect : ∀ start ∈ gridStarts b .month,
          store.filter (callOf start).selects = events.filter (fun e ↦ bin e = start) ∧
          ∀ e ∈ events.filter (fun e ↦ bin e = start), (callOf start).bin e = bin e := by
        intro start hs
        rw [hstarts, Grid.mem_starts] at hs
        obtain ⟨i, rfl, hi, -⟩ := hs
        have hadv : advance (monthGrid.edge i) .month = monthGrid.edge (i + 1) :=
          advance_edge i .month
        have hfrom : alignFloor b.fromMs .month ≤ monthGrid.edge i := by
          rw [alignFloor_eq]
          exact monthGrid.strictMono.monotone hi
        constructor
        · simp only [events, between, List.filter_filter]
          refine List.filter_congr (fun e _ ↦ Bool.eq_iff_iff.2 ?_)
          simp only [RangeQuery.selects, callOf, hgrid, hadv, bin, hbin, Bool.and_eq_true,
            decide_eq_true_eq, lt_min_iff]
          constructor
          · rintro ⟨⟨hlo, hhi, hto⟩, hp⟩
            exact ⟨⟨hlo, hhi⟩, ⟨hfrom.trans hlo, hto⟩, hp⟩
          · rintro ⟨⟨hlo, hhi⟩, ⟨-, hto⟩, hp⟩
            exact ⟨⟨hlo, hhi, hto⟩, hp⟩
        · intro e he
          obtain ⟨hlo, hhi⟩ := hbin.1 (of_decide_eq_true (List.mem_filter.1 he).2)
          simp only [RangeQuery.bin, callOf, hgrid, month_days, bin]
          exact bin_month hlo hhi
      have hcolumn : ∀ call ∈ (gridStarts b .month).map callOf,
          call.groupBy = (split.map DimensionName.text).toList :=
        List.forall_mem_map.2 (fun _ _ ↦ rfl)
      obtain ⟨pairs, rows, hm, hp, hperm⟩ := mapM_keyed hread hcolumn
      have hcells : (((gridStarts b .month).map callOf).flatMap (fun call ↦
          cellRows call.bin split true (store.filter call.selects))).Perm
          (cellRows bin split true events) := by
        rw [List.flatMap_map]
        refine List.Perm.trans (.of_eq (List.flatMap_congr fun start hs ↦ ?_))
          (cellRows_flatMap (?_ : (gridStarts b .month).Nodup) fun e he ↦ ?_)
        · obtain ⟨hsel, hb⟩ := hselect start hs
          rw [hsel]
          exact cellRows_congr hb
        · rw [hstarts]
          exact (Grid.starts_pairwise _ _ _).imp ne_of_lt
        · have he := (List.mem_filter.1 he).2
          simp only [Bool.and_eq_true, decide_eq_true_eq] at he
          rw [hstarts, Grid.mem_starts]
          refine ⟨monthGrid.index e.ts, (alignFloor_eq _ _).symm, ?_, ?_⟩
          · have hle : monthGrid.floor b.fromMs ≤ e.ts :=
              (alignFloor_eq b.fromMs .month).symm.trans_le he.1.1
            exact (monthGrid.index_floor _).symm.trans_le (monthGrid.index_mono hle)
          · exact (monthGrid.floor_le _).trans_lt he.1.2
      have hne : (gridStarts b .month).map callOf ≠ [] := by
        obtain ⟨rest, hs⟩ := @starts_head b .month hb
        rw [hs]
        exact List.cons_ne_nil _ _
      refine ⟨assembled (gridStarts b .month) .month split pairs.flatten, ?_, ?_⟩
      · rw [Bool.not_true, hcalls]
        exact runSeries_eq hne hm
      · rw [hp]
        refine assembled_cells _ (hperm.trans hcells) (fun e _ ↦ ?_) (fun _ _ _ ↦ rfl)
        simp only [bin, alignFloor_eq]
        exact Grid.floor_edge _ _

end

end Counted.Litics
