import Counted.Litics.Windows
import Counted.Litics.Index

namespace Counted.Litics

open Analytics Foundations Calendar

/-- Halving ends between the edges that are not after an instant and those that are. -/
theorem edgeSearch_spec {edges : List Instant} {ts : ℤ} (hsorted : edges.Pairwise (· < ·))
    (fuel lo hi : ℕ) (hfuel : hi ≤ lo + fuel) (hlo : lo ≤ hi) (hhi : hi ≤ edges.length)
    (hbefore : ∀ i < lo, ∀ s, edges[i]? = some s → s ≤ ts)
    (hafter : ∀ i, hi ≤ i → ∀ s, edges[i]? = some s → ts < s) :
    edgeSearch edges ts fuel lo hi ≤ edges.length ∧
      (∀ i < edgeSearch edges ts fuel lo hi, ∀ s, edges[i]? = some s → s ≤ ts) ∧
      ∀ i, edgeSearch edges ts fuel lo hi ≤ i → ∀ s, edges[i]? = some s → ts < s := by
  have hmono {i j : ℕ} {s t : Instant} (hij : i ≤ j) (hs : edges[i]? = some s)
      (ht : edges[j]? = some t) : s ≤ t := by
    obtain ⟨hi, rfl⟩ := List.getElem?_eq_some_iff.1 hs
    obtain ⟨hj, rfl⟩ := List.getElem?_eq_some_iff.1 ht
    rcases hij.eq_or_lt with rfl | hlt
    · exact le_rfl
    · exact (List.pairwise_iff_getElem.1 hsorted i j hi hj hlt).le
  induction fuel generalizing lo hi with
  | zero =>
    obtain rfl : lo = hi := by omega
    exact ⟨hhi, hbefore, hafter⟩
  | succ fuel ih =>
    rw [edgeSearch]
    by_cases hlt : lo < hi
    · have hmid : (lo + hi) / 2 < edges.length := by omega
      have hget : edges[(lo + hi) / 2]? = some (edges.getD ((lo + hi) / 2) 0) := by
        rw [List.getD_eq_getElem?_getD, List.getElem?_eq_getElem hmid, Option.getD_some]
      simp only [if_pos hlt]
      by_cases hle : edges.getD ((lo + hi) / 2) 0 ≤ ts
      · rw [if_pos hle]
        refine ih _ _ (by omega) (by omega) hhi (fun i hi s hs ↦ ?_) hafter
        exact (hmono (by omega) hs hget).trans hle
      · rw [if_neg hle]
        refine ih _ _ (by omega) (by omega) hmid.le hbefore (fun i hi s hs ↦ ?_)
        exact (not_le.1 hle).trans_le (hmono hi hget hs)
    · rw [if_neg hlt]
      obtain rfl : lo = hi := by omega
      exact ⟨hhi, hbefore, hafter⟩

/-- An instant of the window is in the bucket it is floored to. -/
theorem edgeSearch_starts {b : Bounds} {step : Step}
    (hmax : (gridStarts b step).length ≤ maxBuckets) {ts : ℤ}
    (hlo : alignFloor b.fromMs step ≤ ts) (hhi : ts < b.toMs) :
    ∃ i, edgeSearch (gridStarts b step) ts (gridStarts b step).length 0
        (gridStarts b step).length = i + 1 ∧
      (gridStarts b step)[i]? = some (alignFloor ts step) := by
  have hstarts := gridStarts_eq hmax
  have hsorted : (gridStarts b step).Pairwise (· < ·) := by
    rw [hstarts]
    exact Grid.starts_pairwise _ _ _
  obtain ⟨hlen, hbefore, hafter⟩ := @edgeSearch_spec _ ts hsorted (gridStarts b step).length 0
    (gridStarts b step).length (by omega) (Nat.zero_le _) le_rfl nofun
    (fun i hi s hs ↦ absurd (List.getElem?_eq_some_iff.1 hs).1 (not_lt.2 hi))
  generalize edgeSearch (gridStarts b step) ts (gridStarts b step).length 0
    (gridStarts b step).length = n at hlen hbefore hafter
  have hmem : alignFloor ts step ∈ gridStarts b step := by
    rw [hstarts, Grid.mem_starts, alignFloor_eq]
    rw [alignFloor_eq] at hlo
    have hi := step.grid.index_mono hlo
    rw [Grid.index_floor] at hi
    exact ⟨_, rfl, hi, (step.grid.floor_le ts).trans_lt hhi⟩
  obtain ⟨i, hi⟩ := List.mem_iff_getElem?.1 hmem
  have hfloor : alignFloor ts step ≤ ts := by
    rw [alignFloor_eq]
    exact step.grid.floor_le ts
  have hin : i < n := by
    by_contra hn
    exact absurd (hafter i (not_lt.1 hn) _ hi) (not_lt.2 hfloor)
  refine ⟨i, ?_, hi⟩
  by_contra hne
  -- else the next edge would not be after the instant either
  have hlt : i + 1 < (gridStarts b step).length := by omega
  have hget := List.getElem?_eq_getElem hlt
  have hle := hbefore (i + 1) (by omega) _ hget
  have hi' : i < (gridStarts b step).length := by omega
  have hnext := List.pairwise_iff_getElem.1 hsorted i (i + 1) hi' hlt (Nat.lt_succ_self i)
  have hin' := List.getElem_mem hlt
  rw [List.getElem?_eq_getElem hi', Option.some.injEq] at hi
  rw [hi, alignFloor_eq] at hnext
  generalize (gridStarts b step)[i + 1] = s at hle hnext hin'
  rw [hstarts, Grid.mem_starts] at hin'
  obtain ⟨j, rfl, -, -⟩ := hin'
  exact absurd (step.grid.edge_le_iff.1 hle) (not_le.2 (step.grid.strictMono.lt_iff_lt.1 hnext))

theorem map_modify {α β : Type} [DecidableEq α] {l : List α} (hn : l.Nodup) {i : ℕ} {x : α}
    (h : l[i]? = some x) (f : α → β) (g : β → β) :
    (l.map f).modify i g = l.map (fun a ↦ if a = x then g (f a) else f a) := by
  refine List.ext_getElem? (fun j ↦ ?_)
  rw [List.getElem?_modify, List.getElem?_map, List.getElem?_map]
  cases hj : l[j]? with
  | none => rfl
  | some a =>
    have hij : i = j ↔ a = x := by
      obtain ⟨hi, hx⟩ := List.getElem?_eq_some_iff.1 h
      obtain ⟨hj, ha⟩ := List.getElem?_eq_some_iff.1 hj
      rw [← hx, ← ha, hn.getElem_inj_iff]
      exact eq_comm
    by_cases he : i = j
    · simp [he, hij.1 he]
    · simp [he, mt hij.2 he]

/-- What a bucket has gathered of the events of some actors. -/
def gathered (unique : Bool) (actors : List JsString) : Tally :=
  actors.foldl (fun t actor ↦ t.add unique actor) .empty

theorem gathered_eq (unique : Bool) (actors : List JsString) : gathered unique actors =
    ⟨actors.length, if unique then distinctKeys id actors else []⟩ := by
  induction actors using List.reverseRecOn with
  | nil => cases unique <;> rfl
  | append_singleton actors actor ih =>
    rw [gathered, List.foldl_append, List.foldl_cons, List.foldl_nil, ← gathered, ih, Tally.add,
      List.length_append, List.length_singleton]
    cases unique with
    | false => rfl
    | true =>
      have hd := @distinctKeys_concat _ _ _ (id : JsString → JsString) actors actor
      simp only [if_true, Bool.true_and, id_eq] at hd ⊢
      rw [hd]
      by_cases h : actor ∈ distinctKeys id actors
      · simp [h]
      · simp [h]

theorem gathered_value (unique : Bool) (actors : List JsString) :
    (gathered unique actors).value unique = measured unique actors := by
  rw [gathered_eq, Tally.value, measured]
  cases unique <;> rfl

/-- Puts an event that was read into its bucket. -/
def fill (unique : Bool) (edges : List Instant) (buckets : List Tally) (event : RawEvent) :
    List Tally :=
  match edgeSearch edges event.ts edges.length 0 edges.length with
  | 0 => buckets
  | i + 1 => buckets.modify i (·.add unique event.actor)

/-- Whether each event is put into the bucket that is given for it. -/
def Slotted (edges : List Instant) (slot : RawEvent → Instant) (events : List RawEvent) : Prop :=
  ∀ e ∈ events, ∃ i, edgeSearch edges e.ts edges.length 0 edges.length = i + 1 ∧
    edges[i]? = some (slot e)

/-- The buckets of a list of events. -/
def filled (unique : Bool) (edges : List Instant) (slot : RawEvent → Instant)
    (events : List RawEvent) : List Tally :=
  edges.map (fun s ↦ gathered unique ((events.filter (fun e ↦ slot e = s)).map (·.actor)))

section

variable {rt : Runtime} {q : SeriesQuery} {unique : Bool} {edges : List Instant}
  {slot : RawEvent → Instant} {events : List RawEvent} {groups : Groups} {e : RawEvent}

theorem Slotted.of_append {events' : List RawEvent} (h : Slotted edges slot (events ++ events')) :
    Slotted edges slot events :=
  fun e he ↦ h e (List.mem_append_left _ he)

theorem Slotted.ne_zero (h : Slotted edges slot events) (he : e ∈ events) :
    edgeSearch edges e.ts edges.length 0 edges.length ≠ 0 := by
  obtain ⟨i, hi, -⟩ := h e he
  rw [hi]
  exact Nat.succ_ne_zero i

theorem foldl_fill (hnodup : edges.Nodup) (h : Slotted edges slot events) :
    events.foldl (fill unique edges) (edges.map (fun _ ↦ Tally.empty)) =
      filled unique edges slot events := by
  induction events using List.reverseRecOn with
  | nil => rfl
  | append_singleton events e ih =>
    obtain ⟨i, hi, hs⟩ := h e (List.mem_append_right _ (List.mem_singleton_self e))
    rw [List.foldl_append, List.foldl_cons, List.foldl_nil, ih h.of_append, fill, hi]
    dsimp only
    rw [filled, map_modify hnodup hs]
    refine List.map_congr_left (fun s _ ↦ ?_)
    by_cases hse : s = slot e
    · rw [if_pos hse, List.filter_append, hse]
      simp [gathered]
    · rw [if_neg hse, List.filter_append]
      simp [gathered, Ne.symm hse]

/-- An event that opens no group too many goes into its bucket. -/
theorem addEvent_fill (hcells : seriesKey rt q e ∈ groups.map (·.1) ∨
      (groups.length + 1) * edges.length ≤ maxCells)
    (hedge : edgeSearch edges e.ts edges.length 0 edges.length ≠ 0) :
    addEvent rt q unique edges groups e = .ok (upsert (seriesKey rt q)
      (edges.map (fun _ ↦ Tally.empty)) (fill unique edges) groups e) := by
  have hlimit : ¬ (groups.all (fun g ↦ g.1 ≠ seriesKey rt q e) = true ∧
      maxCells < (groups.length + 1) * edges.length) := by
    rintro ⟨hall, hlt⟩
    rcases hcells with hmem | hle
    · obtain ⟨g, hgm, hgk⟩ := List.mem_map.1 hmem
      exact absurd hgk (by simpa using List.all_eq_true.1 hall g hgm)
    · omega
  rw [addEvent]
  simp only [if_neg hlimit]
  cases hi : edgeSearch edges e.ts edges.length 0 edges.length with
  | zero => exact absurd hi hedge
  | succ i =>
    have hfill (buckets : List Tally) : fill unique edges buckets e =
        buckets.modify i (·.add unique e.actor) := by rw [fill, hi]
    simp only [upsert, hfill]

theorem addEvent_refused (hnew : seriesKey rt q e ∉ groups.map (·.1))
    (hcells : maxCells < (groups.length + 1) * edges.length) :
    addEvent rt q unique edges groups e = .error tooManyCells := by
  have hall : groups.all (fun g ↦ g.1 ≠ seriesKey rt q e) = true := by
    rw [List.all_eq_true]
    intro g hg
    exact decide_eq_true (fun h ↦ hnew (List.mem_map.2 ⟨g, hg, h⟩))
  rw [addEvent]
  exact if_pos ⟨hall, hcells⟩

theorem foldlM_unkeyed (h : Slotted edges slot events)
    (hkey : ∀ e ∈ events, seriesKey rt q e = none) (buckets : List Tally) :
    events.foldlM (addEvent rt q unique edges) [(none, buckets)] =
      .ok [(none, events.foldl (fill unique edges) buckets)] := by
  induction events using List.reverseRecOn with
  | nil => rfl
  | append_singleton events e ih =>
    have hnone := hkey e (List.mem_append_right _ (List.mem_singleton_self e))
    have hedge := h.ne_zero (List.mem_append_right _ (List.mem_singleton_self e))
    have hkeys : ∀ e ∈ events, seriesKey rt q e = none :=
      fun e he ↦ hkey e (List.mem_append_left _ he)
    have hmem : seriesKey rt q e ∈ ([(none, events.foldl (fill unique edges) buckets)] :
        Groups).map (·.1) := by
      rw [hnone]
      exact List.mem_singleton_self _
    rw [List.foldlM_append, ih h.of_append hkeys, ok_bind, List.foldlM_cons,
      addEvent_fill (.inl hmem) hedge, ok_bind, List.foldl_append, upsert, if_pos, hnone]
    · rfl
    · simp [hnone]

/-- An event of a key that is there, or for which there is room. -/
theorem room_concat (hcells : (distinctKeys (seriesKey rt q) (events ++ [e])).length *
      edges.length ≤ maxCells) :
    seriesKey rt q e ∈ distinctKeys (seriesKey rt q) events ∨
      ((distinctKeys (seriesKey rt q) events).length + 1) * edges.length ≤ maxCells := by
  rw [distinctKeys_concat] at hcells
  by_cases hk : seriesKey rt q e ∈ distinctKeys (seriesKey rt q) events
  · exact .inl hk
  · rw [if_neg hk, List.length_append, List.length_singleton] at hcells
    exact .inr hcells

theorem distinctKeys_length_concat {α κ : Type} [DecidableEq κ] {key : α → κ} (l : List α) (a : α) :
    (distinctKeys key l).length ≤ (distinctKeys key (l ++ [a])).length := by
  rw [distinctKeys_concat]
  split_ifs
  · exact le_rfl
  · exact (List.prefix_append _ _).length_le

theorem foldlM_keyed (h : Slotted edges slot events)
    (hcells : (distinctKeys (seriesKey rt q) events).length * edges.length ≤ maxCells) :
    events.foldlM (addEvent rt q unique edges) [] =
      .ok (groupBy (seriesKey rt q) (edges.map (fun _ ↦ Tally.empty)) (fill unique edges)
        events) := by
  induction events using List.reverseRecOn with
  | nil => rfl
  | append_singleton events e ih =>
    have hedge := h.ne_zero (List.mem_append_right _ (List.mem_singleton_self e))
    have hprefix := (Nat.mul_le_mul_right _
      (@distinctKeys_length_concat _ _ _ (seriesKey rt q) events e)).trans hcells
    have hlen : (groupBy (seriesKey rt q) (edges.map (fun _ ↦ Tally.empty)) (fill unique edges)
        events).length = (distinctKeys (seriesKey rt q) events).length := by
      rw [← groupBy_keys, List.length_map]
    have hroom := room_concat hcells
    rw [← hlen, ← groupBy_keys] at hroom
    rw [List.foldlM_append, ih h.of_append hprefix, ok_bind, List.foldlM_cons,
      addEvent_fill hroom hedge, ok_bind, groupBy, groupBy, List.foldl_append]
    rfl

theorem foldlM_refused (h : Slotted edges slot events)
    (hcells : maxCells < (distinctKeys (seriesKey rt q) events).length * edges.length) :
    events.foldlM (addEvent rt q unique edges) [] = .error tooManyCells := by
  induction events using List.reverseRecOn with
  | nil =>
    have hnil : distinctKeys (seriesKey rt q) [] = [] := by simp [distinctKeys]
    rw [hnil, List.length_nil, Nat.zero_mul] at hcells
    omega
  | append_singleton events e ih =>
    rw [List.foldlM_append]
    by_cases hprefix : (distinctKeys (seriesKey rt q) events).length * edges.length ≤ maxCells
    · have hnew : seriesKey rt q e ∉ distinctKeys (seriesKey rt q) events := by
        intro hk
        rw [distinctKeys_concat, if_pos hk] at hcells
        omega
      rw [distinctKeys_concat, if_neg hnew, List.length_append, List.length_singleton] at hcells
      rw [foldlM_keyed h.of_append hprefix, ok_bind, List.foldlM_cons]
      rw [← @groupBy_keys _ _ _ _ (seriesKey rt q) (edges.map (fun _ ↦ Tally.empty))
        (fill unique edges) events] at hnew hcells
      rw [List.length_map] at hcells
      rw [addEvent_refused hnew hcells]
      rfl
    · rw [ih h.of_append (not_le.1 hprefix)]
      rfl

/-- The buckets of a list of events, as they are answered. -/
def bucketsFor (unique : Bool) (edges : List Instant) (slot : RawEvent → Instant)
    (events : List RawEvent) : List EngineBucket :=
  edges.map (fun s ↦
    ⟨s, (measured unique ((events.filter (fun e ↦ slot e = s)).map (·.actor)) : ℤ)⟩)

theorem zip_filled (edges : List Instant) :
    (edges.zip (filled unique edges slot events)).map
      (fun b ↦ EngineBucket.mk b.1 ((b.2.value unique : ℕ) : ℤ)) =
      bucketsFor unique edges slot events := by
  rw [filled, List.map_zip_eq_zipWith, List.zipWith_map_right, List.zipWith_self, bucketsFor]
  refine List.map_congr_left (fun s _ ↦ ?_)
  rw [← gathered_value]
  rfl

/-- The events a query is about. -/
def kept (rt : Runtime) (q : SeriesQuery) (events : List RawEvent) : List RawEvent :=
  events.filter (fun event ↦ included rt event q.predicate q.event (q.filters.getD []))

theorem filter_included : events.filter (fun event ↦
    included rt event q.predicate q.event (q.filters.getD [])) = kept rt q events := rfl

theorem rawSeries_unsplit (hs : splitField q = none) (hnodup : (seriesEdges q).Nodup)
    (h : Slotted (seriesEdges q) slot (kept rt q events)) :
    rawSeries rt events q unique =
      .ok ⟨bucketsFor unique (seriesEdges q) slot (kept rt q events), none⟩ := by
  have hkey : ∀ e ∈ kept rt q events, seriesKey rt q e = none := fun e _ ↦ by
    rw [seriesKey, hs, Option.bind_none]
  rw [rawSeries, hs]
  simp only [Option.isNone_none, if_true, filter_included, foldlM_unkeyed h hkey, foldl_fill hnodup h,
    ok_bind, List.map_cons, List.map_nil, zip_filled]
  rfl

theorem rawSeries_split (hs : (splitField q).isSome) (hnodup : (seriesEdges q).Nodup)
    (h : Slotted (seriesEdges q) slot (kept rt q events))
    (hcells : (distinctKeys (seriesKey rt q) (kept rt q events)).length *
      (seriesEdges q).length ≤ maxCells) :
    rawSeries rt events q unique =
      .ok ⟨[], some ((distinctKeys (seriesKey rt q) (kept rt q events)).map (fun k ↦
        ⟨k, bucketsFor unique (seriesEdges q) slot
          ((kept rt q events).filter (fun e ↦ seriesKey rt q e = k))⟩))⟩ := by
  have hnone : (splitField q).isNone = false := by
    rw [← Option.not_isSome, hs]
    rfl
  rw [rawSeries]
  simp only [hnone, Bool.false_eq_true, if_false, filter_included, foldlM_keyed h hcells, ok_bind, hs,
    if_true, groupBy_eq, List.map_map]
  refine congrArg (fun g ↦ Except.ok (Series.mk [] (some g))) (List.map_congr_left fun k _ ↦ ?_)
  have hk : Slotted (seriesEdges q) slot
      ((kept rt q events).filter (fun e ↦ seriesKey rt q e = k)) :=
    fun e he ↦ h e (List.mem_filter.1 he).1
  simp only [Function.comp_apply, foldl_fill hnodup hk, zip_filled]

theorem rawSeries_refused (hs : (splitField q).isSome)
    (h : Slotted (seriesEdges q) slot (kept rt q events))
    (hcells : maxCells < (distinctKeys (seriesKey rt q) (kept rt q events)).length *
      (seriesEdges q).length) : rawSeries rt events q unique = .error tooManyCells := by
  have hnone : (splitField q).isNone = false := by
    rw [← Option.not_isSome, hs]
    rfl
  rw [rawSeries]
  simp only [hnone, Bool.false_eq_true, if_false, filter_included, foldlM_refused h hcells]
  rfl

end

end Counted.Litics
