import Counted.Litics.Answers

namespace Counted.Litics

open Analytics Foundations Calendar

def keyOf (split : Option DimensionName) (e : StoredEvent) : Option JsString := split.bind e.column

/-- The column a series is split by, under its name. -/
def groupsOf (split : Option DimensionName) (key : Option JsString) :
    List (JsString × Option JsString) :=
  (split.map (fun d ↦ (d.text, key))).toList

/-- A row for each bin and key that has an event. -/
def cellRows (bin : StoredEvent → Instant) (split : Option DimensionName) (unique : Bool)
    (events : List StoredEvent) : List Row :=
  (distinctKeys (fun e ↦ (bin e, keyOf split e)) events).map (fun c ↦
    ⟨c.1, groupsOf split c.2, measureOf unique (events.filter (fun e ↦ (bin e, keyOf split e) = c))⟩)

theorem exactRows_split (q : RangeQuery) {split : Option DimensionName}
    (hq : q.groupBy = (split.map DimensionName.text).toList) (unique : Bool)
    (store : List StoredEvent) :
    exactRows q unique store = cellRows q.bin split unique (store.filter q.selects) := by
  cases split with
  | none =>
    have hcell (e : StoredEvent) : q.cellOf e = (q.bin e, []) := by
      rw [RangeQuery.cellOf, hq]
      rfl
    have hk := @distinctKeys_comp _ _ _ q.bin _ _ (fun b ↦ (b, ([] : List (Option JsString))))
      (fun a b h ↦ congrArg Prod.fst h) (store.filter q.selects)
    have hk' := @distinctKeys_comp _ _ _ q.bin _ _ (fun b ↦ (b, (none : Option JsString)))
      (fun a b h ↦ congrArg Prod.fst h) (store.filter q.selects)
    have hnone (e : StoredEvent) : keyOf none e = none := rfl
    have hfun : q.cellOf = fun e ↦ (q.bin e, []) := funext hcell
    simp only [exactRows, cellRows, hfun, hnone, hk, hk', List.map_map, hq]
    refine List.map_congr_left (fun b _ ↦ ?_)
    simp [groupsOf, measureOf]
  | some d =>
    have hcell (e : StoredEvent) : q.cellOf e = (q.bin e, [e.column d]) := by
      rw [RangeQuery.cellOf, hq]
      simp [e.columnAt_text]
    have hinj : Function.Injective (fun c : Instant × Option JsString ↦ (c.1, [c.2])) := by
      intro a b h
      rw [Prod.mk.injEq, List.cons.injEq] at h
      exact Prod.ext h.1 h.2.1
    have hk := @distinctKeys_comp _ _ _ (fun e ↦ (q.bin e, e.column d)) _ _ _ hinj
      (store.filter q.selects)
    have hsome (e : StoredEvent) : keyOf (some d) e = e.column d := rfl
    have hfun : q.cellOf = fun e ↦ (q.bin e, [e.column d]) := funext hcell
    simp only [exactRows, cellRows, hfun, hsome, hk, List.map_map, hq]
    refine List.map_congr_left (fun c _ ↦ ?_)
    simp only [Function.comp_apply, groupsOf, measureOf, Option.map_some, Option.toList_some,
      List.zip_cons_cons, List.zip_nil_left]
    congr 3
    refine List.filter_congr (fun e _ ↦ decide_eq_decide.2 ?_)
    exact hinj.eq_iff (a := (q.bin e, e.column d)) (b := c)

/-- A row under its value of the column. -/
def pairOf (row : Row) : Option JsString × Bucket :=
  (row.groups.head?.bind (·.2), ⟨row.bucket, row.value⟩)

theorem keyed_groupsOf {split : Option DimensionName} {row : Row} {key : Option JsString}
    (h : row.groups = groupsOf split key) :
    keyed (split.map DimensionName.text) row = .ok (pairOf row) := by
  cases split with
  | none => rw [pairOf, h]; rfl
  | some d =>
    have hget : JsObject.get row.groups d.text = some key := by
      rw [h, JsObject.get, groupsOf]
      simp
    simp only [keyed, Option.map_some, hget, pairOf]
    rw [h]
    rfl

section

variable {unique : Bool} {step : Step} {split : Option DimensionName}
  {bin : StoredEvent → Instant} {events : List StoredEvent} {rows : List Row}

/-- Where the bins are within those of the grid, and are those of the grid for a distinct count,
the rows of a key fold into what its events come to. -/
theorem engineBuckets_cells (starts : List Instant)
    (hrows : rows.Perm (cellRows bin split unique events))
    (hbin : ∀ e ∈ events, alignFloor (bin e) step = alignFloor e.ts step)
    (hone : unique → ∀ e ∈ events, bin e = alignFloor e.ts step) (k : Option JsString) :
    engineBuckets starts step ((rows.map pairOf).filter (fun p ↦ p.1 = k) |>.map (·.2)) =
      bucketsOf unique step starts (events.filter (fun e ↦ keyOf split e = k)) := by
  let key (e : StoredEvent) := (bin e, keyOf split e)
  let toRow (c : Instant × Option JsString) : Row :=
    ⟨c.1, groupsOf split c.2, measureOf unique (events.filter (fun e ↦ key e = c))⟩
  have hpair : ∀ c ∈ distinctKeys key events, pairOf (toRow c) = (c.2, ⟨c.1, (toRow c).value⟩) := by
    intro c hc
    obtain ⟨e, -, rfl⟩ := mem_distinctKeys.1 hc
    cases split <;> rfl
  rw [engineBuckets, densify, bucketsOf, List.map_map]
  refine List.map_congr_left (fun start _ ↦ ?_)
  let P (c : Instant × Option JsString) : Prop := c.2 = k ∧ alignFloor c.1 step = start
  have hcells : (((rows.map pairOf).filter (fun p ↦ p.1 = k) |>.map (·.2)).filter
      (fun row ↦ alignFloor row.start step = start) |>.map (·.value)).sum =
      (((distinctKeys key events).filter (fun c ↦ P c)).map
        (fun c ↦ measureOf unique (events.filter (fun e ↦ key e = c)))).sum := by
    have hperm := (((((hrows.map pairOf).filter (fun p ↦ p.1 = k)).map (·.2)).filter
      (fun row ↦ alignFloor row.start step = start)).map (·.value)).sum_eq
    have hmap : (cellRows bin split unique events).map pairOf =
        (distinctKeys key events).map (fun c ↦ (c.2, ⟨c.1, (toRow c).value⟩)) := by
      rw [cellRows, List.map_map]
      exact List.map_congr_left hpair
    rw [hperm, hmap]
    simp only [List.filter_map, List.map_map, List.filter_filter]
    congr 2
    refine List.filter_congr (fun c _ ↦ Bool.eq_iff_iff.2 ?_)
    simp only [Function.comp_apply, Bool.and_eq_true, decide_eq_true_eq, P]
    exact and_comm
  have hunique : unique → ∀ a ∈ events, ∀ b ∈ events, P (key a) → P (key b) → key a = key b := by
    intro hu a ha b hb hpa hpb
    refine Prod.ext ?_ (hpa.1.trans hpb.1.symm)
    have hfloor {e : StoredEvent} (he : e ∈ events) (hp : P (key e)) : bin e = start := by
      rw [hone hu e he, ← hbin e he]
      exact hp.2
    exact (hfloor ha hpa).trans (hfloor hb hpb).symm
  have hsum : ((((rows.map pairOf).filter (fun p ↦ p.1 = k) |>.map (·.2)).filter
      (fun row ↦ alignFloor row.start step = start) |>.map (·.value)).sum) =
      measureOf unique ((events.filter (fun e ↦ keyOf split e = k)).filter
        (fun e ↦ alignFloor e.ts step = start)) := by
    rw [hcells, sum_cells events P hunique, List.filter_filter]
    congr 1
    refine List.filter_congr (fun e he ↦ ?_)
    have hb : alignFloor (key e).1 step = alignFloor e.ts step := hbin e he
    simp only [P, hb, Bool.decide_and]
    exact Bool.and_comm ..
  simp only [Function.comp_apply]
  rw [hsum]

/-- What `runSeries` makes of the rows. -/
def assembled (starts : List Instant) (step : Step) (split : Option DimensionName)
    (pairs : List (Option JsString × Bucket)) : Series :=
  if split.isSome then
    ⟨[], some ((groupBy (·.1) [] (fun items row ↦ items ++ [row.2]) pairs).map (fun g ↦
      ⟨g.1, engineBuckets starts step g.2⟩))⟩
  else ⟨engineBuckets starts step (pairs.map (·.2)), none⟩

theorem foldl_concat {α β : Type} (f : α → β) (l : List α) (m : List β) :
    l.foldl (fun items a ↦ items ++ [f a]) m = m ++ l.map f := by
  induction l generalizing m with
  | nil => simp
  | cons a l ih => simp [ih]

/-- The rows of the index come to the series of the events they are of. -/
theorem assembled_cells (starts : List Instant)
    (hrows : rows.Perm (cellRows bin split unique events))
    (hbin : ∀ e ∈ events, alignFloor (bin e) step = alignFloor e.ts step)
    (hone : unique → ∀ e ∈ events, bin e = alignFloor e.ts step) :
    SameSeries (assembled starts step split (rows.map pairOf))
      (seriesOf unique step starts split events) := by
  cases split with
  | none =>
    have hk := engineBuckets_cells starts hrows hbin hone none
    have hall : (rows.map pairOf).filter (fun p ↦ p.1 = none) = rows.map pairOf := by
      refine List.filter_eq_self.2 (fun p hp ↦ decide_eq_true ?_)
      obtain ⟨row, hrow, rfl⟩ := List.mem_map.1 hp
      obtain ⟨c, -, rfl⟩ := List.mem_map.1 (hrows.mem_iff.1 hrow)
      rfl
    have hevents : events.filter (fun e ↦ keyOf none e = none) = events :=
      List.filter_eq_self.2 (fun _ _ ↦ rfl)
    rw [hall, hevents] at hk
    exact ⟨hk, trivial⟩
  | some d =>
    refine ⟨rfl, ?_⟩
    have hkeys : (distinctKeys (·.1) (rows.map pairOf)).Perm
        (distinctKeys (·.column d) events) := by
      rw [List.perm_ext_iff_of_nodup (distinctKeys_nodup _) (distinctKeys_nodup _)]
      intro k
      rw [mem_distinctKeys, mem_distinctKeys]
      constructor
      · rintro ⟨p, hp, rfl⟩
        obtain ⟨row, hrow, rfl⟩ := List.mem_map.1 hp
        obtain ⟨c, hc, rfl⟩ := List.mem_map.1 (hrows.mem_iff.1 hrow)
        obtain ⟨e, he, rfl⟩ := mem_distinctKeys.1 hc
        exact ⟨e, he, rfl⟩
      · rintro ⟨e, he, rfl⟩
        have hc : (bin e, keyOf (some d) e) ∈
            distinctKeys (fun e ↦ (bin e, keyOf (some d) e)) events :=
          mem_distinctKeys.2 ⟨e, he, rfl⟩
        exact ⟨_, List.mem_map_of_mem (hrows.mem_iff.2 (List.mem_map_of_mem hc)), rfl⟩
    simp only [assembled, seriesOf, Option.isSome_some, if_true, groupBy_eq, List.map_map]
    refine List.Perm.trans (.of_eq (List.map_congr_left fun k _ ↦ ?_)) (hkeys.map _)
    rw [Function.comp_apply, foldl_concat, List.nil_append]
    exact congrArg (SeriesGroup.mk k) (engineBuckets_cells starts hrows hbin hone k)

end

end Counted.Litics
