import Counted.Kernel.JsonText
import Counted.Litics.IndexPath

namespace Counted.Litics

open Analytics Foundations Calendar

def keyJson (k : Option JsString) : Json := (k.map Json.str).getD .null

theorem keyJson_cancel {k k' : Option JsString} {t t' : JsString}
    (h : (keyJson k).stringify ++ t = (keyJson k').stringify ++ t') : k = k' ∧ t = t' := by
  cases k with
  | none =>
    cases k' with
    | none => exact ⟨rfl, List.append_cancel_left h⟩
    | some s => exact absurd (List.cons.inj h).1 (by decide)
  | some s =>
    cases k' with
    | none => exact absurd (List.cons.inj h).1 (by decide)
    | some s' =>
      obtain ⟨rfl, ht⟩ := JsonReader.quote_cancel h
      exact ⟨rfl, ht⟩

theorem keyJson_head (k : Option JsString) (t : JsString) :
    (keyJson k).stringify ++ t ≠ js "]" := by
  cases k with
  | none => exact fun h ↦ absurd (List.cons.inj h).1 (by decide)
  | some s => exact fun h ↦ absurd (List.cons.inj h).1 (by decide)

/-- A tuple can be told from its text. -/
theorem tupleText_injective : Function.Injective tupleText := by
  have hitems : ∀ keys keys' : List (Option JsString),
      Json.stringifyItems (keys.map keyJson) ++ js "]" =
        Json.stringifyItems (keys'.map keyJson) ++ js "]" → keys = keys' := by
    intro keys
    induction keys with
    | nil =>
      intro keys' h
      cases keys' with
      | nil => rfl
      | cons k keys' =>
        cases keys' with
        | nil => exact absurd h.symm (keyJson_head k _)
        | cons l keys' =>
          simp only [List.map_cons, Json.stringifyItems, List.append_assoc] at h
          exact absurd h.symm (keyJson_head k _)
    | cons k keys ih =>
      intro keys' h
      cases keys' with
      | nil =>
        cases keys with
        | nil => exact absurd h (keyJson_head k _)
        | cons l keys =>
          simp only [List.map_cons, Json.stringifyItems, List.append_assoc] at h
          exact absurd h (keyJson_head k _)
      | cons k' keys' =>
        cases keys with
        | nil =>
          cases keys' with
          | nil => rw [(keyJson_cancel h).1]
          | cons l' keys' =>
            simp only [List.map_cons, Json.stringifyItems, List.append_assoc] at h
            exact absurd (keyJson_cancel h).2 (fun hn ↦ absurd (List.cons.inj hn).1 (by decide))
        | cons l keys =>
          cases keys' with
          | nil =>
            simp only [List.map_cons, Json.stringifyItems, List.append_assoc] at h
            exact absurd (keyJson_cancel h).2 (fun hn ↦ absurd (List.cons.inj hn).1 (by decide))
          | cons l' keys' =>
            simp only [List.map_cons, Json.stringifyItems, List.append_assoc] at h
            obtain ⟨rfl, ht⟩ := keyJson_cancel h
            rw [ih (l' :: keys') (List.append_cancel_left ht)]
  intro keys keys' h
  refine hitems keys keys' ?_
  have ht : js "[" ++ Json.stringifyItems (keys.map keyJson) ++ js "]" =
      js "[" ++ Json.stringifyItems (keys'.map keyJson) ++ js "]" := h
  rw [List.append_assoc, List.append_assoc] at ht
  exact List.append_cancel_left ht

theorem get_zip {names : List JsString} (hn : names.Nodup) {keys : List (Option JsString)}
    (hl : keys.length = names.length) :
    names.map (JsObject.get (names.zip keys)) = keys.map some := by
  induction names generalizing keys with
  | nil =>
    rw [List.length_eq_zero_iff.1 hl]
    rfl
  | cons name names ih =>
    cases keys with
    | nil => cases hl
    | cons k keys =>
      rw [List.nodup_cons] at hn
      have hget : ∀ n ∈ names, JsObject.get ((name, k) :: names.zip keys) n =
          JsObject.get (names.zip keys) n := by
        intro n hmem
        have hne : ¬ name = n := fun he ↦ hn.1 (he ▸ hmem)
        simp only [JsObject.get, List.find?_cons, hne, decide_false]
      have hfirst : JsObject.get ((name, k) :: names.zip keys) name = some k := by
        simp [JsObject.get]
      rw [List.zip_cons_cons, List.map_cons, List.map_cons, hfirst, List.map_congr_left hget,
        ih hn.2 (Nat.succ.inj hl)]

def rowKeys (row : Row) : List (Option JsString) := row.groups.map (·.2)

theorem rowKeys_zip {names : List JsString} {row : Row} {keys : List (Option JsString)}
    (h : row.groups = names.zip keys) (hl : keys.length = names.length) : rowKeys row = keys := by
  rw [rowKeys, h]
  exact List.map_snd_zip hl.le

theorem mapM_keyAt {row : Row} {names : List JsString} {keys : List (Option JsString)}
    (h : names.map (JsObject.get row.groups) = keys.map some) :
    names.mapM (keyAt row) = .ok keys := by
  induction names generalizing keys with
  | nil =>
    obtain rfl := List.map_eq_nil_iff.1 h.symm
    rfl
  | cons name names ih =>
    cases keys with
    | nil => cases h
    | cons k keys =>
      rw [List.map_cons, List.map_cons, List.cons.injEq] at h
      rw [List.mapM_cons, keyAt, h.1, ih h.2]
      rfl

/-- Rows of different tuples are all taken. -/
theorem entries_ok {names : List JsString} (hn : names.Nodup) {rows : List Row}
    (hrow : ∀ row ∈ rows, ∃ keys, row.groups = names.zip keys ∧ keys.length = names.length)
    (hnodup : (rows.map rowKeys).Nodup) {seen : List JsString}
    (hseen : ∀ row ∈ rows, tupleText (rowKeys row) ∉ seen) :
    entries names seen rows = .ok (rows.map (fun row ↦ entryOf (rowKeys row) row.value)) := by
  induction rows generalizing seen with
  | nil => rfl
  | cons row rows ih =>
    rw [List.forall_mem_cons] at hrow hseen
    rw [List.map_cons, List.nodup_cons] at hnodup
    obtain ⟨keys, hg, hl⟩ := hrow.1
    have hkeys := rowKeys_zip hg hl
    have hget := get_zip hn hl
    rw [← hg] at hget
    have hread := mapM_keyAt hget
    have hrest : ∀ row' ∈ rows, tupleText (rowKeys row') ∉ tupleText keys :: seen := by
      intro row' hr' hmem
      rcases List.mem_cons.1 hmem with he | hmem
      · have he := tupleText_injective he
        rw [← hkeys] at he
        exact hnodup.1 (he ▸ List.mem_map_of_mem hr')
      · exact hseen.2 row' hr' hmem
    have hfresh : seen.contains (tupleText keys) = false := by
      have := hseen.1
      rw [hkeys] at this
      simpa using this
    simp only [entries, hread, ok_bind, hfresh, Bool.false_eq_true, if_false,
      ih hrow.2 hnodup.2 hrest, List.map_cons, hkeys]
    rfl

section

variable {rt : Runtime} {unique : Bool} {fields : List DimensionName} {b : Bounds} {step : Step}
  {filters : IndexedPlan} {store : List StoredEvent} {now : Instant}
  {read : RangeQuery → Except EngineFailure (List Row)}

/-- What the index answers a breakdown with. -/
theorem runBreakdown_index (hn : fields.Nodup) (hread : ExactRange read unique store)
    (order : SortDirection) (limit : JsNumber) :
    ∃ rows, runBreakdown rt now ⟨fields.map DimensionName.text, order, limit,
        ⟨alignFloor b.fromMs step, b.toMs, binOf b step, filters,
          fields.map DimensionName.text⟩⟩ read = .ok ⟨rank rt order limit rows, now⟩ ∧
      rows.Perm (rowsOf unique fields
        (between (alignFloor b.fromMs step) b.toMs filters store)) := by
  let q : RangeQuery := ⟨alignFloor b.fromMs step, b.toMs, binOf b step, filters,
    fields.map DimensionName.text⟩
  let events := between (alignFloor b.fromMs step) b.toMs filters store
  let tuple (e : StoredEvent) := fields.map e.column
  have hcell : ∀ e ∈ events, q.cellOf e = (alignFloor b.fromMs step, tuple e) := by
    intro e he
    have hsel := (List.mem_filter.1 he).2
    simp only [Bool.and_eq_true, decide_eq_true_eq] at hsel
    have hspan := @span_le_binOf b step
    have hbin : q.bin e = alignFloor b.fromMs step := by
      have hz : (e.ts - alignFloor b.fromMs step) / binOf b step = 0 :=
        Int.ediv_eq_zero_of_lt (sub_nonneg.2 hsel.1.1)
          ((sub_lt_sub_right hsel.1.2 _).trans_le hspan)
      simp only [RangeQuery.bin, q, hz, zero_mul, add_zero]
    refine Prod.ext hbin ?_
    simp only [RangeQuery.cellOf, q, List.map_map, tuple]
    exact List.map_congr_left (fun d _ ↦ e.columnAt_text d)
  obtain ⟨rows, hr, hperm⟩ := hread q
  have hexact : exactRows q unique store = (distinctKeys tuple events).map (fun keys ↦
      ⟨alignFloor b.fromMs step, (fields.map DimensionName.text).zip keys,
        measureOf unique (events.filter (fun e ↦ tuple e = keys))⟩) := by
    have hinj : Function.Injective (fun keys : List (Option JsString) ↦
        (alignFloor b.fromMs step, keys)) := fun a b h ↦ (Prod.mk.inj h).2
    have hsel : store.filter q.selects = events := rfl
    simp only [exactRows, hsel]
    rw [distinctKeys_congr hcell, distinctKeys_comp hinj, List.map_map]
    refine List.map_congr_left (fun keys _ ↦ ?_)
    simp only [Function.comp_apply, q, measureOf]
    congr 3
    refine List.filter_congr (fun e he ↦ decide_eq_decide.2 ?_)
    rw [hcell e he]
    exact hinj.eq_iff
  rw [hexact] at hperm
  have hlen : ∀ keys ∈ distinctKeys tuple events,
      keys.length = (fields.map DimensionName.text).length := by
    intro keys hk
    obtain ⟨e, -, rfl⟩ := mem_distinctKeys.1 hk
    simp [tuple]
  have hrow : ∀ row ∈ rows, ∃ keys, row.groups = (fields.map DimensionName.text).zip keys ∧
      keys.length = (fields.map DimensionName.text).length := by
    intro row hrow
    obtain ⟨keys, hk, rfl⟩ := List.mem_map.1 (hperm.mem_iff.1 hrow)
    exact ⟨keys, rfl, hlen keys hk⟩
  have hkeys : ((distinctKeys tuple events).map (fun keys ↦ Row.mk (alignFloor b.fromMs step)
      ((fields.map DimensionName.text).zip keys)
      (measureOf unique (events.filter (fun e ↦ tuple e = keys))))).map rowKeys =
      distinctKeys tuple events := by
    rw [List.map_map]
    refine Eq.trans (List.map_congr_left fun keys hk ↦ ?_) (List.map_id _)
    exact rowKeys_zip rfl (hlen keys hk)
  have hnodup : (rows.map rowKeys).Nodup := by
    rw [(hperm.map rowKeys).nodup_iff, hkeys]
    exact distinctKeys_nodup _
  have hentries := @entries_ok _ (hn.map DimensionName.text_injective) _ hrow hnodup []
    (fun _ _ ↦ List.not_mem_nil)
  refine ⟨_, ?_, (hperm.map (fun row ↦ entryOf (rowKeys row) row.value)).trans (.of_eq ?_)⟩
  · simp only [runBreakdown]
    have hr' : read ⟨alignFloor b.fromMs step, b.toMs, binOf b step, filters,
      fields.map DimensionName.text⟩ = .ok rows := hr
    rw [hr', ok_bind, hentries]
    rfl
  · rw [List.map_map, rowsOf]
    refine List.map_congr_left (fun keys hk ↦ ?_)
    simp only [Function.comp_apply]
    rw [rowKeys_zip rfl (hlen keys hk)]

end

end Counted.Litics
