import Counted.Analytics.Restriction
import Counted.Litics.Engine

namespace Counted.Litics

open Analytics

/-- Whether the columns of an event are as restricted. -/
def holds (column : DimensionName → Option JsString) : Restriction → Bool
  | .event r => r.names.any (fun name ↦ column .eventType = some name)
  | .filter d _ value => column d = some value

/-- The plan of restrictions of different dimensions keeps the events all of them keep. -/
theorem passes_plan (e : StoredEvent) {rs : List Restriction}
    (hn : (rs.map Restriction.about).Nodup) :
    e.passes (Restriction.plan rs) = rs.all (holds e.column) := by
  induction rs with
  | nil => rfl
  | cons r rs ih =>
    rw [List.map_cons, List.nodup_cons] at hn
    rw [List.all_cons, ← ih hn.2]
    cases r with
    | event r =>
      have hr : rs.findSome? Restriction.event? = none := by
        have := mt Restriction.event_isSome.1 hn.1
        simpa [Restriction.plan] using this
      have hplan : Restriction.plan (.event r :: rs) = ⟨some r, (Restriction.plan rs).filters⟩ := rfl
      rw [hplan, StoredEvent.passes, StoredEvent.passes, Restriction.plan, hr, holds]
      rfl
    | filter d hd value =>
      have hplan : Restriction.plan (.filter d hd value :: rs) =
          ⟨(Restriction.plan rs).event, (d.text, value) :: (Restriction.plan rs).filters⟩ := rfl
      rw [hplan, StoredEvent.passes, StoredEvent.passes, List.all_cons, e.columnAt_text, holds,
        Bool.and_left_comm]

theorem strictEq_column (e : StoredEvent) (d : DimensionName) (s : JsString) :
    (fieldValue e.record (.dimension d)).strictEq (.str s) = decide (e.column d = some s) := by
  have hf : fieldValue e.record (.dimension d) = e.record.dimension d.text := rfl
  rw [hf, e.dimension_record]
  cases e.column d with
  | none => rfl
  | some t => simp [JsValue.strictEq]

theorem holds_ofLeaf (e : StoredEvent) {leaf : Predicate} {r : Restriction}
    (h : Restriction.ofLeaf leaf = some r) : leaf.matches e.record = holds e.column r := by
  unfold Restriction.ofLeaf at h
  split at h
  · rename_i d value
    cases h
    rw [Predicate.matches, strictEq_column]
    by_cases hd : d = .eventType
    · simp [hd, holds, EventRestriction.names]
    · simp [hd, holds]
  · rename_i values
    split_ifs at h with hv
    obtain ⟨names, hnames, rfl⟩ := Option.map_eq_some_iff.1 h
    rw [stringValues_eq hnames, Predicate.matches, List.any_map, holds, EventRestriction.names,
      Bool.eq_iff_iff, List.any_eq_true, List.any_eq_true]
    simp only [Function.comp_apply, strictEq_column, List.mem_eraseDups]
  · cases h

/-- The index keeps the events a predicate it serves holds of. -/
theorem matches_eq_passes (e : StoredEvent) {p : Predicate} {plan : IndexedPlan} {queries : ℕ}
    (h : classifyPredicate defaultCatalog (some p) = .indexed plan queries) :
    p.matches e.record = e.passes plan := by
  obtain ⟨rs, hrs, hn, rfl, -⟩ := classify_default.1 h
  rw [passes_plan e hn, Bool.eq_iff_iff, matches_conjuncts, List.all_eq_true]
  clear h hn
  generalize p.conjuncts = leaves at hrs
  induction leaves generalizing rs with
  | nil =>
    obtain rfl := List.map_eq_nil_iff.1 hrs.symm
    simp
  | cons leaf leaves ih =>
    cases rs with
    | nil => cases hrs
    | cons r rs =>
      rw [List.map_cons, List.map_cons, List.cons.injEq] at hrs
      simp only [List.forall_mem_cons, ih rs hrs.2, holds_ofLeaf e hrs.1]

theorem holds_congr {column column' : DimensionName → Option JsString} {r : Restriction}
    (h : column r.about = column' r.about) : holds column r = holds column' r := by
  cases r with
  | event r =>
    have hc : column .eventType = column' .eventType := h
    rw [holds, holds, hc]
  | filter d hd value =>
    have hc : column d = column' d := h
    rw [holds, holds, hc]

theorem names_ne_nil {leaf : Predicate} {r : EventRestriction}
    (h : Restriction.ofLeaf leaf = some (.event r)) : r.names ≠ [] := by
  unfold Restriction.ofLeaf at h
  split at h
  · rename_i d value
    by_cases hd : d = .eventType
    · simp only [hd, dite_true, Option.some.injEq, Restriction.event.injEq] at h
      exact h ▸ List.cons_ne_nil _ _
    · simp [hd] at h
  · rename_i values
    split_ifs at h with hv
    obtain ⟨names, hnames, he⟩ := Option.map_eq_some_iff.1 h
    cases he
    obtain ⟨name, hname⟩ := List.exists_mem_of_ne_nil names (fun hn ↦ hv (by
      rw [stringValues_eq hnames, hn, List.map_nil]))
    exact List.ne_nil_of_mem (List.mem_eraseDups.2 hname)
  · cases h

theorem exists_value {leaf : Predicate} {r : Restriction} (h : Restriction.ofLeaf leaf = some r) :
    ∃ value, ∀ column, column r.about = some value → holds column r = true := by
  cases r with
  | filter d hd value => exact ⟨value, fun column hc ↦ decide_eq_true hc⟩
  | event r =>
    obtain ⟨name, hname⟩ := List.exists_mem_of_ne_nil _ (names_ne_nil h)
    exact ⟨name, fun column hc ↦ List.any_eq_true.2 ⟨name, hname, decide_eq_true hc⟩⟩

/-- The index is never asked for what no event can have. -/
theorem exists_column {rs : List Restriction}
    (hrs : ∀ r ∈ rs, ∃ leaf, Restriction.ofLeaf leaf = some r)
    (hn : (rs.map Restriction.about).Nodup) : ∃ column, rs.all (holds column) = true := by
  induction rs with
  | nil => exact ⟨fun _ ↦ none, rfl⟩
  | cons r rs ih =>
    rw [List.forall_mem_cons] at hrs
    rw [List.map_cons, List.nodup_cons] at hn
    obtain ⟨column, hc⟩ := ih hrs.2 hn.2
    obtain ⟨leaf, hl⟩ := hrs.1
    obtain ⟨value, hv⟩ := exists_value hl
    refine ⟨Function.update column r.about (some value), ?_⟩
    rw [List.all_cons, hv _ (Function.update_self ..), Bool.true_and, List.all_eq_true]
    intro r' hr'
    have hne : r'.about ≠ r.about := fun he ↦ hn.1 (he ▸ List.mem_map_of_mem hr')
    rw [holds_congr (Function.update_of_ne hne ..)]
    exact List.all_eq_true.1 hc r' hr'

section

variable {rs : List Restriction}

/-- The restrictions that the plan's filters stand for. -/
def filtersOf (rs : List Restriction) : List Restriction := rs.filter (·.event?.isNone)

theorem filterLeaf_text {d : DimensionName} (hd : d ≠ .eventType) (value : JsString) :
    Restriction.ofLeaf (filterLeaf (d.text, value)) = some (.filter d hd value) := by
  have hp : FieldRef.parse d.text = .dimension d := by
    rw [FieldRef.parse, find_dimension]
    rfl
  rw [filterLeaf, hp, Predicate.eq, Restriction.ofLeaf, dif_neg hd]

theorem filterLeaves (rs : List Restriction) :
    ((Restriction.plan rs).filters.map filterLeaf).map Restriction.ofLeaf =
      (filtersOf rs).map some := by
  induction rs with
  | nil => rfl
  | cons r rs ih =>
    cases r with
    | event r => exact ih
    | filter d hd value =>
      have hf : filtersOf (.filter d hd value :: rs) = .filter d hd value :: filtersOf rs := rfl
      have hp : (Restriction.plan (.filter d hd value :: rs)).filters =
          (d.text, value) :: (Restriction.plan rs).filters := rfl
      rw [hf, hp, List.map_cons, List.map_cons, List.map_cons, filterLeaf_text hd, ih]

theorem filtersOf_nodup (hn : (rs.map Restriction.about).Nodup) :
    ((filtersOf rs).map Restriction.about).Nodup := hn.sublist (List.filter_sublist.map _)

theorem eventType_notMem_filtersOf (rs : List Restriction) :
    DimensionName.eventType ∉ (filtersOf rs).map Restriction.about := by
  intro h
  obtain ⟨r, hr, ha⟩ := List.mem_map.1 h
  cases r with
  | event r => exact absurd (List.mem_filter.1 hr).2 (by simp [Restriction.event?])
  | filter d hd value => exact hd ha

theorem plan_filtersOf (rs : List Restriction) :
    Restriction.plan (filtersOf rs) = ⟨none, (Restriction.plan rs).filters⟩ := by
  induction rs with
  | nil => rfl
  | cons r rs ih =>
    cases r with
    | event r => exact ih
    | filter d hd value =>
      have hf : filtersOf (.filter d hd value :: rs) = .filter d hd value :: filtersOf rs := rfl
      have hp (rs : List Restriction) : Restriction.plan (.filter d hd value :: rs) =
        ⟨(Restriction.plan rs).event, (d.text, value) :: (Restriction.plan rs).filters⟩ := rfl
      rw [hf, hp, hp, ih]

/-- An event restriction without repeats. -/
def withoutRepeats : EventRestriction → EventRestriction
  | .one name => .one name
  | .anyOf names => .anyOf names.eraseDups

theorem mem_withoutRepeats {r : EventRestriction} {name : JsString} :
    name ∈ (withoutRepeats r).names ↔ name ∈ r.names := by
  cases r with
  | one n => rfl
  | anyOf names => exact List.mem_eraseDups

theorem eventLeaf_ofLeaf {r : EventRestriction} (hr : r.names ≠ []) :
    Restriction.ofLeaf (eventLeaf r) = some (.event (withoutRepeats r)) := by
  cases r with
  | one name => rfl
  | anyOf names =>
    have hv : names.map ScalarValue.str ≠ [] := fun h ↦ hr (List.map_eq_nil_iff.1 h)
    have hs : stringValues (names.map ScalarValue.str) = some names := by
      clear hr hv
      induction names with
      | nil => rfl
      | cons name names ih =>
        rw [stringValues] at ih ⊢
        rw [List.map_cons, List.mapM_cons, ih]
        rfl
    rw [eventLeaf, Predicate.isIn, Restriction.ofLeaf, if_neg hv, hs]
    rfl

theorem conjuncts_of_ofLeaf {leaf : Predicate} {r : Restriction}
    (h : Restriction.ofLeaf leaf = some r) : leaf.conjuncts = [leaf] := by
  cases leaf with
  | group op operands => cases h
  | _ => rfl

theorem conjuncts_and {leaves : List Predicate}
    (h : ∀ leaf ∈ leaves, leaf.conjuncts = [leaf]) : (Predicate.and leaves).conjuncts = leaves := by
  have hflat : leaves.flatMap Predicate.conjuncts = leaves := by
    rw [List.flatMap_congr h, List.flatMap_singleton']
  rw [Predicate.and.eq_def]
  split
  · exact h _ (List.mem_singleton_self _)
  · rw [Predicate.conjuncts, Predicate.conjunctsOf_eq, hflat]

/-- The adapter's own classification of leaves that are restrictions. -/
theorem planFilters_leaves {event : Option EventRestriction} {filters : Filters}
    (he : ∀ r ∈ event, r.names ≠ [])
    (hrs : (event.map eventLeaf).toList.map Restriction.ofLeaf ++
      (filters.map filterLeaf).map Restriction.ofLeaf = rs.map some)
    (hn : (rs.map Restriction.about).Nodup) :
    planFilters event filters = .ok (Restriction.plan rs) := by
  have hleaves : ((event.map eventLeaf).toList ++ filters.map filterLeaf).map Restriction.ofLeaf =
      rs.map some := by rw [List.map_append, hrs]
  generalize hls : (event.map eventLeaf).toList ++ filters.map filterLeaf = leaves at hleaves
  have hc : (Predicate.and leaves).conjuncts = leaves := by
    refine conjuncts_and (fun leaf hl ↦ ?_)
    obtain ⟨r, -, hr⟩ := List.mem_map.1 (hleaves ▸ List.mem_map_of_mem hl)
    exact conjuncts_of_ofLeaf hr.symm
  rw [planFilters, planFiltersOn.eq_def, hls]
  split
  · exact absurd rfl (he _ rfl)
  dsimp only
  rw [classify_default.2 ⟨rs, by rw [hc, hleaves], hn, rfl, rfl⟩]
  split_ifs with hnil
  · rw [List.isEmpty_iff.1 hnil] at hleaves
    rw [List.map_eq_nil_iff.1 hleaves.symm]
    rfl
  · rfl

end

/-- What the domain serves from the index the adapter takes, and it keeps the same events. -/
theorem planFilters_served {p : Option Predicate} {plan : IndexedPlan} {queries : ℕ}
    (h : classifyPredicate defaultCatalog p = .indexed plan queries) :
    ∃ plan', planFilters plan.event plan.filters = .ok plan' ∧
      ∀ e : StoredEvent, e.passes plan' = e.passes plan := by
  cases p with
  | none =>
    cases h
    exact ⟨_, rfl, fun _ ↦ rfl⟩
  | some p =>
    obtain ⟨rs, hrs, hn, rfl, -⟩ := classify_default.1 h
    have hmem {r : EventRestriction} (hr : r ∈ (Restriction.plan rs).event) : r.names ≠ [] := by
      obtain ⟨r', hr', he⟩ := List.exists_of_findSome?_eq_some hr
      obtain ⟨leaf, -, hl⟩ := List.mem_map.1 (hrs ▸ List.mem_map_of_mem hr')
      cases r' with
      | event r' =>
        cases he
        exact names_ne_nil hl
      | filter d hd value => cases he
    cases hev : (Restriction.plan rs).event with
    | none =>
      refine ⟨_, planFilters_leaves nofun (filterLeaves rs) (filtersOf_nodup hn), fun e ↦ ?_⟩
      rw [plan_filtersOf, ← hev]
    | some r =>
      have hr := hmem hev
      have hrs' : ((some r).map eventLeaf).toList.map Restriction.ofLeaf ++
          ((Restriction.plan rs).filters.map filterLeaf).map Restriction.ofLeaf =
          (.event (withoutRepeats r) :: filtersOf rs : List Restriction).map some := by
        rw [filterLeaves, List.map_cons, ← eventLeaf_ofLeaf hr]
        rfl
      refine ⟨_, planFilters_leaves (fun r' hr' ↦ Option.some.inj hr' ▸ hr) hrs' ?_, fun e ↦ ?_⟩
      · exact List.nodup_cons.2 ⟨eventType_notMem_filtersOf rs, filtersOf_nodup hn⟩
      · have hplan : Restriction.plan (.event (withoutRepeats r) :: filtersOf rs) =
            ⟨some (withoutRepeats r), (Restriction.plan (filtersOf rs)).filters⟩ := rfl
        have hany : (withoutRepeats r).names.any (fun name ↦ e.column .eventType = some name) =
            r.names.any (fun name ↦ e.column .eventType = some name) := by
          rw [Bool.eq_iff_iff, List.any_eq_true, List.any_eq_true]
          simp only [mem_withoutRepeats]
        rw [hplan, plan_filtersOf, StoredEvent.passes, StoredEvent.passes, hev, Option.all_some,
          Option.all_some, hany]

end Counted.Litics
