import Counted.Litics.Filters

namespace Counted.Litics

open Analytics

/-- What a plan of filters must be: no filter on an unknown field is accepted, every filter of the
plan is a column of the index, and the plan keeps the events that the filters keep. -/
structure Plans (catalog : DimensionCatalog) (event : Option EventRestriction) (filters : Filters)
    (plan : IndexedPlan) : Prop where
  known : ∀ f ∈ filters, catalog.status f.1 = .indexed
  indexed : ∀ f ∈ plan.filters, catalog.status f.1 = .indexed ∧ f.1 ≠ DimensionName.eventType.text
  same : ∀ (rt : Runtime) (e : RawEvent),
    passes rt e plan.event plan.filters = passes rt e event filters

/-- Whether the restriction is to none of the events, and a filter is on an unknown field. -/
def Overlooked (catalog : DimensionCatalog) (event : Option EventRestriction) (filters : Filters) :
    Prop :=
  event = some (.anyOf []) ∧ ∃ f ∈ filters, catalog.status f.1 ≠ .indexed

variable {catalog : DimensionCatalog} {event : Option EventRestriction} {filters : Filters}
  {s : Classifying}

theorem parse_key (key : JsString) : (FieldRef.parse key).key = key := by
  rw [FieldRef.parse]
  cases hd : dimensions.find? (fun d ↦ d.text == key) with
  | none => rfl
  | some d =>
    have hkey := List.find?_some hd
    exact beq_iff_eq.1 hkey

theorem parse_not_shadowed (key : JsString) : (FieldRef.parse key).isShadowed = false := by
  rw [FieldRef.parse]
  cases hd : dimensions.find? (fun d ↦ d.text == key) with
  | none =>
    rw [List.find?_eq_none] at hd
    exact List.any_eq_false.2 hd
  | some d => rfl

theorem reason_unclean {r : ScanReason} {p : Prop} (h : (s.reason r).Clean) : p :=
  absurd h (reason_not_clean r)

/-- What the loop makes of a filter. -/
theorem classifyLeaf_filter {f : JsString × JsString}
    (h : (classifyLeaf catalog s (filterLeaf f)).Clean) :
    s.Clean ∧ catalog.status f.1 = .indexed ∧
      (f.1 = DimensionName.eventType.text ∧ s.plan.event = none ∧
          classifyLeaf catalog s (filterLeaf f) = s.restrict (.one f.2) ∨
        f.1 ≠ DimensionName.eventType.text ∧ (∀ g ∈ s.plan.filters, g.1 ≠ f.1) ∧
          classifyLeaf catalog s (filterLeaf f) = s.filter f.1 f.2) := by
  have hleaf : classifyLeaf catalog s (filterLeaf f) = if catalog.status f.1 = .planned then
      s.block f.1 else classifyEquality catalog s (.parse f.1) (.str f.2) := by
    rw [filterLeaf, Predicate.eq, classifyLeaf, classifyField, parse_key]
  rw [hleaf] at h ⊢
  by_cases hp : catalog.status f.1 = .planned
  · rw [if_pos hp] at h
    exact absurd h.1 (by simp [Classifying.block])
  rw [if_neg hp] at h ⊢
  simp only [classifyEquality, parse_key, parse_not_shadowed, Bool.false_eq_true, if_false] at h ⊢
  by_cases hu : catalog.status f.1 = .unknown ∨ catalog.status f.1 = .scanned
  · rw [if_pos hu] at h
    exact reason_unclean h
  rw [if_neg hu] at h ⊢
  have hi : catalog.status f.1 = .indexed := by
    rcases @status_cases catalog f.1 with h | h | h | h
    · exact h
    · exact absurd h hp
    · exact absurd (.inl h) hu
    · exact absurd (.inr h) hu
  by_cases hk : f.1 = DimensionName.eventType.text
  · rw [if_pos hk] at h ⊢
    by_cases hs : s.plan.event.isSome = true
    · rw [if_pos hs] at h
      exact reason_unclean h
    · rw [if_neg hs] at h ⊢
      exact ⟨h, hi, .inl ⟨hk, by simpa using hs, rfl⟩⟩
  · rw [if_neg hk] at h ⊢
    by_cases hf : s.plan.filters.any (fun g ↦ g.1 = f.1) = true
    · rw [if_pos hf] at h
      exact reason_unclean h
    · rw [if_neg hf] at h ⊢
      refine ⟨h, hi, .inr ⟨hk, ?_, rfl⟩⟩
      intro g hg heq
      exact hf (List.any_eq_true.2 ⟨g, hg, decide_eq_true heq⟩)

/-- What the loop makes of an event restriction. -/
theorem classifyLeaf_event {r : EventRestriction} (hr : r.names ≠ [])
    (h : (classifyLeaf catalog .initial (eventLeaf r)).Clean) :
    classifyLeaf catalog .initial (eventLeaf r) =
      Classifying.initial.restrict (withoutRepeats r) := by
  have hleaf := eventLeaf_ofLeaf hr
  cases r with
  | one name =>
    have hfilter : eventLeaf (.one name) = filterLeaf (DimensionName.eventType.text, name) := rfl
    rw [hfilter] at h ⊢
    rcases (classifyLeaf_filter h).2.2 with ⟨-, -, heq⟩ | ⟨hne, -⟩
    · exact heq
    · exact absurd rfl hne
  | anyOf names =>
    have hloop : classifyLeaf catalog .initial (eventLeaf (.anyOf names)) =
        if catalog.status DimensionName.eventType.text = .planned then
          Classifying.initial.block DimensionName.eventType.text
        else classifyEventSet .initial DimensionName.eventType.text (names.map .str) := rfl
    rw [hloop] at h ⊢
    by_cases hp : catalog.status DimensionName.eventType.text = .planned
    · rw [if_pos hp] at h
      exact absurd h.1 (by simp [Classifying.block])
    · rw [if_neg hp]
      exact (classifyEventSet_default _).1 _ hleaf

theorem passes_concat (rt : Runtime) (e : RawEvent) (f : JsString × JsString) :
    passes rt e event (filters ++ [f]) =
      (passes rt e event filters && decide (valueAt rt e f.1 = some f.2)) := by
  rw [passes, passes, List.all_append, List.all_cons, List.all_nil, Bool.and_true, Bool.and_assoc]

theorem passes_withoutRepeats (rt : Runtime) (e : RawEvent) (r : EventRestriction) :
    passes rt e (some (withoutRepeats r)) filters = passes rt e (some r) filters := by
  have hany : (withoutRepeats r).names.any (fun name ↦
      (e.dimension (js "event_type")).strictEq (.str name)) =
      r.names.any (fun name ↦ (e.dimension (js "event_type")).strictEq (.str name)) := by
    rw [Bool.eq_iff_iff, List.any_eq_true, List.any_eq_true]
    simp only [mem_withoutRepeats]
  rw [passes, passes, Option.all_some, Option.all_some, hany]

section

variable (hproto : catalog.status (js "__proto__") ≠ .indexed)

include hproto

/-- A filter that is taken goes into the plan. -/
theorem Plans.step {f : JsString × JsString} (h : Plans catalog event filters s.plan)
    (hclean : (classifyLeaf catalog s (filterLeaf f)).Clean) :
    Plans catalog event (filters ++ [f]) (classifyLeaf catalog s (filterLeaf f)).plan := by
  obtain ⟨-, hi, hcase⟩ := classifyLeaf_filter hclean
  have hknown : ∀ g ∈ filters ++ [f], catalog.status g.1 = .indexed := by
    intro g hg
    rcases List.mem_append.1 hg with hg | hg
    · exact h.known g hg
    · rw [List.mem_singleton.1 hg]
      exact hi
  rcases hcase with ⟨hk, hnone, heq⟩ | ⟨hk, hfresh, heq⟩
  · rw [heq]
    refine ⟨hknown, h.indexed, fun rt e ↦ ?_⟩
    have hcolumn := @text_dimension rt e .eventType f.2
    have hvalue : decide (valueAt rt e f.1 = some f.2) =
        (e.dimension (js "event_type")).strictEq (.str f.2) := by
      rw [Bool.eq_iff_iff, decide_eq_true_eq, hk]
      exact hcolumn
    have hrestrict : (s.restrict (.one f.2)).plan = ⟨some (.one f.2), s.plan.filters⟩ := rfl
    rw [passes_concat, hvalue, ← h.same rt e, hrestrict, hnone, passes, passes, Option.all_some,
      Option.all_none, EventRestriction.names, List.any_cons, List.any_nil, Bool.or_false,
      Bool.true_and, Bool.and_comm]
  · have hne : f.1 ≠ js "__proto__" := by
      intro he
      exact hproto (he ▸ hi)
    have hany : s.plan.filters.any (fun g ↦ g.1 = f.1) = false := by
      rw [List.any_eq_false]
      exact fun g hg ↦ by simpa using hfresh g hg
    have hset : (s.filter f.1 f.2).plan = ⟨s.plan.event, s.plan.filters ++ [f]⟩ := by
      simp only [Classifying.filter, JsObject.set, if_neg hne, hany, if_neg Bool.false_ne_true]
    rw [heq, hset]
    refine ⟨hknown, ?_, fun rt e ↦ ?_⟩
    · intro g hg
      rcases List.mem_append.1 hg with hg | hg
      · exact h.indexed g hg
      · rw [List.mem_singleton.1 hg]
        exact ⟨hi, hk⟩
    · rw [passes_concat, passes_concat, h.same rt e]

/-- Filters that are all taken make a plan. -/
theorem Plans.run (h : Plans catalog event [] s.plan)
    (hclean : ((filters.map filterLeaf).foldl (classifyLeaf catalog) s).Clean) :
    Plans catalog event filters ((filters.map filterLeaf).foldl (classifyLeaf catalog) s).plan := by
  induction filters using List.reverseRecOn with
  | nil => exact h
  | append_singleton filters f ih =>
    rw [List.map_append, List.foldl_append, List.map_cons, List.map_nil, List.foldl_cons,
      List.foldl_nil] at hclean ⊢
    exact (ih (classifyLeaf_filter hclean).1).step hproto hclean

end

def leavesOf (event : Option EventRestriction) (filters : Filters) : List Predicate :=
  (event.map eventLeaf).toList ++ filters.map filterLeaf

theorem leaf_conjuncts {leaf : Predicate} (h : leaf ∈ leavesOf event filters) :
    leaf.conjuncts = [leaf] := by
  rcases List.mem_append.1 h with h | h
  · cases event with
    | none => cases h
    | some r =>
      obtain rfl := List.mem_singleton.1 h
      cases r <;> rfl
  · obtain ⟨f, -, rfl⟩ := List.mem_map.1 h
    rfl

/-- A plan is what the loop has gathered when it finds nothing against it. -/
theorem planFiltersOn_ok {plan : IndexedPlan} (hne : event ≠ some (.anyOf []))
    (h : planFiltersOn catalog event filters = .ok plan) :
    ((leavesOf event filters).foldl (classifyLeaf catalog) .initial).Clean ∧
      plan = ((leavesOf event filters).foldl (classifyLeaf catalog) .initial).plan := by
  have hc : (Predicate.and (leavesOf event filters)).conjuncts = leavesOf event filters :=
    conjuncts_and (fun leaf hl ↦ leaf_conjuncts hl)
  rw [planFiltersOn.eq_def] at h
  split at h
  · exact absurd rfl hne
  change (if (leavesOf event filters).isEmpty then _ else _) = _ at h
  by_cases hnil : (leavesOf event filters).isEmpty = true
  · rw [if_pos hnil] at h
    cases h
    rw [List.isEmpty_iff.1 hnil]
    exact ⟨⟨rfl, rfl⟩, rfl⟩
  · have hfold : classifyPredicate catalog
        (some (.and ((event.map eventLeaf).toList ++ filters.map filterLeaf))) =
        ((leavesOf event filters).foldl (classifyLeaf catalog) .initial).answer :=
      congrArg (fun leaves ↦ (leaves.foldl (classifyLeaf catalog) .initial).answer) hc
    rw [if_neg hnil, hfold, Classifying.answer] at h
    generalize (leavesOf event filters).foldl (classifyLeaf catalog) .initial = s at h
    by_cases hb : s.blockers ≠ []
    · rw [if_pos hb] at h
      cases h
    rw [if_neg hb] at h
    by_cases hr : s.reasons ≠ []
    · rw [if_pos hr] at h
      cases h
    rw [if_neg hr] at h
    cases h
    exact ⟨⟨not_not.1 hb, not_not.1 hr⟩, rfl⟩

/-- The planner emits nothing but filters of the index that keep the events asked for, unless it
is asked for none of the events. -/
theorem planFilters_sound_iff (catalog : DimensionCatalog)
    (hproto : catalog.status (js "__proto__") ≠ .indexed) (event : Option EventRestriction)
    (filters : Filters) :
    (∀ plan, planFiltersOn catalog event filters = .ok plan →
      Plans catalog event filters plan) ↔ ¬ Overlooked catalog event filters := by
  constructor
  · rintro h ⟨rfl, f, hf, hunknown⟩
    exact hunknown ((h _ rfl).known f hf)
  · intro hnot plan hplan
    by_cases hempty : event = some (.anyOf [])
    · subst hempty
      cases hplan
      have hknown : ∀ f ∈ filters, catalog.status f.1 = .indexed := by
        intro f hf
        by_contra hunknown
        exact hnot ⟨rfl, f, hf, hunknown⟩
      refine ⟨hknown, ?_, fun _ _ ↦ rfl⟩
      intro f hf
      obtain ⟨hin, hne⟩ := List.mem_filter.1 hf
      exact ⟨hknown f hin, of_decide_eq_true hne⟩
    obtain ⟨hclean, rfl⟩ := planFiltersOn_ok hempty hplan
    have hinitial : Plans catalog none [] Classifying.initial.plan := by
      refine ⟨?_, ?_, fun _ _ ↦ rfl⟩ <;> intro f hf <;> cases hf
    cases event with
    | none => exact hinitial.run hproto hclean
    | some r =>
      have hr : r.names ≠ [] := by
        cases r with
        | one name => exact List.cons_ne_nil _ _
        | anyOf names =>
          rintro rfl
          exact hempty rfl
      have hsplit : leavesOf (some r) filters = eventLeaf r :: filters.map filterLeaf := rfl
      rw [hsplit, List.foldl_cons] at hclean ⊢
      have hrest : ∀ leaf ∈ filters.map filterLeaf, ∀ operands, leaf ≠ .group .and operands := by
        intro leaf hl operands
        obtain ⟨f, -, rfl⟩ := List.mem_map.1 hl
        intro h
        cases h
      have hfirst := (@loop_spec catalog nodeRuntime _ _ hrest).1.clean hclean
      refine Plans.run hproto ?_ hclean
      rw [classifyLeaf_event hr hfirst]
      refine ⟨?_, ?_, fun rt e ↦ passes_withoutRepeats rt e r⟩ <;> intro f hf <;> cases hf

theorem planFilters_sound_iff_sample :
    Plans defaultCatalog (some (.one (js "open"))) [(js "country", js "GB")]
      ⟨some (.one (js "open")), [(js "country", js "GB")]⟩ := by
  refine (planFilters_sound_iff defaultCatalog (by decide) _ _).2 ?_ _ rfl
  rintro ⟨h, -⟩
  cases h

/-- An unknown field is accepted where no event is asked for, and refused where one is. -/
theorem unknown_filter_accepted :
    (planFilters (some (.anyOf [])) [(js "plan", js "pro")]).toOption =
      some ⟨some (.anyOf []), [(js "plan", js "pro")]⟩ ∧
    (planFilters (some (.one (js "open"))) [(js "plan", js "pro")]).toOption = none ∧
    defaultCatalog.status (js "plan") = .unknown := by
  refine ⟨rfl, rfl, by decide⟩

end Counted.Litics
