import Counted.Analytics.Answerability
import Counted.Analytics.Measure

namespace Counted.Analytics

theorem matches_conjuncts (event : RawEvent) (p : Predicate) :
    p.matches event = true ↔ ∀ leaf ∈ p.conjuncts, leaf.matches event = true := by
  induction p with
  | group op operands ih =>
    cases op with
    | and =>
      simp only [Predicate.matches, matchesAll_eq, List.all_eq_true, Predicate.conjuncts,
        Predicate.conjunctsOf_eq, List.mem_flatMap]
      constructor
      · rintro h leaf ⟨p, hp, hl⟩
        exact (ih p hp).1 (h p hp) leaf hl
      · intro h p hp
        exact (ih p hp).2 (fun leaf hl ↦ h leaf ⟨p, hp, hl⟩)
    | or => simp [Predicate.conjuncts]
  | _ => simp [Predicate.conjuncts]

theorem fields_conjuncts (p : Predicate) : p.fields = p.conjuncts.flatMap Predicate.fields := by
  induction p with
  | group op operands ih =>
    cases op with
    | and =>
      simp only [Predicate.fields, Predicate.fieldsOf_eq, Predicate.conjuncts,
        Predicate.conjunctsOf_eq, List.flatMap_assoc]
      exact List.flatMap_congr ih
    | or => simp [Predicate.conjuncts]
  | _ => simp [Predicate.conjuncts]

theorem ne_and_of_mem_conjuncts {p leaf : Predicate} (h : leaf ∈ p.conjuncts)
    (operands : List Predicate) : leaf ≠ .group .and operands := by
  induction p with
  | group op ps ih =>
    cases op with
    | and =>
      simp only [Predicate.conjuncts, Predicate.conjunctsOf_eq, List.mem_flatMap] at h
      obtain ⟨p, hp, hl⟩ := h
      exact ih p hp hl
    | or =>
      simp only [Predicate.conjuncts, List.mem_singleton] at h
      simp [h]
  | _ =>
    simp only [Predicate.conjuncts, List.mem_singleton] at h
    simp [h]

/-- What the loop makes of a leaf when it finds neither a blocker nor a reason to scan. -/
inductive Taken (catalog : DimensionCatalog) (s : Classifying) : Predicate → Classifying → Prop
  | eventSet {values : List ScalarValue} {names : List JsString}
      (hv : values = names.map .str) (hs : s.plan.event = none) :
      Taken catalog s (.member .isIn (.dimension .eventType) values)
        (s.restrict (.anyOf names.eraseDups))
  | event {name : JsString} (hs : s.plan.event = none) :
      Taken catalog s (.compare .eq (.dimension .eventType) (.str name)) (s.restrict (.one name))
  | filter {field : FieldRef} {value : JsString} (hi : catalog.status field.key = .indexed)
      (hd : field.isShadowed = false) (hf : ∀ f ∈ s.plan.filters, f.1 ≠ field.key) :
      Taken catalog s (.compare .eq field (.str value)) (s.filter field.key value)

variable {catalog : DimensionCatalog} {s t : Classifying} {leaf : Predicate}

/-- Blockers and reasons are never taken back. -/
def Classifying.Grows (s t : Classifying) : Prop :=
  s.blockers <+: t.blockers ∧ s.reasons <+: t.reasons

theorem Classifying.Grows.trans {u : Classifying} (h : s.Grows t) (h' : t.Grows u) : s.Grows u :=
  ⟨h.1.trans h'.1, h.2.trans h'.2⟩

def Classifying.Clean (s : Classifying) : Prop := s.blockers = [] ∧ s.reasons = []

theorem Classifying.Grows.clean (h : s.Grows t) (ht : t.Clean) : s.Clean :=
  ⟨List.prefix_nil.1 (ht.1 ▸ h.1), List.prefix_nil.1 (ht.2 ▸ h.2)⟩

theorem stringValues_eq {values : List ScalarValue} {names : List JsString}
    (h : stringValues values = some names) : values = names.map .str := by
  induction values generalizing names with
  | nil =>
    cases h
    rfl
  | cons v values ih =>
    rw [stringValues, List.mapM_cons] at h
    obtain ⟨name, hn, h⟩ := Option.bind_eq_some_iff.1 h
    obtain ⟨rest, hr, h⟩ := Option.bind_eq_some_iff.1 h
    cases h
    cases v <;> cases hn
    rw [List.map_cons, ← ih hr]

theorem collectBlockers_spec (p : Predicate) :
    s.Grows (collectBlockers catalog s p) ∧
      ((∃ f ∈ p.fields, catalog.status f.key = .planned) →
        (collectBlockers catalog s p).blockers ≠ []) := by
  have hfold : ∀ (l : List FieldRef) (s : Classifying),
      s.Grows (l.foldl (fun s f ↦ s.block f.key) s) ∧
        (l ≠ [] → (l.foldl (fun s f ↦ s.block f.key) s).blockers ≠ []) := by
    intro l
    induction l with
    | nil => exact fun s ↦ ⟨⟨List.prefix_rfl, List.prefix_rfl⟩, fun h ↦ absurd rfl h⟩
    | cons f l ih =>
      intro s
      have hb : s.Grows (s.block f.key) := ⟨List.prefix_append _ _, List.prefix_rfl⟩
      refine ⟨hb.trans (ih _).1, fun _ hn ↦ ?_⟩
      have hp := (ih (s.block f.key)).1.1
      rw [List.foldl_cons] at hn
      rw [hn, List.prefix_nil] at hp
      simp [Classifying.block] at hp
  refine ⟨(hfold _ s).1, fun ⟨f, hf, hp⟩ ↦ (hfold _ s).2 ?_⟩
  exact List.ne_nil_of_mem (List.mem_filter.2 ⟨hf, decide_eq_true hp⟩)

theorem reason_spec (r : ScanReason) : s.Grows (s.reason r) ∧ (s.reason r).reasons ≠ [] :=
  ⟨⟨List.prefix_rfl, List.prefix_append _ _⟩, by simp [Classifying.reason]⟩

theorem grows_plan (plan : IndexedPlan) : s.Grows { s with plan } :=
  ⟨List.prefix_rfl, List.prefix_rfl⟩

theorem status_cases (key : JsString) : catalog.status key = .indexed ∨
    catalog.status key = .planned ∨ catalog.status key = .unknown ∨
      catalog.status key = .scanned := by
  cases catalog.status key <;> simp

theorem classifyField_cases {field : FieldRef} {rest : Classifying → Classifying}
    (h : catalog.status field.key ≠ .planned →
      s.Grows (rest s) ∧ ((rest s).reasons ≠ [] ∨ Taken catalog s leaf (rest s))) :
    s.Grows (classifyField catalog s field rest) ∧
      (catalog.status field.key = .planned → (classifyField catalog s field rest).blockers ≠ []) ∧
      ((classifyField catalog s field rest).blockers ≠ [] ∨
        (classifyField catalog s field rest).reasons ≠ [] ∨
        Taken catalog s leaf (classifyField catalog s field rest)) := by
  rw [classifyField]
  split_ifs with hp
  · have hb : (s.block field.key).blockers ≠ [] := by simp [Classifying.block]
    exact ⟨⟨List.prefix_append _ _, List.prefix_rfl⟩, fun _ ↦ hb, .inl hb⟩
  · exact ⟨(h hp).1, fun h ↦ absurd h hp, .inr (h hp).2⟩

theorem collected_branch (r : ScanReason) (p : Predicate) :
    s.Grows (collectBlockers catalog (s.reason r) p) ∧
      (collectBlockers catalog (s.reason r) p).reasons ≠ [] := by
  have hr := reason_spec (s := s) r
  have hc := (@collectBlockers_spec catalog (s.reason r) p).1
  exact ⟨hr.1.trans hc, fun hn ↦ hr.2 (List.prefix_nil.1 (hn ▸ hc.2))⟩

theorem classifyEventSet_cases (values : List ScalarValue) (key : JsString) :
    s.Grows (classifyEventSet s key values) ∧ ((classifyEventSet s key values).reasons ≠ [] ∨
      Taken catalog s (.member .isIn (.dimension .eventType) values)
        (classifyEventSet s key values)) := by
  by_cases h0 : values = []
  · rw [classifyEventSet, if_pos h0]
    exact ⟨(reason_spec _).1, .inl (reason_spec _).2⟩
  · rw [classifyEventSet, if_neg h0]
    cases hv : stringValues values with
    | none => exact ⟨(reason_spec _).1, .inl (reason_spec _).2⟩
    | some names =>
      by_cases hs : s.plan.event.isSome
      · simp only [if_pos hs]
        exact ⟨(reason_spec _).1, .inl (reason_spec _).2⟩
      · simp only [if_neg hs]
        exact ⟨grows_plan _, .inr (.eventSet (stringValues_eq hv) (by simpa using hs))⟩

theorem eq_eventType {field : FieldRef} (hd : field.isShadowed = false)
    (hk : field.key = DimensionName.eventType.text) : field = .dimension .eventType := by
  cases field with
  | dimension d => rw [DimensionName.text_injective hk]
  | property k =>
    obtain rfl : k = DimensionName.eventType.text := hk
    exact absurd hd (by decide)

theorem classifyEquality_cases (field : FieldRef) (value : ScalarValue)
    (hp : catalog.status field.key ≠ .planned) :
    s.Grows (classifyEquality catalog s field value) ∧
      ((classifyEquality catalog s field value).reasons ≠ [] ∨
        Taken catalog s (.compare .eq field value) (classifyEquality catalog s field value)) := by
  have hr (r : ScanReason) : s.Grows (s.reason r) ∧ ((s.reason r).reasons ≠ [] ∨
      Taken catalog s (.compare .eq field value) (s.reason r)) :=
    ⟨(reason_spec r).1, .inl (reason_spec r).2⟩
  by_cases hd : field.isShadowed = true
  · unfold classifyEquality
    simp only [if_pos hd]
    exact hr _
  by_cases hu : catalog.status field.key = .unknown ∨ catalog.status field.key = .scanned
  · unfold classifyEquality
    simp only [if_neg hd, if_pos hu]
    exact hr _
  unfold classifyEquality
  simp only [if_neg hd, if_neg hu]
  rw [Bool.not_eq_true] at hd
  cases value with
  | str text =>
    dsimp only
    split_ifs with hk hs hf
    · exact hr _
    · obtain rfl := eq_eventType hd hk
      exact ⟨grows_plan _, .inr (.event (by simpa using hs))⟩
    · exact hr _
    · refine ⟨grows_plan _, .inr (.filter ?_ hd ?_)⟩
      · rcases @status_cases catalog field.key with h | h | h | h
        · exact h
        · exact absurd h hp
        · exact absurd (.inl h) hu
        · exact absurd (.inr h) hu
      · intro f hfm hfk
        exact hf (List.any_eq_true.2 ⟨f, hfm, decide_eq_true hfk⟩)
  | _ => exact hr _

/-- One leaf: a blocker, a reason to scan, or a part of the plan. -/
theorem classifyLeaf_cases (hand : ∀ operands, leaf ≠ .group .and operands) :
    s.Grows (classifyLeaf catalog s leaf) ∧
      ((∃ f ∈ leaf.fields, catalog.status f.key = .planned) →
        (classifyLeaf catalog s leaf).blockers ≠ []) ∧
      ((classifyLeaf catalog s leaf).blockers ≠ [] ∨ (classifyLeaf catalog s leaf).reasons ≠ [] ∨
        Taken catalog s leaf (classifyLeaf catalog s leaf)) := by
  have hone {field : FieldRef} {rest : Classifying → Classifying} {leaf : Predicate}
      (hf : leaf.fields = [field])
      (hrest : catalog.status field.key ≠ .planned →
        s.Grows (rest s) ∧ ((rest s).reasons ≠ [] ∨ Taken catalog s leaf (rest s))) :
      s.Grows (classifyField catalog s field rest) ∧
        ((∃ f ∈ leaf.fields, catalog.status f.key = .planned) →
          (classifyField catalog s field rest).blockers ≠ []) ∧
        ((classifyField catalog s field rest).blockers ≠ [] ∨
          (classifyField catalog s field rest).reasons ≠ [] ∨
          Taken catalog s leaf (classifyField catalog s field rest)) := by
    rw [hf]
    simp only [List.mem_singleton, exists_eq_left]
    exact classifyField_cases hrest
  have hscan (r : ScanReason) {leaf : Predicate} : s.Grows (s.reason r) ∧
      ((s.reason r).reasons ≠ [] ∨ Taken catalog s leaf (s.reason r)) :=
    ⟨(reason_spec r).1, .inl (reason_spec r).2⟩
  cases leaf with
  | compare op field value =>
    cases op with
    | eq => exact hone rfl (classifyEquality_cases field value)
    | neq => exact hone rfl (fun _ ↦ hscan _)
  | member op field values =>
    cases op with
    | isIn =>
      refine hone rfl (fun _ ↦ ?_)
      split_ifs with he
      · rw [he]
        exact classifyEventSet_cases values _
      · exact hscan _
    | notIn => exact hone rfl (fun _ ↦ hscan _)
  | text op field value => exact hone rfl (fun _ ↦ hscan _)
  | order op field value => exact hone rfl (fun _ ↦ hscan _)
  | presence op field => exact hone rfl (fun _ ↦ hscan _)
  | group op operands =>
    cases op with
    | and => exact absurd rfl (hand operands)
    | or =>
      have hb := @collected_branch catalog s .disjunction (.group .or operands)
      exact ⟨hb.1, (collectBlockers_spec _).2, .inr (.inl hb.2)⟩
  | not operand =>
    have hb := @collected_branch catalog s .negation (.not operand)
    exact ⟨hb.1, (collectBlockers_spec _).2, .inr (.inl hb.2)⟩

/-- The columns of the properties a catalog indexes hold what the properties do. -/
def RawEvent.Carries (event : RawEvent) (rt : Runtime) (catalog : DimensionCatalog) : Prop :=
  ∀ key, catalog.status key = .indexed → isDimensionName key = false →
    ∀ s, valueAt rt event key = some s ↔ (fieldValue event (.property key)).strictEq (.str s) = true

variable {rt : Runtime} {event : RawEvent}

theorem text_dimension (event : RawEvent) (d : DimensionName) (s : JsString) :
    valueAt rt event d.text = some s ↔
      (fieldValue event (.dimension d)).strictEq (.str s) = true := by
  have hp : d.text.startsWith (js "property:") = false := by cases d <;> decide
  have hi : inheritedValue d.text = .undefined := by cases d <;> rfl
  have hf : fieldValue event (.dimension d) = event.dimension d.text := rfl
  rw [valueAt, hp, hf, RawEvent.dimension]
  rcases JsObject.get event.dimensions d.text with _ | _ | v
  · simp [hi, JsValue.text, JsValue.strictEq]
  · simp [JsValue.text, JsValue.strictEq]
  · simp [JsValue.text, JsValue.strictEq]

theorem passes_filter (hc : event.Carries rt catalog) {field : FieldRef} {value : JsString}
    (hi : catalog.status field.key = .indexed) (hd : field.isShadowed = false) :
    valueAt rt event field.key = some value ↔
      (fieldValue event field).strictEq (.str value) = true := by
  cases field with
  | dimension d => exact text_dimension event d value
  | property k => exact hc k hi hd value

/-- A leaf that goes into the plan narrows it to the events the leaf holds of. -/
theorem Taken.passes (h : Taken catalog s leaf t) (hc : event.Carries rt catalog)
    (hp : catalog.status (js "__proto__") ≠ .indexed) :
    passes rt event t.plan.event t.plan.filters = true ↔
      passes rt event s.plan.event s.plan.filters = true ∧ leaf.matches event = true := by
  cases h with
  | @eventSet values names hv hs =>
    subst hv
    have hm : (names.eraseDups.any
        fun name ↦ (event.dimension (js "event_type")).strictEq (.str name)) =
        (names.map ScalarValue.str).any (event.dimension (js "event_type")).strictEq := by
      rw [Bool.eq_iff_iff, List.any_eq_true, List.any_map, List.any_eq_true]
      simp only [List.mem_eraseDups, Function.comp_apply]
    have hf : fieldValue event (.dimension .eventType) = event.dimension (js "event_type") := rfl
    simp only [Analytics.passes, Classifying.restrict, hs, Option.all_some, Option.all_none,
      EventRestriction.names, hm, Bool.true_and, Bool.and_eq_true, Predicate.matches, hf]
    exact and_comm
  | @event name hs =>
    have hf : fieldValue event (.dimension .eventType) = event.dimension (js "event_type") := rfl
    simp only [Analytics.passes, Classifying.restrict, hs, Option.all_some, Option.all_none,
      EventRestriction.names, List.any_cons, List.any_nil, Bool.or_false, Bool.true_and,
      Bool.and_eq_true, Predicate.matches, hf]
    exact and_comm
  | @filter field value hi hd hf =>
    have hne : field.key ≠ js "__proto__" := by
      intro he
      exact hp (he ▸ hi)
    have hany : s.plan.filters.any (fun f ↦ f.1 = field.key) = false := by
      rw [List.any_eq_false]
      exact fun f hfm ↦ by simpa using hf f hfm
    have hset : (s.filter field.key value).plan.filters =
        s.plan.filters ++ [(field.key, value)] := by
      simp only [Classifying.filter, JsObject.set, if_neg hne, hany, if_neg Bool.false_ne_true]
    have hev : (s.filter field.key value).plan.event = s.plan.event := rfl
    simp only [Analytics.passes, hset, hev, List.all_append, List.all_cons, List.all_nil,
      Bool.and_true, Bool.and_eq_true, decide_eq_true_eq, passes_filter hc hi hd, and_assoc,
      Predicate.matches]

theorem loop_spec {leaves : List Predicate} {s : Classifying}
    (hl : ∀ leaf ∈ leaves, ∀ operands, leaf ≠ .group .and operands) :
    s.Grows (leaves.foldl (classifyLeaf catalog) s) ∧
      ((∃ leaf ∈ leaves, ∃ f ∈ leaf.fields, catalog.status f.key = .planned) →
        (leaves.foldl (classifyLeaf catalog) s).blockers ≠ []) ∧
      ((leaves.foldl (classifyLeaf catalog) s).Clean →
        catalog.status (js "__proto__") ≠ .indexed → ∀ event : RawEvent, event.Carries rt catalog →
        (passes rt event (leaves.foldl (classifyLeaf catalog) s).plan.event
            (leaves.foldl (classifyLeaf catalog) s).plan.filters = true ↔
          passes rt event s.plan.event s.plan.filters = true ∧
            ∀ leaf ∈ leaves, leaf.matches event = true)) := by
  induction leaves generalizing s with
  | nil => exact ⟨⟨List.prefix_rfl, List.prefix_rfl⟩, by simp, by simp⟩
  | cons leaf leaves ih =>
    rw [List.forall_mem_cons] at hl
    obtain ⟨hgrow, hblock, hcase⟩ := @classifyLeaf_cases catalog s leaf hl.1
    obtain ⟨ihgrow, ihblock, ihpass⟩ := @ih (classifyLeaf catalog s leaf) hl.2
    rw [List.foldl_cons]
    refine ⟨hgrow.trans ihgrow, ?_, ?_⟩
    · rintro ⟨l, hlm, f, hf, hp⟩
      rcases List.mem_cons.1 hlm with rfl | hlm
      · intro hn
        exact hblock ⟨f, hf, hp⟩ (List.prefix_nil.1 (hn ▸ ihgrow.1))
      · exact ihblock ⟨l, hlm, f, hf, hp⟩
    · intro hclean hproto event hc
      obtain ⟨hb, hr⟩ := ihgrow.clean hclean
      obtain hcase | hcase | htaken := hcase
      · exact absurd hb hcase
      · exact absurd hr hcase
      · rw [ihpass hclean hproto event hc, htaken.passes hc hproto, List.forall_mem_cons,
          and_assoc]

/-- An indexed plan lets through exactly the events the predicate holds of, on a store whose
columns carry the properties the catalog indexes. A planned field, however deep, blocks. -/
theorem classifyPredicate_sound (rt : Runtime) (catalog : DimensionCatalog) (p : Predicate) :
    (∀ plan queries, classifyPredicate catalog (some p) = .indexed plan queries →
      catalog.status (js "__proto__") ≠ .indexed → ∀ event : RawEvent, event.Carries rt catalog →
      (p.matches event = true ↔ included rt event none plan.event plan.filters = true)) ∧
    ((∃ f ∈ p.fields, catalog.status f.key = .planned) →
      ∃ blockers, classifyPredicate catalog (some p) = .unanswerable blockers) := by
  obtain ⟨-, hblock, hpass⟩ := @loop_spec catalog rt p.conjuncts .initial
    (fun leaf hl ↦ ne_and_of_mem_conjuncts hl)
  rw [classifyPredicate]
  generalize p.conjuncts.foldl (classifyLeaf catalog) .initial = s at hblock hpass ⊢
  constructor
  · intro plan queries h hproto event hc
    rw [Classifying.answer] at h
    split_ifs at h with hb hr
    cases h
    rw [matches_conjuncts, included, Option.all_none, Bool.true_and,
      hpass ⟨not_not.1 hb, not_not.1 hr⟩ hproto event hc]
    simp [Classifying.initial, passes]
  · rintro ⟨f, hf, hp⟩
    rw [fields_conjuncts, List.mem_flatMap] at hf
    obtain ⟨leaf, hl, hf⟩ := hf
    exact ⟨_, if_pos (hblock ⟨leaf, hl, f, hf, hp⟩)⟩

/-- A store that indexes the customer's property `plan`, and not yet the dimension `country`. -/
def planCatalog : DimensionCatalog where
  indexed := (dimensions.erase .country).map DimensionName.text ++ [js "plan"]
  planned := [js "country"]

def planEvent (column : List (JsString × Option JsString)) : RawEvent where
  ts := 0
  actor := js "v"
  dimensions := (js "event_type", some (js "open")) :: column
  properties := [(js "plan", .str (js "pro"))]

def openOnPlan : Predicate :=
  .and [.isIn (.dimension .eventType) [.str (js "open"), .str (js "buy")],
    .and [.eq (.property (js "plan")) (.str (js "pro"))]]

theorem planEvent_carries :
    (planEvent [(js "plan", some (js "pro"))]).Carries nodeRuntime planCatalog := by
  intro key hi hd s
  have hk : key ∈ planCatalog.indexed := by
    by_contra hk
    rw [DimensionCatalog.status, if_neg (by simpa using hk)] at hi
    split_ifs at hi
  have hkey : key = js "plan" := by
    rcases List.mem_append.1 hk with hk | hk
    · obtain ⟨d, -, rfl⟩ := List.mem_map.1 hk
      rw [DimensionName.isDimensionName] at hd
      cases hd
    · exact List.mem_singleton.1 hk
  subst hkey
  have hv : valueAt nodeRuntime (planEvent [(js "plan", some (js "pro"))]) (js "plan") =
      some (js "pro") := by decide
  have hf : fieldValue (planEvent [(js "plan", some (js "pro"))]) (.property (js "plan")) =
      .json (.str (js "pro")) := rfl
  rw [hv, hf]
  simp [JsValue.strictEq]

theorem classifyPredicate_sound_sample :
    openOnPlan.matches (planEvent [(js "plan", some (js "pro"))]) = true ∧
      ∃ blockers, classifyPredicate planCatalog
        (some (.or [.not (.eq (.dimension .country) (.str (js "GB"))), openOnPlan])) =
          .unanswerable blockers := by
  refine ⟨((classifyPredicate_sound nodeRuntime planCatalog openOnPlan).1 _ _ rfl (by decide) _
    planEvent_carries).2 (by decide), (classifyPredicate_sound nodeRuntime planCatalog _).2 ?_⟩
  exact ⟨.dimension .country, by simp [Predicate.or, Predicate.fields, Predicate.fieldsOf,
    Predicate.eq], by decide⟩

/-- An event has the property a catalog indexes, and nothing in the column of that name. -/
theorem indexed_property_missed :
    ∃ plan queries, classifyPredicate planCatalog (some openOnPlan) = .indexed plan queries ∧
      openOnPlan.matches (planEvent []) = true ∧
      included nodeRuntime (planEvent []) none plan.event plan.filters = false :=
  ⟨_, _, rfl, by decide, by decide⟩

end Counted.Analytics
