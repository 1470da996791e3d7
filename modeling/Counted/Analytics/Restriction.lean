import Counted.Analytics.Classification

namespace Counted.Analytics

/-- What a leaf that the index serves restricts events to. -/
inductive Restriction
  | event (r : EventRestriction)
  | filter (d : DimensionName) (hd : d ≠ .eventType) (value : JsString)

namespace Restriction

/-- The dimension it is about. -/
def about : Restriction → DimensionName
  | .event _ => .eventType
  | .filter d _ _ => d

def event? : Restriction → Option EventRestriction
  | .event r => some r
  | .filter .. => none

def filter? : Restriction → Option (JsString × JsString)
  | .event _ => none
  | .filter d _ value => some (d.text, value)

/-- The restriction of a leaf, where the columns are those of every dimension. -/
def ofLeaf : Predicate → Option Restriction
  | .compare .eq (.dimension d) (.str value) =>
    some (if hd : d = .eventType then .event (.one value) else .filter d hd value)
  | .member .isIn (.dimension .eventType) values =>
    if values = [] then none
    else (stringValues values).map (fun names ↦ .event (.anyOf names.eraseDups))
  | _ => none

/-- The plan of a list of restrictions. -/
def plan (rs : List Restriction) : IndexedPlan := ⟨rs.findSome? event?, rs.filterMap filter?⟩

end Restriction

theorem status_dimension (d : DimensionName) : defaultCatalog.status d.text = .indexed := by
  cases d <;> decide

theorem status_property (key : JsString) : defaultCatalog.status key = .indexed ∧
    isDimensionName key = true ∨ defaultCatalog.status key = .unknown ∧
      isDimensionName key = false := by
  have hc : defaultCatalog.indexed.contains key = isDimensionName key := by
    rw [isDimensionName, defaultCatalog, List.contains_eq_any_beq, List.any_map]
    exact congrArg (List.any _) (funext fun d ↦ Bool.beq_comm)
  rw [DimensionCatalog.status, hc]
  cases isDimensionName key with
  | true => exact .inl ⟨rfl, rfl⟩
  | false => exact .inr ⟨rfl, rfl⟩

theorem status_ne_planned (field : FieldRef) : defaultCatalog.status field.key ≠ .planned := by
  rcases status_property field.key with h | h <;> simp [h.1]

section

variable {s : Classifying} {leaf : Predicate}

theorem reason_not_clean (r : ScanReason) : ¬ (s.reason r).Clean :=
  fun h ↦ absurd h.2 (by simp [Classifying.reason])

theorem classifyField_default (field : FieldRef) (rest : Classifying → Classifying) :
    classifyField defaultCatalog s field rest = rest s :=
  if_neg (status_ne_planned field)

/-- What the loop makes of a restriction: a reason to scan where there is one like it. -/
def Classifying.take (s : Classifying) : Restriction → Classifying
  | .event r =>
    if s.plan.event.isSome then s.reason (.repeatedDimension DimensionName.eventType.text)
    else s.restrict r
  | .filter d _ value =>
    if s.plan.filters.any (fun f ↦ f.1 = d.text) then s.reason (.repeatedDimension d.text)
    else s.filter d.text value

theorem classifyEquality_default (d : DimensionName) (value : JsString) :
    classifyEquality defaultCatalog s (.dimension d) (.str value) =
      s.take (if hd : d = .eventType then .event (.one value) else .filter d hd value) := by
  have hk : (FieldRef.dimension d).key = d.text := rfl
  have ht : d.text = DimensionName.eventType.text ↔ d = .eventType :=
    DimensionName.text_injective.eq_iff
  have hs : ¬ (DimensionStatus.indexed = .unknown ∨ DimensionStatus.indexed = .scanned) := by decide
  simp only [classifyEquality, FieldRef.isShadowed, Bool.false_eq_true, if_false, hk,
    status_dimension, if_neg hs, ht]
  by_cases hd : d = .eventType
  · simp only [hd, if_true, dite_true, Classifying.take]
  · simp only [hd, if_false, dite_false, Classifying.take]

theorem classifyEquality_none {field : FieldRef} {value : ScalarValue}
    (h : Restriction.ofLeaf (.compare .eq field value) = none) :
    ¬ (classifyEquality defaultCatalog s field value).Clean := by
  cases field with
  | dimension d =>
    have hs : ¬ (DimensionStatus.indexed = .unknown ∨ DimensionStatus.indexed = .scanned) := by
      decide
    have hk : (FieldRef.dimension d).key = d.text := rfl
    simp only [classifyEquality, FieldRef.isShadowed, Bool.false_eq_true, if_false, hk,
      status_dimension, if_neg hs]
    cases value with
    | str text => cases h
    | num n => exact reason_not_clean _
    | bool b => exact reason_not_clean _
    | null => exact reason_not_clean _
  | property key =>
    have hk : (FieldRef.property key).key = key := rfl
    unfold classifyEquality
    simp only [hk, FieldRef.isShadowed]
    rcases status_property key with hp | hp
    · rw [if_pos hp.2]
      exact reason_not_clean _
    · rw [if_neg (by simp [hp.2]), if_pos (.inl hp.1)]
      exact reason_not_clean _

theorem classifyEventSet_default (values : List ScalarValue) :
    (∀ r, Restriction.ofLeaf (.member .isIn (.dimension .eventType) values) = some r →
      classifyEventSet s DimensionName.eventType.text values = s.take r) ∧
    (Restriction.ofLeaf (.member .isIn (.dimension .eventType) values) = none →
      ¬ (classifyEventSet s DimensionName.eventType.text values).Clean) := by
  rw [Restriction.ofLeaf, classifyEventSet]
  by_cases hv : values = []
  · rw [if_pos hv, if_pos hv]
    refine ⟨fun r hr ↦ ?_, fun _ ↦ reason_not_clean _⟩
    cases hr
  · rw [if_neg hv, if_neg hv]
    cases stringValues values with
    | none =>
      refine ⟨fun r hr ↦ ?_, fun _ ↦ reason_not_clean _⟩
      cases hr
    | some names =>
      refine ⟨fun r hr ↦ ?_, fun hr ↦ ?_⟩
      · cases hr
        rfl
      · cases hr

/-- One leaf: its restriction is taken, or there is a reason to scan. -/
theorem classifyLeaf_default (hl : ∀ operands, leaf ≠ .group .and operands) :
    (∀ r, Restriction.ofLeaf leaf = some r → classifyLeaf defaultCatalog s leaf = s.take r) ∧
    (Restriction.ofLeaf leaf = none → ¬ (classifyLeaf defaultCatalog s leaf).Clean) := by
  cases leaf with
  | compare op field value =>
    cases op with
    | eq =>
      rw [classifyLeaf, classifyField_default]
      refine ⟨fun r hr ↦ ?_, classifyEquality_none⟩
      cases field with
      | dimension d =>
        cases value with
        | str text =>
          rw [classifyEquality_default]
          exact congrArg s.take (Option.some.inj hr)
        | num n => cases hr
        | bool b => cases hr
        | null => cases hr
      | property key => cases hr
    | neq =>
      rw [classifyLeaf, classifyField_default]
      exact ⟨nofun, fun _ ↦ reason_not_clean _⟩
  | member op field values =>
    cases op with
    | isIn =>
      rw [classifyLeaf, classifyField_default]
      split_ifs with hf
      · rw [hf]
        exact classifyEventSet_default values
      · refine ⟨fun r hr ↦ ?_, fun _ ↦ reason_not_clean _⟩
        cases field with
        | dimension d =>
          have hd : d ≠ .eventType := fun he ↦ hf (he ▸ rfl)
          cases d <;> first | exact absurd rfl hd | cases hr
        | property key => cases hr
    | notIn =>
      rw [classifyLeaf, classifyField_default]
      exact ⟨nofun, fun _ ↦ reason_not_clean _⟩
  | text op field value =>
    rw [classifyLeaf, classifyField_default]
    exact ⟨nofun, fun _ ↦ reason_not_clean _⟩
  | order op field value =>
    rw [classifyLeaf, classifyField_default]
    exact ⟨nofun, fun _ ↦ reason_not_clean _⟩
  | presence op field =>
    rw [classifyLeaf, classifyField_default]
    exact ⟨nofun, fun _ ↦ reason_not_clean _⟩
  | group op operands =>
    cases op with
    | and => exact absurd rfl (hl operands)
    | or => exact ⟨nofun, fun _ h ↦ (collected_branch _ _).2 h.2⟩
  | not operand => exact ⟨nofun, fun _ h ↦ (collected_branch _ _).2 h.2⟩

end

namespace Restriction

theorem event_isSome {rs : List Restriction} :
    (plan rs).event.isSome ↔ DimensionName.eventType ∈ rs.map about := by
  rw [plan, List.findSome?_isSome_iff, List.mem_map]
  constructor
  · rintro ⟨r, hr, hs⟩
    cases r with
    | event r => exact ⟨_, hr, rfl⟩
    | filter d hd value => cases hs
  · rintro ⟨r, hr, ha⟩
    cases r with
    | event r => exact ⟨_, hr, rfl⟩
    | filter d hd value => exact absurd ha hd

theorem filters_any {rs : List Restriction} {d : DimensionName} (hd : d ≠ .eventType) :
    (plan rs).filters.any (fun f ↦ f.1 = d.text) ↔ d ∈ rs.map about := by
  rw [plan, List.any_eq_true, List.mem_map]
  simp only [List.mem_filterMap, decide_eq_true_eq]
  constructor
  · rintro ⟨f, ⟨r, hr, hf⟩, ht⟩
    cases r with
    | event r => cases hf
    | filter d' hd' value =>
      cases hf
      exact ⟨_, hr, DimensionName.text_injective ht⟩
  · rintro ⟨r, hr, ha⟩
    cases r with
    | event r => exact absurd ha.symm hd
    | filter d' hd' value => exact ⟨_, ⟨_, hr, rfl⟩, congrArg DimensionName.text ha⟩

theorem plan_concat (rs : List Restriction) (r : Restriction) : plan (rs ++ [r]) =
    ⟨(plan rs).event.or r.event?, (plan rs).filters ++ r.filter?.toList⟩ := by
  rw [plan, List.findSome?_append, List.filterMap_append]
  cases r <;> rfl

/-- A restriction that is the first about its dimension goes into the plan. -/
theorem take_fresh {rs : List Restriction} {r : Restriction} (h : r.about ∉ rs.map about) :
    Classifying.take ⟨[], [], plan rs⟩ r = ⟨[], [], plan (rs ++ [r])⟩ := by
  rw [plan_concat]
  cases r with
  | event r =>
    have he : ¬ (plan rs).event.isSome = true := fun hn ↦ h (event_isSome.1 hn)
    rw [Classifying.take, if_neg he, Classifying.restrict]
    rw [Bool.not_eq_true, Option.isSome_eq_false_iff, Option.isNone_iff_eq_none] at he
    simp [he, event?, filter?]
  | filter d hd value =>
    have hf : ¬ (plan rs).filters.any (fun f ↦ f.1 = d.text) = true :=
      fun hn ↦ h ((filters_any hd).1 hn)
    have hp : d.text ≠ js "__proto__" := by cases d <;> decide
    rw [Classifying.take, if_neg hf, Classifying.filter, JsObject.set, if_neg hp, if_neg hf]
    simp [event?, filter?]

theorem take_repeated {rs : List Restriction} {r : Restriction} (h : r.about ∈ rs.map about) :
    ¬ (Classifying.take ⟨[], [], plan rs⟩ r).Clean := by
  cases r with
  | event r =>
    rw [Classifying.take, if_pos (event_isSome.2 h)]
    exact reason_not_clean _
  | filter d hd value =>
    rw [Classifying.take, if_pos ((filters_any hd).2 h)]
    exact reason_not_clean _

/-- The loop ends without a reason exactly when every leaf is a restriction and no two are about
one dimension. -/
theorem loop_default {leaves : List Predicate} {before : List Restriction}
    (hl : ∀ leaf ∈ leaves, ∀ operands, leaf ≠ .group .and operands)
    (hb : (before.map about).Nodup) (s : Classifying) :
    (s = leaves.foldl (classifyLeaf defaultCatalog) ⟨[], [], plan before⟩ ∧ s.Clean) ↔
      ∃ rs, leaves.map ofLeaf = rs.map some ∧ ((before ++ rs).map about).Nodup ∧
        s = ⟨[], [], plan (before ++ rs)⟩ := by
  induction leaves generalizing before with
  | nil =>
    constructor
    · rintro ⟨rfl, -⟩
      exact ⟨[], rfl, by simpa using hb, by simp⟩
    · rintro ⟨rs, hrs, -, rfl⟩
      obtain rfl := List.map_eq_nil_iff.1 hrs.symm
      exact ⟨by simp, rfl, rfl⟩
  | cons leaf leaves ih =>
    rw [List.forall_mem_cons] at hl
    obtain ⟨htake, hnone⟩ := @classifyLeaf_default ⟨[], [], plan before⟩ leaf hl.1
    rw [List.foldl_cons]
    -- what the rest of the loop adds never takes a reason back
    have hgrow {t : Classifying} (ht : ¬ t.Clean) :
        ¬ (leaves.foldl (classifyLeaf defaultCatalog) t).Clean :=
      fun hc ↦ ht ((@loop_spec defaultCatalog nodeRuntime _ _ hl.2).1.clean hc)
    have hcons {rs : List Restriction} (h : (leaf :: leaves).map ofLeaf = rs.map some) :
        ∃ r rest, ofLeaf leaf = some r ∧ leaves.map ofLeaf = rest.map some ∧ rs = r :: rest := by
      cases rs with
      | nil => cases h
      | cons r rest =>
        rw [List.map_cons, List.map_cons, List.cons.injEq] at h
        exact ⟨r, rest, h.1, h.2, rfl⟩
    cases hr : ofLeaf leaf with
    | none =>
      constructor
      · rintro ⟨rfl, hc⟩
        exact absurd hc (hgrow (hnone hr))
      · rintro ⟨rs, hrs, -⟩
        obtain ⟨r, -, hr', -⟩ := hcons hrs
        exact absurd (hr.symm.trans hr') nofun
    | some r =>
      rw [htake r hr]
      by_cases ha : r.about ∈ before.map about
      · constructor
        · rintro ⟨rfl, hc⟩
          exact absurd hc (hgrow (take_repeated ha))
        · rintro ⟨rs, hrs, hn, -⟩
          obtain ⟨r', rest, hr', -, rfl⟩ := hcons hrs
          cases hr.symm.trans hr'
          rw [List.map_append, List.map_cons] at hn
          exact absurd (List.mem_cons_self ..) (List.disjoint_of_nodup_append hn ha)
      · rw [take_fresh ha, ih hl.2 (by
          rw [List.map_append, List.map_cons, List.map_nil]
          exact hb.append (List.nodup_singleton _) (by simpa using ha))]
        simp only [List.append_assoc, List.singleton_append]
        constructor
        · rintro ⟨rs, hrs, h⟩
          exact ⟨r :: rs, by rw [List.map_cons, List.map_cons, hr, hrs], h⟩
        · rintro ⟨rs, hrs, h⟩
          obtain ⟨r', rest, hr', hrest, rfl⟩ := hcons hrs
          cases hr.symm.trans hr'
          exact ⟨rest, hrest, h⟩

end Restriction

/-- Where every dimension has a column, a predicate is answered from the index exactly when its
conjuncts are restrictions of different dimensions. -/
theorem classify_default {p : Predicate} {plan : IndexedPlan} {queries : ℕ} :
    classifyPredicate defaultCatalog (some p) = .indexed plan queries ↔
      ∃ rs : List Restriction, p.conjuncts.map Restriction.ofLeaf = rs.map some ∧
        (rs.map Restriction.about).Nodup ∧ plan = Restriction.plan rs ∧ queries = 1 := by
  have hl := @Restriction.loop_default p.conjuncts []
    (fun leaf hl ↦ ne_and_of_mem_conjuncts hl) (by simp)
  rw [classifyPredicate, Classifying.answer]
  constructor
  · intro h
    split_ifs at h with hb hr
    cases h
    obtain ⟨rs, hrs, hn, hs⟩ := (hl _).1 ⟨rfl, not_not.1 hb, not_not.1 hr⟩
    exact ⟨rs, hrs, hn, congrArg Classifying.plan hs, rfl⟩
  · rintro ⟨rs, hrs, hn, rfl, rfl⟩
    obtain ⟨hs, -⟩ := (hl _).2 ⟨rs, hrs, hn, rfl⟩
    have hs' : p.conjuncts.foldl (classifyLeaf defaultCatalog) .initial =
        ⟨[], [], Restriction.plan rs⟩ := hs.symm
    rw [hs']
    rfl

end Counted.Analytics
