import Counted.Analytics.Classification
import Counted.Analytics.StoredAnalysis

namespace Counted.Analytics

def JsNumber.isFinite : JsNumber → Bool
  | .finite _ => true
  | _ => false

def ScalarValue.isFinite : ScalarValue → Bool
  | .num n => JsNumber.isFinite n
  | _ => true

mutual

/-- How many levels of groups and negations stand over the deepest node. -/
def Predicate.depth : Predicate → ℕ
  | .group _ operands => depthOf operands
  | .not operand => operand.depth + 1
  | .compare .. | .member .. | .text .. | .order .. | .presence .. => 0

def depthOf : List Predicate → ℕ
  | [] => 0
  | p :: operands => max (p.depth + 1) (depthOf operands)

end

mutual

def Predicate.isFinite : Predicate → Bool
  | .group _ operands => isFiniteOf operands
  | .not operand => operand.isFinite
  | .compare _ _ value => value.isFinite
  | .member _ _ values => values.all ScalarValue.isFinite
  | .order _ _ value => JsNumber.isFinite value
  | .text .. | .presence .. => true

def isFiniteOf : List Predicate → Bool
  | [] => true
  | p :: operands => p.isFinite && isFiniteOf operands

end

theorem depthOf_lt {operands : List Predicate} {n : ℕ} :
    depthOf operands < n + 1 ↔ ∀ p ∈ operands, p.depth < n := by
  induction operands with
  | nil => simp [depthOf]
  | cons p operands ih =>
    rw [depthOf, max_lt_iff, ih, List.forall_mem_cons]
    exact and_congr_left' (by omega)

theorem isFiniteOf_eq (operands : List Predicate) :
    isFiniteOf operands = operands.all Predicate.isFinite := by
  induction operands with
  | nil => rfl
  | cons p operands ih => rw [isFiniteOf, ih, List.all_cons]

theorem get_cons (key key' : JsString) (j : Json) (fields : List (JsString × Json)) :
    JsObject.get ((key, j) :: fields) key' = if key = key' then some j
      else JsObject.get fields key' := by
  simp only [JsObject.get, List.find?_cons]
  by_cases h : key = key'
  · simp [h]
  · simp [h]

theorem get_nil (key : JsString) : JsObject.get ([] : List (JsString × Json)) key = none := rfl

theorem numberOf_reparsed (n : JsNumber) :
    numberOf (some (Json.num n).reparsed) = if JsNumber.isFinite n then some n else none := by
  cases n <;> rfl

theorem readScalar_reparsed (v : ScalarValue) :
    readScalar v.json.reparsed = some v ↔ v.isFinite = true := by
  match v with
  | .num (.finite d) => exact iff_of_true rfl rfl
  | .num (.infinity _) | .num .nan =>
    simp [ScalarValue.json, Json.reparsed, readScalar, ScalarValue.isFinite, JsNumber.isFinite]
  | .str s => exact iff_of_true rfl rfl
  | .bool b => exact iff_of_true rfl rfl
  | .null => exact iff_of_true rfl rfl

theorem nonEmptyOf_str {s : JsString} : nonEmptyOf (some (.str s)) = some s ↔ s ≠ [] := by
  cases s <;> simp [nonEmptyOf, stringOf, Option.filter]

theorem readField_reparsed {f : FieldRef} (h : f.key ≠ []) :
    readField (some f.json.reparsed) = some f := by
  cases f with
  | dimension d => cases d <;> rfl
  | property key =>
    have hk := nonEmptyOf_str.2 h
    simp only [FieldRef.key] at hk
    simp +decide [FieldRef.json, Json.reparsed, Json.reparsedFields, readField, objectOf, get_cons,
      FieldRef.key, hk, stringOf]

theorem readOp_name (op : NodeOp) :
    oneOf NodeOp.name nodeOps (some (.str op.name)) = some op := by
  match op with
  | .group op => cases op <;> rfl
  | .negation => rfl
  | .leaf op =>
    rcases op with op | op | op | op | op <;> cases op <;> rfl

/-- A leaf is read back exactly when its numbers are finite. -/
theorem readLeaf_reparsed {field : FieldRef} {fields : List (JsString × Json)} :
    (∀ op value, JsObject.get fields (js "value") = some (ScalarValue.json value) →
      (readLeaf (Json.reparsedFields fields) field (.compare op) = some (.compare op field value) ↔
        value.isFinite = true)) ∧
    (∀ op values, JsObject.get fields (js "values") = some (.arr (values.map ScalarValue.json)) →
      (readLeaf (Json.reparsedFields fields) field (.member op) = some (.member op field values) ↔
        values.all ScalarValue.isFinite = true)) ∧
    (∀ op value, JsObject.get fields (js "value") = some (.num value) →
      (readLeaf (Json.reparsedFields fields) field (.order op) = some (.order op field value) ↔
        JsNumber.isFinite value = true)) := by
  refine ⟨fun op value h ↦ ?_, fun op values h ↦ ?_, fun op value h ↦ ?_⟩
  · rw [readLeaf, Json.get_reparsedFields, h, ← readScalar_reparsed]
    simp
  · rw [readLeaf, Json.get_reparsedFields, h, List.all_eq_true]
    simp only [Option.map_some, Json.reparsed, arrayOf, Json.reparsedItems_eq, List.map_map,
      Option.bind_eq_bind, Option.bind_some]
    rw [← forall₂_congr (fun v _ ↦ readScalar_reparsed v), ← mapM_readBack]
    simp [Function.comp_def]
  · rw [readLeaf, Json.get_reparsedFields, h, Option.map_some, numberOf_reparsed]
    split_ifs with hf <;> simp [hf]

theorem readPredicate_leaf {n : ℕ} {fields : List (JsString × Json)} (op : PredicateOp)
    {field : FieldRef} (hop : JsObject.get fields (js "op") = some (.str op.name))
    (hf : JsObject.get fields (js "field") = some field.json) (hk : field.key ≠ []) :
    readPredicate (n + 1) (Json.obj fields).reparsed =
      readLeaf (Json.reparsedFields fields) field op := by
  have ho := readOp_name (.leaf op)
  have hr := readField_reparsed hk
  simp only [NodeOp.name] at ho
  simp only [Json.reparsed, readPredicate, Json.get_reparsedFields, hop, hf, Option.map_some, ho, hr,
    Option.bind_eq_bind, Option.bind_some]

theorem readPredicate_group {n : ℕ} {op : GroupOp} {operands : List Predicate} :
    readPredicate (n + 1) (Predicate.group op operands).json.reparsed =
      some (.group op operands) ↔
      ∀ p ∈ operands, readPredicate n p.json.reparsed = some p := by
  have ho := readOp_name (.group op)
  simp only [NodeOp.name] at ho
  rw [← mapM_readBack]
  simp +decide [Predicate.json, Json.reparsed, readPredicate, get_cons, ho,
    arrayOf, Json.reparsedItems_eq, jsons_eq, Function.comp_def]

theorem readPredicate_not {n : ℕ} {operand : Predicate} :
    readPredicate (n + 1) (Predicate.not operand).json.reparsed = some (.not operand) ↔
      readPredicate n operand.json.reparsed = some operand := by
  have ho := readOp_name .negation
  simp only [NodeOp.name] at ho
  simp +decide [Predicate.json, Json.reparsed, readPredicate, get_cons, ho]

/-- A predicate is read back exactly when it is not too deep and its numbers are finite. -/
theorem readPredicate_reparsed (p : Predicate) (hk : ∀ f ∈ p.fields, f.key ≠ []) (n : ℕ) :
    readPredicate n p.json.reparsed = some p ↔ p.depth < n ∧ p.isFinite = true := by
  cases n with
  | zero => simp [readPredicate]
  | succ n =>
    induction p generalizing n with
    | compare op field value =>
      rw [Predicate.json, readPredicate_leaf (.compare op) (by rfl) (by rfl)
        (hk field (List.mem_singleton_self _)), readLeaf_reparsed.1 _ _ (by rfl)]
      simp [Predicate.depth, Predicate.isFinite]
    | member op field values =>
      rw [Predicate.json, readPredicate_leaf (.member op) (by rfl) (by rfl)
        (hk field (List.mem_singleton_self _)), readLeaf_reparsed.2.1 _ _ (by rfl)]
      simp [Predicate.depth, Predicate.isFinite]
    | text op field value =>
      rw [Predicate.json, readPredicate_leaf (.text op) (by rfl) (by rfl)
        (hk field (List.mem_singleton_self _))]
      exact iff_of_true rfl ⟨Nat.succ_pos n, rfl⟩
    | order op field value =>
      rw [Predicate.json, readPredicate_leaf (.order op) (by rfl) (by rfl)
        (hk field (List.mem_singleton_self _)), readLeaf_reparsed.2.2 _ _ (by rfl)]
      simp [Predicate.depth, Predicate.isFinite]
    | presence op field =>
      rw [Predicate.json, readPredicate_leaf (.presence op) (by rfl) (by rfl)
        (hk field (List.mem_singleton_self _))]
      exact iff_of_true rfl ⟨Nat.succ_pos n, rfl⟩
    | group op operands ih =>
      rw [readPredicate_group, Predicate.depth, depthOf_lt, Predicate.isFinite, isFiniteOf_eq,
        List.all_eq_true, ← forall₂_and]
      refine forall₂_congr (fun p hp ↦ ?_)
      have hkp : ∀ f ∈ p.fields, f.key ≠ [] := fun f hf ↦ hk f (by
        rw [Predicate.fields, Predicate.fieldsOf_eq, List.mem_flatMap]
        exact ⟨p, hp, hf⟩)
      cases n with
      | zero => simp [readPredicate]
      | succ n => exact ih p hp hkp n
    | not operand ih =>
      rw [readPredicate_not, Predicate.depth, Nat.add_lt_add_iff_right, Predicate.isFinite]
      cases n with
      | zero => simp [readPredicate]
      | succ n => exact ih hk n

def Window.isFinite : Window → Bool
  | .relative amount _ => JsNumber.isFinite amount
  | .absolute fromMs toMs => JsNumber.isFinite fromMs && JsNumber.isFinite toMs

def Predicate.Readable (p : Predicate) : Prop := p.depth ≤ maxDepth ∧ p.isFinite = true

def MetricCommon.Readable (c : MetricCommon) : Prop :=
  c.window.isFinite = true ∧ ∀ p ∈ c.condition, p.Readable

def FunnelStep.Readable (s : FunnelStep) : Prop :=
  s.label ≠ some [] ∧ ∀ p ∈ s.condition, p.Readable

def Funnel.Readable (f : Funnel) : Prop :=
  (∀ s ∈ f.steps, s.Readable) ∧ f.window.isFinite = true ∧
    JsNumber.isFinite f.conversionWindow.within = true

/-- What the worker's column keeps of an analysis that needs no list of fields. -/
def Analysis.Readable : Analysis → Prop
  | .scalar common _ | .series common .. | .breakdown common .. => common.Readable
  | .funnel f => f.Readable

/-- An analysis that is not split into a series each, nor by a list of fields. -/
def Analysis.OneField : Analysis → Prop
  | .series _ _ groupBy _ => groupBy = none
  | .breakdown _ groupBy _ _ => ∃ field, groupBy = .one field
  | .scalar .. | .funnel _ => True

theorem isFinite_iff {n : JsNumber} : JsNumber.isFinite n = true ↔ ∃ d, n = .finite d := by
  cases n <;> simp [JsNumber.isFinite]

theorem readWindow_reparsed (w : Window) :
    readWindow (some w.json.reparsed) = some w ↔ w.isFinite = true := by
  match w with
  | .relative (.finite d) unit => cases unit <;> exact iff_of_true rfl rfl
  | .relative .nan unit | .relative (.infinity _) unit =>
    exact iff_of_false (by rintro ⟨⟩) (by rintro ⟨⟩)
  | .absolute (.finite d) (.finite e) => exact iff_of_true rfl rfl
  | .absolute .nan _ | .absolute (.infinity _) _ => exact iff_of_false (by rintro ⟨⟩) (by rintro ⟨⟩)
  | .absolute (.finite _) .nan | .absolute (.finite _) (.infinity _) =>
    exact iff_of_false (by rintro ⟨⟩) (by rintro ⟨⟩)

theorem nonEmpty_of_blank {s : JsString} (h : blank s = false) : s ≠ [] := by
  rintro rfl
  exact absurd h (by decide)

theorem readMeasure_reparsed {m : Measure} (h : m.readsMeasure.any blank = false) :
    readMeasure (some m.json.reparsed) = some m := by
  match m with
  | .count => rfl
  | .unique basis => cases basis <;> rfl
  | .sum name =>
    have hn := nonEmptyOf_str.2 (nonEmpty_of_blank (s := name) (by simpa [Measure.readsMeasure] using h))
    simp +decide [Measure.json, Json.reparsed, Json.reparsedFields, readMeasure, objectOf, get_cons,
      stringOf, hn]

theorem key_ne_nil {f : FieldRef} (h : blankProperty f = false) : f.key ≠ [] := by
  cases f with
  | dimension d => cases d <;> decide
  | property key => exact nonEmpty_of_blank h

theorem keys_of_defects {p : Predicate} (h : predicateDefects p = []) :
    ∀ f ∈ p.fields, f.key ≠ [] := by
  intro f hf
  rw [predicateDefects, List.append_eq_nil_iff, List.map_eq_nil_iff, List.filter_eq_nil_iff] at h
  exact key_ne_nil (Bool.not_eq_true _ ▸ h.2 f hf)

/-- A condition that may be left out, read where it is there. -/
theorem condition_reparsed {condition : Option Predicate}
    (h : (condition.map predicateDefects).getD [] = []) :
    optional (readPredicate (maxDepth + 1)) (condition.map (fun p ↦ p.json.reparsed)) =
      some condition ↔ ∀ p ∈ condition, p.Readable := by
  cases condition with
  | none => simp [optional]
  | some p =>
    have hp := readPredicate_reparsed p (keys_of_defects h) (maxDepth + 1)
    simp [optional, hp, Predicate.Readable]

theorem json_object (p : Predicate) : ∃ fields, p.json.reparsed = .obj fields := by
  cases p <;> exact ⟨_, rfl⟩

theorem readCondition_reparsed (condition : Option Predicate) :
    readCondition (condition.map (fun p ↦ p.json.reparsed)) =
      optional (readPredicate (maxDepth + 1)) (condition.map (fun p ↦ p.json.reparsed)) := by
  cases condition with
  | none => rfl
  | some p =>
    obtain ⟨fields, hp⟩ := json_object p
    simp only [Option.map_some, hp]
    rfl

theorem readCommon_reparsed {fields : List (JsString × Json)} {c : MetricCommon}
    (hm : JsObject.get fields (js "measure") = some c.measure.json)
    (hw : JsObject.get fields (js "window") = some c.window.json)
    (hc : JsObject.get fields (js "where") = c.condition.map Predicate.json)
    (hd : c.defects = []) :
    readCommon (Json.reparsedFields fields) = some c ↔ c.Readable := by
  rw [MetricCommon.defects, List.append_eq_nil_iff] at hd
  have hname : c.measure.readsMeasure.any blank = false := by
    by_contra hn
    rw [Bool.not_eq_false] at hn
    rw [hn] at hd
    exact absurd hd.1 (by simp)
  rw [MetricCommon.Readable, ← readWindow_reparsed, ← condition_reparsed hd.2,
    ← readCondition_reparsed]
  obtain ⟨measure, condition, window⟩ := c
  simp only [readCommon, Json.get_reparsedFields, hm, hw, hc, Option.map_some, Option.map_map,
    readMeasure_reparsed hname, Option.bind_eq_bind, Option.bind_some, Function.comp_def]
  cases readWindow (some window.json.reparsed) <;>
    cases readCondition (condition.map (fun p ↦ p.json.reparsed)) <;> simp [and_comm]

theorem readStep_reparsed {s : FunnelStep} (he : s.events ≠ [] ∧ s.events.any blank = false)
    (hd : (s.condition.map predicateDefects).getD [] = []) :
    readStep s.json.reparsed = some s ↔ s.Readable := by
  have hevents : (s.events.map Json.str).mapM (fun e ↦ nonEmptyOf (some e)) = some s.events := by
    refine (mapM_readBack _).2 (fun e hm ↦ nonEmptyOf_str.2 (nonEmpty_of_blank ?_))
    exact Bool.eq_false_iff.2 (fun hb ↦ Bool.false_ne_true (he.2 ▸ List.any_eq_true.2 ⟨e, hm, hb⟩))
  have hlabel : optional (fun j ↦ nonEmptyOf (some j)) (s.label.map Json.str) = some s.label ↔
      s.label ≠ some [] := by
    cases h : s.label with
    | none => simp [optional]
    | some label => simp [optional, nonEmptyOf_str]
  have hempty : (s.events.map Json.str).isEmpty = false := by
    simpa using he.1
  rw [FunnelStep.Readable, ← hlabel, ← condition_reparsed hd]
  obtain ⟨label, events, condition⟩ := s
  have hget : JsObject.get (member (js "where") Predicate.json condition ++
      member (js "label") Json.str label) (js "where") = condition.map Predicate.json := by
    cases condition <;> cases label <;> rfl
  have hget' : JsObject.get (member (js "where") Predicate.json condition ++
      member (js "label") Json.str label) (js "label") = label.map Json.str := by
    cases condition <;> cases label <;> rfl
  simp +decide only [FunnelStep.json, Json.reparsed, readStep, objectOf, Json.get_reparsedFields,
    get_cons, hget, hget', if_true, if_false, Option.map_some, arrayOf, Json.reparsedItems_eq,
    List.map_map, Function.comp_def, hempty, hevents, Option.bind_eq_bind, Option.bind_some,
    Option.map_map, Bool.false_eq_true]
  cases optional (fun j ↦ nonEmptyOf (some j)) (label.map Json.str) <;>
    cases optional (readPredicate (maxDepth + 1)) (condition.map (fun p ↦ p.json.reparsed)) <;>
    simp

theorem steps_of_defects {f : Funnel} (h : f.defects = []) :
    ∀ s ∈ f.steps, s.events ≠ [] ∧ s.events.any blank = false := by
  intro s hs
  obtain ⟨i, hi⟩ := List.mem_iff_getElem?.1 hs
  rw [Funnel.defects, List.append_eq_nil_iff, List.append_eq_nil_iff, List.flatMap_eq_nil_iff] at h
  have hstep := h.1.2 (s, i) (List.mk_mem_zipIdx_iff_getElem?.2 hi)
  rw [List.append_eq_nil_iff] at hstep
  constructor
  · intro he
    exact absurd hstep.1 (by simp [he])
  · by_contra hb
    exact absurd hstep.2 (by simp [Bool.not_eq_false _ ▸ hb])

theorem readFunnel_reparsed {f : Funnel} (h : f.defects = [])
    (hd : ∀ s ∈ f.steps, (s.condition.map predicateDefects).getD [] = []) :
    readFunnel (some f.json.reparsed) = some f ↔ f.Readable := by
  have hsteps : (f.steps.map (fun s ↦ s.json.reparsed)).mapM readStep = some f.steps ↔
      ∀ s ∈ f.steps, s.Readable := by
    rw [mapM_readBack]
    exact forall₂_congr (fun s hs ↦ readStep_reparsed (steps_of_defects h s hs) (hd s hs))
  have hbasis : oneOf CountingBasis.text bases (some (.str f.basis.text)) = some f.basis := by
    cases f.basis <;> rfl
  rw [Funnel.Readable, ← hsteps, ← readWindow_reparsed]
  obtain ⟨steps, window, ⟨within⟩, basis⟩ := f
  have hread (within : JsNumber) : readFunnel (some (Funnel.json
      ⟨steps, window, ⟨within⟩, basis⟩).reparsed) =
      ((steps.map (fun s ↦ s.json.reparsed)).mapM readStep).bind (fun steps ↦
        (readWindow (some window.json.reparsed)).bind (fun window ↦
          (numberOf (some (Json.num within).reparsed)).map (fun within ↦
            ⟨steps, window, ⟨within⟩, basis⟩))) := by
    simp +decide only [Funnel.json, Json.reparsed_obj, Json.reparsed_arr, Json.reparsed_str,
      Json.reparsedFields_cons, Json.reparsedFields_nil, readFunnel, objectOf, get_cons, if_true,
      if_false, get_nil, arrayOf, List.map_map, Function.comp_def, hbasis, Option.bind_eq_bind,
      Option.bind_some, Option.map_eq_bind]
    simp only [numberOf, Option.or_none]
    rfl
  rw [hread, numberOf_reparsed]
  cases (steps.map (fun s ↦ s.json.reparsed)).mapM readStep <;>
    cases readWindow (some window.json.reparsed) <;>
    cases JsNumber.isFinite within <;> simp

theorem limit_of_defects {limit : JsNumber} (h : limitDefects limit maxBreakdownLimit = []) :
    readLimit (some (Json.num limit).reparsed) = some limit := by
  rw [limitDefects] at h
  split_ifs at h with hl
  simp only [Bool.and_eq_true, Bool.not_eq_true'] at hl
  obtain ⟨m, rfl⟩ := JsNumber.isInteger_iff.1 hl.1.1
  have h0 : JsNumber.le (m : JsNumber) (0 : ℤ) = false := by
    have := hl.1.2
    rw [JsNumber.intCast_lt, decide_eq_false_iff_not] at this
    rw [JsNumber.le, JsNumber.intCast_lt, Bool.or_eq_false_iff, decide_eq_false_iff_not]
    refine ⟨by omega, ?_⟩
    rw [JsNumber.strictEq, Bool.and_eq_false_iff]
    refine .inr (beq_eq_false_iff_ne.2 (fun he ↦ ?_))
    have := JsNumber.intCast_injective he
    omega
  rw [readLimit, numberOf_reparsed]
  simp only [JsNumber.isFinite, if_true, Option.filter_some, hl.1.1, h0, hl.2, Bool.not_false,
    Bool.and_self]

theorem get_members (c : MetricCommon) (rest : List (JsString × Json)) :
    JsObject.get (c.members ++ rest) (js "measure") = some c.measure.json ∧
      JsObject.get (c.members ++ rest) (js "window") = some c.window.json ∧
      ((JsObject.get rest (js "where") = none) →
        JsObject.get (c.members ++ rest) (js "where") = c.condition.map Predicate.json) := by
  obtain ⟨measure, condition, window⟩ := c
  refine ⟨rfl, rfl, fun h ↦ ?_⟩
  cases condition with
  | none => simpa +decide [MetricCommon.members, member, get_cons] using h
  | some p => rfl

variable {ar : Arithmetic}

theorem defects_of_validate {a : Analysis} (h : a.validate ar = .ok a) : a.defects = [] := by
  rw [Analysis.validate] at h
  by_contra hd
  rw [if_pos hd] at h
  cases h

theorem readCommon_cons (c : MetricCommon) (rest fields : List (JsString × Json))
    (h : ∀ key ∈ [js "measure", js "window", js "where"],
      JsObject.get fields key = JsObject.get (c.members ++ rest) key)
    (hr : JsObject.get rest (js "where") = none) (hd : c.defects = []) :
    readCommon (Json.reparsedFields fields) = some c ↔ c.Readable := by
  obtain ⟨hm, hw, hc⟩ := get_members c rest
  refine readCommon_reparsed ?_ ?_ ?_ hd
  · rw [h _ (by simp), hm]
  · rw [h _ (by simp), hw]
  · rw [h _ (by simp), hc hr]

/-- The round trip through JSON keeps an analysis that needs no list of fields exactly when its
numbers are finite, its labels are not empty, and its conditions are not too deep. -/
theorem parseAnalysis_reparsed (ar : Arithmetic) (a : Analysis) (h : a.validate ar = .ok a)
    (hone : a.OneField) : parseAnalysis a.json.reparsed = some a ↔ a.Readable := by
  have hd := defects_of_validate h
  cases a with
  | scalar common summary =>
    rw [Analysis.defects, List.append_eq_nil_iff] at hd
    have hread := readCommon_cons common [] ((js "shape",
      .str (js "scalar")) :: (js "summary", .str summary.text) :: common.members) (by
        rw [List.append_nil]
        simp +decide [get_cons]) rfl hd.1
    have hs : oneOf SummaryStat.text SummaryStat.all (some (.str summary.text)) = some summary := by
      cases summary <;> rfl
    rw [Analysis.Readable, ← hread]
    simp +decide only [Analysis.json, Json.reparsed_obj, parseAnalysis, objectOf,
      Json.get_reparsedFields, get_cons, if_true, if_false, Option.map_some, Json.reparsed_str,
      stringOf, hs, Option.bind_eq_bind, Option.bind_some]
    cases readCommon (Json.reparsedFields ((js "shape", .str (js "scalar")) ::
      (js "summary", .str summary.text) :: common.members)) <;> simp
  | series common grain groupBy limit =>
    obtain rfl : groupBy = none := hone
    obtain rfl : limit = none := by
      cases limit with
      | none => rfl
      | some limit => simp [Analysis.defects] at hd
    rw [Analysis.defects, List.append_eq_nil_iff, List.append_eq_nil_iff, List.append_eq_nil_iff]
      at hd
    have hread := readCommon_cons common [] ((js "shape",
      .str (js "series")) :: (js "grain", .str grain.text) :: (common.members ++ [] ++ [])) (by
        rw [List.append_nil, List.append_nil]
        simp +decide [get_cons]) rfl hd.1.1.1
    have hs : oneOf Step.text grains (some (.str grain.text)) = some grain := by
      cases grain <;> rfl
    rw [Analysis.Readable, ← hread]
    simp +decide only [Analysis.json, member, Option.map_none, Option.toList_none,
      Json.reparsed_obj, parseAnalysis, objectOf, Json.get_reparsedFields, get_cons, if_true,
      if_false, Option.map_some, Json.reparsed_str, stringOf, hs, Option.bind_eq_bind,
      Option.bind_some]
    cases readCommon (Json.reparsedFields ((js "shape", .str (js "series")) ::
      (js "grain", .str grain.text) :: (common.members ++ [] ++ []))) <;> simp
  | breakdown common groupBy order limit =>
    obtain ⟨field, rfl⟩ := hone
    simp only [Analysis.defects, List.append_eq_nil_iff, groupDefects, Grouping.fields] at hd
    obtain ⟨⟨⟨⟨hc, -⟩, -, hkeys⟩, hlimit⟩, -⟩ := hd
    have hkey : field.key ≠ [] := by
      rw [List.map_eq_nil_iff, List.filter_eq_nil_iff] at hkeys
      exact nonEmpty_of_blank (Bool.not_eq_true _ ▸ hkeys field (List.mem_singleton_self _))
    have hread := readCommon_cons common [] ((js "shape",
      .str (js "breakdown")) :: (js "by", field.json) :: (js "order", .str order.text) ::
        (js "limit", .num limit) :: common.members) (by
        rw [List.append_nil]
        simp +decide [get_cons]) rfl hc
    have hs : oneOf SortDirection.text directions (some (.str order.text)) = some order := by
      cases order <;> rfl
    rw [Analysis.Readable, ← hread]
    simp +decide only [Analysis.json, Grouping.json, Json.reparsed_obj, parseAnalysis, objectOf,
      Json.get_reparsedFields, get_cons, if_true, if_false, Option.map_some, Json.reparsed_str,
      stringOf, hs, readField_reparsed hkey, limit_of_defects hlimit, Option.bind_eq_bind,
      Option.bind_some]
    cases readCommon (Json.reparsedFields ((js "shape", .str (js "breakdown")) ::
      (js "by", field.json) :: (js "order", .str order.text) :: (js "limit", .num limit) ::
        common.members)) <;> simp
  | funnel f =>
    rw [Analysis.defects, List.append_eq_nil_iff, List.append_eq_nil_iff, List.flatMap_eq_nil_iff]
      at hd
    rw [Analysis.Readable, ← readFunnel_reparsed hd.1.1 hd.1.2]
    simp +decide [Analysis.json, parseAnalysis, objectOf, get_cons, stringOf]

def checkoutFunnel : Analysis :=
  .funnel {
    steps := [⟨some (js "cart"), [js "add"], some (.not (.eq (.dimension .country) (.str (js "GB"))))⟩,
      ⟨none, [js "buy", js "pay"], none⟩]
    window := .relative (7 : ℤ) .day
    conversionWindow := ⟨(3600000 : ℤ)⟩
    basis := .visit }

theorem parseAnalysis_reparsed_sample : parseAnalysis checkoutFunnel.json.reparsed =
    some checkoutFunnel := by
  refine (parseAnalysis_reparsed nodeArithmetic checkoutFunnel rfl trivial).2 ?_
  refine ⟨?_, rfl, rfl⟩
  rintro s hs
  rcases List.mem_cons.1 hs with rfl | hs
  · refine ⟨by decide, ?_⟩
    rintro p ⟨⟩
    exact ⟨by decide, rfl⟩
  · obtain rfl := List.mem_singleton.1 hs
    exact ⟨by decide, by rintro p ⟨⟩⟩

def negations : ℕ → Predicate
  | 0 => .presence .exists (.property (js "plan"))
  | n + 1 => .not (negations n)

def deepCount (n : ℕ) : Analysis :=
  .scalar ⟨.count, some (negations n), .relative (7 : ℤ) .day⟩ .total

/-- Thirty-three levels are valid, and not read. -/
theorem deep_condition_refused : (deepCount 33).validate nodeArithmetic = .ok (deepCount 33) ∧
    parseAnalysis (deepCount 33).json.reparsed = none := ⟨rfl, rfl⟩

end Counted.Analytics
