import Counted.Analytics.Readback
import Counted.Analytics.WireAnalysis

namespace Counted.Analytics

open Foundations

theorem orBroken_some {α : Type} (a : α) : orBroken (some a) = .ok a := rfl

theorem fromPredicates_eq (operands : List Predicate) :
    fromPredicates operands = operands.map fromPredicate := by
  induction operands with
  | nil => rfl
  | cons p operands ih => rw [fromPredicates, ih, List.map_cons]

theorem wireJsons_eq (operands : List WirePredicate) :
    wireJsons operands = operands.map WirePredicate.json := by
  induction operands with
  | nil => rfl
  | cons p operands ih => rw [wireJsons, ih, List.map_cons]

theorem toFieldRef_json (f : FieldRef) : toFieldRef (fromFieldRef f).json = .ok f := by
  cases f with
  | dimension d => cases d <;> rfl
  | property key => rfl

theorem fromFieldRef_of_toFieldRef {w : WireFieldRef} {f : FieldRef}
    (h : toFieldRef w.json = .ok f) : fromFieldRef f = w := by
  obtain ⟨source, key⟩ := w
  cases source with
  | property =>
    cases h
    rfl
  | dimension =>
    simp +decide only [WireFieldRef.json, toFieldRef, objectOf, stringOf, orBroken_some, ok_bind,
      get_cons, if_true, if_false] at h
    cases hd : dimensions.find? (fun d ↦ d.text = key) with
    | none =>
      rw [hd] at h
      cases h
    | some d =>
      rw [hd] at h
      cases h
      have ht := List.find?_some hd
      rw [fromFieldRef, of_decide_eq_true ht]

theorem scalarOf_json (v : ScalarValue) : scalarOf v.json = some v := by
  cases v <;> rfl

theorem toPredicateAt_leaf {n : ℕ} {fields : List (JsString × Json)} (op : PredicateOp)
    {field : WireFieldRef} (hop : JsObject.get fields (js "op") = some (.str op.name))
    (hf : JsObject.get fields (js "field") = some field.json) :
    toPredicateAt (n + 1) (.obj fields) =
      toFieldRef field.json >>= fun f ↦ orBroken (toLeaf fields f op) := by
  have ho := readOp_name (.leaf op)
  simp only [NodeOp.name] at ho
  simp only [toPredicateAt, hop, hf, ho, orBroken]
  rfl

section

variable (n : ℕ)

attribute [local simp] WirePredicate.json wireJsons toPredicateAt

theorem toPredicateAt_compare (op : CompareOp) (field : WireFieldRef) (value : ScalarValue) :
    toPredicateAt (n + 1) (WirePredicate.compare op field value).json =
      (toFieldRef field.json).map (fun f ↦ .compare op f value) := by
  rw [WirePredicate.json, toPredicateAt_leaf (.compare op) (by rfl) (by rfl)]
  simp +decide only [toLeaf, get_cons, if_true, if_false, Option.bind_some, scalarOf_json]
  rfl

theorem toPredicateAt_member (op : MemberOp) (field : WireFieldRef) (values : List ScalarValue) :
    toPredicateAt (n + 1) (WirePredicate.member op field values).json =
      (toFieldRef field.json).map (fun f ↦ .member op f values) := by
  have hv : (values.map ScalarValue.json).mapM scalarOf = some values :=
    (mapM_readBack _).2 (fun v _ ↦ scalarOf_json v)
  rw [WirePredicate.json, toPredicateAt_leaf (.member op) (by rfl) (by rfl)]
  simp +decide only [toLeaf, get_cons, if_true, if_false, arrayOf, Option.bind_some, hv]
  rfl

theorem toPredicateAt_text (op : TextOp) (field : WireFieldRef) (value : JsString) :
    toPredicateAt (n + 1) (WirePredicate.text op field value).json =
      (toFieldRef field.json).map (fun f ↦ .text op f value) := by
  rw [WirePredicate.json, toPredicateAt_leaf (.text op) (by rfl) (by rfl)]
  rfl

theorem toPredicateAt_order (op : OrderOp) (field : WireFieldRef) (value : JsNumber) :
    toPredicateAt (n + 1) (WirePredicate.order op field value).json =
      (toFieldRef field.json).map (fun f ↦ .order op f value) := by
  rw [WirePredicate.json, toPredicateAt_leaf (.order op) (by rfl) (by rfl)]
  rfl

theorem toPredicateAt_presence (op : PresenceOp) (field : WireFieldRef) :
    toPredicateAt (n + 1) (WirePredicate.presence op field).json =
      (toFieldRef field.json).map (fun f ↦ .presence op f) := by
  rw [WirePredicate.json, toPredicateAt_leaf (.presence op) (by rfl) (by rfl)]
  rfl

theorem toPredicateAt_group (op : GroupOp) (operands : List WirePredicate) :
    toPredicateAt (n + 1) (WirePredicate.group op operands).json =
      ((operands.map WirePredicate.json).mapM (toPredicateAt n)).map (.group op) := by
  have ho := readOp_name (.group op)
  simp only [NodeOp.name] at ho
  simp +decide only [WirePredicate.json, toPredicateAt, get_cons, if_true, if_false, ho, orBroken,
    arrayOf, wireJsons_eq]
  rfl

theorem toPredicateAt_not (operand : WirePredicate) :
    toPredicateAt (n + 1) (WirePredicate.not operand).json =
      (toPredicateAt n operand.json).map .not := by
  have ho := readOp_name .negation
  simp only [NodeOp.name] at ho
  simp +decide only [WirePredicate.json, toPredicateAt, get_cons, if_true, if_false, ho, orBroken]
  rfl

end

/-- A predicate is read as it was written, whatever its depth. -/
theorem toPredicateAt_json (p : Predicate) (n : ℕ) (h : (fromPredicate p).json.depth ≤ n) :
    toPredicateAt n (fromPredicate p).json = .ok p := by
  induction p generalizing n with
  | compare op field value =>
    obtain ⟨n, rfl⟩ := Nat.exists_eq_add_of_le' (Nat.one_le_of_lt (Nat.lt_of_succ_le h))
    rw [fromPredicate, toPredicateAt_compare, toFieldRef_json]
    rfl
  | member op field values =>
    obtain ⟨n, rfl⟩ := Nat.exists_eq_add_of_le' (Nat.one_le_of_lt (Nat.lt_of_succ_le h))
    rw [fromPredicate, toPredicateAt_member, toFieldRef_json]
    rfl
  | text op field value =>
    obtain ⟨n, rfl⟩ := Nat.exists_eq_add_of_le' (Nat.one_le_of_lt (Nat.lt_of_succ_le h))
    rw [fromPredicate, toPredicateAt_text, toFieldRef_json]
    rfl
  | order op field value =>
    obtain ⟨n, rfl⟩ := Nat.exists_eq_add_of_le' (Nat.one_le_of_lt (Nat.lt_of_succ_le h))
    rw [fromPredicate, toPredicateAt_order, toFieldRef_json]
    rfl
  | presence op field =>
    obtain ⟨n, rfl⟩ := Nat.exists_eq_add_of_le' (Nat.one_le_of_lt (Nat.lt_of_succ_le h))
    rw [fromPredicate, toPredicateAt_presence, toFieldRef_json]
    rfl
  | group op operands ih =>
    obtain ⟨n, rfl⟩ := Nat.exists_eq_add_of_le' (Nat.one_le_of_lt (Nat.lt_of_succ_le h))
    have hread : ((fromPredicates operands).map WirePredicate.json).mapM (toPredicateAt n) =
        .ok operands := by
      rw [fromPredicates_eq, List.map_map]
      refine mapM_ok (fun p hp ↦ ih p hp n ?_)
      have hitem : (fromPredicate p).json ∈ wireJsons (fromPredicates operands) := by
        rw [wireJsons_eq, fromPredicates_eq, List.map_map]
        exact List.mem_map_of_mem hp
      have hle := Json.depth_le_items hitem
      simp only [fromPredicate, WirePredicate.json, Json.depth, Json.depthFields] at h
      omega
    rw [fromPredicate, toPredicateAt_group, hread]
    rfl
  | not operand ih =>
    obtain ⟨n, rfl⟩ := Nat.exists_eq_add_of_le' (Nat.one_le_of_lt (Nat.lt_of_succ_le h))
    have hread := ih n (by
      simp only [fromPredicate, WirePredicate.json, Json.depth, Json.depthFields] at h
      omega)
    rw [fromPredicate, toPredicateAt_not, hread]
    rfl

theorem toPredicate_json (p : Predicate) : toPredicate (fromPredicate p).json = .ok p :=
  toPredicateAt_json p _ le_rfl

/-- What is read of a wire predicate is written as that predicate. -/
theorem fromPredicate_of_toPredicateAt {n : ℕ} {w : WirePredicate} {p : Predicate}
    (h : toPredicateAt n w.json = .ok p) : fromPredicate p = w := by
  induction n generalizing w p with
  | zero => cases w <;> cases h
  | succ n ih =>
    cases w with
    | compare op field value =>
      rw [toPredicateAt_compare] at h
      obtain ⟨f, hf, rfl⟩ := map_ok.1 h
      rw [fromPredicate, fromFieldRef_of_toFieldRef hf]
    | member op field values =>
      rw [toPredicateAt_member] at h
      obtain ⟨f, hf, rfl⟩ := map_ok.1 h
      rw [fromPredicate, fromFieldRef_of_toFieldRef hf]
    | text op field value =>
      rw [toPredicateAt_text] at h
      obtain ⟨f, hf, rfl⟩ := map_ok.1 h
      rw [fromPredicate, fromFieldRef_of_toFieldRef hf]
    | order op field value =>
      rw [toPredicateAt_order] at h
      obtain ⟨f, hf, rfl⟩ := map_ok.1 h
      rw [fromPredicate, fromFieldRef_of_toFieldRef hf]
    | presence op field =>
      rw [toPredicateAt_presence] at h
      obtain ⟨f, hf, rfl⟩ := map_ok.1 h
      rw [fromPredicate, fromFieldRef_of_toFieldRef hf]
    | group op operands =>
      rw [toPredicateAt_group, List.mapM_map] at h
      obtain ⟨read, hr, rfl⟩ := map_ok.1 h
      have hmap := map_of_mapM_ok fromPredicate id
        (fun w _ p hp ↦ ih hp) hr
      rw [fromPredicate, fromPredicates_eq, hmap, List.map_id]
    | not operand =>
      rw [toPredicateAt_not] at h
      obtain ⟨p, hp, rfl⟩ := map_ok.1 h
      rw [fromPredicate, ih hp]

section

variable (rt : Runtime)

theorem toWindow_relative (amount : JsNumber) (unit : RelativeUnit) :
    toWindow rt (some (WireWindow.relative amount unit).json) = .ok (.relative amount unit) := by
  cases unit <;> rfl

theorem toWindow_absolute (fromText toText : JsString) :
    toWindow rt (some (WireWindow.absolute fromText toText).json) = (do
      let fromMs ← toInstant rt (js "from") (some (.str fromText))
      let toMs ← toInstant rt (js "to") (some (.str toText))
      return .absolute fromMs toMs) := by
  simp +decide only [WireWindow.json, toWindow, objectOf, orBroken_some, ok_bind, get_cons, if_true,
    if_false, stringOf]

/-- A timestamp as the text of the instant it denotes. -/
def canonicalText (text : JsString) : JsString :=
  (fromISO rt text).elim text Calendar.toISOString

def WireWindow.canonical : WireWindow → WireWindow
  | .relative amount unit => .relative amount unit
  | .absolute fromISO toISO => .absolute (canonicalText rt fromISO) (canonicalText rt toISO)

theorem toISO_intCast {t : ℤ} (h : |t| ≤ Calendar.maxTime) :
    toISO (t : JsNumber) = Calendar.toISOString t := by
  simp only [toISO, Calendar.timeClip_intCast h, Option.elim_some]

theorem fromISO_toISO {t : ℤ} (h : |t| ≤ Calendar.maxTime) :
    fromISO rt (toISO (t : JsNumber)) = some t := by
  rw [toISO_intCast h, fromISO, Ingestion.instantFromISO]
  simp only [Calendar.dateParse_toISOString rt h]
  exact if_pos (decide_eq_true (h : |t| ≤ Ingestion.maxEpochMillis))

theorem fromISO_range {text : JsString} {t : Instant} (h : fromISO rt text = some t) :
    |t| ≤ Calendar.maxTime := by
  obtain ⟨-, ht⟩ := Option.filter_eq_some_iff.1 h
  exact of_decide_eq_true ht

theorem toInstant_toISO {t : ℤ} (h : |t| ≤ Calendar.maxTime) (bound : JsString) :
    toInstant rt bound (some (.str (toISO (t : JsNumber)))) = .ok (t : JsNumber) := by
  simp only [toInstant, dateText, orBroken_some, ok_bind, fromISO_toISO rt h]

theorem toISO_of_toInstant {bound text : JsString} {i : JsNumber}
    (h : toInstant rt bound (some (.str text)) = .ok i) : toISO i = canonicalText rt text := by
  simp only [toInstant, dateText, orBroken_some, ok_bind] at h
  cases ht : fromISO rt text with
  | none =>
    rw [ht] at h
    cases h
  | some t =>
    rw [ht] at h
    cases h
    rw [canonicalText, ht, Option.elim_some, toISO_intCast (fromISO_range rt ht)]

def WireCommon.canonical (c : WireCommon) : WireCommon :=
  { c with window := c.window.canonical rt }

/-- The same wire value with every timestamp in the form of `toISOString`. -/
def WireAnalysis.canonical : WireAnalysis → WireAnalysis
  | .scalar common summary => .scalar (common.canonical rt) summary
  | .series common grain groupBy limit => .series (common.canonical rt) grain groupBy limit
  | .breakdown common groupBy order limit =>
    .breakdown (common.canonical rt) groupBy order limit
  | .funnel f => .funnel { f with window := f.window.canonical rt }

def Window.instants : Window → List JsNumber
  | .relative .. => []
  | .absolute fromMs toMs => [fromMs, toMs]

/-- Whole milliseconds within the range of dates. -/
def InDateRange (i : JsNumber) : Prop := ∃ t : ℤ, i = (t : JsNumber) ∧ |t| ≤ Calendar.maxTime

theorem toWindow_json {w : Window} (h : ∀ i ∈ w.instants, InDateRange i) :
    toWindow rt (some (fromWindow w).json) = .ok w := by
  cases w with
  | relative amount unit => exact toWindow_relative rt amount unit
  | absolute fromMs toMs =>
    obtain ⟨t, rfl, ht⟩ := h fromMs (List.mem_cons_self ..)
    obtain ⟨u, rfl, hu⟩ := h toMs (List.mem_cons_of_mem _ (List.mem_cons_self ..))
    rw [fromWindow, toWindow_absolute, toInstant_toISO rt ht, toInstant_toISO rt hu]
    rfl

theorem fromWindow_of_toWindow {w : WireWindow} {r : Window}
    (h : toWindow rt (some w.json) = .ok r) : fromWindow r = w.canonical rt := by
  cases w with
  | relative amount unit =>
    rw [toWindow_relative] at h
    cases h
    rfl
  | absolute fromText toText =>
    rw [toWindow_absolute] at h
    obtain ⟨i, hi, h⟩ := bind_ok h
    obtain ⟨k, hk, h⟩ := bind_ok h
    cases h
    rw [fromWindow, WireWindow.canonical, toISO_of_toInstant rt hi, toISO_of_toInstant rt hk]

theorem toMeasure_json (m : Measure) : toMeasure (some m.json) = .ok m := by
  match m with
  | .count => rfl
  | .unique basis => cases basis <;> rfl
  | .sum name => rfl

theorem fromMeasure_eq (m : Measure) : fromMeasure m = m := by
  cases m <;> rfl

theorem toCondition_json (condition : Option Predicate) :
    toCondition ((condition.map fromPredicate).map WirePredicate.json) = .ok condition := by
  cases condition with
  | none => rfl
  | some p =>
    simp only [Option.map_some, toCondition, toPredicate_json]
    rfl

theorem fromPredicate_of_toCondition {w : Option WirePredicate} {condition : Option Predicate}
    (h : toCondition (w.map WirePredicate.json) = .ok condition) :
    condition.map fromPredicate = w := by
  cases w with
  | none =>
    cases h
    rfl
  | some w =>
    obtain ⟨p, hp, rfl⟩ := map_ok.1 h
    rw [Option.map_some, fromPredicate_of_toPredicateAt hp]

theorem toFunnelStep_json (s : WireFunnelStep) :
    toFunnelStep s.json = (toCondition (s.condition.map WirePredicate.json)).map
      (fun condition ↦ ⟨s.label, s.events, condition⟩) := by
  obtain ⟨label, events, condition⟩ := s
  have hw : JsObject.get (member (js "label") Json.str label ++ (js "events",
      .arr (events.map .str)) :: member (js "where") WirePredicate.json condition) (js "where") =
        condition.map WirePredicate.json := by
    cases label <;> cases condition <;> rfl
  have he : JsObject.get (member (js "label") Json.str label ++ (js "events",
      .arr (events.map .str)) :: member (js "where") WirePredicate.json condition) (js "events") =
        some (.arr (events.map .str)) := by
    cases label <;> rfl
  have hl : JsObject.get (member (js "label") Json.str label ++ (js "events",
      .arr (events.map .str)) :: member (js "where") WirePredicate.json condition) (js "label") =
        label.map .str := by
    cases label <;> cases condition <;> rfl
  have hevents : (events.map Json.str).mapM (fun e ↦ stringOf (some e)) = some events :=
    (mapM_readBack _).2 (fun _ _ ↦ rfl)
  have hlabel : optional (fun j ↦ stringOf (some j)) (label.map Json.str) = some label := by
    cases label <;> rfl
  simp only [WireFunnelStep.json, toFunnelStep, objectOf, orBroken_some, ok_bind, hw, he, hl,
    arrayOf, hevents, hlabel]
  cases toCondition (condition.map WirePredicate.json) <;> rfl

theorem toFunnel_json (f : WireFunnel) :
    toFunnel rt (some f.json) = (do
      let steps ← (f.steps.map WireFunnelStep.json).mapM toFunnelStep
      let window ← toWindow rt (some f.window.json)
      return ⟨steps, window, ⟨f.conversionWindowMs⟩, f.basis⟩) := by
  have hb : oneOf CountingBasis.text bases (some (.str f.basis.text)) = some f.basis := by
    cases f.basis <;> rfl
  simp +decide only [WireFunnel.json, toFunnel, objectOf, orBroken_some, ok_bind, get_cons, if_true,
    if_false, arrayOf, anyNumberOf, hb]

theorem get_wireMembers (c : WireCommon) (rest : List (JsString × Json)) :
    JsObject.get (c.members ++ rest) (js "measure") = some c.measure.json ∧
    JsObject.get (c.members ++ rest) (js "window") = some c.window.json ∧
    (JsObject.get rest (js "where") = none → JsObject.get (c.members ++ rest) (js "where") =
      c.condition.map WirePredicate.json) := by
  obtain ⟨measure, condition, window⟩ := c
  refine ⟨rfl, rfl, fun h ↦ ?_⟩
  cases condition with
  | none => simpa +decide [WireCommon.members, member, get_cons] using h
  | some p => rfl

/-- What is read of the members that every shape but a funnel has. -/
def toCommonOf (c : WireCommon) : Except WireFault MetricCommon := do
  let window ← toWindow rt (some c.window.json)
  let condition ← toCondition (c.condition.map WirePredicate.json)
  return ⟨c.measure, condition, window⟩

theorem toCommon_json (c : WireCommon) (rest fields : List (JsString × Json))
    (h : ∀ key ∈ [js "measure", js "window", js "where"],
      JsObject.get fields key = JsObject.get (c.members ++ rest) key)
    (hr : JsObject.get rest (js "where") = none) : toCommon rt fields = toCommonOf rt c := by
  obtain ⟨hm, hw, hc⟩ := get_wireMembers c rest
  rw [toCommon, h _ (by simp), h _ (by simp), h _ (by simp), hm, hw, hc hr, toMeasure_json]
  rfl

theorem toCommonOf_fromCommon {c : MetricCommon} (h : ∀ i ∈ c.window.instants, InDateRange i) :
    toCommonOf rt (fromCommon c) = .ok c := by
  simp only [toCommonOf, fromCommon, toWindow_json rt h, toCondition_json, fromMeasure_eq, ok_bind]
  rfl

theorem fromCommon_of_toCommonOf {w : WireCommon} {c : MetricCommon}
    (h : toCommonOf rt w = .ok c) : fromCommon c = w.canonical rt := by
  obtain ⟨window, hw, h⟩ := bind_ok h
  obtain ⟨condition, hp, h⟩ := bind_ok h
  cases h
  simp only [fromCommon, fromWindow_of_toWindow rt hw, fromPredicate_of_toCondition hp,
    fromMeasure_eq]
  rfl

theorem toFunnel_fromFunnel (f : Funnel) (h : ∀ i ∈ f.window.instants, InDateRange i) :
    toFunnel rt (some (WireFunnel.json ⟨f.steps.map fromFunnelStep, fromWindow f.window,
      f.conversionWindow.within, f.basis⟩)) = .ok f := by
  have hsteps : ((f.steps.map fromFunnelStep).map WireFunnelStep.json).mapM toFunnelStep =
      .ok f.steps := by
    rw [List.map_map]
    refine mapM_ok (fun s _ ↦ ?_)
    rw [Function.comp_apply, toFunnelStep_json, fromFunnelStep, toCondition_json]
    rfl
  rw [toFunnel_json, hsteps, ok_bind, toWindow_json rt h]
  rfl

theorem fromFunnelStep_of_toFunnelStep {w : WireFunnelStep} {s : FunnelStep}
    (h : toFunnelStep w.json = .ok s) : fromFunnelStep s = w := by
  rw [toFunnelStep_json] at h
  obtain ⟨condition, hc, rfl⟩ := map_ok.1 h
  rw [fromFunnelStep, fromPredicate_of_toCondition hc]

theorem toAnalysis_scalar (common : WireCommon) (summary : SummaryStat) :
    toAnalysis rt (WireAnalysis.scalar common summary).json =
      (toCommonOf rt common).map (fun c ↦ .scalar c summary) := by
  have hs : oneOf SummaryStat.text SummaryStat.all (some (.str summary.text)) = some summary := by
    cases summary <;> rfl
  have hc := toCommon_json rt common [] ((js "shape",
    .str (js "scalar")) :: (js "summary", .str summary.text) :: common.members) (by
      rw [List.append_nil]
      simp +decide [get_cons]) rfl
  simp +decide only [WireAnalysis.json, toAnalysis, objectOf, orBroken_some, ok_bind, get_cons,
    if_true, if_false, stringOf, hc, hs]
  rfl

theorem toAnalysis_series (common : WireCommon) (grain : Grain) (groupBy : Option WireFieldRef)
    (limit : Option JsNumber) :
    toAnalysis rt (WireAnalysis.series common grain groupBy limit).json = (do
      let c ← toCommonOf rt common
      let split ← toSplit (groupBy.map WireFieldRef.json)
      return .series c grain split limit) := by
  have hg : oneOf Step.text grains (some (.str grain.text)) = some grain := by
    cases grain <;> rfl
  have hb : JsObject.get (common.members ++ (member (js "by") WireFieldRef.json groupBy ++
      member (js "limit") .num limit)) (js "by") = groupBy.map WireFieldRef.json := by
    obtain ⟨measure, condition, window⟩ := common
    cases condition <;> cases groupBy <;> cases limit <;> rfl
  have hl : JsObject.get (common.members ++ (member (js "by") WireFieldRef.json groupBy ++
      member (js "limit") .num limit)) (js "limit") = limit.map .num := by
    obtain ⟨measure, condition, window⟩ := common
    cases condition <;> cases groupBy <;> cases limit <;> rfl
  have hlimit : optional (fun j ↦ anyNumberOf (some j)) (limit.map Json.num) = some limit := by
    cases limit <;> rfl
  have hc := toCommon_json rt common (member (js "by") WireFieldRef.json groupBy ++
    member (js "limit") .num limit) ((js "shape", .str (js "series")) ::
      (js "grain", .str grain.text) :: (common.members ++ (member (js "by") WireFieldRef.json groupBy
        ++ member (js "limit") .num limit))) (by simp +decide [get_cons]) (by
      cases groupBy <;> cases limit <;> rfl)
  simp +decide only [WireAnalysis.json, toAnalysis, objectOf, orBroken_some, ok_bind, get_cons,
    if_true, if_false, stringOf, hc, hg, hb, hl, hlimit]

theorem toAnalysis_breakdown (common : WireCommon) (groupBy : WireGrouping)
    (order : SortDirection) (limit : JsNumber) :
    toAnalysis rt (WireAnalysis.breakdown common groupBy order limit).json = (do
      let c ← toCommonOf rt common
      let split ← toGrouping (some groupBy.json)
      return .breakdown c split order limit) := by
  have ho : oneOf SortDirection.text directions (some (.str order.text)) = some order := by
    cases order <;> rfl
  have hc := toCommon_json rt common [] ((js "shape",
    .str (js "breakdown")) :: (js "by", groupBy.json) :: (js "order", .str order.text) ::
      (js "limit", .num limit) :: common.members) (by
      rw [List.append_nil]
      simp +decide [get_cons]) rfl
  simp +decide only [WireAnalysis.json, toAnalysis, objectOf, orBroken_some, ok_bind, get_cons,
    if_true, if_false, stringOf, hc, ho, anyNumberOf]

theorem toAnalysis_funnel (f : WireFunnel) :
    toAnalysis rt (WireAnalysis.funnel f).json = (toFunnel rt (some f.json)).map .funnel := by
  simp +decide only [WireAnalysis.json, toAnalysis, objectOf, orBroken_some, ok_bind, get_cons,
    if_true, if_false, stringOf]
  rfl

theorem toSplit_json (groupBy : Option FieldRef) :
    toSplit ((groupBy.map fromFieldRef).map WireFieldRef.json) = .ok groupBy := by
  cases groupBy with
  | none => rfl
  | some field =>
    change (toFieldRef (fromFieldRef field).json).map some = _
    rw [toFieldRef_json]
    rfl

theorem fromFieldRef_of_toSplit {w : Option WireFieldRef} {groupBy : Option FieldRef}
    (h : toSplit (w.map WireFieldRef.json) = .ok groupBy) : groupBy.map fromFieldRef = w := by
  cases w with
  | none =>
    cases h
    rfl
  | some w =>
    obtain ⟨field, hf, rfl⟩ := map_ok.1 (h : (toFieldRef w.json).map some = _)
    rw [Option.map_some, fromFieldRef_of_toFieldRef hf]

theorem toGrouping_json (g : Grouping) : toGrouping (some (fromGrouping g).json) = .ok g := by
  cases g with
  | one field =>
    change (toFieldRef (fromFieldRef field).json).map Grouping.one = _
    rw [toFieldRef_json]
    rfl
  | tuple fields =>
    have hread : ((fields.map fromFieldRef).map WireFieldRef.json).mapM toFieldRef = .ok fields := by
      rw [List.map_map]
      exact mapM_ok (fun f _ ↦ toFieldRef_json f)
    change (((fields.map fromFieldRef).map WireFieldRef.json).mapM toFieldRef).map Grouping.tuple = _
    rw [hread]
    rfl

theorem fromGrouping_of_toGrouping {w : WireGrouping} {g : Grouping}
    (h : toGrouping (some w.json) = .ok g) : fromGrouping g = w := by
  cases w with
  | one field =>
    obtain ⟨f, hf, rfl⟩ := map_ok.1 (h : (toFieldRef field.json).map Grouping.one = _)
    rw [fromGrouping, fromFieldRef_of_toFieldRef hf]
  | tuple fields =>
    obtain ⟨read, hr, rfl⟩ := map_ok.1
      (h : ((fields.map WireFieldRef.json).mapM toFieldRef).map Grouping.tuple = _)
    rw [List.mapM_map] at hr
    have hmap := map_of_mapM_ok fromFieldRef id
      (fun w _ f hf ↦ fromFieldRef_of_toFieldRef hf) hr
    rw [fromGrouping, hmap, List.map_id]

theorem toAnalysis_fromAnalysis (a : Analysis) (h : ∀ i ∈ a.window.instants, InDateRange i) :
    toAnalysis rt (fromAnalysis a).json = .ok a := by
  cases a with
  | scalar common summary =>
    rw [fromAnalysis, toAnalysis_scalar, toCommonOf_fromCommon rt h]
    rfl
  | series common grain groupBy limit =>
    rw [fromAnalysis, toAnalysis_series, toCommonOf_fromCommon rt h, ok_bind, toSplit_json]
    rfl
  | breakdown common groupBy order limit =>
    rw [fromAnalysis, toAnalysis_breakdown, toCommonOf_fromCommon rt h, ok_bind, toGrouping_json]
    rfl
  | funnel f =>
    rw [fromAnalysis, toAnalysis_funnel, toFunnel_fromFunnel rt f h]
    rfl

theorem fromAnalysis_of_toAnalysis {w : WireAnalysis} {a : Analysis}
    (h : toAnalysis rt w.json = .ok a) : fromAnalysis a = w.canonical rt := by
  cases w with
  | scalar common summary =>
    rw [toAnalysis_scalar] at h
    obtain ⟨c, hc, rfl⟩ := map_ok.1 h
    rw [fromAnalysis, fromCommon_of_toCommonOf rt hc, WireAnalysis.canonical]
  | series common grain groupBy limit =>
    rw [toAnalysis_series] at h
    obtain ⟨c, hc, h⟩ := bind_ok h
    obtain ⟨split, hs, h⟩ := bind_ok h
    cases h
    rw [fromAnalysis, fromCommon_of_toCommonOf rt hc, fromFieldRef_of_toSplit hs,
      WireAnalysis.canonical]
  | breakdown common groupBy order limit =>
    rw [toAnalysis_breakdown] at h
    obtain ⟨c, hc, h⟩ := bind_ok h
    obtain ⟨split, hs, h⟩ := bind_ok h
    cases h
    rw [fromAnalysis, fromCommon_of_toCommonOf rt hc, fromGrouping_of_toGrouping hs,
      WireAnalysis.canonical]
  | funnel f =>
    rw [toAnalysis_funnel, toFunnel_json] at h
    obtain ⟨f', hf, rfl⟩ := map_ok.1 h
    obtain ⟨steps, hs, hf⟩ := bind_ok hf
    obtain ⟨window, hw, hf⟩ := bind_ok hf
    cases hf
    rw [List.mapM_map] at hs
    have hmap := map_of_mapM_ok fromFunnelStep id
      (fun w _ s hs ↦ fromFunnelStep_of_toFunnelStep hs) hs
    simp only [fromAnalysis, WireAnalysis.canonical, fromWindow_of_toWindow rt hw, hmap, List.map_id]

/-- What is written is read back; what is read and written again is what was there, with its
timestamps in the form of `toISOString`. -/
theorem wire_roundTrip :
    (∀ a : Analysis, (∀ i ∈ a.window.instants, InDateRange i) →
      toAnalysis rt (fromAnalysis a).json = .ok a) ∧
    (∀ (w : WireAnalysis) (a : Analysis), toAnalysis rt w.json = .ok a →
      fromAnalysis a = w.canonical rt) :=
  ⟨toAnalysis_fromAnalysis rt, fun _ _ h ↦ fromAnalysis_of_toAnalysis rt h⟩

end

def plansInMarch : Analysis :=
  .breakdown ⟨.sum (js "total"), some (.not (.eq (.dimension .country) (.str (js "GB")))),
    .absolute (1709251200000 : ℤ) (1711929600000 : ℤ)⟩
    (.tuple [.property (js "plan"), .dimension .country]) .desc (10 : ℤ)

theorem wire_roundTrip_sample : toAnalysis nodeRuntime (fromAnalysis plansInMarch).json =
      .ok plansInMarch ∧
    fromAnalysis plansInMarch = (fromAnalysis plansInMarch).canonical nodeRuntime := by
  have hread := (wire_roundTrip nodeRuntime).1 plansInMarch (by
    intro i hi
    rcases List.mem_cons.1 hi with rfl | hi
    · exact ⟨1709251200000, rfl, by decide⟩
    · obtain rfl := List.mem_singleton.1 hi
      exact ⟨1711929600000, rfl, by decide⟩)
  exact ⟨hread, (wire_roundTrip nodeRuntime).2 _ _ hread⟩

end Counted.Analytics
