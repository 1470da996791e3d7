import Counted.Analytics.WireRoundTrip

namespace Counted.Analytics

open Foundations

inductive Process | api | worker
  deriving DecidableEq

section

variable (rt : Runtime)

/-- `analysisCodec.encode` of either process. -/
def Process.encode : Process → Analysis → Json
  | .api, a => (fromAnalysis a).json
  | .worker, a => a.json

def Process.decode : Process → Json → Option Analysis
  | .api, column => (toAnalysis rt column).toOption
  | .worker, column => parseAnalysis column

/-- The column after `JSON.stringify` and back. -/
def Process.column (p : Process) (a : Analysis) : Json := (p.encode a).reparsed

/-- Loads what the column holds and saves it; an unreadable column stays as it is. -/
def Process.save (column : Json) (p : Process) : Json :=
  ((p.decode rt column).map p.column).getD column

/-- The column of what the API created, after saves by either process. -/
def savedColumn (a : Analysis) (saves : List Process) : Json :=
  saves.foldl (Process.save rt) (Process.api.column a)

end

theorem reparsed_num {n : JsNumber} (h : JsNumber.isFinite n = true) :
    (Json.num n).reparsed = .num n := by
  obtain ⟨d, rfl⟩ := isFinite_iff.1 h
  rfl

theorem ScalarValue.reparsed_json {v : ScalarValue} (h : v.isFinite = true) :
    v.json.reparsed = v.json := by
  cases v with
  | num n => exact reparsed_num h
  | str s => rfl
  | bool b => rfl
  | null => rfl

theorem FieldRef.reparsed_json (f : FieldRef) : f.json.reparsed = f.json := rfl

theorem Predicate.reparsed_json (p : Predicate) (h : p.isFinite = true) :
    p.json.reparsed = p.json := by
  induction p with
  | compare op field value =>
    simp only [Predicate.json, Json.reparsed_obj, Json.reparsedFields_cons, Json.reparsedFields_nil,
      Json.reparsed_str, FieldRef.reparsed_json, ScalarValue.reparsed_json h]
  | member op field values =>
    have hv : (values.map ScalarValue.json).map Json.reparsed = values.map ScalarValue.json := by
      rw [List.map_map]
      exact List.map_congr_left (fun v hm ↦ ScalarValue.reparsed_json (List.all_eq_true.1 h v hm))
    simp only [Predicate.json, Json.reparsed_obj, Json.reparsedFields_cons, Json.reparsedFields_nil,
      Json.reparsed_str, FieldRef.reparsed_json, Json.reparsed_arr, hv]
  | text op field value => rfl
  | order op field value =>
    simp only [Predicate.json, Json.reparsed_obj, Json.reparsedFields_cons, Json.reparsedFields_nil,
      Json.reparsed_str, FieldRef.reparsed_json, reparsed_num h]
  | presence op field => rfl
  | group op operands ih =>
    rw [Predicate.isFinite, isFiniteOf_eq, List.all_eq_true] at h
    have hv : (jsons operands).map Json.reparsed = jsons operands := by
      rw [jsons_eq, List.map_map]
      exact List.map_congr_left (fun p hp ↦ ih p hp (h p hp))
    simp only [Predicate.json, Json.reparsed_obj, Json.reparsedFields_cons, Json.reparsedFields_nil,
      Json.reparsed_str, Json.reparsed_arr, hv]
  | not operand ih =>
    simp only [Predicate.json, Json.reparsed_obj, Json.reparsedFields_cons, Json.reparsedFields_nil,
      Json.reparsed_str, ih h]

theorem fromFieldRef_json (f : FieldRef) : (fromFieldRef f).json = f.json := by
  cases f <;> rfl

theorem fromPredicate_json (p : Predicate) : (fromPredicate p).json = p.json := by
  induction p with
  | compare op field value =>
    simp only [fromPredicate, WirePredicate.json, Predicate.json, fromFieldRef_json]
  | member op field values =>
    simp only [fromPredicate, WirePredicate.json, Predicate.json, fromFieldRef_json]
  | text op field value =>
    simp only [fromPredicate, WirePredicate.json, Predicate.json, fromFieldRef_json]
  | order op field value =>
    simp only [fromPredicate, WirePredicate.json, Predicate.json, fromFieldRef_json]
  | presence op field =>
    simp only [fromPredicate, WirePredicate.json, Predicate.json, fromFieldRef_json]
  | group op operands ih =>
    have hm : (fromPredicates operands).map WirePredicate.json = operands.map Predicate.json := by
      rw [fromPredicates_eq, List.map_map]
      exact List.map_congr_left ih
    simp only [fromPredicate, WirePredicate.json, Predicate.json, wireJsons_eq, jsons_eq, hm]
  | not operand ih =>
    simp only [fromPredicate, WirePredicate.json, Predicate.json, ih]

/-- Its window is counted back from now. -/
def Window.IsRelative (w : Window) : Prop := ∃ amount unit, w = .relative amount unit

def Analysis.IsFunnel (a : Analysis) : Prop := ∃ f, a = .funnel f

theorem members_fromCommon {c : MetricCommon} (h : c.window.IsRelative) :
    (fromCommon c).members = c.members := by
  obtain ⟨measure, condition, window⟩ := c
  obtain ⟨amount, unit, rfl⟩ := h
  simp only [fromCommon, WireCommon.members, MetricCommon.members, fromMeasure_eq]
  cases condition with
  | none => rfl
  | some p =>
    simp only [Option.map_some, member, fromPredicate_json]
    rfl

theorem json_fromGrouping (g : Grouping) : (fromGrouping g).json = g.json := by
  cases g with
  | one field => exact fromFieldRef_json field
  | tuple fields =>
    rw [fromGrouping, WireGrouping.json, Grouping.json, List.map_map]
    exact congrArg Json.arr (List.map_congr_left (fun f _ ↦ fromFieldRef_json f))

/-- Away from funnels and absolute windows the two processes write the same. -/
theorem json_fromAnalysis {a : Analysis} (hf : ¬a.IsFunnel) (hw : a.window.IsRelative) :
    (fromAnalysis a).json = a.json := by
  cases a with
  | scalar common summary =>
    rw [fromAnalysis, WireAnalysis.json, Analysis.json, members_fromCommon hw]
  | series common grain groupBy limit =>
    have hb : member (js "by") WireFieldRef.json (groupBy.map fromFieldRef) =
        member (js "by") FieldRef.json groupBy := by
      cases groupBy with
      | none => rfl
      | some field => simp only [member, Option.map_some, fromFieldRef_json]
    rw [fromAnalysis, WireAnalysis.json, Analysis.json, members_fromCommon hw, hb,
      List.append_assoc]
  | breakdown common groupBy order limit =>
    rw [fromAnalysis, WireAnalysis.json, Analysis.json, members_fromCommon hw, json_fromGrouping]
  | funnel f => exact absurd ⟨f, rfl⟩ hf

theorem reparsedFields_members {c : MetricCommon} (h : c.Readable) (hw : c.window.IsRelative) :
    Json.reparsedFields c.members = c.members := by
  obtain ⟨measure, condition, window⟩ := c
  obtain ⟨amount, unit, rfl⟩ := hw
  have hm : measure.json.reparsed = measure.json := by
    cases measure <;> rfl
  have hn : (Window.relative amount unit).json.reparsed = (Window.relative amount unit).json := by
    obtain ⟨d, rfl⟩ := isFinite_iff.1 h.1
    rfl
  cases condition with
  | none => simp only [MetricCommon.members, member, Option.map_none, Option.toList_none,
      List.append_nil, Json.reparsedFields_cons, Json.reparsedFields_nil, hm, hn]
  | some p =>
    have hp := p.reparsed_json (h.2 p rfl).2
    simp only [MetricCommon.members, member, Option.map_some, Option.toList_some, List.cons_append,
      List.nil_append, Json.reparsedFields_cons, Json.reparsedFields_nil, hm, hn, hp]

variable {ar : Arithmetic}

theorem limit_of_validate {common : MetricCommon} {grain : Grain} {limit : Option JsNumber}
    (h : (Analysis.series common grain none limit).validate ar =
      .ok (.series common grain none limit)) : limit = none := by
  have hd := defects_of_validate h
  cases limit with
  | none => rfl
  | some limit => simp [Analysis.defects] at hd

/-- JSON keeps what is written of an analysis whose numbers are finite. -/
theorem Analysis.reparsed_json {a : Analysis} (h : a.validate ar = .ok a) (hf : ¬a.IsFunnel)
    (hw : a.window.IsRelative) (hone : a.OneField) (hr : a.Readable) :
    a.json.reparsed = a.json := by
  cases a with
  | scalar common summary =>
    simp only [Analysis.json, Json.reparsed_obj, Json.reparsedFields_cons, Json.reparsed_str,
      reparsedFields_members hr hw]
  | series common grain groupBy limit =>
    obtain rfl : groupBy = none := hone
    obtain rfl := limit_of_validate h
    simp only [Analysis.json, member, Option.map_none, Option.toList_none, List.append_nil,
      Json.reparsed_obj, Json.reparsedFields_cons, Json.reparsed_str, reparsedFields_members hr hw]
  | breakdown common groupBy order limit =>
    obtain ⟨field, rfl⟩ := hone
    have hd := defects_of_validate h
    simp only [Analysis.defects, List.append_eq_nil_iff] at hd
    have hl : (Json.num limit).reparsed = .num limit := by
      have hlimit := hd.1.2
      rw [limitDefects] at hlimit
      split_ifs at hlimit with hi
      simp only [Bool.and_eq_true] at hi
      obtain ⟨m, rfl⟩ := JsNumber.isInteger_iff.1 hi.1.1
      rfl
    simp only [Analysis.json, Grouping.json, Json.reparsed_obj, Json.reparsedFields_cons,
      Json.reparsed_str, FieldRef.reparsed_json, hl, reparsedFields_members hr hw]
  | funnel f => exact absurd ⟨f, rfl⟩ hf

/-- What the worker reads has no list of fields. -/
theorem oneField_of_parse {column : Json} {a : Analysis} (h : parseAnalysis column = some a) :
    a.OneField := by
  obtain ⟨fields, -, h⟩ := Option.bind_eq_some_iff.1 h
  dsimp only at h
  split_ifs at h
  · obtain ⟨f, -, rfl⟩ := Option.map_eq_some_iff.1 h
    trivial
  · obtain ⟨common, -, h⟩ := Option.bind_eq_some_iff.1 h
    obtain ⟨shape, -, h⟩ := Option.bind_eq_some_iff.1 h
    split_ifs at h
    · obtain ⟨summary, -, rfl⟩ := Option.map_eq_some_iff.1 h
      trivial
    · obtain ⟨grain, -, h⟩ := Option.bind_eq_some_iff.1 h
      cases h
      rfl
    · obtain ⟨field, -, h⟩ := Option.bind_eq_some_iff.1 h
      obtain ⟨order, -, h⟩ := Option.bind_eq_some_iff.1 h
      obtain ⟨limit, -, h⟩ := Option.bind_eq_some_iff.1 h
      cases h
      exact ⟨field, rfl⟩

theorem parseAnalysis_eq_none {fields : List (JsString × Json)}
    (hs : stringOf (JsObject.get fields (js "shape")) ≠ some (js "funnel"))
    (hw : readWindow (JsObject.get fields (js "window")) = none) :
    parseAnalysis (.obj fields) = none := by
  have hc : readCommon fields = none := by
    rw [readCommon, hw]
    cases readMeasure (JsObject.get fields (js "measure")) <;> rfl
  rw [parseAnalysis]
  simp only [objectOf, Option.bind_eq_bind, Option.bind_some, if_neg hs, hc, Option.bind_none]

theorem get_window_fromAnalysis {a : Analysis} (hf : ¬a.IsFunnel) :
    ∃ fields, (fromAnalysis a).json = .obj fields ∧
      stringOf (JsObject.get (Json.reparsedFields fields) (js "shape")) ≠ some (js "funnel") ∧
      JsObject.get fields (js "window") = some (fromWindow a.window).json := by
  cases a with
  | scalar common summary => exact ⟨_, rfl, by simp +decide [get_cons, stringOf], rfl⟩
  | series common grain groupBy limit =>
    exact ⟨_, rfl, by simp +decide [get_cons, stringOf], rfl⟩
  | breakdown common groupBy order limit =>
    exact ⟨_, rfl, by simp +decide [get_cons, stringOf], rfl⟩
  | funnel f => exact absurd ⟨f, rfl⟩ hf

/-- The worker takes no timestamp for an instant. -/
theorem parseAnalysis_absolute {a : Analysis} (hf : ¬a.IsFunnel) (hw : ¬a.window.IsRelative) :
    parseAnalysis (fromAnalysis a).json.reparsed = none := by
  obtain ⟨fields, hj, hs, hg⟩ := get_window_fromAnalysis hf
  rw [hj, Json.reparsed_obj]
  refine parseAnalysis_eq_none hs ?_
  rw [Json.get_reparsedFields, hg]
  cases h : a.window with
  | relative amount unit => exact absurd ⟨amount, unit, h⟩ hw
  | absolute fromMs toMs => rfl

section

variable (rt : Runtime)

/-- The API finds no deadline in the worker's form of a funnel. -/
theorem toAnalysis_funnel_reparsed (f : Funnel) (a : Analysis) :
    toAnalysis rt (Analysis.funnel f).json.reparsed ≠ .ok a := by
  intro h
  have hread : toAnalysis rt (Analysis.funnel f).json.reparsed =
      (toFunnel rt (some f.json.reparsed)).map .funnel := by
    simp +decide only [Analysis.json, Json.reparsed_obj, Json.reparsedFields_cons,
      Json.reparsedFields_nil, Json.reparsed_str, toAnalysis, objectOf, orBroken_some, ok_bind,
      get_cons, if_true, if_false, stringOf]
    rfl
  rw [hread] at h
  obtain ⟨g, hg, -⟩ := map_ok.1 h
  obtain ⟨fields, hfields, hg⟩ := bind_ok hg
  obtain ⟨steps, -, hg⟩ := bind_ok hg
  obtain ⟨read, -, hg⟩ := bind_ok hg
  obtain ⟨window, -, hg⟩ := bind_ok hg
  obtain ⟨within, hwithin, -⟩ := bind_ok hg
  cases hfields
  cases hwithin

theorem toOption_eq_some {ε α : Type} {x : Except ε α} {a : α} :
    x.toOption = some a ↔ x = .ok a := by
  cases x with
  | error e => exact iff_of_false (by rintro ⟨⟩) (by rintro ⟨⟩)
  | ok b => exact ⟨by rintro ⟨⟩; rfl, by rintro ⟨⟩; rfl⟩

theorem decode_absolute {a : Analysis} (hf : ¬a.IsFunnel) (hw : ¬a.window.IsRelative) :
    Process.worker.decode rt (Process.api.column a) = none := by
  rw [Process.decode, Process.column, Process.encode, parseAnalysis_absolute hf hw]

theorem decode_funnel (f : Funnel) :
    Process.api.decode rt (Process.worker.column (.funnel f)) = none := by
  rw [Process.decode, Process.column, Process.encode, Option.eq_none_iff_forall_ne_some]
  intro a h
  exact toAnalysis_funnel_reparsed rt f a (toOption_eq_some.1 h)

/-- What both processes keep of an analysis. -/
def Analysis.Shared (a : Analysis) : Prop :=
  ¬a.IsFunnel ∧ a.window.IsRelative ∧ a.OneField ∧ a.Readable

theorem column_of_shared {a : Analysis} (h : a.validate ar = .ok a) (hs : a.Shared) (p : Process) :
    p.column a = a.json := by
  obtain ⟨hf, hw, hone, hr⟩ := hs
  cases p with
  | api => rw [Process.column, Process.encode, json_fromAnalysis hf hw,
      Analysis.reparsed_json h hf hw hone hr]
  | worker => exact Analysis.reparsed_json h hf hw hone hr

theorem decode_of_shared {a : Analysis} (h : a.validate ar = .ok a) (hs : a.Shared)
    (reader : Process) : reader.decode rt a.json = some a := by
  cases reader with
  | api =>
    have hi : ∀ i ∈ a.window.instants, InDateRange i := by
      obtain ⟨amount, unit, hw⟩ := hs.2.1
      rw [hw]
      rintro i ⟨⟩
    have hread := toAnalysis_fromAnalysis rt a hi
    rw [json_fromAnalysis hs.1 hs.2.1] at hread
    exact toOption_eq_some.2 hread
  | worker =>
    have hread := (parseAnalysis_reparsed ar a h hs.2.2.1).2 hs.2.2.2
    rwa [Analysis.reparsed_json h hs.1 hs.2.1 hs.2.2.1 hs.2.2.2] at hread

theorem savedColumn_of_shared {a : Analysis} (h : a.validate ar = .ok a) (hs : a.Shared)
    (saves : List Process) : savedColumn rt a saves = a.json := by
  have hrun : saves.foldl (Process.save rt) a.json = a.json := by
    induction saves with
    | nil => rfl
    | cons p saves ih =>
      rw [List.foldl_cons, Process.save, decode_of_shared rt h hs p, Option.map_some,
        Option.getD_some, column_of_shared h hs p, ih]
  rw [savedColumn, column_of_shared h hs, hrun]

theorem shared_of_decode {a : Analysis} (h : a.validate ar = .ok a)
    (hw : Process.worker.decode rt (Process.api.column a) = some a)
    (ha : Process.api.decode rt (Process.worker.column a) = some a) : a.Shared := by
  have hf : ¬a.IsFunnel := by
    rintro ⟨f, rfl⟩
    rw [decode_funnel] at ha
    cases ha
  have hrel : a.window.IsRelative := by
    by_contra hrel
    rw [decode_absolute rt hf hrel] at hw
    cases hw
  have hone := oneField_of_parse hw
  rw [Process.decode, Process.column, Process.encode, json_fromAnalysis hf hrel,
    parseAnalysis_reparsed ar a h hone] at hw
  exact ⟨hf, hrel, hone, hw⟩

/-- Each process reads what the other wrote, and both read it after any saves, exactly when the
analysis is no funnel, its window is relative, it needs no list of fields, its numbers are finite
and its condition is not too deep. -/
theorem processes_agree_iff (ar : Arithmetic) (a : Analysis) (h : a.validate ar = .ok a) :
    (Process.worker.decode rt (Process.api.column a) = some a ∧
      Process.api.decode rt (Process.worker.column a) = some a ∧
      ∀ (saves : List Process) (reader : Process),
        reader.decode rt (savedColumn rt a saves) = some a) ↔ a.Shared := by
  constructor
  · rintro ⟨hw, ha, -⟩
    exact shared_of_decode rt h hw ha
  · intro hs
    refine ⟨?_, ?_, fun saves reader ↦ ?_⟩
    · rw [column_of_shared h hs]
      exact decode_of_shared rt h hs _
    · rw [column_of_shared h hs]
      exact decode_of_shared rt h hs _
    · rw [savedColumn_of_shared rt h hs]
      exact decode_of_shared rt h hs _

end

def signups (window : Window) : Analysis := .scalar ⟨.unique .person, none, window⟩ .total

theorem processes_agree_weekly :
    Process.worker.decode nodeRuntime (Process.api.column (signups (.relative (7 : ℤ) .day))) =
        some (signups (.relative (7 : ℤ) .day)) ∧
      Process.api.decode nodeRuntime (Process.worker.column (signups (.relative (7 : ℤ) .day))) =
        some (signups (.relative (7 : ℤ) .day)) ∧
      ∀ (saves : List Process) (reader : Process), reader.decode nodeRuntime
        (savedColumn nodeRuntime (signups (.relative (7 : ℤ) .day)) saves) =
          some (signups (.relative (7 : ℤ) .day)) :=
  (processes_agree_iff nodeRuntime nodeArithmetic (signups (.relative (7 : ℤ) .day)) rfl).2
    ⟨by rintro ⟨f, ⟨⟩⟩, ⟨_, _, rfl⟩, trivial, rfl, by rintro p ⟨⟩⟩

/-- The worker cannot read the bounds the API writes, nor the API the deadline the worker writes. -/
theorem processes_disagree :
    (signups (.absolute (1709251200000 : ℤ) (1711929600000 : ℤ))).validate nodeArithmetic =
        .ok (signups (.absolute (1709251200000 : ℤ) (1711929600000 : ℤ))) ∧
      Process.worker.decode nodeRuntime (Process.api.column
        (signups (.absolute (1709251200000 : ℤ) (1711929600000 : ℤ)))) = none ∧
      checkoutFunnel.validate nodeArithmetic = .ok checkoutFunnel ∧
      Process.api.decode nodeRuntime (Process.worker.column checkoutFunnel) = none := by
  refine ⟨rfl, decode_absolute _ ?_ ?_, rfl, decode_funnel _ _⟩
  · rintro ⟨f, ⟨⟩⟩
  · rintro ⟨amount, unit, ⟨⟩⟩

end Counted.Analytics
