import Counted.Analytics.Ask
import Counted.Litics.RawPath

namespace Counted.Litics

open Analytics Foundations Calendar

/-- The same refusal, or answers that are related. -/
def SameOutcome {α : Type} (R : α → α → Prop) (x y : Except EngineFailure (Computed α)) : Prop :=
  match x, y with
  | .error e, .error e' => e = e'
  | .ok a, .ok a' => R a.value a'.value ∧ a.computedAt = a'.computedAt
  | _, _ => False

/-- The same rows, ranked by the same rule. Rows it does not tell apart stand in any order. -/
def SameRanking (rt : Runtime) (order : SortDirection) (limit : JsNumber)
    (rows rows' : List BreakdownEntry) : Prop :=
  ∃ l m, l.Perm m ∧ rows = rank rt order limit l ∧ rows' = rank rt order limit m

/-- Readers of a store: the index exact in every cell, the events of every window read. -/
structure Exact (r : Readers) (scope : EngineScope) (store : List StoredEvent) : Prop where
  range : ∀ unique, ExactRange (r.range unique scope) unique store
  raw : ∀ b : Bounds, ∃ events : List StoredEvent,
    events.Perm (store.filter (fun e ↦ b.fromMs ≤ e.ts && e.ts < b.toMs)) ∧
      r.raw scope b = .ok (events.map StoredEvent.record)

def groupKeyOf : Grouping → GroupKey
  | .one field => .one (fieldKey field)
  | .tuple fields => .tuple (fields.map fieldKey)

/-- A metric analysis asked through one base query and through another. -/
def PathsAgree (rt : Runtime) (r : Readers) (a : Analysis) (q q' : SeriesQuery) : Prop :=
  match a with
  | .series common _ groupBy _ =>
    SameOutcome SameSeries
      (r.series rt (common.measure ≠ .count) { q with groupBy := groupBy.map fieldKey })
      (r.series rt (common.measure ≠ .count) { q' with groupBy := groupBy.map fieldKey })
  | .breakdown common groupBy order limit =>
    SameOutcome (SameRanking rt order limit)
      (r.breakdown rt (common.measure ≠ .count) (breakdownQuery q (groupKeyOf groupBy) order limit))
      (r.breakdown rt (common.measure ≠ .count) (breakdownQuery q' (groupKeyOf groupBy) order limit))
  | .scalar .. | .funnel _ => True

/-- The base query of an analysis that is answered from the index. -/
def indexQuery (scope : EngineScope) (b : Bounds) (step : Step) (plan : IndexedPlan) :
    SeriesQuery :=
  ⟨scope, whole b, step, none, false, plan.event, some plan.filters, none⟩

/-- The base query of an analysis that is answered by reading events. -/
def rawQuery (scope : EngineScope) (b : Bounds) (step : Step) (p : Predicate) : SeriesQuery :=
  ⟨scope, whole b, step, none, false, none, some [], some p⟩

/-- Why an analysis is refused over a window. -/
def refusalOf (a : Analysis) (now : Instant) (b : Bounds) (step : Step) : Option JsString :=
  match a with
  | .series .. => seriesRefusal now b step
  | _ => windowRefusal now b step

/-- The column of a field that has one. -/
def columnOf : FieldRef → Option DimensionName
  | .dimension d => some d
  | .property _ => none

/-- The groups and intervals of a split series are within the limit of an event scan. -/
def CellsWithin (a : Analysis) (b : Bounds) (step : Step) (p : Predicate)
    (store : List StoredEvent) : Prop :=
  ∀ common grain field limit, a = .series common grain (some field) limit →
    (distinctKeys (keyOf (columnOf field)) (store.filter (fun e ↦
      b.fromMs ≤ e.ts && e.ts < b.toMs && p.matches e.record))).length *
        (gridStarts b step).length ≤ maxCells

theorem groupAvailability_default (field : FieldRef) :
    (Analysis.groupAvailability defaultCatalog field = none ∧ ∃ d, field = .dimension d) ∨
      ∃ reason, Analysis.groupAvailability defaultCatalog field = some (.scan [reason]) := by
  cases field with
  | dimension d =>
    refine .inl ⟨?_, d, rfl⟩
    have hk : (FieldRef.dimension d).key = d.text := rfl
    simp [Analysis.groupAvailability, hk, status_dimension]
  | property key =>
    refine .inr ?_
    have hp := status_ne_planned (.property key)
    unfold Analysis.groupAvailability
    simp only [if_neg hp]
    exact ⟨_, if_pos (.inr (.inr trivial))⟩

theorem plan_filters_distinct {rs : List Restriction} (hn : (rs.map Restriction.about).Nodup) :
    JsObject.Distinct (Restriction.plan rs).filters := by
  have hkeys : (Restriction.plan rs).filters.map (·.1) =
      ((filtersOf rs).map Restriction.about).map DimensionName.text := by
    clear hn
    induction rs with
    | nil => rfl
    | cons r rs ih =>
      cases r with
      | event r => exact ih
      | filter d hd value =>
        have hf : filtersOf (.filter d hd value :: rs) = .filter d hd value :: filtersOf rs := rfl
        have hp : (Restriction.plan (.filter d hd value :: rs)).filters =
            (d.text, value) :: (Restriction.plan rs).filters := rfl
        rw [hf, hp, List.map_cons, List.map_cons, List.map_cons, ih]
        rfl
  refine ⟨?_, fun f hf ↦ ?_⟩
  · rw [hkeys]
    exact (filtersOf_nodup hn).map DimensionName.text_injective
  · obtain ⟨d, -, hd⟩ := List.mem_map.1 (hkeys ▸ List.mem_map_of_mem hf)
    rw [← hd]
    cases d <;> decide

theorem plan_distinct {p : Option Predicate} {plan : IndexedPlan} {queries : ℕ}
    (h : classifyPredicate defaultCatalog p = .indexed plan queries) :
    JsObject.Distinct plan.filters := by
  cases p with
  | none =>
    cases h
    exact ⟨List.nodup_nil, nofun⟩
  | some p =>
    obtain ⟨rs, -, hn, rfl, -⟩ := classify_default.1 h
    exact plan_filters_distinct hn

theorem worst_indexed {parts : List Answerability} {plan : IndexedPlan} {queries : ℕ}
    (h : worst parts = .indexed plan queries) :
    (∀ part ∈ parts, part.blockers = [] ∧ part.scans = []) ∧
      plan = (parts.foldl mergePlan (⟨none, []⟩, 1)).1 := by
  unfold worst at h
  dsimp only at h
  split_ifs at h with hb hs
  cases h
  rw [not_not, List.flatMap_eq_nil_iff] at hb hs
  exact ⟨fun part hp ↦ ⟨hb part hp, hs part hp⟩, rfl⟩

theorem classify_cases (p : Option Predicate) :
    (∃ plan n, classifyPredicate defaultCatalog p = .indexed plan n) ∨
      (classifyPredicate defaultCatalog p).blockers ≠ [] ∨
      (classifyPredicate defaultCatalog p).scans ≠ [] := by
  cases p with
  | none => exact .inl ⟨_, _, rfl⟩
  | some p =>
    rw [classifyPredicate, Classifying.answer]
    split_ifs with hb hr
    · exact .inr (.inl hb)
    · exact .inr (.inr hr)
    · exact .inl ⟨_, _, rfl⟩

/-- An analysis answered from the index is grouped by columns. -/
theorem answerability_default {a : Analysis} {plan : IndexedPlan} {queries : ℕ}
    (hf : ∀ f, a ≠ .funnel f) (h : a.answerability defaultCatalog = .indexed plan queries) :
    (∃ n, classifyPredicate defaultCatalog a.condition = .indexed plan n) ∧
      ∀ f ∈ a.groupedFields, ∃ d, f = .dimension d := by
  have hworst : ∃ n, worst (classifyPredicate defaultCatalog a.condition ::
      a.groupedFields.filterMap (Analysis.groupAvailability defaultCatalog)) = .indexed plan n := by
    unfold Analysis.answerability at h
    split at h
    · exact absurd rfl (hf _)
    · split at h
      · rename_i hw
        cases h
        exact ⟨_, hw⟩
      · rename_i hn
        exact absurd h (hn plan queries)
  obtain ⟨n, hw⟩ := hworst
  obtain ⟨hclean, hplan⟩ := worst_indexed hw
  rw [List.forall_mem_cons] at hclean
  have hgroups : ∀ f ∈ a.groupedFields,
      Analysis.groupAvailability defaultCatalog f = none ∧ ∃ d, f = .dimension d := by
    intro f hf
    rcases groupAvailability_default f with hg | ⟨reason, hg⟩
    · exact hg
    · have := (hclean.2 _ (List.mem_filterMap.2 ⟨f, hf, hg⟩)).2
      cases this
  have hnil : a.groupedFields.filterMap (Analysis.groupAvailability defaultCatalog) = [] :=
    List.filterMap_eq_nil_iff.2 (fun f hf ↦ (hgroups f hf).1)
  refine ⟨?_, fun f hf ↦ (hgroups f hf).2⟩
  rcases classify_cases a.condition with ⟨plan', n', hc⟩ | hb | hs
  · have hd := plan_distinct hc
    rw [hnil, hc, List.foldl_cons, List.foldl_nil] at hplan
    have hset := @JsObject.foldl_set _ [] plan'.filters hd
    refine ⟨n', ?_⟩
    rw [hplan, hc, mergePlan, hset]
    simp
  · exact absurd hclean.1.1 hb
  · exact absurd hclean.1.2 hs

end Counted.Litics
