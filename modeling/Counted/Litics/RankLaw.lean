import Counted.Analytics.Collation
import Counted.Analytics.Summary
import Counted.Foundations.Ranking
import Counted.Litics.RawPath

namespace Counted.Litics

open Analytics Foundations

/-- The value of a row as a place in an order that rises. -/
def score (order : SortDirection) (r : BreakdownEntry) : ℚ :=
  match r.value, order with
  | .finite d, .asc => d.toRat
  | .finite d, .desc => -d.toRat
  | _, _ => 0

/-- Values in the order that was asked for. -/
def InOrder (order : SortDirection) (a b : BreakdownEntry) : Prop :=
  match order with
  | .asc => a.value.le b.value = true
  | .desc => b.value.le a.value = true

/-- The first rows of all in the order of their values. -/
structure Ranked (order : SortDirection) (limit : ℕ) (rows result : List BreakdownEntry) : Prop where
  first : ∃ sorted : List BreakdownEntry, sorted.Perm rows ∧ sorted.Pairwise (InOrder order) ∧
    result = sorted.take limit
  length_le : result.length ≤ limit
  whole : rows.length ≤ limit → result.Perm rows

def AllFinite (rows : List BreakdownEntry) : Prop := ∀ r ∈ rows, isFinite r.value = true

section

variable (rt : Runtime) (order : SortDirection)

/-- Rows by score, and those of one score by key. -/
def before (a b : BreakdownEntry) : Bool :=
  score order a < score order b ||
    (score order a = score order b &&
      (rt.localeCompare (a.key.getD []) (b.key.getD [])).isLE)

variable {rt order}

theorem finite_of_isFinite {n : JsNumber} (h : isFinite n = true) : ∃ d, n = .finite d := by
  cases n with
  | finite d => exact ⟨d, rfl⟩
  | infinity | nan => cases h

theorem precedes_eq_before {a b : BreakdownEntry} (ha : isFinite a.value = true)
    (hb : isFinite b.value = true) : precedes rt order a b = before rt order a b := by
  obtain ⟨da, hda⟩ := finite_of_isFinite ha
  obtain ⟨db, hdb⟩ := finite_of_isFinite hb
  by_cases h : a.value = b.value
  · have hs : score order a = score order b := by simp only [score, h]
    simp only [precedes, if_pos h]
    rw [before, decide_eq_false (hs ▸ lt_irrefl _), decide_eq_true hs,
      Bool.false_or, Bool.true_and]
    cases rt.localeCompare (a.key.getD []) (b.key.getD []) <;> rfl
  · have hne : da.toRat ≠ db.toRat := by
      intro heq
      exact h (by rw [hda, hdb, Decimal.toRat_injective heq])
    simp only [precedes, if_neg h]
    rw [before]
    cases order with
    | desc =>
      have hs : score .desc a ≠ score .desc b := by
        simpa [score, hda, hdb] using hne
      rw [decide_eq_false hs, Bool.false_and, Bool.or_false, hda, hdb]
      refine Bool.eq_iff_iff.2 ((Decimal.lt_iff db da).trans ?_)
      simp [score, hda, hdb]
    | asc =>
      have hs : score .asc a ≠ score .asc b := by
        simpa [score, hda, hdb] using hne
      rw [decide_eq_false hs, Bool.false_and, Bool.or_false, hda, hdb]
      refine Bool.eq_iff_iff.2 ((Decimal.lt_iff da db).trans ?_)
      simp [score, hda, hdb]

theorem inOrder_of_before {a b : BreakdownEntry} (ha : isFinite a.value = true)
    (hb : isFinite b.value = true) (h : before rt order a b = true) : InOrder order a b := by
  obtain ⟨da, hda⟩ := finite_of_isFinite ha
  obtain ⟨db, hdb⟩ := finite_of_isFinite hb
  have hle : score order a ≤ score order b := by
    rw [before, Bool.or_eq_true, Bool.and_eq_true, decide_eq_true_eq, decide_eq_true_eq] at h
    rcases h with h | h
    · exact h.le
    · exact h.1.le
  cases order with
  | asc =>
    simp only [InOrder, score, hda, hdb] at hle ⊢
    exact JsNumber.finite_le.2 hle
  | desc =>
    simp only [InOrder, score, hda, hdb] at hle ⊢
    exact JsNumber.finite_le.2 (neg_le_neg_iff.1 hle)

section

variable (hc : Std.TransCmp rt.localeCompare)

include hc

theorem before_trans (a b c : BreakdownEntry) (hab : before rt order a b = true)
    (hbc : before rt order b c = true) : before rt order a c = true := by
  rw [before, Bool.or_eq_true, Bool.and_eq_true, decide_eq_true_eq, decide_eq_true_eq] at *
  rcases hab with hab | ⟨hab, hle⟩
  · rcases hbc with hbc | ⟨hbc, -⟩
    · exact .inl (hab.trans hbc)
    · exact .inl (hab.trans_eq hbc)
  · rcases hbc with hbc | ⟨hbc, hle'⟩
    · exact .inl (hab.trans_lt hbc)
    · exact .inr ⟨hab.trans hbc, hc.isLE_trans hle hle'⟩

theorem before_total (a b : BreakdownEntry) :
    (before rt order a b || before rt order b a) = true := by
  rw [before, before, Bool.or_eq_true, Bool.or_eq_true, Bool.or_eq_true, Bool.and_eq_true,
    Bool.and_eq_true, decide_eq_true_eq, decide_eq_true_eq, decide_eq_true_eq, decide_eq_true_eq]
  rcases lt_trichotomy (score order a) (score order b) with h | h | h
  · exact .inl (.inl h)
  · have hswap := @Std.OrientedCmp.eq_swap _ _ hc.toOrientedCmp (a.key.getD []) (b.key.getD [])
    cases hle : rt.localeCompare (b.key.getD []) (a.key.getD []) with
    | lt => exact .inr (.inr ⟨h.symm, rfl⟩)
    | eq => exact .inr (.inr ⟨h.symm, rfl⟩)
    | gt =>
      rw [hle] at hswap
      exact .inl (.inr ⟨h, by rw [hswap]; rfl⟩)
  · exact .inr (.inl h)

variable {rows : List BreakdownEntry} {limit : ℕ} (hfin : AllFinite rows)

include hfin

omit hc in
theorem rank_top : rank rt order ((limit : ℤ) : JsNumber) rows = top (before rt order) limit rows := by
  have hlimit : (((toInteger ((limit : ℤ) : JsNumber)).getD 0).toNat) = limit := by
    rw [toInteger_intCast]
    rfl
  rw [rank, hlimit]
  exact top_congr (fun a ha b hb ↦ precedes_eq_before (hfin a ha) (hfin b hb))

theorem rank_ranked : Ranked order limit rows (rank rt order ((limit : ℤ) : JsNumber) rows) := by
  have hperm := List.mergeSort_perm rows (before rt order)
  rw [rank_top hfin]
  refine ⟨⟨_, hperm, ?_, rfl⟩, List.length_take_le _ _, ?_⟩
  · refine (List.pairwise_mergeSort (before_trans hc) (before_total hc) rows).imp_of_mem ?_
    intro a b ha hb hab
    exact inOrder_of_before (hfin a (hperm.mem_iff.1 ha)) (hfin b (hperm.mem_iff.1 hb)) hab
  · intro hlen
    rw [top, List.take_of_length_le (by rwa [hperm.length_eq])]
    exact hperm

omit hc in
theorem settled_before : Settled (precedes rt order) limit rows ↔
    Settled (before rt order) limit rows :=
  settled_congr (fun a ha b hb ↦ precedes_eq_before (hfin a ha) (hfin b hb))

end

end

section

variable {rt : Runtime} {q : BreakdownQuery} {unique : Bool} {events events' : List RawEvent}

theorem rowsFor_finite : AllFinite (rowsFor rt q unique events) := by
  intro r hr
  obtain ⟨keys, -, rfl⟩ := List.mem_map.1 hr
  rw [entryOf.eq_def]
  split <;> rfl

theorem rowValue_perm (h : events.Perm events') (keys : List (Option JsString)) :
    measured unique (((counted rt q events).filter (fun e ↦ rowKey rt q e = keys)).map (·.actor)) =
      measured unique
        (((counted rt q events').filter (fun e ↦ rowKey rt q e = keys)).map (·.actor)) := by
  have hcounted : (counted rt q events).Perm (counted rt q events') := h.filter _
  have hactors := (hcounted.filter (fun e ↦ rowKey rt q e = keys)).map (·.actor)
  rw [measured, measured, hactors.length_eq, (distinctKeys_perm hactors).length_eq]

theorem rowsFor_perm (h : events.Perm events') :
    (rowsFor rt q unique events).Perm (rowsFor rt q unique events') := by
  simp only [rowsFor, rowValue_perm h]
  exact (distinctKeys_perm (h.filter _)).map _

theorem distinctKeys_cons {α κ : Type} [DecidableEq κ] {key : α → κ} (a : α) (l : List α) :
    ∃ rest, distinctKeys key (a :: l) = key a :: rest := by
  rw [distinctKeys, List.map_cons, List.eraseDups_cons]
  exact ⟨_, rfl⟩

/-- Any row comes first where an event of it is read first. -/
theorem rowsFor_head {r : BreakdownEntry} (hr : r ∈ rowsFor rt q unique events) :
    ∃ events' rows, events.Perm events' ∧ rowsFor rt q unique events' = r :: rows := by
  obtain ⟨keys, hkeys, rfl⟩ := List.mem_map.1 hr
  obtain ⟨e, he, rfl⟩ := mem_distinctKeys.1 hkeys
  obtain ⟨hin, hincluded⟩ := List.mem_filter.1 he
  obtain ⟨s, t, rfl⟩ := List.append_of_mem hin
  have hperm : (s ++ e :: t).Perm (e :: (s ++ t)) := List.perm_middle
  have hcounted : counted rt q (e :: (s ++ t)) = e :: counted rt q (s ++ t) :=
    List.filter_cons_of_pos hincluded
  obtain ⟨rest, hfirst⟩ : ∃ rest, distinctKeys (rowKey rt q) (counted rt q (e :: (s ++ t))) =
      rowKey rt q e :: rest := by
    rw [hcounted]
    exact distinctKeys_cons _ _
  have hrows : ∃ rows, rowsFor rt q unique (e :: (s ++ t)) = entryOf (rowKey rt q e)
      (measured unique (((counted rt q (e :: (s ++ t))).filter (fun e' ↦
        rowKey rt q e' = rowKey rt q e)).map (·.actor))) :: rows := by
    rw [rowsFor, hfirst, List.map_cons]
    exact ⟨_, rfl⟩
  obtain ⟨rows, hrows⟩ := hrows
  rw [← rowValue_perm hperm] at hrows
  exact ⟨e :: (s ++ t), rows, hperm, hrows⟩

/-- A row is told by the values it is grouped by. -/
def tupleOf (r : BreakdownEntry) : List (Option JsString) := r.keys.getD [r.key]

theorem tupleOf_entryOf (keys : List (Option JsString)) (value : ℕ) :
    tupleOf (entryOf keys value) = keys := by
  rw [entryOf.eq_def]
  split <;> rfl

theorem rowsFor_tuples :
    (rowsFor rt q unique events).map tupleOf = distinctKeys (rowKey rt q) (counted rt q events) := by
  rw [rowsFor, List.map_map]
  simp only [Function.comp_def, tupleOf_entryOf]
  exact List.map_id _

end

/-- Rows are ranked alike however they and their events are given, exactly when the order settles
which of them come first. -/
theorem rank_settled_iff (rt : Runtime) (hc : Std.TransCmp rt.localeCompare) (order : SortDirection)
    (limit : ℕ) :
    (∀ rows, AllFinite rows →
      (((∀ rows', rows.Perm rows' → rank rt order ((limit : ℤ) : JsNumber) rows' =
          rank rt order ((limit : ℤ) : JsNumber) rows) ∧
        Ranked order limit rows (rank rt order ((limit : ℤ) : JsNumber) rows)) ↔
      Settled (precedes rt order) limit rows)) ∧
    ∀ (q : BreakdownQuery) (unique : Bool) (events : List RawEvent),
      q.order = order → q.limit = (limit : ℤ) →
      (((∀ events', events.Perm events' →
          rawBreakdown rt events' q unique = rawBreakdown rt events q unique) ∧
        Ranked order limit (rowsFor rt q unique events) (rawBreakdown rt events q unique) ∧
        (rowsFor rt q unique events).map tupleOf =
          distinctKeys (rowKey rt q) (counted rt q events)) ↔
      Settled (precedes rt order) limit (rowsFor rt q unique events)) := by
  constructor
  · intro rows hfin
    have hranked := @rank_ranked rt order hc rows limit hfin
    rw [settled_before hfin]
    constructor
    · rintro ⟨hsame, -⟩
      refine settled_of_heads (before_trans hc) (before_total hc) (fun r hr ↦ ?_)
      obtain ⟨s, t, rfl⟩ := List.append_of_mem hr
      have hperm : (s ++ r :: t).Perm (r :: (s ++ t)) := List.perm_middle
      have hfin' : AllFinite (r :: (s ++ t)) := fun x hx ↦ hfin x (hperm.mem_iff.2 hx)
      refine ⟨s ++ t, hperm, ?_⟩
      rw [← rank_top hfin', ← rank_top hfin]
      exact hsame _ hperm
    · intro hs
      refine ⟨fun rows' hperm ↦ ?_, hranked⟩
      have hfin' : AllFinite rows' := fun x hx ↦ hfin x (hperm.mem_iff.2 hx)
      rw [rank_top hfin, rank_top hfin']
      exact (hs.top_perm (before_trans hc) (before_total hc) hperm).symm
  · rintro q unique events rfl hlimit
    have hfin (events : List RawEvent) : AllFinite (rowsFor rt q unique events) := rowsFor_finite
    have htop (events : List RawEvent) : rawBreakdown rt events q unique =
        top (before rt q.order) limit (rowsFor rt q unique events) := by
      rw [rawBreakdown_rows, hlimit, rank_top (hfin events)]
    have hranked := @rank_ranked rt q.order hc _ limit (hfin events)
    rw [rank_top (hfin events), ← htop] at hranked
    rw [settled_before (hfin events)]
    constructor
    · rintro ⟨hsame, -⟩
      refine settled_of_heads (before_trans hc) (before_total hc) (fun r hr ↦ ?_)
      obtain ⟨events', rows, hperm, hrows⟩ := rowsFor_head hr
      refine ⟨rows, hrows ▸ rowsFor_perm hperm, ?_⟩
      rw [← hrows, ← htop, ← htop]
      exact hsame events' hperm
    · intro hs
      refine ⟨fun events' hperm ↦ ?_, hranked, rowsFor_tuples⟩
      rw [htop, htop]
      exact (hs.top_perm (before_trans hc) (before_total hc) (rowsFor_perm hperm)).symm

theorem rank_of_pairwise {rt : Runtime} {order : SortDirection} {limit : ℕ}
    {rows : List BreakdownEntry} (h : rows.Pairwise (fun a b ↦ precedes rt order a b = true)) :
    rank rt order ((limit : ℤ) : JsNumber) rows = rows.take limit := by
  have hlimit : (((toInteger ((limit : ℤ) : JsNumber)).getD 0).toNat) = limit := by
    rw [toInteger_intCast]
    rfl
  rw [rank, List.mergeSort_of_pairwise h, hlimit]

theorem rank_settled_iff_sample :
    rank nodeRuntime .desc ((10 : ℕ) : ℤ) [⟨none, none, (1 : ℤ)⟩, ⟨some (js "/"), none, (2 : ℤ)⟩] =
      rank nodeRuntime .desc ((10 : ℕ) : ℤ)
        [⟨some (js "/"), none, (2 : ℤ)⟩, ⟨none, none, (1 : ℤ)⟩] := by
  refine ((((rank_settled_iff nodeRuntime nodeRuntime_collates.ordered .desc 10).1 _ ?_).2 ?_).1)
    _ (List.Perm.swap _ _ _)
  · intro r hr
    rcases List.mem_pair.1 hr with rfl | rfl <;> rfl
  · intro a ha b hb hab hba hne
    exfalso
    rcases List.mem_pair.1 ha with rfl | rfl <;> rcases List.mem_pair.1 hb with rfl | rfl
    · exact hne rfl
    · exact absurd hba (by decide)
    · exact absurd hab (by decide)
    · exact hne rfl

def topPages : BreakdownQuery where
  scope := .project (js "p")
  bounds := ⟨(0 : ℤ), (86400000 : ℤ)⟩
  step := .day
  groupBy := .one (js "property:url")
  event := none
  filters := none
  predicate := none
  order := .desc
  limit := (10 : ℤ)

def noPage : RawEvent := ⟨3600000, natText 1, [], []⟩

def blankPage : RawEvent := ⟨3600000, natText 2, [], [(js "url", .str [])]⟩

/-- A page that is missing and one that is empty tie, and change places with the events. -/
theorem missing_beside_empty :
    rawBreakdown nodeRuntime [noPage, blankPage] topPages false =
      [⟨none, none, (1 : ℤ)⟩, ⟨some [], none, (1 : ℤ)⟩] ∧
    rawBreakdown nodeRuntime [blankPage, noPage] topPages false =
      [⟨some [], none, (1 : ℤ)⟩, ⟨none, none, (1 : ℤ)⟩] := by
  have hrows : rowsFor nodeRuntime topPages false [noPage, blankPage] =
      [⟨none, none, (1 : ℤ)⟩, ⟨some [], none, (1 : ℤ)⟩] := by decide
  have hrows' : rowsFor nodeRuntime topPages false [blankPage, noPage] =
      [⟨some [], none, (1 : ℤ)⟩, ⟨none, none, (1 : ℤ)⟩] := by decide
  have hlimit : topPages.limit = ((10 : ℕ) : ℤ) := rfl
  rw [rawBreakdown_rows, rawBreakdown_rows, hrows, hrows', hlimit, rank_of_pairwise (by decide),
    rank_of_pairwise (by decide)]
  exact ⟨rfl, rfl⟩

end Counted.Litics
