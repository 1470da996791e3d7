import Counted.Litics.Filters

namespace Counted.Litics

open Analytics Foundations Calendar

/-- What a set of events comes to. -/
def measureOf (unique : Bool) (events : List StoredEvent) : ℕ :=
  measured unique (events.map (·.actor))

/-- The buckets of a grid, each with what its own events come to. -/
def bucketsOf (unique : Bool) (step : Step) (starts : List Instant) (events : List StoredEvent) :
    List EngineBucket :=
  starts.map (fun start ↦
    ⟨start, (measureOf unique (events.filter (fun e ↦ alignFloor e.ts step = start)) : ℤ)⟩)

/-- A series of events, apart from the order of its groups. -/
def seriesOf (unique : Bool) (step : Step) (starts : List Instant) (split : Option DimensionName)
    (events : List StoredEvent) : Series :=
  match split with
  | none => ⟨bucketsOf unique step starts events, none⟩
  | some d => ⟨[], some ((distinctKeys (·.column d) events).map (fun k ↦
      ⟨k, bucketsOf unique step starts (events.filter (fun e ↦ e.column d = k))⟩))⟩

/-- The rows of a breakdown of events, apart from their order. -/
def rowsOf (unique : Bool) (fields : List DimensionName) (events : List StoredEvent) :
    List BreakdownEntry :=
  (distinctKeys (fun e ↦ fields.map e.column) events).map (fun keys ↦
    entryOf keys (measureOf unique (events.filter (fun e ↦ fields.map e.column = keys))))

/-- The same series, the groups in any order. -/
def SameSeries (s t : Series) : Prop :=
  s.buckets = t.buckets ∧ match s.groups, t.groups with
    | none, none => True
    | some g, some h => g.Perm h
    | _, _ => False

theorem SameSeries.symm {s t : Series} (h : SameSeries s t) : SameSeries t s := by
  obtain ⟨hb, hg⟩ := h
  refine ⟨hb.symm, ?_⟩
  cases hs : s.groups with
  | none =>
    cases ht : t.groups with
    | none => trivial
    | some g => simp [hs, ht] at hg
  | some g =>
    cases ht : t.groups with
    | none => simp [hs, ht] at hg
    | some g' =>
      simp only [hs, ht] at hg ⊢
      exact hg.symm

theorem SameSeries.trans {s t u : Series} (h : SameSeries s t) (h' : SameSeries t u) :
    SameSeries s u := by
  obtain ⟨hb, hg⟩ := h
  obtain ⟨hb', hg'⟩ := h'
  refine ⟨hb.trans hb', ?_⟩
  cases hs : s.groups with
  | none =>
    cases ht : t.groups with
    | none =>
      rw [ht] at hg'
      exact hg'
    | some g => simp [hs, ht] at hg
  | some g =>
    cases ht : t.groups with
    | none => simp [hs, ht] at hg
    | some g' =>
      cases hu : u.groups with
      | none => simp [ht, hu] at hg'
      | some g'' =>
        simp only [hs, ht, hu] at hg hg' ⊢
        exact hg.trans hg'

theorem measureOf_nil (unique : Bool) : measureOf unique [] = 0 := by
  cases unique <;> rfl

theorem measureOf_perm {unique : Bool} {l m : List StoredEvent} (h : l.Perm m) :
    measureOf unique l = measureOf unique m := by
  cases unique with
  | false => exact (h.map _).length_eq
  | true => exact (distinctKeys_perm (h.map _)).length_eq

/-- The cells of a partition of the events that one value is made of add up to it. A distinct count
is made of one cell. -/
theorem sum_cells {κ : Type} [DecidableEq κ] {key : StoredEvent → κ} {unique : Bool}
    (l : List StoredEvent) (P : κ → Prop) [DecidablePred P]
    (h : unique → ∀ a ∈ l, ∀ b ∈ l, P (key a) → P (key b) → key a = key b) :
    (((distinctKeys key l).filter (fun k ↦ P k)).map
      (fun k ↦ measureOf unique (l.filter (fun e ↦ key e = k)))).sum =
      measureOf unique (l.filter (fun e ↦ P (key e))) := by
  cases unique with
  | true => exact sum_single_cell (measureOf_nil true) (h rfl)
  | false =>
    have hlen (m : List StoredEvent) : measureOf false m = m.length := List.length_map _
    simp only [hlen]
    exact sum_length_cells l P

end Counted.Litics
