import Counted.Ingestion.Moves

namespace Counted.Ingestion

open Foundations

variable (deps : GroupCommitDeps)

/-- A group that the requests `ps` joined, in this order. -/
inductive Assembled : Group → List Pending → Prop
  | new (batch : IngestBatch) (opened : Instant) : Assembled (.new batch opened) []
  | join {g : Group} {ps : List Pending} {p : Pending} (h : Assembled g ps)
      (hp : p.batch.project = g.project)
      (ha : admitBatch deps.runtime deps.admission p.batch = .ok p.outcome) :
      Assembled (g.join p) (ps ++ [p])

/-- The place of a request in a group. -/
structure Rides (g : Group) (w : Waiter) (p : Pending) : Prop where
  submit : w.submit = p.submit
  rejected : w.rejected = p.outcome.rejected
  counts : w.contributed + w.duplicates = p.outcome.admitted.length + p.outcome.duplicates
  slice : (g.events.drop w.offset).take w.contributed = (collapseDuplicates p.outcome.admitted
    ((g.events.take w.offset).filterMap (·.dedupKey))).unique

def Waiter.span (w : Waiter) : ℕ × ℕ := (w.offset, w.contributed)

variable {deps} {g : Group} {ps : List Pending} {w : Waiter}

namespace Assembled

theorem keys (h : Assembled deps g ps) : g.keys = g.events.filterMap (·.dedupKey) := by
  induction h with
  | new => rfl
  | join h hp ha ih => simp only [Group.join, ih, List.filterMap_append]

/-- The events of a group are the first occurrences in all its requests admitted, in order. -/
theorem events (h : Assembled deps g ps) : g.events =
    (collapseDuplicates (ps.flatMap (·.outcome.admitted)) []).unique := by
  induction h with
  | new => rfl
  | @join g ps p h hp ha ih =>
    rw [collapseDuplicates] at ih
    rw [List.flatMap_append, collapseDuplicates, collapse_append, ← ih, Group.join, Group.fresh,
      collapseDuplicates, h.keys]
    simp

theorem submits (h : Assembled deps g ps) : g.waiters.map (·.submit) = ps.map (·.submit) := by
  induction h with
  | new => rfl
  | join h hp ha ih => simp only [Group.join, List.map_append, ih, List.map_cons, List.map_nil]

theorem project (h : Assembled deps g ps) : ∀ p ∈ ps, p.batch.project = g.project := by
  induction h with
  | new => simp
  | join h hp ha ih =>
    intro q hq
    rcases List.mem_append.1 hq with hq | hq
    · exact ih q hq
    · rwa [List.mem_singleton.1 hq]

/-- The positions of the waiters lie end to end and fill the group. -/
theorem tiles (h : Assembled deps g ps) :
    Tiles (g.waiters.map (·.span)) g.events.length := by
  induction h with
  | new => exact .nil
  | @join g ps p h hp ha ih =>
    simp only [Group.join, List.map_append, List.map_cons, List.map_nil, List.length_append]
    exact .snoc _ ih

theorem waiter (h : Assembled deps g ps) : ∀ w ∈ g.waiters, ∃ p ∈ ps, Rides g w p := by
  induction h with
  | new => simp [Group.new]
  | @join g ps p h hp ha ih =>
    intro w hw
    rcases List.mem_append.1 hw with hw | hw
    · obtain ⟨q, hq, hr⟩ := ih w hw
      refine ⟨q, List.mem_append_left _ hq, hr.submit, hr.rejected, hr.counts, ?_⟩
      have hle : w.offset + w.contributed ≤ g.events.length :=
        h.tiles.le w.span (List.mem_map_of_mem hw)
      have he : (g.join p).events = g.events ++ (g.fresh p).unique := rfl
      rw [he, List.take_append_of_le_length (by omega), List.drop_append_of_le_length (by omega),
        List.take_append_of_le_length (by rw [List.length_drop]; omega)]
      exact hr.slice
    · rw [List.mem_singleton.1 hw]
      refine ⟨p, by simp, rfl, rfl, ?_, ?_⟩
      · have hl := collapse_length (f := fun e : AdmittedEvent ↦ e.dedupKey) g.keys p.outcome.admitted
        simp only [Group.fresh, collapseDuplicates]
        omega
      · simp [Group.join, Group.fresh, h.keys]

theorem admitted (h : Assembled deps g ps) :
    ∀ p ∈ ps, admitBatch deps.runtime deps.admission p.batch = .ok p.outcome := by
  induction h with
  | new => simp
  | join h hp ha ih =>
    intro q hq
    rcases List.mem_append.1 hq with hq | hq
    · exact ih q hq
    · rwa [List.mem_singleton.1 hq]

end Assembled

end Counted.Ingestion
