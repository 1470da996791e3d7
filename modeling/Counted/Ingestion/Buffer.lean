import Counted.Ingestion.Fate

namespace Counted.Ingestion

open Foundations Relation

/-- What is left of a commit: an answer of the sink, one of the quota, and its `finally`. -/
def Phase.weight : Phase → ℕ
  | .writing => 3
  | .recording _ => 2
  | .finishing => 1
  | .finished => 0

namespace State

def size (s : State) : ℕ := (s.groups.map (·.events.length)).sum

/-- The admitted events in memory: those waiting for a commit and those in flight. -/
def held (s : State) : ℕ :=
  s.size + ((s.commits.filter (·.active)).map (·.group.events.length)).sum

def weight (s : State) : ℕ :=
  (s.groups.map (fun _ ↦ 4)).sum + (s.commits.map (·.phase.weight)).sum

structure Buffer (deps : GroupCommitDeps) (s : State) : Prop where
  counted : s.buffered = s.size
  bounded : s.buffered ≤ deps.policy.maxBuffered
  inFlight : s.inFlight ≤ deps.policy.maxInFlight

end State

variable {deps : GroupCommitDeps} {s t : State} {a : Action} {now : Instant} {c c' : Commit}
  {out : List (ℕ × Settlement)}

theorem Advance.active (h : Advance deps c c' out) : c.active := by
  cases h <;> rfl

theorem Advance.weight (h : Advance deps c c' out) : c'.phase.weight < c.phase.weight := by
  cases h <;> simp [Phase.weight]

theorem inFlight_commit {l m : List Commit} (hl : s.commits = l ++ c :: m)
    (hc : Advance deps c c' out) {t : State} (ht : t.commits = l ++ c' :: m) :
    t.inFlight ≤ s.inFlight := by
  simp only [State.inFlight, hl, ht, List.filter_append, List.filter_cons, hc.active, if_true,
    List.length_append, List.length_cons]
  split_ifs
  · simp
  · omega

theorem inFlight_flush (g : Group) : (s.flush g).inFlight = s.inFlight + 1 := by
  simp [State.inFlight, State.flush, Commit.active]

theorem fresh_length_le (g : Group) (p : Pending) :
    (g.fresh p).unique.length ≤ p.outcome.admitted.length :=
  (collapse_sublist g.keys p.outcome.admitted).length_le

theorem size_join (hs : s.Projects) (p : Pending) (opened : Instant) :
    (s.join p opened).size = s.size + ((s.groupFor p.batch opened).fresh p).unique.length := by
  have h := sum_join (s := s) (p := p) (fun g ↦ g.events.length) hs opened rfl
  simp only [Group.join, List.length_append] at h
  simp only [State.size]
  omega

theorem size_flush (hs : s.Projects) {g : Group} (hg : g ∈ s.groups) :
    s.size = g.events.length + (s.flush g).size := sum_flush (fun g ↦ g.events.length) hs hg

theorem Move.buffer (h : Move deps s t) (hp : s.Projects) (hs : s.Buffer deps) :
    t.Buffer deps := by
  cases h with
  | entry h =>
    cases h with
    | answer | suspend | refuse | drains => exact ⟨hs.counted, hs.bounded, hs.inFlight⟩
    | @join p opened hpc hr =>
      have hle := fresh_length_le ((s.unsuspend p.submit).groupFor p.batch opened) p
      have hsz := size_join (s := s.unsuspend p.submit) hp p opened
      refine ⟨?_, ?_, hs.inFlight⟩
      · rw [hsz, Nat.cast_add, State.join]
        exact congrArg (· + _) hs.counted
      · rw [State.join]
        dsimp only [State.unsuspend] at hle ⊢
        omega
    | commit ps hl hc => exact ⟨hs.counted, hs.bounded, (inFlight_commit hl hc rfl).trans hs.inFlight⟩
  | flush h =>
    obtain ⟨g, hg, hd, hf⟩ := h
    have hsz := size_flush hp hg
    have hc := hs.counted
    have hb := hs.bounded
    refine ⟨?_, ?_, ?_⟩
    · rw [State.flush] at hsz ⊢
      dsimp only at hsz ⊢
      omega
    · rw [State.flush]
      dsimp only
      omega
    · rw [inFlight_flush]
      omega

theorem initial_buffer : State.initial.Buffer deps := ⟨rfl, Nat.cast_nonneg _, Nat.zero_le _⟩

theorem reached_buffer {l : List Action} (h : run (State.step deps) .initial l = some t) :
    t.Projects ∧ t.Buffer deps :=
  reached (fun _ _ hp hs hm ↦ hm.buffer hp hs) initial_buffer h

theorem weight_flush (hs : s.Projects) {g : Group} (hg : g ∈ s.groups) :
    (s.flush g).weight < s.weight := by
  have h := sum_flush (s := s) (fun _ ↦ 4) hs hg
  simp only [State.weight, h]
  simp only [State.flush, List.map_append, List.sum_append, List.map_cons, List.map_nil,
    List.sum_cons, List.sum_nil, Phase.weight]
  omega

theorem flushes_weight (h : ReflTransGen (Flush deps now) s t) (hs : s.Projects) :
    t.weight ≤ s.weight := by
  refine (?_ : t.Projects ∧ t.weight ≤ s.weight).2
  induction h with
  | refl => exact ⟨hs, le_rfl⟩
  | tail _ h ih =>
    obtain ⟨g, hg, hd, hf⟩ := h
    exact ⟨Keyed.nodup_remove ih.1, (weight_flush ih.1 hg).le.trans ih.2⟩

theorem weight_advanced {id : ℕ} (h : s.commits[id]? = some c) (hc : Advance deps c c' out)
    (ps : List CommitProblem) : (s.advanced id c' out ps).weight < s.weight := by
  obtain ⟨l, m, hl, hm⟩ := commits_split h c'
  have hw := hc.weight
  simp only [State.weight, State.advanced, hm]
  simp only [hl, List.map_append, List.map_cons, List.sum_append, List.sum_cons]
  omega

theorem leave_weight {e : Entered} (h : e.state.Projects) :
    (State.leave deps e).weight ≤ e.state.weight := by
  cases e with
  | done s => exact le_rfl
  | pumps now s | loops id now s =>
    have hw : (s.pump deps now).weight ≤ s.weight :=
      flushes_weight (pump_flushes deps now h) h
    exact hw

theorem answers_weight (hs : s.Projects) (ha : a.answers) (h : s.step deps a = some t) :
    t.weight < s.weight := by
  obtain ⟨e, he, rfl⟩ := Option.map_eq_some_iff.1 h
  obtain ⟨id, c, c', out, ps, hc, hadv, hstate⟩ := enter_answers ha he
  have hp : e.state.Projects := moves_projects (entries_moves (enter_entries he)) hs
  refine (leave_weight hp).trans_lt ?_
  rw [hstate]
  exact weight_advanced hc hadv ps

/-- Once no commit waits for an answer or for its `finally`, none is in flight. -/
theorem inFlight_eq_zero (h : ∀ a : Action, a.answers → s.step deps a = none) :
    s.inFlight = 0 := by
  rw [State.inFlight, List.length_eq_zero_iff, List.filter_eq_nil_iff]
  intro c hc hact
  obtain ⟨id, hid⟩ := List.mem_iff_getElem?.1 hc
  obtain ⟨g, phase, past⟩ := c
  cases phase with
  | writing => simpa [State.step, State.enter, hid] using h (.sinkAnswer id (.threw [])) rfl
  | recording receipt => simpa [State.step, State.enter, hid] using h (.recordAnswer id none) rfl
  | finishing => simpa [State.step, State.enter, hid] using h (.finish id 0) rfl
  | finished => cases hact

theorem answers_length {l : List Action} (hs : s.Projects) (hl : ∀ a ∈ l, a.answers)
    (h : run (State.step deps) s l = some t) : l.length ≤ s.weight := by
  induction l generalizing s with
  | nil => exact Nat.zero_le _
  | cons a l ih =>
    obtain ⟨u, hu, ht⟩ := run_cons h
    have hw := answers_weight hs (hl a List.mem_cons_self) hu
    have hr := ih (moves_projects (step_moves hs hu) hs)
      (fun b hb ↦ hl b (List.mem_cons_of_mem a hb)) ht
    rw [List.length_cons]
    omega

/-- The buffer is counted right and bounded, commits in flight are bounded and come back, and
each `writeBatch` carries the events of one project in the order their requests joined. -/
theorem buffer_and_projects (deps : GroupCommitDeps) (actions : List Action)
    (h : run (State.step deps) .initial actions = some s) :
    (s.buffered = ((s.groups.map (·.events.length)).sum : ℕ) ∧
      s.buffered ≤ deps.policy.maxBuffered) ∧
    (s.inFlight ≤ deps.policy.maxInFlight ∧
      ∀ l t, (∀ a ∈ l, a.answers) → run (State.step deps) s l = some t →
        l.length ≤ s.weight ∧
          ((∀ a : Action, a.answers → t.step deps a = none) → t.inFlight = 0)) ∧
    (s.groups.map (·.project)).Nodup ∧
    ∀ c ∈ s.commits, ∃ ps : List Pending, ps.Sublist s.joined ∧
      (∀ p ∈ ps, p.batch.project = c.group.project ∧ s.Known deps p) ∧
      c.group.events = (collapseDuplicates (ps.flatMap (·.outcome.admitted)) []).unique := by
  obtain ⟨hp, hb⟩ := reached_buffer h
  have hs := reached_inv h
  refine ⟨⟨hb.counted, hb.bounded⟩, ⟨hb.inFlight, fun l t hl ht ↦
    ⟨answers_length hp hl ht, inFlight_eq_zero⟩⟩, hp, fun c hc ↦ ?_⟩
  obtain ⟨ps, ha, hj⟩ := hs.grouped c.group (.inr (List.mem_map_of_mem hc))
  exact ⟨ps, hj, fun p hps ↦ ⟨ha.project p hps, hs.known p (.inr (hj.subset hps))⟩, ha.events⟩

theorem buffer_and_projects_sample :
    ∃ s, run (State.step sampleDeps) .initial sampleRun = some s ∧
      s.buffered ≤ sampleDeps.policy.maxBuffered :=
  ⟨_, rfl, (buffer_and_projects sampleDeps sampleRun rfl).1.2⟩

end Counted.Ingestion
