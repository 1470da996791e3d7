import Counted.Ingestion.Buffer

namespace Counted.Ingestion

open Foundations Relation

/-- The clock value a step pumps at, and the state it pumps. -/
def Entered.pumping : Entered → Option (Instant × State)
  | .done _ => none
  | .pumps now s | .loops _ now s => some (now, s)

variable (deps : GroupCommitDeps)

/-- The groups a pump takes out: of those that are due, as many as may still be in flight. -/
def State.taken (s : State) (now : Instant) : List Group :=
  (s.groups.filter (s.due deps · now)).take (deps.policy.maxInFlight - s.inFlight)

/-- No group the step takes out holds more than `maxEvents` events. -/
def FlushesSmall (s : State) (a : Action) : Prop :=
  ∀ e ∈ s.enter deps a, ∀ p ∈ e.pumping, ∀ g ∈ p.2.taken deps p.1,
    g.events.length ≤ deps.policy.maxEvents

def State.SmallInFlight (s : State) : Prop :=
  ∀ c ∈ s.commits, c.active → c.group.events.length ≤ deps.policy.maxEvents

variable {deps} {s t : State} {a : Action} {now : Instant}

theorem foldl_commits (l : List Group) (s : State) :
    (l.foldl (State.pumpGroup deps now) s).commits = s.commits ++
      ((l.filter (s.due deps · now)).take (deps.policy.maxInFlight - s.inFlight)).map
        (⟨·, .writing, none⟩) := by
  induction l generalizing s with
  | nil => simp
  | cons g l ih =>
    rw [List.foldl_cons, ih, pumpGroup_eq]
    by_cases hd : s.due deps g now
    · by_cases hf : s.inFlight < deps.policy.maxInFlight
      · obtain ⟨n, hn⟩ : ∃ n, deps.policy.maxInFlight - s.inFlight = n + 1 :=
          ⟨deps.policy.maxInFlight - s.inFlight - 1, by omega⟩
        have hn' : deps.policy.maxInFlight - (s.flush g).inFlight = n := by
          rw [inFlight_flush]
          omega
        have hl : (g :: l).filter (s.due deps · now) = g :: l.filter (s.due deps · now) :=
          List.filter_cons_of_pos hd
        rw [if_pos ⟨hd, hf⟩, hn', hn, hl, List.take_succ_cons]
        simp only [State.flush, List.append_assoc, List.map_cons, List.singleton_append]
        rfl
      · have hz : deps.policy.maxInFlight - s.inFlight = 0 := by omega
        simp [hf, hz]
    · simp [hd]

theorem pump_commits :
    (s.pump deps now).commits = s.commits ++ (s.taken deps now).map (⟨·, .writing, none⟩) :=
  foldl_commits s.groups s

theorem leave_commits (e : Entered) : (State.leave deps e).commits = e.state.commits ++
    (e.pumping.toList.flatMap (fun p ↦ p.2.taken deps p.1)).map (⟨·, .writing, none⟩) := by
  cases e with
  | done s => simp [State.leave, Entered.pumping, Entered.state]
  | pumps now s => simp [State.leave, Entered.pumping, Entered.state, pump_commits]
  | loops id now s => simp [State.leave, Entered.pumping, Entered.state, pump_commits, State.putDrain]

theorem Entry.smallInFlight (h : Entry deps s t) (hs : s.SmallInFlight deps) :
    t.SmallInFlight deps := by
  cases h with
  | answer | suspend | refuse | join | drains => exact hs
  | @commit l m c c' out ps hl hc =>
    have hold := hs c (by simp [hl]) hc.active
    intro d hd hact
    rcases List.mem_append.1 hd with hd | hd
    · exact hs d (by simp [hl, hd]) hact
    · rcases List.mem_cons.1 hd with rfl | hd
      · rwa [hc.group]
      · exact hs d (by simp [hl, hd]) hact

theorem entries_smallInFlight (h : ReflTransGen (Entry deps) s t) (hs : s.SmallInFlight deps) :
    t.SmallInFlight deps := by
  induction h with
  | refl => exact hs
  | tail _ h ih => exact h.smallInFlight ih

theorem step_smallInFlight (hs : s.SmallInFlight deps) (ha : FlushesSmall deps s a)
    (h : s.step deps a = some t) : t.SmallInFlight deps := by
  obtain ⟨e, he, rfl⟩ := Option.map_eq_some_iff.1 h
  have hen : e.state.SmallInFlight deps := entries_smallInFlight (enter_entries he) hs
  intro c hc hact
  rw [leave_commits] at hc
  rcases List.mem_append.1 hc with hc | hc
  · exact hen c hc hact
  · obtain ⟨g, hg, rfl⟩ := List.mem_map.1 hc
    obtain ⟨p, hp, hg⟩ := List.mem_flatMap.1 hg
    exact ha e he p (Option.mem_toList.1 hp) g hg

/-- With small groups in flight, memory is bounded as documented. -/
theorem held_le_of_small (hb : s.Buffer deps) (hs : s.SmallInFlight deps) :
    s.held ≤ deps.policy.maxBuffered + deps.policy.maxInFlight * deps.policy.maxEvents := by
  have hsize : s.size ≤ deps.policy.maxBuffered := by exact_mod_cast hb.counted ▸ hb.bounded
  have hsum := List.sum_le_card_nsmul ((s.commits.filter (·.active)).map (·.group.events.length))
    deps.policy.maxEvents (fun n hn ↦ by
      obtain ⟨c, hc, rfl⟩ := List.mem_map.1 hn
      obtain ⟨hc, hact⟩ := List.mem_filter.1 hc
      exact hs c hc hact)
  rw [List.length_map, smul_eq_mul] at hsum
  exact Nat.add_le_add hsize (hsum.trans (Nat.mul_le_mul_right _ hb.inFlight))

/-- Memory stays within the documented bound in every run that takes out no group of more than
`maxEvents` events. -/
theorem held_le_of_flushesSmall (deps : GroupCommitDeps) (actions : List Action)
    (h : Along (State.step deps) (FlushesSmall deps) .initial actions) :
    Throughout (State.step deps)
      (fun s ↦ s.held ≤ deps.policy.maxBuffered + deps.policy.maxInFlight * deps.policy.maxEvents)
      .initial actions := by
  have hP := throughout_of_along
    (P := fun s ↦ (s.Projects ∧ s.Buffer deps) ∧ s.SmallInFlight deps)
    (fun s a t hs ha ht ↦ ⟨moves_invariant (fun _ _ hp hb hm ↦ hm.buffer hp hb)
      (step_moves hs.1.1 ht) hs.1, step_smallInFlight hs.2 ha ht⟩)
    ⟨⟨initial_projects, initial_buffer⟩, fun c hc ↦ by cases hc⟩ h
  exact hP.mono (fun s hs ↦ held_le_of_small hs.1.2 hs.2)

theorem held_le_of_flushesSmall_sample :
    Throughout (State.step sampleDeps) (fun s ↦ s.held ≤ 50000 + 4 * 500) .initial
      [.submit (sampleBatch [sampleEvent (js "v")]), .quotaAnswer 0 .allowed 0 20] := by
  refine held_le_of_flushesSmall sampleDeps _ ⟨fun e he p hp ↦ ?_, fun t ht ↦ ?_⟩
  · cases he
    cases hp
  · cases ht
    refine ⟨fun e he p hp ↦ ?_, fun _ _ ↦ trivial⟩
    cases he
    cases hp
    decide

def crampedDeps : GroupCommitDeps := { sampleDeps with policy := ⟨20, 1, 64, 2, 1, 1000⟩ }

/-- Two batches of two events, of which the first is in flight and the second in the buffer. -/
def crampedRun : List Action :=
  let batch := sampleBatch [sampleEvent (js "v"), sampleEvent (js "w")]
  [.submit batch, .quotaAnswer 0 .allowed 0 0, .submit batch, .quotaAnswer 1 .allowed 0 0]

theorem held_exceeds_bound :
    ∃ (deps : GroupCommitDeps) (actions : List Action) (s : State),
      run (State.step deps) .initial actions = some s ∧
        deps.policy.maxBuffered + deps.policy.maxInFlight * deps.policy.maxEvents < s.held := by
  have hrun : (run (State.step crampedDeps) .initial crampedRun).map State.held = some 4 := by
    decide
  obtain ⟨s, hs, hheld⟩ := Option.map_eq_some_iff.1 hrun
  exact ⟨crampedDeps, crampedRun, s, hs, by rw [hheld]; decide⟩

/-- What does hold of every run: a group is no larger than the whole buffer. -/
theorem held_le {actions : List Action} (h : run (State.step deps) .initial actions = some s) :
    s.held ≤ deps.policy.maxBuffered * (deps.policy.maxInFlight + 1) := by
  have hP : s.Projects ∧ s.Buffer deps ∧
      ∀ c ∈ s.commits, c.group.events.length ≤ deps.policy.maxBuffered := by
    refine reached (P := fun s ↦ s.Buffer deps ∧
      ∀ c ∈ s.commits, c.group.events.length ≤ deps.policy.maxBuffered)
      (fun s t hp hs hm ↦ ⟨hm.buffer hp hs.1, ?_⟩) ⟨initial_buffer, fun c hc ↦ by cases hc⟩ h
    cases hm with
    | entry hm =>
      cases hm with
      | answer | suspend | refuse | join | drains => exact hs.2
      | @commit l m c c' out ps hl hc =>
        intro d hd
        have hmem : d.group ∈ s.commits.map (·.group) := by
          simpa [hl, hc.group] using List.mem_map_of_mem (f := (·.group)) hd
        obtain ⟨e, he, heg⟩ := List.mem_map.1 hmem
        exact heg ▸ hs.2 e he
    | flush hm =>
      obtain ⟨g, hg, hd, hf⟩ := hm
      intro c hc
      rcases List.mem_append.1 hc with hc | hc
      · exact hs.2 c hc
      · have hsz := size_flush hp hg
        have hb : (s.size : ℤ) ≤ deps.policy.maxBuffered := hs.1.counted ▸ hs.1.bounded
        rw [List.mem_singleton.1 hc]
        dsimp only
        omega
  have hsize : s.size ≤ deps.policy.maxBuffered := by
    exact_mod_cast hP.2.1.counted ▸ hP.2.1.bounded
  have hsum := List.sum_le_card_nsmul ((s.commits.filter (·.active)).map (·.group.events.length))
    deps.policy.maxBuffered (fun n hn ↦ by
      obtain ⟨c, hc, rfl⟩ := List.mem_map.1 hn
      exact hP.2.2 c (List.mem_filter.1 hc).1)
  rw [List.length_map, smul_eq_mul] at hsum
  have hin := Nat.mul_le_mul_right deps.policy.maxBuffered hP.2.1.inFlight
  rw [State.held, mul_add, mul_one, mul_comm, add_comm]
  exact Nat.add_le_add (hsum.trans hin) hsize

end Counted.Ingestion
