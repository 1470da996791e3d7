import Counted.Ingestion.MemoryBound

namespace Counted.Ingestion

open Foundations Relation

/-- Told that its events are stored. -/
def Settlement.accepted : Settlement → Bool
  | .ack (.committed _ _ _ (some _)) => true
  | _ => false

namespace State

/-- What a `drain` that has returned promises of every state from then on: nothing is open or
in flight, no `writeBatch` has been issued since, and no request without its answer, of which all
are still at the quota check, has been told since that it was stored. -/
def Drained (s : State) : Prop :=
  ∀ issued settled, .resolved issued settled ∈ s.drains →
    s.groups = [] ∧ s.inFlight = 0 ∧ s.commits.length = issued ∧
    (∀ id < s.submits.length, id ∈ s.settled.map (·.1) ∨ id ∈ s.checking.map (·.submit)) ∧
    ∀ e ∈ s.settled.drop settled, e.2.accepted = false

/-- The state in which the loop of a `drain` ends. -/
def Quiet (s : State) : Prop := s.draining = true ∧ s.groups = [] ∧ s.inFlight = 0

end State

variable (deps : GroupCommitDeps)

/-- No request that waited at the quota check while a `drain` returned is let into a group. -/
def NoLateJoin (s : State) (a : Action) : Prop :=
  ∀ issued settled, .resolved issued settled ∈ s.drains →
    ∀ id opened now, a = .quotaAnswer id .allowed opened now →
      ∀ p, Keyed.lookup (·.submit) id s.checking = some p →
        deps.policy.receive s.buffered p.outcome.admitted.length ≠ .accept

variable {deps} {s t : State} {a : Action} {now : Instant}

theorem idle_iff : s.idle ↔ s.groups = [] ∧ s.inFlight = 0 := by
  simp [State.idle]

theorem pump_of_no_groups (h : s.groups = []) : s.pump deps now = s := by
  rw [State.pump, h]
  rfl

theorem not_active_of_quiet (h : s.inFlight = 0) {id : ℕ} {c : Commit}
    (hc : s.commits[id]? = some c) : c.active = false := by
  rw [State.inFlight, List.length_eq_zero_iff, List.filter_eq_nil_iff] at h
  simpa using h c (List.mem_of_getElem? hc)

theorem pump_frame (deps : GroupCommitDeps) (now : Instant) (s : State) : (s.pump deps now).drains = s.drains := by
  have key (l : List Group) (s : State) :
      (l.foldl (State.pumpGroup deps now) s).drains = s.drains := by
    induction l generalizing s with
    | nil => rfl
    | cons g l ih =>
      rw [List.foldl_cons, ih, pumpGroup_eq]
      split_ifs <;> rfl
  exact key s.groups s

/-- What a step adds to the answers of a state in which a `drain` has returned. -/
def Appends (s t : State) : Prop :=
  ∃ new, t.settled = s.settled ++ new ∧ ∀ e ∈ new, e.2.accepted = false

theorem enterSubmit_frame (deps : GroupCommitDeps) (batch : IngestBatch) : (s.enterSubmit deps batch).drains = s.drains ∧
    (s.Quiet → (s.enterSubmit deps batch).Quiet ∧
      (s.enterSubmit deps batch).commits = s.commits ∧ Appends s (s.enterSubmit deps batch)) := by
  unfold State.enterSubmit
  split
  · exact ⟨rfl, fun hq ↦ ⟨hq, rfl, _, rfl, by simp [Settlement.accepted]⟩⟩
  · dsimp only
    split_ifs with hn hd
    · exact ⟨rfl, fun hq ↦ ⟨hq, rfl, _, rfl, by simp [Settlement.accepted]⟩⟩
    · exact ⟨rfl, fun hq ↦ ⟨hq, rfl, _, rfl, by simp [Settlement.accepted]⟩⟩
    · split <;> exact ⟨rfl, fun hq ↦ absurd hq.1 hd⟩

theorem enterVerdict_frame (deps : GroupCommitDeps) (p : Pending) (verdict : QuotaVerdict) (opened now : Instant) :
    (s.enterVerdict deps p verdict opened now).state.drains = s.drains := by
  unfold State.enterVerdict
  cases verdict with
  | planExceeded | rateLimited | threw => rfl
  | allowed =>
    dsimp only
    split <;> rfl

/-- A quota answer that lets nobody in only answers. -/
theorem enterVerdict_quiet {p : Pending} {verdict : QuotaVerdict} (opened now : Instant)
    (h : verdict = .allowed → deps.policy.receive s.buffered p.outcome.admitted.length ≠ .accept) :
    ∃ o, o.accepted = false ∧ s.enterVerdict deps p verdict opened now =
      .done ((s.unsuspend p.submit).settle [(p.submit, o)]) := by
  unfold State.enterVerdict
  cases verdict with
  | planExceeded | rateLimited | threw => exact ⟨_, rfl, rfl⟩
  | allowed =>
    dsimp only
    split
    · exact ⟨_, rfl, rfl⟩
    · rename_i hr
      exact absurd hr (h rfl)

/-- A call of `drain` is under way only while the coalescer drains. -/
def State.Begun (s : State) : Prop := s.drains ≠ [] → s.draining = true

theorem Move.begun (h : Move deps s t) (hs : s.Begun) : t.Begun := by
  cases h with
  | entry h =>
    cases h with
    | answer | suspend | refuse | join | commit => exact hs
    | drains b ds hb hd =>
      intro hne
      rcases hd with hd | hd
      · exact hd
      · refine hb (hs fun h0 ↦ hne (List.length_eq_zero_iff.1 ?_))
        rw [hd, h0, List.length_nil]
  | flush h =>
    cases h
    exact hs

theorem mem_drains_set {l : List Drain} {d e : Drain} {id : ℕ} (h : d ∈ l.set id e) :
    d = e ∨ d ∈ l := (List.mem_or_eq_of_mem_set h).symm

variable {issued settled : ℕ}

theorem enterDrain_resolved {id : ℕ} (hs : s.draining = true)
    (h : .resolved issued settled ∈ (s.enterDrain id now).state.drains) :
    .resolved issued settled ∈ s.drains ∨ (s.enterDrain id now).pumping = none ∧
      (s.enterDrain id now).state.Quiet ∧
      (s.enterDrain id now).state.commits.length = issued ∧
      (s.enterDrain id now).state.settled.length = settled := by
  rw [State.enterDrain] at h ⊢
  split_ifs at h ⊢ with hi
  · rcases mem_drains_set h with hd | hd
    · cases hd
      exact .inr ⟨rfl, ⟨hs, idle_iff.1 hi⟩, rfl, rfl⟩
    · exact .inl hd
  · exact .inl h

theorem enter_resolved {e : Entered} (hs : s.Begun) (he : s.enter deps a = some e)
    (h : .resolved issued settled ∈ e.state.drains) :
    .resolved issued settled ∈ s.drains ∨ e.pumping = none ∧ e.state.Quiet ∧
      e.state.commits.length = issued ∧ e.state.settled.length = settled := by
  cases a with
  | submit batch =>
    cases he
    exact .inl ((enterSubmit_frame deps batch).1 ▸ h)
  | quotaAnswer id verdict opened now =>
    obtain ⟨p, hp, rfl⟩ := Option.map_eq_some_iff.1 he
    exact .inl (enterVerdict_frame deps p verdict opened now ▸ h)
  | tick now =>
    cases he
    exact .inl h
  | drain now =>
    cases he
    refine (enterDrain_resolved rfl h).imp_left fun hd ↦ ?_
    simpa using hd
  | drainResume id now =>
    rw [State.enter] at he
    split at he
    · rename_i n hn
      split_ifs at he
      cases he
      exact enterDrain_resolved (hs (List.ne_nil_of_mem (List.mem_of_getElem? hn))) h
    · cases he
  | sinkAnswer | recordAnswer | finish =>
    obtain ⟨id, c, c', out, ps, hc, hadv, hst⟩ := enter_answers rfl he
    rw [hst] at h
    exact .inl h

theorem leave_resolved {e : Entered} (h : .resolved issued settled ∈ (State.leave deps e).drains) :
    .resolved issued settled ∈ e.state.drains := by
  cases e with
  | done s => exact h
  | pumps now s => exact pump_frame deps now s ▸ h
  | loops id now s =>
    rcases mem_drains_set h with hd | hd
    · cases hd
    · exact pump_frame deps now s ▸ hd

theorem leave_quiet {e : Entered} (h : e.pumping = none) : State.leave deps e = e.state := by
  cases e with
  | done s => rfl
  | pumps | loops => cases h

theorem step_resolved (hs : s.Begun) (h : s.step deps a = some t)
    (hm : .resolved issued settled ∈ t.drains) : .resolved issued settled ∈ s.drains ∨
      t.Quiet ∧ t.commits.length = issued ∧ t.settled.length = settled := by
  obtain ⟨e, he, rfl⟩ := Option.map_eq_some_iff.1 h
  refine (enter_resolved hs he (leave_resolved hm)).imp_right fun ⟨hn, hq⟩ ↦ ?_
  rwa [leave_quiet hn]

/-- Where a `drain` has returned and nobody is let in, a step only answers. -/
theorem step_quiet (hq : s.Quiet) (hn : ∀ id opened now, a = .quotaAnswer id .allowed opened now →
      ∀ p, Keyed.lookup (·.submit) id s.checking = some p →
        deps.policy.receive s.buffered p.outcome.admitted.length ≠ .accept)
    (h : s.step deps a = some t) : t.Quiet ∧ t.commits = s.commits ∧ Appends s t := by
  have hsame : Appends s s := ⟨[], by simp⟩
  obtain ⟨e, he, rfl⟩ := Option.map_eq_some_iff.1 h
  have hidle : s.idle := idle_iff.2 hq.2
  cases a with
  | submit batch =>
    cases he
    exact (enterSubmit_frame deps batch).2 hq
  | quotaAnswer id verdict opened now =>
    obtain ⟨p, hp, rfl⟩ := Option.map_eq_some_iff.1 he
    obtain ⟨o, ho, hv⟩ := enterVerdict_quiet (s := s) opened now
      (fun hv ↦ hn id opened now (hv ▸ rfl) p hp)
    rw [hv]
    exact ⟨hq, rfl, _, rfl, by simpa using ho⟩
  | tick now =>
    cases he
    rw [State.leave, pump_of_no_groups hq.2.1]
    exact ⟨hq, rfl, hsame⟩
  | drain now =>
    cases he
    have hi : State.idle { s with draining := true, drains := s.drains ++ [.awaiting 0] } := hidle
    rw [State.enterDrain, if_pos hi]
    exact ⟨⟨rfl, hq.2⟩, rfl, hsame⟩
  | drainResume id now =>
    rw [State.enter] at he
    split at he
    · split_ifs at he
      cases he
      rw [State.enterDrain, if_pos hidle]
      exact ⟨hq, rfl, hsame⟩
    · cases he
  | sinkAnswer | recordAnswer | finish =>
    obtain ⟨id, c, c', out, ps, hc, hadv, hst⟩ := enter_answers rfl he
    have := not_active_of_quiet hq.2.2 hc
    rw [hadv.active] at this
    cases this

/-- With nothing open or in flight, who has no answer waits for the quota. -/
theorem settled_or_checking (hs : s.Inv deps) (hg : s.groups = []) (hf : s.inFlight = 0) :
    ∀ id < s.submits.length, id ∈ s.settled.map (·.1) ∨ id ∈ s.checking.map (·.submit) := by
  obtain ⟨early, hacc⟩ := hs.accounted
  intro id hid
  have hown := hacc.perm.mem_iff.2 (List.mem_range.2 hid)
  rw [State.owners, hg, List.flatMap_nil, List.append_nil] at hown
  rcases List.mem_append.1 hown with hown | hown
  · rcases List.mem_append.1 hown with hown | hown
    · obtain ⟨e, he, rfl⟩ := List.mem_map.1 hown
      exact .inl (List.mem_map_of_mem (hacc.settled.mem_iff.2 (List.mem_append_left _ he)))
    · exact .inr hown
  · obtain ⟨c, hc, hidc⟩ := List.mem_flatMap.1 hown
    obtain ⟨k, hk⟩ := List.mem_iff_getElem?.1 hc
    have hone : (c.settlements deps).map (·.1) = c.group.submits :=
      settlements_of_finished (hs.sound c hc) (not_active_of_quiet hf hk)
    rw [← hone] at hidc
    obtain ⟨e, he, rfl⟩ := List.mem_map.1 hidc
    exact .inl (List.mem_map_of_mem
      (hacc.settled.mem_iff.2 (List.mem_append_right _ (List.mem_flatMap.2 ⟨c, hc, he⟩))))

theorem flushes_count (h : ReflTransGen (Flush deps now) s t) (hs : s.Projects) :
    t.groups.length + t.commits.length = s.groups.length + s.commits.length := by
  refine (?_ : t.Projects ∧
    t.groups.length + t.commits.length = s.groups.length + s.commits.length).2
  induction h with
  | refl => exact ⟨hs, rfl⟩
  | tail _ h ih =>
    obtain ⟨g, hg, hd, hf⟩ := h
    have hc := sum_flush (fun _ ↦ 1) ih.1 hg
    simp only [List.map_const', List.sum_replicate, smul_eq_mul, mul_one] at hc
    refine ⟨Keyed.nodup_remove ih.1, ?_⟩
    rw [← ih.2, hc]
    simp only [State.flush, List.length_append, List.length_singleton]
    omega

/-- Letting a request in after a `drain` has returned breaks what it promised. -/
theorem not_drained_of_join (hp : s.Projects) (hd : s.Drained)
    (hm : .resolved issued settled ∈ s.drains) {id : ℕ} {p : Pending} {opened : Instant}
    (hl : Keyed.lookup (·.submit) id s.checking = some p)
    (hr : deps.policy.receive s.buffered p.outcome.admitted.length = .accept) :
    ∃ t, s.step deps (.quotaAnswer id .allowed opened now) = some t ∧ ¬ t.Drained := by
  let u := (s.unsuspend p.submit).join p opened
  have hu : u.Projects := Keyed.nodup_upsert hp
  refine ⟨u.pump deps now, ?_, fun ht ↦ ?_⟩
  · rw [State.step, State.enter, hl, Option.map_some, Option.map_some, State.enterVerdict]
    dsimp only [State.unsuspend]
    rw [hr]
    rfl
  · obtain ⟨hg, -, hc, -⟩ := ht issued settled
      ((pump_frame deps now u).symm ▸ hm)
    obtain ⟨hsg, -, hsc, -⟩ := hd issued settled hm
    have hcount := flushes_count (pump_flushes deps now hu) hu
    have hpos : 0 < u.groups.length :=
      List.length_pos_of_mem (Keyed.mem_upsert.2 (.inl rfl))
    have huc : u.commits.length = issued := hsc
    rw [hg, hc, List.length_nil] at hcount
    omega

/-- `Drained` with what it takes to go on from it. -/
def State.Settled (s : State) : Prop :=
  ∀ issued settled, .resolved issued settled ∈ s.drains → s.Quiet ∧ s.commits.length = issued ∧
    settled ≤ s.settled.length ∧ ∀ e ∈ s.settled.drop settled, e.2.accepted = false

theorem State.Settled.drained (h : s.Settled) (hs : s.Inv deps) : s.Drained := by
  intro issued settled hm
  obtain ⟨hq, hc, -, he⟩ := h issued settled hm
  exact ⟨hq.2.1, hq.2.2, hc, settled_or_checking hs hq.2.1 hq.2.2, he⟩

theorem step_settled (hb : s.Begun) (hs : s.Settled) (ha : NoLateJoin deps s a)
    (h : s.step deps a = some t) : t.Settled := by
  intro issued settled hm
  rcases step_resolved hb h hm with hm | ⟨hq, hc, hlen⟩
  · obtain ⟨hq, hc, hle, he⟩ := hs issued settled hm
    obtain ⟨hq', hc', new, hnew, hacc⟩ := step_quiet hq (ha issued settled hm) h
    refine ⟨hq', hc' ▸ hc, ?_, fun e hmem ↦ ?_⟩
    · rw [hnew, List.length_append]
      omega
    · rw [hnew, List.drop_append_of_le_length hle] at hmem
      exact (List.mem_append.1 hmem).elim (he e) (hacc e)
  · exact ⟨hq, hc, hlen.ge, by simp [← hlen]⟩

/-- Every `drain` that returns keeps its promise in every state from then on exactly in the runs
that let no request in after it. -/
theorem drained_iff_noLateJoin (actions : List Action) :
    Throughout (State.step deps) State.Drained .initial actions ↔
      Along (State.step deps) (NoLateJoin deps) .initial actions := by
  constructor
  · have key (s : State) (hp : s.Projects) (h : Throughout (State.step deps) State.Drained s actions) :
        Along (State.step deps) (NoLateJoin deps) s actions := by
      induction actions generalizing s with
      | nil => trivial
      | cons a l ih =>
        refine ⟨?_, fun t ht ↦ ih t (moves_projects (step_moves hp ht) hp) (h.2 t ht)⟩
        rintro issued settled hm id opened now rfl p hl hr
        obtain ⟨t, ht, hnd⟩ := not_drained_of_join hp h.1 hm hl hr
        have hdt := h.2 t ht
        cases l with
        | nil => exact hnd hdt
        | cons => exact hnd hdt.1
    exact key .initial initial_projects
  · intro h
    have hP := throughout_of_along
      (P := fun s ↦ (s.Projects ∧ s.Inv deps ∧ s.Begun) ∧ s.Settled)
      (fun s a t hs ha ht ↦ ⟨moves_invariant (P := fun s ↦ s.Inv deps ∧ s.Begun)
        (fun _ _ hp hi hm ↦ ⟨hm.inv hp hi.1, hm.begun hi.2⟩) (step_moves hs.1.1 ht) hs.1,
        step_settled hs.1.2.2 hs.2 ha ht⟩)
      ⟨⟨initial_projects, initial_inv, fun h ↦ absurd rfl h⟩, fun _ _ hm ↦ by cases hm⟩ h
    exact hP.mono (fun s hs ↦ hs.2.drained hs.1.2.1)

/-- A request waits at the quota check, a `drain` finds nothing to wait for and returns, and the
request is let in: its group goes to the sink behind the back of whoever shut down. -/
def lateRun : List Action :=
  [.submit (sampleBatch [sampleEvent (js "v")]), .drain 0, .quotaAnswer 0 .allowed 0 0]

theorem drain_leaves_late_join :
    ∃ (deps : GroupCommitDeps) (actions : List Action) (s : State),
      run (State.step deps) .initial actions = some s ∧ .resolved 0 0 ∈ s.drains ∧
        s.commits.length = 1 ∧ s.inFlight = 1 ∧ s.settled.map (·.1) = [] ∧ ¬ s.Drained := by
  have hrun : (run (State.step sampleDeps) .initial lateRun).map (fun s ↦
      (s.drains, s.commits.length, s.inFlight, s.settled.map (·.1))) =
        some ([.resolved 0 0], 1, 1, []) := by decide
  obtain ⟨s, hs, h⟩ := Option.map_eq_some_iff.1 hrun
  simp only [Prod.mk.injEq] at h
  have hm : .resolved 0 0 ∈ s.drains := by simp [h.1]
  refine ⟨sampleDeps, lateRun, s, hs, hm, h.2.1, h.2.2.1, h.2.2.2, fun hd ↦ ?_⟩
  have hc := (hd 0 0 hm).2.2.1
  rw [h.2.1] at hc
  cases hc

end Counted.Ingestion
