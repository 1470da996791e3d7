import Counted.Ingestion.MemoryBound

namespace Counted.Ingestion

open Foundations Relation

/-- The clock readings of a step, in their order. -/
def Action.times : Action → List Instant
  | .quotaAnswer _ _ opened now => [opened, now]
  | .tick now | .drain now | .drainResume _ now | .finish _ now => [now]
  | .submit _ | .sinkAnswer .. | .recordAnswer .. => []

/-- The step gives a commit's slot back. -/
def Action.frees : Action → Bool
  | .finish .. => true
  | _ => false

/-- The clock never goes back. -/
def Timely (l : List Action) : Prop := (l.flatMap Action.times).Pairwise (· ≤ ·)

namespace State

variable (deps : GroupCommitDeps) (s : State)

/-- When the transport should call `tick`. -/
def nextDeadlineAt : Option Instant :=
  s.groups.foldl (fun earliest g ↦
    let at' := deps.policy.deadline g.pending
    some (earliest.elim at' (fun e ↦ min e at'))) none

/-- The groups that were flushed, the earliest first. -/
def flushed : List Group := s.commits.map (·.group)

/-- The group is still open, perhaps larger, and due, and at most `n` groups that are open
were opened before it. -/
def Waiting (g : Group) (now : Instant) (n : ℕ) : Prop :=
  ∃ l g' m, s.groups = l ++ g' :: m ∧ l.length ≤ n ∧
    (g'.project = g.project ∧ g'.openedAt = g.openedAt) ∧ s.due deps g' now

end State

variable {deps : GroupCommitDeps} {s t : State} {a : Action} {g g' : Group} {now later : Instant}
  {n : ℕ}

theorem due_iff : s.due deps g now ↔ s.draining ∨ deps.policy.maxEvents ≤ g.events.length ∨
    deps.policy.maxWaiters ≤ g.waiters.length ∨ g.openedAt + deps.policy.linger ≤ now := by
  simp only [State.due, GroupCommitPolicy.flushReason, GroupCommitPolicy.deadline, Group.pending,
    not_lt]
  split_ifs <;> simp_all

/-- What is due stays due: time goes on, groups grow, and a drain is not taken back. -/
theorem due_mono (h : s.due deps g now) (hd : s.draining → t.draining)
    (he : g.events.length ≤ g'.events.length) (hw : g.waiters.length ≤ g'.waiters.length)
    (ho : g'.openedAt = g.openedAt) (hn : now ≤ later) : t.due deps g' later := by
  rw [due_iff] at h ⊢
  rw [ho]
  exact h.imp hd (.imp he.trans' (.imp hw.trans' hn.trans'))

section Deadline

theorem foldl_deadline (deps : GroupCommitDeps) (l : List Group) (e : Instant) :
    ∃ d, l.foldl (fun earliest g ↦
        let at' := deps.policy.deadline g.pending
        some (earliest.elim at' (fun e ↦ min e at'))) (some e) = some d ∧
      d ≤ e ∧ (∀ g ∈ l, d ≤ deps.policy.deadline g.pending) ∧
      (d = e ∨ ∃ g ∈ l, d = deps.policy.deadline g.pending) := by
  induction l generalizing e with
  | nil => exact ⟨e, rfl, le_rfl, by simp, .inl rfl⟩
  | cons g l ih =>
    obtain ⟨d, hd, hle, hall, hatt⟩ := ih (min e (deps.policy.deadline g.pending))
    refine ⟨d, hd, hle.trans (min_le_left _ _), ?_, ?_⟩
    · intro b hb
      rcases List.mem_cons.1 hb with rfl | hb
      · exact hle.trans (min_le_right _ _)
      · exact hall b hb
    · rcases hatt with hatt | ⟨b, hb, hatt⟩
      · rcases min_choice e (deps.policy.deadline g.pending) with hm | hm
        · exact .inl (hatt.trans hm)
        · exact .inr ⟨g, List.mem_cons_self, hatt.trans hm⟩
      · exact .inr ⟨b, List.mem_cons_of_mem g hb, hatt⟩

/-- The next deadline is the earliest of the open groups'. -/
theorem nextDeadlineAt_cons (deps : GroupCommitDeps) {l : List Group} (h : s.groups = g :: l) :
    ∃ d, s.nextDeadlineAt deps = some d ∧ (∀ b ∈ s.groups, d ≤ deps.policy.deadline b.pending) ∧
      ∃ b ∈ s.groups, d = deps.policy.deadline b.pending := by
  obtain ⟨d, hd, hle, hall, hatt⟩ := foldl_deadline deps l (deps.policy.deadline g.pending)
  rw [State.nextDeadlineAt, h]
  refine ⟨d, hd, ?_, ?_⟩
  · intro b hb
    rcases List.mem_cons.1 hb with rfl | hb
    · exact hle
    · exact hall b hb
  · rcases hatt with hatt | ⟨b, hb, hatt⟩
    · exact ⟨g, List.mem_cons_self, hatt⟩
    · exact ⟨b, List.mem_cons_of_mem g hb, hatt⟩

theorem nextDeadlineAt_le (hg : g ∈ s.groups) :
    ∃ d, s.nextDeadlineAt deps = some d ∧ d ≤ g.openedAt + deps.policy.linger := by
  cases h : s.groups with
  | nil =>
    rw [h] at hg
    cases hg
  | cons b l =>
    obtain ⟨d, hd, hall, -⟩ := nextDeadlineAt_cons deps h
    exact ⟨d, hd, hall g hg⟩

end Deadline

section Pump

theorem foldl_groups (l : List Group) (s : State) :
    (l.foldl (State.pumpGroup deps now) s).groups = s.groups.filter (fun b ↦ b.project ∉
      ((l.filter (s.due deps · now)).take (deps.policy.maxInFlight - s.inFlight)).map
        (·.project)) := by
  induction l generalizing s with
  | nil => simp
  | cons g l ih =>
    rw [List.foldl_cons, ih, pumpGroup_eq]
    by_cases hd : s.due deps g now
    · by_cases hf : s.inFlight < deps.policy.maxInFlight
      · obtain ⟨n, hn⟩ : ∃ n, deps.policy.maxInFlight - s.inFlight = n + 1 :=
          ⟨deps.policy.maxInFlight - s.inFlight - 1, by omega⟩
        have hn' : deps.policy.maxInFlight - (s.flush g).inFlight = n := by
          rw [inFlight_flush]
          omega
        have hl : (g :: l).filter (s.due deps · now) = g :: l.filter (s.due deps · now) :=
          List.filter_cons_of_pos hd
        have hdue : ((s.flush g).due deps · now) = (s.due deps · now) := rfl
        rw [if_pos ⟨hd, hf⟩, hn', hn, hl, List.take_succ_cons, hdue, State.flush, Keyed.remove,
          List.filter_filter]
        refine List.filter_congr fun b _ ↦ ?_
        simp [Bool.and_comm]
      · have hz : deps.policy.maxInFlight - s.inFlight = 0 := by omega
        simp [hf, hz]
    · simp [hd]

/-- A pump leaves the groups it does not take. -/
theorem pump_groups : (s.pump deps now).groups =
    s.groups.filter (fun b ↦ b.project ∉ (s.taken deps now).map (·.project)) :=
  foldl_groups s.groups s

theorem pump_draining : (s.pump deps now).draining = s.draining := by
  have key (l : List Group) (s : State) :
      (l.foldl (State.pumpGroup deps now) s).draining = s.draining := by
    induction l generalizing s with
    | nil => rfl
    | cons g l ih =>
      rw [List.foldl_cons, ih, pumpGroup_eq]
      split_ifs <;> rfl
  exact key s.groups s

/-- A pump takes a group that is due, or its slots go to groups opened before. -/
theorem pump_turn {l m : List Group} (hs : s.Projects) (hl : s.groups = l ++ g :: m)
    (hd : s.due deps g now) : g ∈ s.taken deps now ∨
    ∃ l' m', (s.pump deps now).groups = l' ++ g :: m' ∧
      l'.length + (deps.policy.maxInFlight - s.inFlight) ≤ l.length := by
  have hnodup : ((l ++ g :: m).map (·.project)).Nodup := hl ▸ hs
  rw [List.map_append, List.map_cons, List.nodup_append] at hnodup
  have htaken : s.taken deps now = ((l.filter (s.due deps · now)) ++
      g :: m.filter (s.due deps · now)).take (deps.policy.maxInFlight - s.inFlight) := by
    have hf : (g :: m).filter (s.due deps · now) = g :: m.filter (s.due deps · now) :=
      List.filter_cons_of_pos hd
    rw [State.taken, hl, List.filter_append, hf]
  by_cases hk : (l.filter (s.due deps · now)).length < deps.policy.maxInFlight - s.inFlight
  · left
    rw [htaken, List.take_append]
    obtain ⟨k, hk⟩ := Nat.exists_eq_add_of_lt hk
    rw [hk]
    refine List.mem_append_right _ ?_
    rw [show (l.filter (s.due deps · now)).length + k + 1 - (l.filter (s.due deps · now)).length =
      k + 1 by omega, List.take_succ_cons]
    exact List.mem_cons_self
  · right
    rw [List.take_append_of_le_length (not_lt.1 hk)] at htaken
    have hsub : (s.taken deps now).Sublist l :=
      htaken ▸ (List.take_sublist _ _).trans List.filter_sublist
    have hg : g.project ∉ (s.taken deps now).map (·.project) := fun hp ↦
      hnodup.2.2 _ ((hsub.map _).subset hp) _ List.mem_cons_self rfl
    have hlen : (s.taken deps now).length = deps.policy.maxInFlight - s.inFlight := by
      rw [htaken, List.length_take, min_eq_left (not_lt.1 hk)]
    refine ⟨_, _, by rw [pump_groups, hl, List.filter_append, List.filter_cons_of_pos (by simpa using hg)], ?_⟩
    have hin : (s.taken deps now).Sublist
        (l.filter (fun b ↦ b.project ∈ (s.taken deps now).map (·.project))) := by
      have h := hsub.filter (fun b ↦ b.project ∈ (s.taken deps now).map (·.project))
      rwa [List.filter_eq_self.2 (fun b hb ↦ by simpa using ⟨b, hb, rfl⟩)] at h
    have hsplit := List.length_eq_length_filter_add (l := l)
      (fun b ↦ decide (b.project ∈ (s.taken deps now).map (·.project)))
    have hle := hin.length_le
    simp only [decide_not]
    omega

end Pump

section Enter

variable {p : Pending} {opened : Instant} {e : Entered}

/-- A request joins the open group of its project, or opens one behind the others. -/
theorem join_groups (p : Pending) (opened : Instant) (hs : s.Projects) :
    (s.join p opened).groups =
        s.groups.map (fun b ↦ if b.project = p.batch.project then b.join p else b) ∨
      (s.join p opened).groups = s.groups ++ [(Group.new p.batch opened).join p] := by
  rcases groupFor_cases p.batch opened with ⟨hg, hk⟩ | ⟨hg, hk⟩
  · left
    have hkey : (((s.groupFor p.batch opened).join p).project) = p.batch.project := hk
    have hmem : ((s.groupFor p.batch opened).join p).project ∈ s.groups.map (·.project) :=
      List.mem_map.2 ⟨_, hg, rfl⟩
    rw [State.join]
    dsimp only
    rw [Keyed.upsert_of_mem hmem]
    refine List.map_congr_left fun b hb ↦ ?_
    rw [hkey]
    split_ifs with h
    · rw [List.inj_on_of_nodup_map hs hg hb (hk.trans h.symm)]
    · rfl
  · right
    rw [State.join, hg]
    exact Keyed.upsert_of_notMem hk

theorem enter_groups (h : s.enter deps a = some e) : e.state.groups = s.groups ∨
    ∃ p opened, [opened].Sublist a.times ∧ e.state.groups = (s.join p opened).groups := by
  cases a with
  | submit batch =>
    cases h
    left
    show (s.enterSubmit deps batch).groups = s.groups
    unfold State.enterSubmit
    dsimp only
    split
    · rfl
    · split_ifs
      · rfl
      · rfl
      · split <;> rfl
  | quotaAnswer id verdict opened now =>
    obtain ⟨p, -, rfl⟩ := Option.map_eq_some_iff.1 h
    unfold State.enterVerdict
    cases verdict with
    | planExceeded | rateLimited | threw => exact .inl rfl
    | allowed =>
      dsimp only
      split
      · exact .inl rfl
      · exact .inr ⟨p, opened, .cons_cons opened (List.nil_sublist _), rfl⟩
  | tick now =>
    cases h
    exact .inl rfl
  | drain now =>
    cases h
    left
    rw [State.enterDrain]
    split_ifs <;> rfl
  | drainResume id now =>
    left
    rw [State.enter] at h
    split at h
    · split_ifs at h
      cases h
      rw [State.enterDrain]
      split_ifs <;> rfl
    · cases h
  | sinkAnswer | recordAnswer | finish =>
    obtain ⟨id, c, c', out, ps, -, -, he⟩ := enter_answers rfl h
    exact .inl (he ▸ rfl)

theorem Entry.frame (h : Entry deps s t) :
    t.flushed = s.flushed ∧ (s.draining → t.draining) := by
  cases h with
  | answer | suspend | refuse | join => exact ⟨rfl, id⟩
  | drains b ds hb hd => exact ⟨rfl, hb⟩
  | commit ps hl hc =>
    refine ⟨?_, id⟩
    simp only [State.flushed, hl, List.map_append, List.map_cons, hc.group]

theorem enter_frame (h : s.enter deps a = some e) :
    e.state.flushed = s.flushed ∧ (s.draining → e.state.draining) := by
  have key {u : State} (hu : ReflTransGen (Entry deps) s u) :
      u.flushed = s.flushed ∧ (s.draining → u.draining) := by
    induction hu with
    | refl => exact ⟨rfl, id⟩
    | tail _ hm ih => exact ⟨hm.frame.1.trans ih.1, fun hd ↦ hm.frame.2 (ih.2 hd)⟩
  exact key (enter_entries h)

theorem pumping_state {q : Instant × State} (h : e.pumping = some q) : q.2 = e.state := by
  cases e <;> cases h <;> rfl

theorem pumping_times {q : Instant × State} (h : s.enter deps a = some e)
    (hq : e.pumping = some q) : q.1 ∈ a.times := by
  cases a with
  | submit batch =>
    cases h
    cases hq
  | quotaAnswer id verdict opened now =>
    obtain ⟨p, -, rfl⟩ := Option.map_eq_some_iff.1 h
    unfold State.enterVerdict at hq
    cases verdict with
    | planExceeded | rateLimited | threw => cases hq
    | allowed =>
      dsimp only at hq
      split at hq
      · cases hq
      · cases hq
        simp [Action.times]
  | tick now =>
    cases h
    cases hq
    exact List.mem_singleton.2 rfl
  | drain now =>
    cases h
    rw [State.enterDrain] at hq
    split_ifs at hq
    · cases hq
    · cases hq
      exact List.mem_singleton.2 rfl
  | drainResume id now =>
    rw [State.enter] at h
    split at h
    · split_ifs at h
      cases h
      rw [State.enterDrain] at hq
      split_ifs at hq
      · cases hq
      · cases hq
        exact List.mem_singleton.2 rfl
    · cases h
  | sinkAnswer id answer =>
    rw [State.enter] at h
    split at h
    · cases h
      cases hq
    · cases h
  | recordAnswer id failure =>
    rw [State.enter] at h
    split at h
    · cases h
      cases hq
    · cases h
  | finish id now =>
    rw [State.enter] at h
    split at h
    · cases h
      cases hq
      exact List.mem_singleton.2 rfl
    · cases h

/-- The open groups stand in the order in which the clock was read for them. -/
theorem enter_openings (hs : s.Projects) (h : s.enter deps a = some e) :
    (e.state.groups.map (·.openedAt)).Sublist (s.groups.map (·.openedAt) ++ a.times) := by
  rcases enter_groups h with hg | ⟨p, opened, ho, hg⟩
  · rw [hg]
    exact List.sublist_append_left _ _
  · rw [hg]
    rcases join_groups p opened hs with hj | hj
    · have hsame : (s.groups.map (fun b ↦ if b.project = p.batch.project then b.join p else b)).map
          (·.openedAt) = s.groups.map (·.openedAt) := by
        rw [List.map_map]
        refine List.map_congr_left fun b _ ↦ ?_
        simp only [Function.comp_apply]
        split_ifs <;> rfl
      rw [hj, hsame]
      exact List.sublist_append_left _ _
    · rw [hj, List.map_append]
      exact (List.Sublist.refl _).append ho

theorem leave_groups_sublist (e : Entered) : (State.leave deps e).groups.Sublist e.state.groups := by
  cases e with
  | done s => exact .refl _
  | pumps now s | loops id now s =>
    have h : (s.pump deps now).groups.Sublist s.groups := by
      rw [pump_groups]
      exact List.filter_sublist
    exact h

theorem run_openings {l : List Action} (hs : s.Projects) (h : run (State.step deps) s l = some t) :
    (t.groups.map (·.openedAt)).Sublist (s.groups.map (·.openedAt) ++ l.flatMap Action.times) := by
  induction l generalizing s with
  | nil =>
    cases h
    simp
  | cons a l ih =>
    obtain ⟨u, hu, ht⟩ := run_cons h
    refine (ih (moves_projects (step_moves hs hu) hs) ht).trans ?_
    obtain ⟨e, he, rfl⟩ := Option.map_eq_some_iff.1 hu
    rw [List.flatMap_cons, ← List.append_assoc]
    exact (((leave_groups_sublist e).map _).trans (enter_openings hs he)).append (.refl _)

/-- What a step flushes is what its pump takes. -/
theorem step_flushed (h : s.enter deps a = some e) : (State.leave deps e).flushed =
    s.flushed ++ e.pumping.toList.flatMap (fun q ↦ q.2.taken deps q.1) := by
  rw [State.flushed, leave_commits, List.map_append, List.map_map, ← (enter_frame h).1, State.flushed]
  simp [Function.comp_def]

theorem step_flushed_prefix (h : s.step deps a = some t) : ∃ l, t.flushed = s.flushed ++ l := by
  obtain ⟨e, he, rfl⟩ := Option.map_eq_some_iff.1 h
  exact ⟨_, step_flushed he⟩

theorem run_flushed {l : List Action} (h : run (State.step deps) s l = some t) :
    ∃ m, t.flushed = s.flushed ++ m := by
  induction l generalizing s with
  | nil =>
    cases h
    exact ⟨[], by simp⟩
  | cons a l ih =>
    obtain ⟨u, hu, ht⟩ := run_cons h
    obtain ⟨x, hx⟩ := ih ht
    obtain ⟨y, hy⟩ := step_flushed_prefix hu
    exact ⟨y ++ x, by rw [hx, hy, List.append_assoc]⟩

end Enter

section Waiting

variable {e : Entered}

theorem Waiting.enter (hs : s.Projects) (h : s.Waiting deps g now n)
    (he : s.enter deps a = some e) : e.state.Waiting deps g now n := by
  obtain ⟨l, g', m, hl, hn, hg, hd⟩ := h
  have hdr := (enter_frame he).2
  rcases enter_groups he with hgr | ⟨p, opened, -, hgr⟩
  · exact ⟨l, g', m, hgr.trans hl, hn, hg, due_mono hd hdr le_rfl le_rfl rfl le_rfl⟩
  · rcases join_groups p opened hs with hj | hj
    · rw [hj, hl, List.map_append, List.map_cons] at hgr
      refine ⟨_, _, _, hgr, by rwa [List.length_map], ?_, ?_⟩
      · split_ifs
        · exact hg
        · exact hg
      · split_ifs
        · refine due_mono hd hdr ?_ ?_ rfl le_rfl
          · simp [Group.join]
          · simp [Group.join]
        · exact due_mono hd hdr le_rfl le_rfl rfl le_rfl
    · rw [hj, hl, List.append_assoc, List.cons_append] at hgr
      exact ⟨l, g', _, hgr, hn, hg, due_mono hd hdr le_rfl le_rfl rfl le_rfl⟩

theorem Waiting.pump (hs : s.Projects) (h : s.Waiting deps g now n) (hn : now ≤ later) :
    (∃ g' ∈ s.taken deps later, g'.project = g.project ∧ g'.openedAt = g.openedAt) ∨
    ∃ k, (s.pump deps later).Waiting deps g now k ∧ k + (deps.policy.maxInFlight - s.inFlight) ≤ n := by
  obtain ⟨l, g', m, hl, hk, hg, hd⟩ := h
  rcases pump_turn hs hl (due_mono hd id le_rfl le_rfl rfl hn) with ht | ⟨l', m', hp, hlen⟩
  · exact .inl ⟨g', ht, hg⟩
  · refine .inr ⟨l'.length, ⟨l', g', m', hp, le_rfl, hg, ?_⟩, hlen.trans hk⟩
    exact due_mono hd (fun h ↦ pump_draining.trans h) le_rfl le_rfl rfl le_rfl

theorem finish_inFlight {id : ℕ} (hb : s.Buffer deps) (he : s.enter deps (.finish id later) = some e) :
    e.pumping = some (later, e.state) ∧ e.state.inFlight < deps.policy.maxInFlight := by
  rw [State.enter] at he
  split at he
  · rename_i group past hc
    cases he
    refine ⟨rfl, ?_⟩
    obtain ⟨l, m, hl, hm⟩ := commits_split hc ⟨group, .finished, past⟩
    have hle := hb.inFlight
    simp only [State.inFlight, Entered.state, State.putCommit, hm]
    simp only [State.inFlight, hl] at hle
    simp [Commit.active] at hle ⊢
    omega
  · cases he

theorem step_waiting (hs : s.Projects ∧ s.Buffer deps) (ha : ∀ x ∈ a.times, now ≤ x)
    (h : s.Waiting deps g now n) (ht : s.step deps a = some t) :
    (∃ g' ∈ t.flushed.drop s.flushed.length, g'.project = g.project ∧ g'.openedAt = g.openedAt) ∨
    ∃ k, t.Waiting deps g now k ∧ k + (if a.frees then 1 else 0) ≤ n := by
  obtain ⟨e, he, rfl⟩ := Option.map_eq_some_iff.1 ht
  have hp : e.state.Projects := moves_projects (entries_moves (enter_entries he)) hs.1
  have hw : e.state.Waiting deps g now n := Waiting.enter hs.1 h he
  rw [step_flushed he, List.drop_left]
  cases hq : e.pumping with
  | none =>
    right
    refine ⟨n, ?_, ?_⟩
    · cases e with
      | done u => exact hw
      | pumps | loops => cases hq
    · cases a with
      | finish id later =>
        rw [(finish_inFlight hs.2 he).1] at hq
        cases hq
      | submit | quotaAnswer | tick | drain | drainResume | sinkAnswer | recordAnswer => exact le_rfl
  | some q =>
    obtain ⟨later, u⟩ := q
    obtain rfl : u = e.state := pumping_state hq
    rcases Waiting.pump hp hw (ha later (pumping_times he hq)) with ⟨g', hg', hsame⟩ | ⟨k, hk, hle⟩
    · exact .inl ⟨g', by simpa using hg', hsame⟩
    · right
      refine ⟨k, ?_, ?_⟩
      · cases e with
        | done => cases hq
        | pumps | loops =>
          cases hq
          exact hk
      · cases a with
        | finish id later' =>
          have hfree := (finish_inFlight hs.2 he).2
          simp only [Action.frees, if_true]
          omega
        | submit | quotaAnswer | tick | drain | drainResume | sinkAnswer | recordAnswer =>
          exact (Nat.le_add_right _ _).trans hle

/-- A group that is due waits for no more commits to finish than there are groups before it. -/
theorem run_waiting {m : List Action} (hs : s.Projects ∧ s.Buffer deps)
    (hm : ∀ x ∈ m.flatMap Action.times, now ≤ x) (h : s.Waiting deps g now n)
    (ht : run (State.step deps) s m = some t) :
    (∃ g' ∈ t.flushed.drop s.flushed.length, g'.project = g.project ∧ g'.openedAt = g.openedAt) ∨
    ∃ k, t.Waiting deps g now k ∧ k + m.countP Action.frees ≤ n := by
  induction m generalizing s n with
  | nil =>
    cases ht
    exact .inr ⟨n, h, le_rfl⟩
  | cons a m ih =>
    obtain ⟨u, hu, ht⟩ := run_cons ht
    have hsu : u.Projects ∧ u.Buffer deps :=
      moves_invariant (fun _ _ hp hb hm ↦ hm.buffer hp hb) (step_moves hs.1 hu) hs
    obtain ⟨x, hx⟩ : ∃ x, t.flushed = u.flushed ++ x := run_flushed ht
    obtain ⟨y, hy⟩ : ∃ y, u.flushed = s.flushed ++ y := step_flushed_prefix hu
    rcases step_waiting hs (fun x hx ↦ hm x (by simp [hx])) h hu with ⟨g', hg', hsame⟩ | ⟨k, hk, hle⟩
    · refine .inl ⟨g', ?_, hsame⟩
      rw [hy, List.drop_left] at hg'
      rw [hx, hy, List.append_assoc, List.drop_left]
      exact List.mem_append_left _ hg'
    · rcases ih hsu (fun x hx ↦ hm x (by simp [hx])) hk ht with ⟨g', hg', hsame⟩ | ⟨j, hj, hjle⟩
      · refine .inl ⟨g', ?_, hsame⟩
        rw [hx, List.drop_left] at hg'
        rw [hx, hy, List.append_assoc, List.drop_left]
        exact List.mem_append_right _ hg'
      · refine .inr ⟨j, hj, ?_⟩
        rw [List.countP_cons]
        omega

end Waiting

section Turn

variable {e : Entered}

theorem taken_due (hg : g ∈ s.taken deps now) : s.due deps g now :=
  of_decide_eq_true (by simpa using (List.mem_filter.1 (List.mem_of_mem_take hg)).2)

/-- A group is flushed early only where it is full or the coalescer drains. -/
theorem step_early (h : s.step deps a = some t) : ∃ l, t.flushed = s.flushed ++ l ∧
    ∀ g ∈ l, t.draining ∨ deps.policy.maxEvents ≤ g.events.length ∨
      deps.policy.maxWaiters ≤ g.waiters.length ∨
      ∃ x ∈ a.times, g.openedAt + deps.policy.linger ≤ x := by
  obtain ⟨e, he, rfl⟩ := Option.map_eq_some_iff.1 h
  refine ⟨_, step_flushed he, fun g hg ↦ ?_⟩
  obtain ⟨q, hq, hg⟩ := List.mem_flatMap.1 hg
  rw [Option.mem_toList] at hq
  have hd := due_iff.1 (taken_due hg)
  have hdr : (State.leave deps e).draining = q.2.draining := by
    cases e with
    | done => cases hq
    | pumps | loops =>
      cases hq
      exact pump_draining
  rw [hdr]
  exact hd.imp_right (.imp_right (.imp_right fun hx ↦ ⟨q.1, pumping_times he hq, hx⟩))

/-- The group that opened first is flushed by a tick that finds it due and a slot free. -/
theorem tick_flushes {l : List Group} (hl : s.groups = g :: l) (hd : s.due deps g now)
    (hf : s.inFlight < deps.policy.maxInFlight) :
    ∃ t m, s.step deps (.tick now) = some t ∧ t.flushed = s.flushed ++ g :: m := by
  obtain ⟨k, hk⟩ := Nat.exists_eq_add_of_lt hf
  have htaken : s.taken deps now =
      g :: (l.filter (s.due deps · now)).take k := by
    have hfl : (g :: l).filter (s.due deps · now) = g :: l.filter (s.due deps · now) :=
      List.filter_cons_of_pos hd
    rw [State.taken, hl, hfl, hk, show s.inFlight + k + 1 - s.inFlight = k + 1 by omega,
      List.take_succ_cons]
  refine ⟨_, (l.filter (s.due deps · now)).take k, rfl, ?_⟩
  rw [step_flushed (a := .tick now) rfl]
  simp [Entered.pumping, htaken]

/-- A commit that finishes hands its slot to the first group that is due. -/
theorem finish_flushes {id : ℕ} {l m : List Group} (hb : s.Buffer deps)
    (hl : s.groups = l ++ g :: m) (hd : s.due deps g now) (hn : ∀ b ∈ l, ¬ s.due deps b now)
    (h : s.step deps (.finish id now) = some t) : ∃ m', t.flushed = s.flushed ++ g :: m' := by
  obtain ⟨e, he, rfl⟩ := Option.map_eq_some_iff.1 h
  obtain ⟨hq, hfree⟩ := finish_inFlight hb he
  have hgr : e.state.groups = s.groups := by
    obtain ⟨i, c, c', out, ps, -, -, hst⟩ := enter_answers rfl he
    exact hst ▸ rfl
  have hdr : e.state.due deps = s.due deps := by
    obtain ⟨i, c, c', out, ps, -, -, hst⟩ := enter_answers rfl he
    exact hst ▸ rfl
  obtain ⟨k, hk⟩ := Nat.exists_eq_add_of_lt hfree
  have hnone : l.filter (s.due deps · now) = [] := by
    rw [List.filter_eq_nil_iff]
    exact hn
  have hfl : (g :: m).filter (s.due deps · now) = g :: m.filter (s.due deps · now) :=
    List.filter_cons_of_pos hd
  have htaken : e.state.taken deps now = g :: (m.filter (s.due deps · now)).take k := by
    rw [State.taken, hgr, hdr, hl, List.filter_append, hnone, List.nil_append, hfl, hk,
      show e.state.inFlight + k + 1 - e.state.inFlight = k + 1 by omega, List.take_succ_cons]
  rw [step_flushed he, hq]
  simp [htaken]

/-- In a run whose clock never goes back the open groups stand in the order of their opening. -/
theorem opened_in_order {l : List Action} (h : run (State.step deps) .initial l = some s)
    (hl : Timely l) : (s.groups.map (·.openedAt)).Pairwise (· ≤ ·) :=
  hl.sublist (run_openings initial_projects h)

/-- Where the clock never goes back the groups are flushed in the order in which they opened:
the oldest by the first tick at its deadline that finds a slot free, the first that is due by
every commit that finishes, each after no more commits than there are groups before it, and none
early that is not full unless the coalescer drains. -/
theorem flushes_in_turn (deps : GroupCommitDeps) (actions : List Action)
    (h : run (State.step deps) .initial actions = some s) :
    (∀ g ∈ s.groups, ∃ d, s.nextDeadlineAt deps = some d ∧
      d ≤ g.openedAt + deps.policy.linger) ∧
    (∀ g l now d, Timely (actions ++ [.tick now]) → s.groups = g :: l →
      s.nextDeadlineAt deps = some d →
      (∀ b ∈ s.groups, g.openedAt ≤ b.openedAt) ∧ d = g.openedAt + deps.policy.linger ∧
        (d ≤ now → s.inFlight < deps.policy.maxInFlight →
          ∃ t m, s.step deps (.tick now) = some t ∧ t.flushed = s.flushed ++ g :: m)) ∧
    (∀ g l m id now t, s.groups = l ++ g :: m → s.due deps g now →
      (∀ b ∈ l, ¬ s.due deps b now) → s.step deps (.finish id now) = some t →
      ∃ m', t.flushed = s.flushed ++ g :: m') ∧
    (∀ g l m now after t, s.groups = l ++ g :: m → s.due deps g now →
      (∀ x ∈ after.flatMap Action.times, now ≤ x) → run (State.step deps) s after = some t →
      (∃ g' ∈ t.flushed.drop s.flushed.length,
        g'.project = g.project ∧ g'.openedAt = g.openedAt) ∨
      ∃ k, t.Waiting deps g now k ∧ k + after.countP Action.frees ≤ l.length) ∧
    ∀ a t, s.step deps a = some t → ∃ l, t.flushed = s.flushed ++ l ∧
      ∀ g ∈ l, t.draining ∨ deps.policy.maxEvents ≤ g.events.length ∨
        deps.policy.maxWaiters ≤ g.waiters.length ∨
        ∃ x ∈ a.times, g.openedAt + deps.policy.linger ≤ x := by
  have hb := reached_buffer h
  refine ⟨fun g hg ↦ nextDeadlineAt_le hg, fun g l now d ht hl hd ↦ ?_,
    fun g l m id now t hl hd hn ht ↦ finish_flushes hb.2 hl hd hn ht,
    fun g l m now after t hl hd hafter ht ↦
      run_waiting hb hafter ⟨l, g, m, hl, le_rfl, ⟨rfl, rfl⟩, hd⟩ ht,
    fun a t ht ↦ step_early ht⟩
  have hsorted : (s.groups.map (·.openedAt)).Pairwise (· ≤ ·) := by
    refine opened_in_order h (List.Pairwise.sublist ?_ ht)
    rw [List.flatMap_append]
    exact List.sublist_append_left _ _
  have hfirst : ∀ b ∈ s.groups, g.openedAt ≤ b.openedAt := by
    intro b hbm
    rw [hl] at hbm hsorted
    rcases List.mem_cons.1 hbm with rfl | hbm
    · exact le_rfl
    · exact (List.pairwise_cons.1 hsorted).1 _ (List.mem_map_of_mem (f := (·.openedAt)) hbm)
  have hdeadline : d = g.openedAt + deps.policy.linger := by
    obtain ⟨d', hd', hle, b, hbm, heq⟩ := nextDeadlineAt_cons deps hl
    obtain rfl : d = d' := Option.some.inj (hd.symm.trans hd')
    refine le_antisymm (hle g (hl ▸ List.mem_cons_self)) ?_
    rw [heq]
    exact add_le_add_left (hfirst b hbm) _
  refine ⟨hfirst, hdeadline, fun hnow hfree ↦ tick_flushes hl ?_ hfree⟩
  exact due_iff.2 (.inr (.inr (.inr (hdeadline ▸ hnow))))

theorem flushes_in_turn_sample :
    ∃ s g t m, run (State.step sampleDeps) .initial (sampleRun.take 2) = some s ∧ s.groups = [g] ∧
      s.step sampleDeps (.tick 20) = some t ∧ t.flushed = s.flushed ++ g :: m := by
  obtain ⟨t, m, ht, hf⟩ := ((flushes_in_turn sampleDeps (sampleRun.take 2) rfl).2.1 _ [] 20 20
    (by simp [Timely, sampleRun, Action.times]) rfl rfl).2.2 le_rfl (by decide)
  exact ⟨_, _, t, m, rfl, rfl, ht, hf⟩

def batchOf (project : ProjectId) : IngestBatch :=
  { sampleBatch [sampleEvent (js "v")] with project := project }

/-- One commit in flight, with two groups blocked behind it. -/
def blockedRun : List Action :=
  [.submit (batchOf (js "p")), .quotaAnswer 0 .allowed 0 0,
    .submit (batchOf (js "q")), .quotaAnswer 1 .allowed 1 1,
    .submit (batchOf (js "r")), .quotaAnswer 2 .allowed 2 2,
    .sinkAnswer 0 (.ok ⟨(1 : ℤ), [(0 : ℤ)], (0 : ℤ)⟩), .recordAnswer 0 none]

def singleDeps : GroupCommitDeps := { sampleDeps with policy := ⟨20, 500, 64, 50000, 1, 1000⟩ }

/-- The clock goes back between two requests. -/
def turnedBackRun : List Action :=
  [.submit (batchOf (js "q")), .quotaAnswer 0 .allowed 100 100,
    .submit (batchOf (js "p")), .quotaAnswer 1 .allowed 50 50]

/-- A slot that frees serves one of the groups that were blocked, and a tick may leave the oldest
group open where the clock went back. -/
theorem one_slot_one_group :
    (∃ s t, run (State.step crampedDeps) .initial blockedRun = some s ∧
      s.groups.map (·.project) = [js "q", js "r"] ∧ (∀ g ∈ s.groups, s.due crampedDeps g 3) ∧
      s.step crampedDeps (.finish 0 3) = some t ∧ t.groups.map (·.project) = [js "r"]) ∧
    ∃ s t, run (State.step singleDeps) .initial turnedBackRun = some s ∧
      s.groups.map (fun g ↦ (g.project, g.openedAt)) = [(js "q", 100), (js "p", 50)] ∧
      s.nextDeadlineAt singleDeps = some 70 ∧ s.inFlight < singleDeps.policy.maxInFlight ∧
      s.step singleDeps (.tick 130) = some t ∧ t.groups.map (·.project) = [js "p"] := by
  refine ⟨⟨_, _, rfl, rfl, ?_, rfl, rfl⟩, ⟨_, _, rfl, rfl, rfl, by decide, rfl, rfl⟩⟩
  decide

end Turn

end Counted.Ingestion
