import Counted.Ingestion.FlushOrder
import Counted.Ingestion.Receipts

namespace Counted.Ingestion

open Foundations

/-- The batch that an action submits. -/
def Action.submitted : Action → List IngestBatch
  | .submit batch => [batch]
  | _ => []

variable {deps : GroupCommitDeps} {s t : State} {a : Action} {e : Entered}

/-- What was submitted and what was settled before a step stays as it is. -/
structure Entered.Recalls (s t : State) (submitted : List IngestBatch) : Prop where
  submits : t.submits = s.submits ++ submitted
  settled : ∃ l, t.settled = s.settled ++ l

namespace Entered.Recalls

theorem same (hs : t.submits = s.submits) (hd : t.settled = s.settled) : Recalls s t [] :=
  ⟨hs.trans (List.append_nil _).symm, [], hd.trans (List.append_nil _).symm⟩

theorem settling (hs : t.submits = s.submits) {l : List (ℕ × Settlement)}
    (hd : t.settled = s.settled ++ l) : Recalls s t [] :=
  ⟨hs.trans (List.append_nil _).symm, l, hd⟩

end Entered.Recalls

theorem enterSubmit_recalls (deps : GroupCommitDeps) (s : State) (batch : IngestBatch) :
    Entered.Recalls s (s.enterSubmit deps batch) [batch] := by
  unfold State.enterSubmit
  dsimp only
  split
  · exact ⟨rfl, _, rfl⟩
  · split_ifs
    · exact ⟨rfl, _, rfl⟩
    · exact ⟨rfl, _, rfl⟩
    · split
      · exact ⟨rfl, _, rfl⟩
      · exact ⟨rfl, [], (List.append_nil _).symm⟩

theorem enterVerdict_recalls (deps : GroupCommitDeps) (s : State) (p : Pending)
    (verdict : QuotaVerdict) (opened now : Instant) :
    Entered.Recalls s (s.enterVerdict deps p verdict opened now).state [] := by
  unfold State.enterVerdict
  cases verdict with
  | planExceeded | rateLimited | threw => exact .settling rfl rfl
  | allowed =>
    dsimp only
    split
    · exact .settling rfl rfl
    · exact .same rfl rfl

theorem enter_recalls (h : s.enter deps a = some e) :
    Entered.Recalls s e.state a.submitted := by
  cases a with
  | submit batch =>
    cases h
    exact enterSubmit_recalls deps s batch
  | quotaAnswer id verdict opened now =>
    obtain ⟨p, -, rfl⟩ := Option.map_eq_some_iff.1 h
    exact enterVerdict_recalls deps s p verdict opened now
  | tick now =>
    cases h
    exact .same rfl rfl
  | drain now =>
    cases h
    rw [State.enterDrain]
    split_ifs <;> exact .same rfl rfl
  | drainResume id now =>
    rw [State.enter] at h
    split at h
    · split_ifs at h
      cases h
      rw [State.enterDrain]
      split_ifs <;> exact .same rfl rfl
    · cases h
  | sinkAnswer | recordAnswer | finish =>
    obtain ⟨id, c, c', out, ps, -, -, he⟩ := enter_answers rfl h
    rw [he]
    exact .settling rfl rfl

theorem leave_submits (deps : GroupCommitDeps) (e : Entered) :
    (State.leave deps e).submits = e.state.submits ∧
      (State.leave deps e).settled = e.state.settled := by
  have key (now : Instant) (s : State) (l : List Group) :
      (l.foldl (State.pumpGroup deps now) s).submits = s.submits ∧
        (l.foldl (State.pumpGroup deps now) s).settled = s.settled := by
    induction l generalizing s with
    | nil => exact ⟨rfl, rfl⟩
    | cons g l ih =>
      have hg : (s.pumpGroup deps now g).submits = s.submits ∧
          (s.pumpGroup deps now g).settled = s.settled := by
        rw [pumpGroup_eq]
        split_ifs <;> exact ⟨rfl, rfl⟩
      rw [List.foldl_cons, (ih _).1, (ih _).2]
      exact hg
  cases e with
  | done s => exact ⟨rfl, rfl⟩
  | pumps now s => exact key now s s.groups
  | loops id now s => exact key now s s.groups

theorem step_recalls (h : s.step deps a = some t) : Entered.Recalls s t a.submitted := by
  obtain ⟨e, he, rfl⟩ := Option.map_eq_some_iff.1 h
  have hr := enter_recalls he
  have hl := leave_submits deps e
  exact ⟨hl.1.trans hr.submits, hr.settled.imp fun l hs ↦ hl.2.trans hs⟩

/-- A commit is never about another group. -/
theorem step_group (h : s.step deps a = some t) {id : ℕ} {c : Commit}
    (hc : s.commits[id]? = some c) : ∃ d, t.commits[id]? = some d ∧ d.group = c.group := by
  obtain ⟨l, hl⟩ := step_flushed_prefix h
  have hg : t.flushed[id]? = some c.group := by
    rw [hl]
    apply getElem?_append_of_eq_some
    rw [State.flushed, List.getElem?_map, hc]
    rfl
  rw [State.flushed, List.getElem?_map] at hg
  exact Option.map_eq_some_iff.1 hg

/-- The answers a step leaves with its commits are those they had, and the one it brings. -/
theorem enter_answer (h : s.enter deps a = some e) {id : ℕ} {c : Commit}
    (hc : e.state.commits[id]? = some c) {x : SinkAnswer} (hx : c.answer = some x) :
    a = .sinkAnswer id x ∨ ∃ d, s.commits[id]? = some d ∧ d.answer = some x := by
  have keep (hs : e.state.commits = s.commits) :
      a = .sinkAnswer id x ∨ ∃ d, s.commits[id]? = some d ∧ d.answer = some x :=
    .inr ⟨c, hs ▸ hc, hx⟩
  have put {i : ℕ} {b b' : Commit} (hi : s.commits[i]? = some b)
      (hs : e.state.commits = s.commits.set i b')
      (hb : ∀ y, b'.answer = some y → a = .sinkAnswer i y ∨ b.answer = some y) :
      a = .sinkAnswer id x ∨ ∃ d, s.commits[id]? = some d ∧ d.answer = some x := by
    rw [hs, List.getElem?_set] at hc
    split_ifs at hc with hid hlt
    · obtain rfl := hid
      obtain rfl := Option.some.inj hc
      exact (hb x hx).imp_right fun hy ↦ ⟨b, hi, hy⟩
    · exact .inr ⟨c, hc, hx⟩
  cases a with
  | submit batch =>
    cases h
    apply keep
    show (s.enterSubmit deps batch).commits = s.commits
    unfold State.enterSubmit
    dsimp only
    split
    · rfl
    · split_ifs
      · rfl
      · rfl
      · split <;> rfl
  | quotaAnswer i verdict opened now =>
    obtain ⟨p, -, rfl⟩ := Option.map_eq_some_iff.1 h
    apply keep
    unfold State.enterVerdict
    cases verdict with
    | planExceeded | rateLimited | threw => rfl
    | allowed =>
      dsimp only
      split <;> rfl
  | tick now =>
    cases h
    exact keep rfl
  | drain now =>
    cases h
    apply keep
    rw [State.enterDrain]
    split_ifs <;> rfl
  | drainResume i now =>
    rw [State.enter] at h
    split at h
    · split_ifs at h
      cases h
      apply keep
      rw [State.enterDrain]
      split_ifs <;> rfl
    · cases h
  | sinkAnswer i answer =>
    rw [State.enter] at h
    split at h
    · rename_i group past hi
      cases h
      obtain ⟨phase, hp⟩ : ∃ phase, (s.sinkAnswered deps i ⟨group, .writing, past⟩ answer).commits =
          s.commits.set i ⟨group, phase, some answer⟩ := by
        unfold State.sinkAnswered
        cases answer with
        | err | threw => exact ⟨_, rfl⟩
        | ok receipt =>
          dsimp only
          split_ifs <;> exact ⟨_, rfl⟩
      exact put hi hp fun y hy ↦ .inl (by rw [Option.some.inj hy])
    · cases h
  | recordAnswer i failure =>
    rw [State.enter] at h
    split at h
    · rename_i group receipt past hi
      cases h
      exact put hi rfl fun y hy ↦ .inr hy
    · cases h
  | finish i now =>
    rw [State.enter] at h
    split at h
    · rename_i group past hi
      cases h
      exact put hi rfl fun y hy ↦ .inr hy
    · cases h

theorem step_answer (h : s.step deps a = some t) {id : ℕ} {c : Commit}
    (hc : t.commits[id]? = some c) {x : SinkAnswer} (hx : c.answer = some x) :
    a = .sinkAnswer id x ∨ ∃ d, s.commits[id]? = some d ∧ d.answer = some x := by
  obtain ⟨e, he, rfl⟩ := Option.map_eq_some_iff.1 h
  rw [leave_commits] at hc
  by_cases hlt : id < e.state.commits.length
  · rw [List.getElem?_append_left hlt] at hc
    exact enter_answer he hc hx
  · -- a commit that the pump has just begun has no answer
    rw [List.getElem?_append_right (not_lt.1 hlt), List.getElem?_map] at hc
    obtain ⟨g, -, rfl⟩ := Option.map_eq_some_iff.1 hc
    cases hx

section Covers

variable {rt : Runtime} {policy : AdmissionPolicy} {batch : IngestBatch} {i : ℕ} {raw : Json}

theorem mem_rejected {events : List Json} {index : ℕ} {error : EventAdmissionError}
    (hi : events[i]? = some raw) (h : admitEvent rt policy batch raw (index + i) = .error error) :
    ⟨index + i, error⟩ ∈ (admitEvents rt policy batch index events).2 := by
  induction events generalizing index i with
  | nil => cases hi
  | cons head events ih =>
    rw [admitEvents]
    cases i with
    | zero =>
      obtain rfl := Option.some.inj hi
      rw [Nat.add_zero] at h ⊢
      rw [h]
      exact List.mem_cons_self
    | succ i =>
      have hs : index + (i + 1) = index + 1 + i := by omega
      rw [hs] at h ⊢
      have hm := @ih i (index + 1) hi h
      split
      · exact hm
      · exact List.mem_cons_of_mem _ hm

/-- Each event of a batch that was read is turned down by name, or stands for itself or for an
event that has its key. -/
theorem admit_split {outcome : AdmissionOutcome} (h : admitBatch rt policy batch = .ok outcome)
    (hi : batch.events[i]? = some raw) :
    (∃ f, admitEvent rt policy batch raw i = .ok f ∧
      ∃ g ∈ outcome.admitted, g = f ∨ g.dedupKey = f.dedupKey ∧ f.dedupKey ≠ none) ∨
    ∃ error, ⟨i, error⟩ ∈ outcome.rejected := by
  obtain ⟨-, hr, hc⟩ := admit_cases h
  rw [collapseDuplicates] at hc
  cases ha : admitEvent rt policy batch raw i with
  | ok f =>
    left
    refine ⟨f, rfl, ?_⟩
    have hm : f ∈ (admitEvents rt policy batch 0 batch.events).1 :=
      mem_admitEvents.2 ⟨i, raw, hi, by rw [Nat.zero_add, ha]⟩
    have hcov := collapse_covers (f := AdmittedEvent.dedupKey) [] _ f hm
    rw [hc] at hcov
    rcases hcov with hf | ⟨k, hk, hs | hs⟩
    · exact ⟨f, hf, .inl rfl⟩
    · cases hs
    · obtain ⟨g, hg, hgk⟩ := List.mem_filterMap.1 hs
      exact ⟨g, hg, .inr ⟨hgk.trans hk.symm, by simp [hk]⟩⟩
  | error error =>
    right
    have hm := @mem_rejected rt policy batch i raw batch.events 0 error hi (by rw [Nat.zero_add, ha])
    rw [Nat.zero_add] at hm
    exact ⟨error, hr ▸ hm⟩

/-- What became of one event of a request that was told it is committed: the sink has answered for
a group of its project that holds it, or an event with its key, or it was turned down by name. -/
theorem committed_covers (hs : s.Inv deps) {id accepted deduplicated : ℕ}
    {rejected : List RejectedEvent} {commit : Option CommitSummary}
    (h : (id, .ack (.committed accepted deduplicated rejected commit)) ∈ s.settled)
    (hb : s.submits[id]? = some batch) (hi : batch.events[i]? = some raw) :
    (∃ f, admitEvent deps.runtime deps.admission batch raw i = .ok f ∧
      ∃ (k : ℕ) (c : Commit) (receipt : WriteReceipt),
        s.commits[k]? = some c ∧ c.answer = some (.ok receipt) ∧
        c.group.project = batch.project ∧
        ∃ g ∈ c.group.events, g = f ∨ g.dedupKey = f.dedupKey ∧ f.dedupKey ≠ none) ∨
    i ∈ rejected.map (·.index) := by
  cases commit with
  | some summary =>
    obtain ⟨c, receipt, w, p, ha⟩ := acknowledged hs h
    obtain ⟨k, hk, -⟩ := ha.only
    have hp : p.batch = batch := by
      have hknown := ha.known.1
      rw [ha.submit, hb] at hknown
      exact (Option.some.inj hknown).symm
    have hproject : c.group.project = batch.project := by
      have hc : c.group ∈ s.commits.map (·.group) :=
        List.mem_map_of_mem (List.mem_of_getElem? hk)
      obtain ⟨ps, has, hj⟩ := hs.grouped c.group (.inr hc)
      obtain ⟨q, hq, hrides⟩ := has.waiter w ha.waiter
      have hknown := (hs.known q (.inr (hj.subset hq))).1
      rw [← hrides.submit, ha.rides.submit, ha.submit, hb] at hknown
      rw [← has.project q hq, ← Option.some.inj hknown]
    have hadm : admitBatch deps.runtime deps.admission batch = .ok p.outcome := hp ▸ ha.known.2
    rcases admit_split hadm hi with ⟨f, hf, g, hg, hgf⟩ | ⟨error, hr⟩
    · left
      refine ⟨f, hf, k, c, receipt, hk, ha.answer, hproject, ?_⟩
      rcases ha.rides.covers g hg with hm | ⟨g', hm, hk', hn⟩
      · exact ⟨g, hm, hgf⟩
      · refine ⟨g', hm, .inr ?_⟩
        rcases hgf with rfl | ⟨hkey, hkn⟩
        · exact ⟨hk', hn⟩
        · exact ⟨hk'.trans hkey, hkn⟩
    · right
      rw [ha.rejected, ha.rides.rejected]
      exact List.mem_map_of_mem hr
  | none =>
    obtain ⟨early, hacc⟩ := hs.accounted
    rcases List.mem_append.1 (hacc.settled.mem_iff.1 h) with he | he
    · obtain ⟨batch', hb', he⟩ := hacc.unwritten _ he
      obtain rfl : batch = batch' := Option.some.inj (hb.symm.trans hb')
      cases he with
      | nothing hadm hn =>
        rcases admit_split hadm hi with ⟨f, -, g, hg, -⟩ | ⟨error, hr⟩
        · rw [hn] at hg
          cases hg
        · exact .inr (List.mem_map_of_mem hr)
    · -- a commit tells its waiters what it wrote
      obtain ⟨c, -, hco⟩ := List.mem_flatMap.1 he
      obtain ⟨answer, -, hmem⟩ := settlements_cases hco
      cases hr : answer.refusal deps c.group.events.length with
      | some error =>
        rw [settlements_of_refusal hr] at hmem
        obtain ⟨w, -, hw⟩ := List.mem_map.1 hmem
        cases hw
      | none =>
        obtain ⟨receipt, rfl, hcon⟩ := refusal_none.1 hr
        rw [settlements_of_stored hcon] at hmem
        obtain ⟨w, -, hw⟩ := List.mem_map.1 hmem
        cases hw

/-- Every event of a group was admitted from a request for its project. -/
theorem group_read (hs : s.Inv deps) {c : Commit} (hc : c ∈ s.commits) {f : AdmittedEvent}
    (hf : f ∈ c.group.events) :
    ∃ (id : ℕ) (batch : IngestBatch), s.submits[id]? = some batch ∧
      batch.project = c.group.project ∧ ∃ (index : ℕ) (raw : Json), batch.events[index]? = some raw ∧
        admitEvent deps.runtime deps.admission batch raw index = .ok f := by
  obtain ⟨ps, has, hj⟩ := hs.grouped c.group (.inr (List.mem_map_of_mem hc))
  rw [has.events] at hf
  have hmem := (collapse_sublist (f := AdmittedEvent.dedupKey) _ _).subset hf
  obtain ⟨p, hp, hfp⟩ := List.mem_flatMap.1 hmem
  obtain ⟨hsub, hadm⟩ := hs.known p (.inr (hj.subset hp))
  obtain ⟨-, -, hcol⟩ := admit_cases hadm
  have hpassed : f ∈ (admitEvents deps.runtime deps.admission p.batch 0 p.batch.events).1 := by
    apply (collapse_sublist (f := AdmittedEvent.dedupKey) [] _).subset
    rw [collapseDuplicates] at hcol
    rw [hcol]
    exact hfp
  obtain ⟨index, raw, hi, hok⟩ := mem_admitEvents.1 hpassed
  rw [Nat.zero_add] at hok
  exact ⟨p.submit, p.batch, hsub, has.project p hp, index, raw, hi, hok⟩

end Covers

end Counted.Ingestion
