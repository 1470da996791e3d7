import Counted.Ingestion.GroupCommit
import Counted.Foundations.Run

namespace Counted.Ingestion

open Foundations Relation

section

variable (deps : GroupCommitDeps)

/-- How a request is answered that no commit answers. -/
inductive Early (batch : IngestBatch) : Settlement → Prop
  | unread (error : BatchAdmissionError) : Early batch (.ack (.refused error []))
  | refused {outcome : AdmissionOutcome} (h : admitBatch deps.runtime deps.admission batch = .ok outcome)
      (error : BatchAdmissionError) : Early batch (.ack (.refused error outcome.rejected))
  | threw (detail : JsString) : Early batch (.threw detail)
  | nothing {outcome : AdmissionOutcome} (h : admitBatch deps.runtime deps.admission batch = .ok outcome)
      (hn : outcome.admitted = []) :
      Early batch (.ack (.committed 0 outcome.duplicates outcome.rejected none))

/-- Why an answer of the sink refuses every waiter of a group of `n` events, if it does. -/
def SinkAnswer.refusal (n : ℕ) : SinkAnswer → Option BatchAdmissionError
  | .err failure => some (sinkRefusal failure)
  | .threw detail => some (.sinkUnavailable detail)
  | .ok receipt =>
    if receipt.consistent deps.runtime n then none else some (.sinkUnavailable inconsistentReceipt)

/-- A commit from one await to the next, and what it settles on the way. -/
inductive Advance : Commit → Commit → List (ℕ × Settlement) → Prop
  | fail {g : Group} {past : Option SinkAnswer} {answer : SinkAnswer} {error : BatchAdmissionError}
      (h : answer.refusal deps g.events.length = some error) :
      Advance ⟨g, .writing, past⟩ ⟨g, .finishing, some answer⟩ (g.refuse error)
  | record {g : Group} {past : Option SinkAnswer} {receipt : WriteReceipt}
      (h : (SinkAnswer.ok receipt).refusal deps g.events.length = none) :
      Advance ⟨g, .writing, past⟩ ⟨g, .recording receipt, some (.ok receipt)⟩ []
  | acknowledge {g : Group} {past : Option SinkAnswer} {receipt : WriteReceipt} :
      Advance ⟨g, .recording receipt, past⟩ ⟨g, .finishing, past⟩ (g.acknowledge receipt)
  | finish {g : Group} {past : Option SinkAnswer} :
      Advance ⟨g, .finishing, past⟩ ⟨g, .finished, past⟩ []

/-- The one thing `#pump` does, as often as it can. -/
inductive Flush (now : Instant) : State → State → Prop
  | mk (s : State) (g : Group) (hg : g ∈ s.groups) (hd : s.due deps g now)
      (hf : s.inFlight < deps.policy.maxInFlight) : Flush now s (s.flush g)

/-- An indivisible change a step makes before it pumps. -/
inductive Entry : State → State → Prop
  | answer (s : State) {batch : IngestBatch} {o : Settlement} (h : Early deps batch o) :
      Entry s { s with
        submits := s.submits ++ [batch], settled := s.settled ++ [(s.submits.length, o)] }
  | suspend (s : State) {batch : IngestBatch} {outcome : AdmissionOutcome}
      (h : admitBatch deps.runtime deps.admission batch = .ok outcome) :
      Entry s { s with
        submits := s.submits ++ [batch]
        checking := s.checking ++ [⟨s.submits.length, batch, outcome⟩] }
  | refuse (s : State) {p : Pending} {o : Settlement} (hp : p ∈ s.checking)
      (ho : admitBatch deps.runtime deps.admission p.batch = .ok p.outcome → Early deps p.batch o) :
      Entry s ((s.unsuspend p.submit).settle [(p.submit, o)])
  | join (s : State) {p : Pending} (opened : Instant) (hp : p ∈ s.checking)
      (hr : s.buffered + p.outcome.admitted.length ≤ deps.policy.maxBuffered) :
      Entry s ((s.unsuspend p.submit).join p opened)
  | drains (s : State) (b : Bool) (ds : List Drain) (hb : s.draining = true → b = true)
      (hd : b = true ∨ ds.length = s.drains.length) :
      Entry s { s with draining := b, drains := ds }
  | commit (s : State) {l m : List Commit} {c c' : Commit} {out : List (ℕ × Settlement)}
      (ps : List CommitProblem) (hs : s.commits = l ++ c :: m) (hc : Advance deps c c' out) :
      Entry s { s with
        commits := l ++ c' :: m, settled := s.settled ++ out, problems := s.problems ++ ps }

/-- An indivisible change of the state. Every step is a sequence of these. -/
inductive Move (s t : State) : Prop
  | entry (h : Entry deps s t)
  | flush {now : Instant} (h : Flush deps now s t)

end

variable {deps : GroupCommitDeps} {now : Instant} {s t : State} {a : Action}

theorem decide_flush_iff {g : Group} :
    (∃ r, deps.policy.decide ⟨some g.pending, s.inFlight, s.draining⟩ now = .flush r) ↔
      s.due deps g now ∧ s.inFlight < deps.policy.maxInFlight := by
  rw [State.due, Option.isSome_iff_exists, GroupCommitPolicy.decide]
  cases h : deps.policy.flushReason g.pending s.draining now with
  | none => simp [h]
  | some reason =>
    by_cases hf : deps.policy.maxInFlight ≤ s.inFlight
    · simp [h, hf]
    · simpa [h, hf] using not_le.1 hf

theorem pumpGroup_eq (g : Group) : s.pumpGroup deps now g =
    if s.due deps g now ∧ s.inFlight < deps.policy.maxInFlight then s.flush g else s := by
  rw [State.pumpGroup]
  split
  · rename_i r h
    rw [if_pos (decide_flush_iff.1 ⟨r, h⟩)]
  · rename_i h
    rw [if_neg (fun hd ↦ (decide_flush_iff.2 hd).elim h)]

theorem foldl_flushes {l : List Group} (hl : (l.map (·.project)).Nodup)
    (hs : ∀ g ∈ l, g ∈ s.groups) :
    ReflTransGen (Flush deps now) s (l.foldl (State.pumpGroup deps now) s) := by
  induction l generalizing s with
  | nil => exact .refl
  | cons g l ih =>
    simp only [List.map_cons, List.nodup_cons] at hl
    rw [List.foldl_cons, pumpGroup_eq]
    split_ifs with h
    · refine .head (.mk s g (hs g List.mem_cons_self) h.1 h.2) (ih hl.2 fun b hb ↦ ?_)
      exact Keyed.mem_remove.2 ⟨hs b (List.mem_cons_of_mem g hb),
        fun hk ↦ hl.1 (hk ▸ List.mem_map_of_mem hb)⟩
    · exact ih hl.2 (fun b hb ↦ hs b (List.mem_cons_of_mem g hb))

theorem pump_flushes (deps : GroupCommitDeps) (now : Instant) (h : (s.groups.map (·.project)).Nodup) :
    ReflTransGen (Flush deps now) s (s.pump deps now) := foldl_flushes h (fun _ hg ↦ hg)

theorem flushes_moves (h : ReflTransGen (Flush deps now) s t) : ReflTransGen (Move deps) s t :=
  h.lift id (fun _ _ ↦ .flush)

/-- There is at most one open group for a project. -/
def State.Projects (s : State) : Prop := (s.groups.map (·.project)).Nodup

theorem Move.projects (h : Move deps s t) (hs : s.Projects) : t.Projects := by
  cases h with
  | entry h =>
    cases h with
    | answer | suspend | refuse | drains | commit => exact hs
    | join opened hp hr => exact Keyed.nodup_upsert hs
  | flush h =>
    cases h
    exact Keyed.nodup_remove hs

theorem enterSubmit_entry (batch : IngestBatch) : Entry deps s (s.enterSubmit deps batch) := by
  unfold State.enterSubmit
  split
  · exact .answer s (.unread _)
  · rename_i outcome h
    dsimp only
    split_ifs with hn hd
    · exact .answer s (.nothing h (List.length_eq_zero_iff.1 hn))
    · exact .answer s (.refused h _)
    · split
      · exact .answer s (.refused h _)
      · exact .suspend s h

/-- The state a step has reached when its own synchronous work is done. -/
def Entered.state : Entered → State
  | .done s | .pumps _ s | .loops _ _ s => s

theorem enterVerdict_entry {p : Pending} (hp : p ∈ s.checking) (verdict : QuotaVerdict)
    (opened now : Instant) : Entry deps s (s.enterVerdict deps p verdict opened now).state := by
  unfold State.enterVerdict
  cases verdict with
  | planExceeded limit used => exact .refuse s hp (fun h ↦ .refused h _)
  | rateLimited retryAfter => exact .refuse s hp (fun h ↦ .refused h _)
  | threw detail => exact .refuse s hp (fun _ ↦ .threw detail)
  | allowed =>
    dsimp only
    split
    · exact .refuse s hp (fun h ↦ .refused h _)
    · rename_i hr
      exact .join s opened hp (GroupCommitPolicy.receive_accept.1 hr)

theorem enterDrain_entries {i : ℕ} :
    ReflTransGen (Entry deps) s (s.enterDrain i now).state := by
  rw [State.enterDrain]
  split_ifs
  · exact .single (.drains s s.draining _ id (.inr (List.length_set ..)))
  · exact .refl

theorem commits_split {id : ℕ} {c : Commit} (h : s.commits[id]? = some c) (c' : Commit) :
    ∃ l m, s.commits = l ++ c :: m ∧ s.commits.set id c' = l ++ c' :: m := by
  obtain ⟨hi, rfl⟩ := List.getElem?_eq_some_iff.1 h
  refine ⟨s.commits.take id, s.commits.drop (id + 1), ?_, List.set_eq_take_append_cons_drop.trans
    (if_pos hi)⟩
  rw [List.getElem_cons_drop, List.take_append_drop]

/-- A commit has gone on, and settled on the way what it had to. -/
def State.advanced (s : State) (id : ℕ) (c : Commit) (out : List (ℕ × Settlement))
    (ps : List CommitProblem) : State :=
  { s with
    commits := s.commits.set id c, settled := s.settled ++ out, problems := s.problems ++ ps }

theorem advance_entry {id : ℕ} {c c' : Commit} {out : List (ℕ × Settlement)}
    (h : s.commits[id]? = some c) (hc : Advance deps c c' out) (ps : List CommitProblem) :
    Entry deps s (s.advanced id c' out ps) := by
  obtain ⟨l, m, hl, hm⟩ := commits_split h c'
  rw [State.advanced, hm]
  exact .commit s ps hl hc

theorem sinkAnswered_advance (deps : GroupCommitDeps) (s : State) (id : ℕ) (g : Group) (past : Option SinkAnswer)
    (answer : SinkAnswer) : ∃ c' out ps, Advance deps ⟨g, .writing, past⟩ c' out ∧
      s.sinkAnswered deps id ⟨g, .writing, past⟩ answer = s.advanced id c' out ps := by
  unfold State.sinkAnswered
  cases answer with
  | err failure =>
    refine ⟨_, _, [], .fail (rfl : SinkAnswer.refusal deps _ (.err failure) = _), ?_⟩
    simp only [State.advanced, State.putCommit, State.settle, List.append_nil]
  | threw detail => exact ⟨_, _, _, .fail (rfl : SinkAnswer.refusal deps _ (.threw detail) = _), rfl⟩
  | ok receipt =>
    dsimp only
    split_ifs with hr
    · have hn : (SinkAnswer.ok receipt).refusal deps g.events.length = none := by
        simp [SinkAnswer.refusal, hr]
      refine ⟨_, _, [], .record hn, ?_⟩
      simp only [State.advanced, State.putCommit, List.append_nil]
    · exact ⟨_, _, _, .fail (by simp [SinkAnswer.refusal, hr]), rfl⟩

/-- The steps that carry a commit on: the sink's answer, the quota's, the `finally`. -/
def Action.answers : Action → Bool
  | .sinkAnswer .. | .recordAnswer .. | .finish .. => true
  | _ => false

theorem enter_answers {e : Entered} (ha : a.answers) (h : s.enter deps a = some e) :
    ∃ id c c' out ps, s.commits[id]? = some c ∧ Advance deps c c' out ∧
      e.state = s.advanced id c' out ps := by
  unfold State.enter at h
  cases a with
  | submit | quotaAnswer | tick | drain | drainResume => cases ha
  | sinkAnswer id answer =>
    dsimp only at h
    split at h
    · rename_i g past hc
      cases h
      obtain ⟨c', out, ps, hadv, he⟩ := sinkAnswered_advance deps s id g past answer
      exact ⟨id, _, c', out, ps, hc, hadv, he⟩
    · cases h
  | recordAnswer id failure =>
    dsimp only at h
    split at h
    · rename_i g receipt past hc
      cases h
      exact ⟨id, _, _, _, _, hc, .acknowledge, rfl⟩
    · cases h
  | finish id now =>
    dsimp only at h
    split at h
    · rename_i g past hc
      cases h
      refine ⟨id, _, _, _, [], hc, .finish, ?_⟩
      simp only [Entered.state, State.advanced, State.putCommit, List.append_nil]
    · cases h

theorem enter_entries {e : Entered} (h : s.enter deps a = some e) :
    ReflTransGen (Entry deps) s e.state := by
  cases a with
  | submit batch =>
    cases h
    exact .single (enterSubmit_entry batch)
  | quotaAnswer id verdict opened now =>
    obtain ⟨p, hp, rfl⟩ := Option.map_eq_some_iff.1 h
    exact .single (enterVerdict_entry (Keyed.lookup_eq_some hp).1 verdict opened now)
  | tick now =>
    cases h
    exact .refl
  | drain now =>
    cases h
    exact .head (.drains s true _ (fun _ ↦ rfl) (.inl rfl)) enterDrain_entries
  | drainResume id now =>
    rw [State.enter] at h
    split at h
    · split_ifs at h
      cases h
      exact enterDrain_entries
    · cases h
  | sinkAnswer | recordAnswer | finish =>
    obtain ⟨id, c, c', out, ps, hc, hadv, he⟩ := enter_answers rfl h
    rw [he]
    exact .single (advance_entry hc hadv ps)

theorem entries_moves (h : ReflTransGen (Entry deps) s t) : ReflTransGen (Move deps) s t :=
  h.lift id (fun _ _ ↦ .entry)

theorem moves_invariant {P : State → Prop}
    (hP : ∀ s t, s.Projects → P s → Move deps s t → P t) (h : ReflTransGen (Move deps) s t)
    (hs : s.Projects ∧ P s) : t.Projects ∧ P t := by
  induction h with
  | refl => exact hs
  | tail _ h ih => exact ⟨h.projects ih.1, hP _ _ ih.1 ih.2 h⟩

theorem moves_projects (h : ReflTransGen (Move deps) s t) (hs : s.Projects) : t.Projects :=
  (moves_invariant (P := fun _ ↦ True) (fun _ _ _ _ _ ↦ trivial) h ⟨hs, trivial⟩).1

theorem leave_moves {e : Entered} (h : e.state.Projects) :
    ReflTransGen (Move deps) e.state (State.leave deps e) := by
  cases e with
  | done s => exact .refl
  | pumps now s => exact flushes_moves (pump_flushes deps now h)
  | loops id now s =>
    exact (flushes_moves (pump_flushes deps now h)).tail (.entry (.drains _ (s.pump deps now).draining _
      (fun h ↦ h) (.inr (List.length_set ..))))

/-- A step is a sequence of moves. -/
theorem step_moves (hs : s.Projects) (h : s.step deps a = some t) :
    ReflTransGen (Move deps) s t := by
  obtain ⟨e, he, rfl⟩ := Option.map_eq_some_iff.1 h
  have hm := entries_moves (enter_entries he)
  exact hm.trans (leave_moves (moves_projects hm hs))

theorem initial_projects : State.initial.Projects := List.nodup_nil

/-- What every move preserves holds in every state a run reaches. -/
theorem reached {P : State → Prop} (hP : ∀ s t, s.Projects → P s → Move deps s t → P t)
    (h0 : P .initial) {l : List Action} (h : run (State.step deps) .initial l = some t) :
    t.Projects ∧ P t :=
  run_invariant (P := fun s ↦ s.Projects ∧ P s)
    (fun _ _ _ hs ht ↦ moves_invariant hP (step_moves hs.1 ht) hs) ⟨initial_projects, h0⟩ h

end Counted.Ingestion
