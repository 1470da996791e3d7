import Counted.Ingestion.Accounting

namespace Counted.Ingestion

open Foundations Relation

inductive SettlementKind
  | committed | refused | threw
  deriving DecidableEq

def Settlement.kind : Settlement → SettlementKind
  | .ack (.committed ..) => .committed
  | .ack (.refused ..) => .refused
  | .threw _ => .threw

def Group.submits (g : Group) : List ℕ := g.waiters.map (·.submit)

/-- Every promise that has been made, by what became of it. -/
def State.owners (s : State) (early : List (ℕ × Settlement)) : List ℕ :=
  early.map (·.1) ++ s.checking.map (·.submit) ++ s.groups.flatMap Group.submits ++
    s.commits.flatMap (·.group.submits)

variable {deps : GroupCommitDeps} {s : State} {early : List (ℕ × Settlement)} {c d : Commit}
  {id : ℕ} {o : Settlement}

theorem sum_coe {α : Type} (f : α → List ℕ) (l : List α) :
    (l.map (fun a ↦ (f a : Multiset ℕ))).sum = (l.flatMap f : List ℕ) := by
  induction l with
  | nil => rfl
  | cons a l ih => rw [List.map_cons, List.sum_cons, ih, List.flatMap_cons, Multiset.coe_add]

theorem Accounted.perm (h : Accounted deps s early) :
    (s.owners early).Perm (List.range s.submits.length) := by
  refine Multiset.coe_eq_coe.1 ?_
  rw [← Multiset.range, ← h.owners, sum_singletons, sum_singletons]
  simp only [State.owners, ← Multiset.coe_add, ← sum_coe]
  rfl

theorem Accounted.nodup (h : Accounted deps s early) : (s.owners early).Nodup :=
  h.perm.nodup_iff.2 List.nodup_range

theorem refuse_submits (g : Group) (error : BatchAdmissionError) :
    (g.refuse error).map (·.1) = g.submits := by
  simp [Group.refuse, Group.submits]

theorem acknowledge_submits (g : Group) (r : WriteReceipt) :
    (g.acknowledge r).map (·.1) = g.submits := by
  simp [Group.acknowledge, Group.submits]

/-- A commit settles its waiters, all of them or none. -/
theorem settlements_submits (deps : GroupCommitDeps) (c : Commit) :
    (c.settlements deps).map (·.1) = [] ∨ (c.settlements deps).map (·.1) = c.group.submits := by
  unfold Commit.settlements
  split
  · exact .inl rfl
  · exact .inl rfl
  all_goals
    cases c.answer with
    | none => exact .inl rfl
    | some answer =>
      simp only [Option.map_some, Option.getD_some, SinkAnswer.settlements]
      split
      · exact .inr (refuse_submits _ _)
      · exact .inr (acknowledge_submits _ _)
      · exact .inl rfl

theorem mem_settlements (h : (id, o) ∈ c.settlements deps) : id ∈ c.group.submits := by
  have hm : id ∈ (c.settlements deps).map (·.1) := List.mem_map_of_mem h
  rcases settlements_submits deps c with hs | hs
  · rw [hs] at hm
    cases hm
  · rwa [hs] at hm

theorem flatMap_sublist {α β : Type} {f g : α → List β} (h : ∀ a, (f a).Sublist (g a))
    (l : List α) : (l.flatMap f).Sublist (l.flatMap g) := by
  induction l with
  | nil => exact .slnil
  | cons a l ih => exact (h a).append ih

theorem Accounted.settled_nodup (h : Accounted deps s early) : (s.settled.map (·.1)).Nodup := by
  rw [(h.settled.map (·.1)).nodup_iff, List.map_append, List.map_flatMap]
  refine List.Nodup.sublist ?_ h.nodup
  simp only [State.owners, List.append_assoc]
  refine (List.Sublist.refl _).append ?_
  refine ((flatMap_sublist (fun c ↦ ?_) _).trans (List.sublist_append_right _ _)).trans
    (List.sublist_append_right _ _)
  rcases settlements_submits deps c with hs | hs
  · rw [hs]
    exact List.nil_sublist _
  · rw [hs]

theorem index_eq_of_nodup {α β : Type} {f : α → List β} {l : List α} (h : (l.flatMap f).Nodup)
    {i j : ℕ} {a b : α} {x : β} (hi : l[i]? = some a) (hj : l[j]? = some b) (ha : x ∈ f a)
    (hb : x ∈ f b) : i = j := by
  have hd := List.pairwise_iff_getElem.1 (List.nodup_flatMap.1 h).2
  obtain ⟨hil, rfl⟩ := List.getElem?_eq_some_iff.1 hi
  obtain ⟨hjl, rfl⟩ := List.getElem?_eq_some_iff.1 hj
  rcases lt_trichotomy i j with hij | hij | hij
  · exact absurd hb (hd i j hil hjl hij ha)
  · exact hij
  · exact absurd ha (hd j i hjl hil hij hb)

theorem Accounted.commits_nodup (h : Accounted deps s early) :
    (s.commits.flatMap (·.group.submits)).Nodup :=
  (List.nodup_append.1 h.nodup).2.1

/-- What the waiter of a group is told, the commit of that group told it. -/
theorem Accounted.settled_by (h : Accounted deps s early) (hc : c ∈ s.commits)
    (hid : id ∈ c.group.submits) (ho : (id, o) ∈ s.settled) : (id, o) ∈ c.settlements deps := by
  have hmem : id ∈ s.commits.flatMap (·.group.submits) := List.mem_flatMap.2 ⟨c, hc, hid⟩
  rcases List.mem_append.1 (h.settled.mem_iff.1 ho) with he | he
  · have hn := (List.nodup_append.1 h.nodup).2.2
    refine absurd rfl (hn id ?_ id hmem)
    simp only [List.append_assoc]
    exact List.mem_append_left _ (List.mem_map_of_mem he)
  · obtain ⟨d, hd, hdo⟩ := List.mem_flatMap.1 he
    obtain ⟨i, hi⟩ := List.mem_iff_getElem?.1 hc
    obtain ⟨j, hj⟩ := List.mem_iff_getElem?.1 hd
    obtain rfl := index_eq_of_nodup h.commits_nodup hi hj hid (mem_settlements hdo)
    rwa [Option.some.inj (hi.symm.trans hj)]

/-- No request in an open group has been answered. -/
theorem Accounted.open_unsettled (h : Accounted deps s early) {g : Group} (hg : g ∈ s.groups)
    (hid : id ∈ g.submits) : id ∉ s.settled.map (·.1) := by
  have hmem : id ∈ s.groups.flatMap Group.submits := List.mem_flatMap.2 ⟨g, hg, hid⟩
  intro hm
  obtain ⟨⟨i, o⟩, ho, rfl⟩ := List.mem_map.1 hm
  have hn := List.nodup_append.1 h.nodup
  have hn' := List.nodup_append.1 hn.1
  rcases List.mem_append.1 (h.settled.mem_iff.1 ho) with he | he
  · exact hn'.2.2 _ (List.mem_append_left _ (List.mem_map_of_mem he)) _ hmem rfl
  · obtain ⟨d, hd, hdo⟩ := List.mem_flatMap.1 he
    exact hn.2.2 _ (List.mem_append_right _ hmem) _
      (List.mem_flatMap.2 ⟨d, hd, mem_settlements hdo⟩) rfl

/-- An answer of the sink that `#commit` takes for a success. -/
def SinkAnswer.Stored (deps : GroupCommitDeps) (n : ℕ) (answer : SinkAnswer) : Prop :=
  ∃ receipt, answer = .ok receipt ∧ receipt.consistent deps.runtime n

theorem refusal_none {answer : SinkAnswer} {n : ℕ} :
    answer.refusal deps n = none ↔ answer.Stored deps n := by
  cases answer with
  | ok receipt => simp [SinkAnswer.refusal, SinkAnswer.Stored]
  | err failure => simp [SinkAnswer.refusal, SinkAnswer.Stored]
  | threw detail => simp [SinkAnswer.refusal, SinkAnswer.Stored]

theorem refusal_unavailable {answer : SinkAnswer} {n : ℕ} (h : ¬ answer.Stored deps n) :
    ∃ detail, answer.refusal deps n = some (.sinkUnavailable detail) := by
  cases answer with
  | ok receipt =>
    rw [← refusal_none] at h
    unfold SinkAnswer.refusal at h ⊢
    dsimp only at h ⊢
    split_ifs at h ⊢ with hr
    · exact absurd rfl h
    · exact ⟨_, rfl⟩
  | err failure => cases failure <;> exact ⟨_, rfl⟩
  | threw detail => exact ⟨detail, rfl⟩

/-- What a commit tells anyone follows from the answer it got. -/
theorem settlements_cases (h : (id, o) ∈ c.settlements deps) :
    ∃ answer, c.answer = some answer ∧ (id, o) ∈ answer.settlements deps c.group := by
  unfold Commit.settlements at h
  split at h
  · cases h
  · cases h
  all_goals
    cases ha : c.answer with
    | none => simp [ha] at h
    | some answer => exact ⟨answer, rfl, by simpa [ha] using h⟩

theorem settlements_of_refusal {answer : SinkAnswer} {g : Group} {error : BatchAdmissionError}
    (h : answer.refusal deps g.events.length = some error) :
    answer.settlements deps g = g.refuse error := by
  simp only [SinkAnswer.settlements, h]

theorem settlements_of_stored {receipt : WriteReceipt} {g : Group}
    (h : receipt.consistent deps.runtime g.events.length) :
    (SinkAnswer.ok receipt).settlements deps g = g.acknowledge receipt := by
  simp only [SinkAnswer.settlements, refusal_none.2 ⟨receipt, rfl, h⟩]

/-- A commit that told nobody anything is still waiting for its answer or for the quota. -/
theorem Commit.Sound.settlements (h : c.Sound deps) {answer : SinkAnswer}
    (ha : c.answer = some answer) (hn : ¬ answer.Stored deps c.group.events.length) :
    c.settlements deps = answer.settlements deps c.group := by
  unfold Commit.Sound at h
  unfold Commit.settlements
  split at h <;> rename_i hp
  · rw [h] at ha
    cases ha
  · rw [h.1] at ha
    cases ha
    exact absurd (refusal_none.1 h.2) hn
  all_goals simp [ha]

/-- A finished commit has told all of its waiters. -/
theorem settlements_of_finished (h : c.Sound deps) (hc : c.active = false) :
    (c.settlements deps).map (·.1) = c.group.submits := by
  obtain ⟨g, phase, past⟩ := c
  cases phase with
  | finished =>
    obtain ⟨answer, rfl⟩ := Option.isSome_iff_exists.1 h
    simp only [Commit.settlements, Option.map_some, Option.getD_some]
    cases hr : answer.refusal deps g.events.length with
    | some error => rw [settlements_of_refusal hr, refuse_submits]
    | none =>
      obtain ⟨receipt, rfl, hcon⟩ := refusal_none.1 hr
      rw [settlements_of_stored hcon, acknowledge_submits]
  | writing | recording | finishing => cases hc

theorem settlements_kind {answer : SinkAnswer} {g : Group} {e e' : ℕ × Settlement}
    (h : e ∈ answer.settlements deps g) (h' : e' ∈ answer.settlements deps g) :
    e.2.kind = e'.2.kind := by
  cases hr : answer.refusal deps g.events.length with
  | some error =>
    rw [settlements_of_refusal hr] at h h'
    obtain ⟨w, -, rfl⟩ := List.mem_map.1 h
    obtain ⟨w', -, rfl⟩ := List.mem_map.1 h'
    rfl
  | none =>
    obtain ⟨receipt, rfl, hc⟩ := refusal_none.1 hr
    rw [settlements_of_stored hc] at h h'
    obtain ⟨w, -, rfl⟩ := List.mem_map.1 h
    obtain ⟨w', -, rfl⟩ := List.mem_map.1 h'
    rfl

/-- The events of a request in the group it rode: they are there, or repeat one that is. -/
theorem Rides.covers {g : Group} {w : Waiter} {p : Pending} (h : Rides g w p) :
    ∀ e ∈ p.outcome.admitted,
      e ∈ g.events ∨ ∃ f ∈ g.events, f.dedupKey = e.dedupKey ∧ e.dedupKey ≠ none := by
  intro e he
  have hsub : ∀ f ∈ (collapseDuplicates p.outcome.admitted
      ((g.events.take w.offset).filterMap (·.dedupKey))).unique, f ∈ g.events := fun f hf ↦ by
    rw [← h.slice] at hf
    exact List.mem_of_mem_drop (List.mem_of_mem_take hf)
  rcases collapse_covers (f := fun e : AdmittedEvent ↦ e.dedupKey) _ p.outcome.admitted e he with hu | ⟨k, hk, hs | hs⟩
  · exact .inl (hsub e hu)
  all_goals
    obtain ⟨f, hf, hfk⟩ := List.mem_filterMap.1 hs
    refine .inr ⟨f, ?_, hfk.trans hk.symm, by simp [hk]⟩
  · exact List.mem_of_mem_take hf
  · exact hsub f hf

/-- A request was told it is committed by the one commit that holds it. -/
structure Acknowledged (deps : GroupCommitDeps) (s : State) (id accepted deduplicated : ℕ)
    (rejected : List RejectedEvent) (summary : CommitSummary) (c : Commit)
    (receipt : WriteReceipt) (w : Waiter) (p : Pending) : Prop where
  only : ∃ k, s.commits[k]? = some c ∧
    ∀ (j : ℕ) (d : Commit), s.commits[j]? = some d → id ∈ d.group.submits → j = k
  answer : c.answer = some (.ok receipt)
  consistent : receipt.consistent deps.runtime c.group.events.length
  summary : summary = ⟨c.group.events.length, receipt.written, receipt.deduplicated⟩
  waiter : w ∈ c.group.waiters
  deduplicated : deduplicated = w.duplicates + w.contributed - receipt.accepted w
  accepted : accepted = receipt.accepted w
  rejected : rejected = w.rejected
  submit : p.submit = id
  known : s.Known deps p
  rides : Rides c.group w p

theorem acknowledged (hs : s.Inv deps) {accepted deduplicated : ℕ}
    {rejected : List RejectedEvent} {summary : CommitSummary}
    (h : (id, .ack (.committed accepted deduplicated rejected (some summary))) ∈ s.settled) :
    ∃ c receipt w p,
      Acknowledged deps s id accepted deduplicated rejected summary c receipt w p := by
  obtain ⟨early, ha⟩ := hs.accounted
  rcases List.mem_append.1 (ha.settled.mem_iff.1 h) with he | he
  · obtain ⟨batch, -, he⟩ := ha.unwritten _ he
    cases he
  · obtain ⟨c, hc, hco⟩ := List.mem_flatMap.1 he
    obtain ⟨k, hk⟩ := List.mem_iff_getElem?.1 hc
    obtain ⟨answer, han, hmem⟩ := settlements_cases hco
    cases hr : answer.refusal deps c.group.events.length with
    | some error =>
      rw [settlements_of_refusal hr] at hmem
      obtain ⟨w, -, hw⟩ := List.mem_map.1 hmem
      cases hw
    | none =>
      obtain ⟨receipt, rfl, hcon⟩ := refusal_none.1 hr
      rw [settlements_of_stored hcon] at hmem
      obtain ⟨w, hw, hwe⟩ := List.mem_map.1 hmem
      cases hwe
      obtain ⟨ps, has, hj⟩ := hs.grouped c.group (.inr (List.mem_map_of_mem hc))
      obtain ⟨p, hp, hride⟩ := has.waiter w hw
      refine ⟨c, receipt, w, p, ⟨k, hk, fun j d hd hid ↦ ?_⟩, han, hcon, rfl, hw, rfl, rfl, rfl,
        hride.submit.symm, hs.known p (.inr (hj.subset hp)), hride⟩
      exact index_eq_of_nodup ha.commits_nodup hd hk hid (List.mem_map_of_mem hw)

theorem refused_together (hs : s.Inv deps) (hc : c ∈ s.commits) {answer : SinkAnswer}
    (ha : c.answer = some answer) (hn : ¬ answer.Stored deps c.group.events.length) :
    ∃ detail, ∀ w ∈ c.group.waiters,
      (w.submit, .ack (.refused (.sinkUnavailable detail) w.rejected)) ∈ s.settled := by
  obtain ⟨early, hacc⟩ := hs.accounted
  obtain ⟨detail, hd⟩ := refusal_unavailable hn
  refine ⟨detail, fun w hw ↦ hacc.settled.mem_iff.2 (List.mem_append_right _ ?_)⟩
  refine List.mem_flatMap.2 ⟨c, hc, ?_⟩
  rw [(hs.sound c hc).settlements ha hn, settlements_of_refusal hd]
  exact List.mem_map.2 ⟨w, hw, rfl⟩

theorem one_kind (hs : s.Inv deps) (hc : c ∈ s.commits) {i j : ℕ} {o o' : Settlement}
    (hi : i ∈ c.group.submits) (hj : j ∈ c.group.submits) (ho : (i, o) ∈ s.settled)
    (ho' : (j, o') ∈ s.settled) : o.kind = o'.kind := by
  obtain ⟨early, hacc⟩ := hs.accounted
  obtain ⟨answer, ha, hm⟩ := settlements_cases (hacc.settled_by hc hi ho)
  obtain ⟨answer', ha', hm'⟩ := settlements_cases (hacc.settled_by hc hj ho')
  obtain rfl := Option.some.inj (ha.symm.trans ha')
  exact settlements_kind hm hm'

/-- Each request is told once, with the fate of the group it is in: that it was committed only
after the one `writeBatch` carrying the group returned a consistent receipt, and that the sink
is unavailable, all of them together, when it did anything else. -/
theorem settled_with_the_group (deps : GroupCommitDeps) (actions : List Action)
    (h : run (State.step deps) .initial actions = some s) :
    (s.settled.map (·.1)).Nodup ∧
    (∀ id accepted deduplicated rejected summary,
      (id, .ack (.committed accepted deduplicated rejected (some summary))) ∈ s.settled →
      ∃ c receipt w p, Acknowledged deps s id accepted deduplicated rejected summary c receipt w p ∧
        ∀ e ∈ p.outcome.admitted,
          e ∈ c.group.events ∨ ∃ f ∈ c.group.events, f.dedupKey = e.dedupKey ∧ e.dedupKey ≠ none) ∧
    (∀ c ∈ s.commits, ∀ answer, c.answer = some answer →
      ¬ answer.Stored deps c.group.events.length → ∃ detail, ∀ w ∈ c.group.waiters,
        (w.submit, .ack (.refused (.sinkUnavailable detail) w.rejected)) ∈ s.settled) ∧
    (∀ g, g ∈ s.groups ∨ g ∈ s.commits.map (·.group) → ∀ i ∈ g.submits, ∀ j ∈ g.submits,
      ∀ o o', (i, o) ∈ s.settled → (j, o') ∈ s.settled → o.kind = o'.kind) := by
  have hs := reached_inv h
  obtain ⟨early, hacc⟩ := hs.accounted
  refine ⟨hacc.settled_nodup, fun id accepted deduplicated rejected summary hm ↦ ?_,
    fun c hc answer ha hn ↦ refused_together hs hc ha hn, fun g hg i hi j hj o o' ho ho' ↦ ?_⟩
  · obtain ⟨c, receipt, w, p, ha⟩ := acknowledged hs hm
    exact ⟨c, receipt, w, p, ha, ha.rides.covers⟩
  · rcases hg with hg | hg
    · exact absurd (List.mem_map_of_mem ho) (hacc.open_unsettled hg hi)
    · obtain ⟨c, hc, rfl⟩ := List.mem_map.1 hg
      exact one_kind hs hc hi hj ho ho'

def sampleDeps : GroupCommitDeps where
  runtime.dateParse _ := none
  runtime.localeCompare _ _ := .eq
  runtime.add
    | .finite a, .finite b => .finite (.scaled ((a.aligned b).1 + (a.aligned b).2) (min a.exp b.exp))
    | _, _ => .nan
  runtime.functionText name := js "function " ++ name ++ js "() \x7b [native code] \x7d"

def sampleEvent (visit : JsString) : Json :=
  .obj [(js "name", .str (js "open")), (js "visitId", .str visit)]

def sampleBatch (events : List Json) : IngestBatch := ⟨js "w", js "p", 0, events, none, none⟩

/-- One event, from its arrival to its acknowledgement. -/
def sampleRun : List Action :=
  [.submit (sampleBatch [sampleEvent (js "v")]), .quotaAnswer 0 .allowed 0 0, .tick 20,
    .sinkAnswer 0 (.ok ⟨(1 : ℤ), [(0 : ℤ)], (0 : ℤ)⟩), .recordAnswer 0 none, .finish 0 21]

theorem settled_with_the_group_sample :
    ∃ s, run (State.step sampleDeps) .initial sampleRun = some s ∧
      ∃ c receipt w p,
        Acknowledged sampleDeps s 0 1 0 [] ⟨1, (1 : ℤ), (0 : ℤ)⟩ c receipt w p := by
  refine ⟨_, rfl, ?_⟩
  obtain ⟨c, receipt, w, p, h, -⟩ := (settled_with_the_group sampleDeps sampleRun rfl).2.1 0 1 0 [] ⟨1, (1 : ℤ), (0 : ℤ)⟩ (.head _)
  exact ⟨c, receipt, w, p, h⟩

end Counted.Ingestion
