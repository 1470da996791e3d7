import Counted.Ingestion.Fate

namespace Counted.Ingestion

open Foundations

variable {deps : GroupCommitDeps} {s : State} {rt : Runtime} {policy : AdmissionPolicy}
  {batch : IngestBatch} {receipt : WriteReceipt} {n : ℕ}

theorem consistent_iff : receipt.consistent rt n ↔
    receipt.written = ((receipt.indices.length : ℤ) : JsNumber) ∧
      rt.add receipt.written receipt.deduplicated = ((n : ℤ) : JsNumber) ∧
      ∀ i ∈ receipt.indices, ∃ k < n, i = ((k : ℤ) : JsNumber) := by
  have hne (m : ℤ) : ((m : JsNumber) != .nan) = true := by simp
  have hmem (i : JsNumber) : (i.isInteger = true ∧ i.lt ((0 : ℤ) : JsNumber) = false) ∧
      i.lt ((n : ℤ) : JsNumber) = true ↔ ∃ k < n, i = ((k : ℤ) : JsNumber) := by
    constructor
    · rintro ⟨⟨hi, h0⟩, hn⟩
      obtain ⟨m, rfl⟩ := JsNumber.isInteger_iff.1 hi
      rw [JsNumber.intCast_lt, decide_eq_false_iff_not] at h0
      rw [JsNumber.intCast_lt, decide_eq_true_eq] at hn
      exact ⟨m.toNat, by omega, by rw [Int.toNat_of_nonneg (not_lt.1 h0)]⟩
    · rintro ⟨k, hk, rfl⟩
      rw [JsNumber.intCast_lt, JsNumber.intCast_lt, decide_eq_false_iff_not, decide_eq_true_eq]
      exact ⟨⟨JsNumber.isInteger_iff.2 ⟨k, rfl⟩, by omega⟩, by omega⟩
  simp only [WriteReceipt.consistent, JsNumber.strictEq, Bool.and_eq_true, List.all_eq_true,
    Bool.not_eq_true', beq_iff_eq, hmem, hne, true_and]
  constructor
  · rintro ⟨⟨hw, -, hs⟩, hi⟩
    exact ⟨hw.symm, hs, hi⟩
  · rintro ⟨hw, hs, hi⟩
    exact ⟨⟨hw.symm, by rw [hs]; simp, hs⟩, hi⟩

/-- The positions a consistent receipt reports, counted below the length of the group. -/
theorem count_indices (h : receipt.consistent rt n) :
    ((List.range n).filter (fun i : ℕ ↦ ((i : ℤ) : JsNumber) ∈ receipt.indices)).length =
      receipt.indices.length := by
  have hinj : Function.Injective (fun i : ℕ ↦ ((i : ℤ) : JsNumber)) :=
    JsNumber.intCast_injective.comp Nat.cast_injective
  have hp : (((List.range n).filter (fun i : ℕ ↦ ((i : ℤ) : JsNumber) ∈ receipt.indices)).map
      (fun i : ℕ ↦ ((i : ℤ) : JsNumber))).Perm receipt.indices := by
    refine (List.perm_ext_iff_of_nodup ((List.nodup_range.filter _).map hinj)
      (List.nodup_dedup _)).2 fun i ↦ ?_
    simp only [List.mem_map, List.mem_filter, List.mem_range, decide_eq_true_eq]
    constructor
    · rintro ⟨k, ⟨-, hk⟩, rfl⟩
      exact hk
    · intro hi
      obtain ⟨k, hk, rfl⟩ := (consistent_iff.1 h).2.2 i hi
      exact ⟨k, ⟨hk, hi⟩, rfl⟩
  rw [← hp.length_eq, List.length_map]

/-- What the waiters of a group are told adds up to what the sink says it wrote. -/
theorem Assembled.sum_accepted {g : Group} {ps : List Pending} (h : Assembled deps g ps)
    (hr : receipt.consistent deps.runtime g.events.length) :
    (((g.waiters.map receipt.accepted).sum : ℤ) : JsNumber) = receipt.written := by
  have hsum := h.tiles.sum_spanCount (fun i ↦ ((i : ℤ) : JsNumber) ∈ receipt.indices)
  rw [List.map_map] at hsum
  have hw : g.waiters.map receipt.accepted =
      g.waiters.map (spanCount (fun i ↦ ((i : ℤ) : JsNumber) ∈ receipt.indices) ∘ Waiter.span) := rfl
  rw [hw, hsum, count_indices hr, (consistent_iff.1 hr).1]

theorem accepted_le (receipt : WriteReceipt) (w : Waiter) : receipt.accepted w ≤ w.contributed := by
  rw [WriteReceipt.accepted, spanCount]
  exact (List.length_filter_le _ _).trans (by rw [List.length_range'])

/-- A rejected entry names an event of the batch and the error admission gave it. -/
theorem admit_rejected {outcome : AdmissionOutcome} (h : admitBatch rt policy batch = .ok outcome) :
    ∀ r ∈ outcome.rejected, ∃ raw, batch.events[r.index]? = some raw ∧
      admitEvent rt policy batch raw r.index = .error r.error := by
  obtain ⟨-, hr, -⟩ := admit_cases h
  rw [hr]
  have key (events : List Json) (index : ℕ) :
      ∀ r ∈ (admitEvents rt policy batch index events).2, ∃ raw,
        events[r.index - index]? = some raw ∧
          admitEvent rt policy batch raw r.index = .error r.error := by
    induction events generalizing index with
    | nil => simp [admitEvents]
    | cons raw events ih =>
      have hrest : ∀ r ∈ (admitEvents rt policy batch (index + 1) events).2, ∃ raw',
          (raw :: events)[r.index - index]? = some raw' ∧
            admitEvent rt policy batch raw' r.index = .error r.error := by
        intro r hm
        have hi := (admitEvents_index r hm).1
        obtain ⟨raw', hraw, he⟩ := ih (index + 1) r hm
        refine ⟨raw', ?_, he⟩
        rwa [show r.index - index = r.index - (index + 1) + 1 by omega, List.getElem?_cons_succ]
      intro r hm
      simp only [admitEvents] at hm
      split at hm
      · exact hrest r hm
      · rename_i error he
        rcases List.mem_cons.1 hm with rfl | hm
        · exact ⟨raw, by simp, he⟩
        · exact hrest r hm
  simpa using key batch.events 0

/-- The entries a client is sent back: its own indices, in order, each with its error. -/
structure Reports (deps : GroupCommitDeps) (batch : IngestBatch) (rejected : List RejectedEvent) :
    Prop where
  increasing : (rejected.map (·.index)).Pairwise (· < ·)
  own : ∀ r ∈ rejected, ∃ raw, batch.events[r.index]? = some raw ∧
    admitEvent deps.runtime deps.admission batch raw r.index = .error r.error

theorem reports {outcome : AdmissionOutcome}
    (h : admitBatch deps.runtime deps.admission batch = .ok outcome) :
    Reports deps batch outcome.rejected := ⟨(admit_rejected_increasing h).1, admit_rejected h⟩

theorem committed_accounts (hs : s.Inv deps) {id accepted deduplicated : ℕ}
    {rejected : List RejectedEvent} {commit : Option CommitSummary}
    (h : (id, .ack (.committed accepted deduplicated rejected commit)) ∈ s.settled) :
    ∃ batch, s.submits[id]? = some batch ∧
      accepted + deduplicated + rejected.length = batch.events.length ∧
      Reports deps batch rejected := by
  cases commit with
  | some summary =>
    obtain ⟨c, receipt, w, p, ha⟩ := acknowledged hs h
    have hle := accepted_le receipt w
    have hc := ha.rides.counts
    have hadm := admit_accounts ha.known.2
    refine ⟨p.batch, ha.submit ▸ ha.known.1, ?_, ?_⟩
    · rw [ha.accepted, ha.deduplicated, ha.rejected, ha.rides.rejected]
      omega
    · rw [ha.rejected, ha.rides.rejected]
      exact reports ha.known.2
  | none =>
    obtain ⟨early, ha⟩ := hs.accounted
    rcases List.mem_append.1 (ha.settled.mem_iff.1 h) with he | he
    · obtain ⟨batch, hb, he⟩ := ha.unwritten _ he
      cases he with
      | nothing hadm hn =>
        have hacc := admit_accounts hadm
        rw [hn, List.length_nil] at hacc
        exact ⟨batch, hb, hacc, reports hadm⟩
    · obtain ⟨c, -, hco⟩ := List.mem_flatMap.1 he
      obtain ⟨answer, -, hmem⟩ := settlements_cases hco
      cases hr : answer.refusal deps c.group.events.length with
      | some error =>
        rw [settlements_of_refusal hr] at hmem
        obtain ⟨w, -, hw⟩ := List.mem_map.1 hmem
        cases hw
      | none =>
        obtain ⟨receipt, rfl, hcon⟩ := refusal_none.1 hr
        rw [settlements_of_stored hcon] at hmem
        obtain ⟨w, -, hw⟩ := List.mem_map.1 hmem
        cases hw

/-- The places of the waiters of a group: end to end, and together the whole group. -/
theorem Assembled.partition {g : Group} {ps : List Pending} (h : Assembled deps g ps) :
    g.waiters.Pairwise (fun w v ↦ w.offset + w.contributed ≤ v.offset) ∧
      ∀ i, i < g.events.length ↔
        ∃ w ∈ g.waiters, w.offset ≤ i ∧ i < w.offset + w.contributed := by
  refine ⟨List.pairwise_map.1 h.tiles.disjoint, fun i ↦ ⟨fun hi ↦ ?_, ?_⟩⟩
  · obtain ⟨t, ht, hti⟩ := h.tiles.cover i hi
    obtain ⟨w, hw, rfl⟩ := List.mem_map.1 ht
    exact ⟨w, hw, hti⟩
  · rintro ⟨w, hw, -, hi⟩
    exact lt_of_lt_of_le hi (h.tiles.le w.span (List.mem_map_of_mem hw))

/-- Every acknowledgement adds up to the batch it answers, and the acknowledgements of a group
to what the sink wrote of it. -/
theorem acknowledgements_add_up (deps : GroupCommitDeps) (actions : List Action)
    (h : run (State.step deps) .initial actions = some s) :
    (∀ id accepted deduplicated rejected commit,
      (id, .ack (.committed accepted deduplicated rejected commit)) ∈ s.settled →
      ∃ batch, s.submits[id]? = some batch ∧
        accepted + deduplicated + rejected.length = batch.events.length ∧
        Reports deps batch rejected) ∧
    (∀ g, g ∈ s.groups ∨ g ∈ s.commits.map (·.group) →
      g.waiters.Pairwise (fun w v ↦ w.offset + w.contributed ≤ v.offset) ∧
      ∀ i, i < g.events.length ↔
        ∃ w ∈ g.waiters, w.offset ≤ i ∧ i < w.offset + w.contributed) ∧
    (∀ c ∈ s.commits, ∀ receipt, c.answer = some (.ok receipt) →
      receipt.consistent deps.runtime c.group.events.length →
      (((c.group.waiters.map receipt.accepted).sum : ℤ) : JsNumber) = receipt.written ∧
      ∀ w ∈ c.group.waiters, ∀ accepted deduplicated rejected commit,
        (w.submit, .ack (.committed accepted deduplicated rejected commit)) ∈ s.settled →
        accepted = receipt.accepted w) := by
  have hs := reached_inv h
  refine ⟨fun id accepted deduplicated rejected commit hm ↦ committed_accounts hs hm,
    fun g hg ↦ ?_, fun c hc receipt ha hcon ↦ ⟨?_, fun w hw acc ded rej commit hm ↦ ?_⟩⟩
  · obtain ⟨ps, hps, -⟩ := hs.grouped g hg
    exact hps.partition
  · obtain ⟨ps, hps, -⟩ := hs.grouped c.group (.inr (List.mem_map_of_mem hc))
    exact hps.sum_accepted hcon
  · obtain ⟨early, hacc⟩ := hs.accounted
    have hid : w.submit ∈ c.group.submits := List.mem_map_of_mem hw
    obtain ⟨answer, han, hin⟩ := settlements_cases (hacc.settled_by hc hid hm)
    obtain rfl := Option.some.inj (ha.symm.trans han)
    rw [settlements_of_stored hcon] at hin
    obtain ⟨v, hv, hve⟩ := List.mem_map.1 hin
    simp only [Prod.mk.injEq, Settlement.ack.injEq, Ack.committed.injEq] at hve
    have hnodup : c.group.submits.Nodup := (List.nodup_flatMap.1 hacc.commits_nodup).1 c hc
    rw [← hve.2.1, List.inj_on_of_nodup_map hnodup hv hw hve.1]

theorem acknowledgements_add_up_sample :
    ∃ s, run (State.step sampleDeps) .initial sampleRun = some s ∧
      ∀ c ∈ s.commits, (((c.group.waiters.map
        (WriteReceipt.accepted ⟨(1 : ℤ), [(0 : ℤ)], (0 : ℤ)⟩)).sum : ℤ) : JsNumber) = (1 : ℤ) := by
  refine ⟨_, rfl, fun c hc ↦ ?_⟩
  have ha : c.answer = some (.ok ⟨(1 : ℤ), [(0 : ℤ)], (0 : ℤ)⟩) ∧ c.group.events.length = 1 := by
    rw [List.mem_singleton.1 hc]
    exact ⟨rfl, rfl⟩
  refine ((acknowledgements_add_up sampleDeps sampleRun rfl).2.2 c hc _
    ha.1 ?_).1
  rw [ha.2]
  decide

end Counted.Ingestion
