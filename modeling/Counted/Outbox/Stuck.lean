import Counted.Foundations.Blocks
import Counted.Outbox.DispatchPass

namespace Counted.Outbox

open Foundations

/-- `payloadOf` does not refuse the row. -/
def OutboxRow.decodable (row : OutboxRow) : Bool := (payloadOf row).toOption.isSome

/-- Under no lease that is still current. -/
def OutboxRow.unleased (row : OutboxRow) (dbNow : Instant) (lease : Duration) : Bool :=
  row.claimedAt.all (· < dbNow - lease)

/-- The undispatched rows in the order of a claim. -/
def OutboxTable.queue (t : OutboxTable) (c : Collation) : List OutboxRow :=
  (t.rows.filter (·.dispatchedAt.isNone)).mergeSort
    (fun a b ↦ envelopeLe c a.toEventEnvelope b.toEventEnvelope)

def OutboxRow.leased (dbNow : Instant) (row : OutboxRow) : OutboxRow :=
  { row with claimedAt := some dbNow }

/-- A pass whose handlers succeed. -/
def servingPass (deps : OutboxDispatchDeps) (t : OutboxTable) (now dbNow : Instant) : PassEnd :=
  dispatchOutbox deps (fun _ ↦ .resolved) t now dbNow []

/-- The passes of a worker whose handlers succeed, at given readings of its clock and of the
database's, with the envelopes they handed to their handlers. -/
def dispatchPasses (deps : OutboxDispatchDeps) (t : OutboxTable) :
    List (Instant × Instant) → OutboxTable × List EnvelopeId
  | [] => (t, [])
  | (now, dbNow) :: clocks =>
    let pass := servingPass deps t now dbNow
    let rest := dispatchPasses deps pass.table clocks
    (rest.1, pass.delivered ++ rest.2)

/-- The clock does not go back, and the leases the table began with have run out. -/
def Ticking (deps : OutboxDispatchDeps) (t : OutboxTable) (clocks : List (Instant × Instant)) :
    Prop :=
  (clocks.map (·.2)).Pairwise (· ≤ ·) ∧
    ∀ clock ∈ clocks, ∀ row ∈ t.queue deps.collation, row.unleased clock.2 deps.leaseTime

/-- After some passes every envelope that can be decoded has been handed over and marked. -/
def Served (deps : OutboxDispatchDeps) (t : OutboxTable) : Prop :=
  ∃ clocks, Ticking deps t clocks ∧
    ∀ row ∈ t.rows, row.dispatchedAt = none → row.decodable →
      row.id ∈ (dispatchPasses deps t clocks).2 ∧
        ∃ now, (dispatchPasses deps t clocks).1.Dispatched row.id now

/-- A batch of the queue that holds a row that can be decoded holds only such rows. -/
def Unmixed (deps : OutboxDispatchDeps) (t : OutboxTable) : Prop :=
  (∀ row ∈ t.queue deps.collation, row.decodable → 0 < deps.batch) ∧
    ∀ k, (∀ row ∈ ((t.queue deps.collation).drop (k * deps.batch)).take deps.batch,
        row.decodable) ∨
      ∀ row ∈ ((t.queue deps.collation).drop (k * deps.batch)).take deps.batch, ¬ row.decodable

section Queue

variable {deps : OutboxDispatchDeps} {t : OutboxTable} {c : Collation} {now dbNow : Instant}
  {row : OutboxRow} {ids : List EnvelopeId} {f : OutboxRow → OutboxRow}
  {hf : ∀ row, (f row).id = row.id}

theorem mem_queue : row ∈ t.queue c ↔ row ∈ t.rows ∧ row.dispatchedAt = none := by
  simp [OutboxTable.queue]

theorem filter_queue (p : OutboxRow → Bool) : (t.queue c).filter p =
    (t.rows.filter (fun row ↦ p row && row.dispatchedAt.isNone)).mergeSort
      (fun a b ↦ envelopeLe c a.toEventEnvelope b.toEventEnvelope) := by
  have h := filter_mergeSort (fun a b d : OutboxRow ↦ envelopeLe_trans c a.toEventEnvelope
    b.toEventEnvelope d.toEventEnvelope) (fun a b ↦ envelopeLe_total c a.toEventEnvelope
    b.toEventEnvelope) p (t.rows.filter (·.dispatchedAt.isNone))
  rw [List.filter_filter] at h
  exact h

/-- The rows a pass claims are the first of the queue that are under no lease. -/
theorem claimRows_eq : claimRows deps t dbNow [] =
    ((t.queue deps.collation).filter (·.unleased dbNow deps.leaseTime)).take deps.batch := by
  rw [claimRows, OutboxTable.selected, filter_queue]
  congr 2
  refine List.filter_congr fun row _ ↦ ?_
  simp [OutboxRow.isFree, OutboxRow.unleased, Bool.and_comm]

/-- An update that neither dispatches rows nor moves them leaves the queue in its order. -/
theorem queue_update (hd : ∀ row, (f row).dispatchedAt = row.dispatchedAt)
    (he : ∀ row, (f row).toEventEnvelope = row.toEventEnvelope) :
    (t.update ids f hf).queue c =
      (t.queue c).map (fun row ↦ if row.id ∈ ids then f row else row) := by
  rw [OutboxTable.queue, OutboxTable.queue, OutboxTable.update, List.filter_map]
  have hkeep : ((·.dispatchedAt.isNone) ∘ fun row ↦ if row.id ∈ ids then f row else row) =
      fun row : OutboxRow ↦ row.dispatchedAt.isNone := by
    funext row
    by_cases h : row.id ∈ ids <;> simp [h, hd]
  rw [hkeep]
  refine (List.map_mergeSort fun a _ b _ ↦ ?_).symm
  have hmove (row : OutboxRow) :
      (if row.id ∈ ids then f row else row).toEventEnvelope = row.toEventEnvelope := by
    split_ifs
    · exact he row
    · rfl
  rw [hmove, hmove]

theorem queue_mark {p : Pass} :
    (p.mark t).queue c = (t.queue c).filter (fun row ↦ row.id ∉ p.delivered) := by
  have hrows : (p.mark t).rows = t.rows.map (fun row ↦
      if row.id ∈ p.delivered then { row with dispatchedAt := some p.now } else row) := by
    rw [Pass.mark]
    split_ifs with h
    · simp [h]
    · rfl
  rw [filter_queue, OutboxTable.queue, hrows, List.filter_map]
  have hkeep : ((·.dispatchedAt.isNone) ∘ fun row : OutboxRow ↦
      if row.id ∈ p.delivered then { row with dispatchedAt := some p.now } else row) =
      fun row ↦ decide (row.id ∉ p.delivered) && row.dispatchedAt.isNone := by
    funext row
    by_cases h : row.id ∈ p.delivered <;> simp [h]
  rw [hkeep]
  congr 1
  refine List.map_congr_left (g := id) (fun row hr ↦ ?_) |>.trans (List.map_id _)
  have := (List.mem_filter.1 hr).2
  rw [Bool.and_eq_true, decide_eq_true_eq] at this
  exact if_neg this.1

end Queue

section Pass

variable {deps : OutboxDispatchDeps} {t : OutboxTable} {now dbNow : Instant} {p : Pass}
  {log : List DispatchLine} {held : List Held}

theorem dispatchLoop_resolved : ∃ q : Pass, q.now = p.now ∧
    q.delivered = p.delivered ++ held.map (·.envelope.id) ∧
    (dispatchLoop deps (fun _ ↦ .resolved) t p log held).table = q.mark t ∧
    (dispatchLoop deps (fun _ ↦ .resolved) t p log held).delivered = q.delivered := by
  induction held generalizing p with
  | nil => exact ⟨p, rfl, (List.append_nil _).symm, rfl, rfl⟩
  | cons x rest ih =>
    obtain ⟨q, hn, hd, ht, hl⟩ := @ih (p.afterDelivery x rest)
    refine ⟨q, hn, ?_, ht, hl⟩
    rw [hd, Pass.afterDelivery, List.map_cons, List.append_assoc]
    rfl

theorem heldOf_isOk {row : OutboxRow} : row.decodable = true ↔ ∃ x, heldOf row = .ok x := by
  simp only [OutboxRow.decodable, heldOf, envelopeOf]
  cases payloadOf row <;> simp [Except.map, Except.toOption]

theorem claim_queue (c : Collation) : (claim deps t dbNow []).2.queue c = (t.queue c).map (fun row ↦
    if row.id ∈ (claimRows deps t dbNow []).map (·.id) then row.leased dbNow
    else row) := by
  rw [claim]
  split_ifs with hb
  · rw [claimRows, OutboxTable.selected, hb, List.take_zero]
    simp
  · exact @queue_update t c _ (·.leased dbNow) (fun _ ↦ rfl)
      (fun _ ↦ rfl) (fun _ ↦ rfl)

/-- A pass whose rows can all be decoded hands all of them over and takes them off the queue. -/
theorem pass_clean (h : ∀ row ∈ claimRows deps t dbNow [], row.decodable) :
    (servingPass deps t now dbNow).table.queue deps.collation =
        (t.queue deps.collation).filter
          (fun row ↦ row.id ∉ (claimRows deps t dbNow []).map (·.id)) ∧
      ∀ id, id ∈ (servingPass deps t now dbNow).delivered ↔
        id ∈ (claimRows deps t dbNow []).map (·.id) := by
  obtain ⟨held, hheld⟩ : ∃ held, (claim deps t dbNow []).1 = .ok held := by
    obtain ⟨decoded, hd⟩ := exists_forall₂ (fun row hr ↦ heldOf_isOk.1 (h row hr))
    rw [claim]
    split_ifs
    · exact ⟨[], rfl⟩
    · rw [mapM_ok_iff.2 hd]
      exact ⟨_, rfl⟩
  have hids (id : EnvelopeId) : id ∈ held.map (·.envelope.id) ↔
      id ∈ (claimRows deps t dbNow []).map (·.id) := (claim_held_ids hheld).mem_iff
  rw [servingPass, dispatchOutbox_of_claim hheld]
  obtain ⟨q, -, hq, ht, hl⟩ := @dispatchLoop_resolved deps (claim deps t dbNow []).2
    ⟨now, held.length, held, [], 0, 0⟩ [] held
  rw [List.nil_append] at hq
  rw [ht, hl, queue_mark, claim_queue, hq, List.filter_map]
  refine ⟨?_, hids⟩
  have hkeep : ((fun row : OutboxRow ↦ decide (row.id ∉ held.map (·.envelope.id))) ∘ fun row ↦
      if row.id ∈ (claimRows deps t dbNow []).map (·.id) then row.leased dbNow
      else row) = fun row ↦ decide (row.id ∉ (claimRows deps t dbNow []).map (·.id)) := by
    funext row
    have hid : (if row.id ∈ (claimRows deps t dbNow []).map (·.id) then
        row.leased dbNow else row).id = row.id := by
      split_ifs <;> rfl
    rw [Function.comp_apply, hid, decide_eq_decide, hids]
  rw [hkeep]
  refine (List.map_congr_left (g := id) fun row hr ↦ ?_).trans (List.map_id _)
  exact if_neg (of_decide_eq_true (List.mem_filter.1 hr).2)

/-- A pass that meets a row that cannot be decoded leases what it claimed and hands over nothing. -/
theorem pass_dirty {row : OutboxRow} (hr : row ∈ claimRows deps t dbNow [])
    (h : ¬ row.decodable) :
    (servingPass deps t now dbNow).table.queue deps.collation =
        (t.queue deps.collation).map (fun row ↦
          if row.id ∈ (claimRows deps t dbNow []).map (·.id) then
            row.leased dbNow else row) ∧
      (servingPass deps t now dbNow).delivered = [] := by
  have herr (held : List Held) : (claim deps t dbNow []).1 ≠ .ok held := by
    intro hok
    rw [claim] at hok
    split_ifs at hok with hb
    · rw [claimRows, OutboxTable.selected, hb, List.take_zero] at hr
      cases hr
    · obtain ⟨decoded, hd, -⟩ := map_ok.1 hok
      obtain ⟨x, -, hx⟩ := forall₂_left (mapM_ok_iff.1 hd) hr
      exact h (heldOf_isOk.2 ⟨x, hx⟩)
  rw [← claim_queue, servingPass, dispatchOutbox]
  split
  · rename_i e u hc
    rw [hc]
    exact ⟨rfl, rfl⟩
  · rename_i held u hc
    exact absurd (congrArg Prod.fst hc) (herr held)

theorem pass_ids : (servingPass deps t now dbNow).table.rows.map (·.id) = t.rows.map (·.id) := by
  rw [servingPass, dispatchOutbox]
  split
  · rename_i e u hc
    rw [← @claim_ids deps t dbNow [], hc]
  · rename_i held u hc
    obtain ⟨q, -, -, ht, -⟩ := @dispatchLoop_resolved deps u ⟨now, held.length, held, [], 0, 0⟩ [] held
    rw [ht, LeaseSystem.mark_ids, ← @claim_ids deps t dbNow [], hc]

theorem queue_nodup (c : Collation) : ((t.queue c).map (·.id)).Nodup := by
  have hperm := (List.mergeSort_perm (t.rows.filter (·.dispatchedAt.isNone))
    (fun a b ↦ envelopeLe c a.toEventEnvelope b.toEventEnvelope)).map (·.id)
  exact hperm.nodup_iff.2 ((List.filter_sublist.map _).nodup t.unique)

theorem unleased_mono {row : OutboxRow} {later : Instant} {lease : Duration}
    (h : row.unleased dbNow lease) (hl : dbNow ≤ later) : row.unleased later lease := by
  rw [OutboxRow.unleased, Option.all_eq_true] at h ⊢
  intro c hc
  have := of_decide_eq_true (h c hc)
  exact decide_eq_true (this.trans_le (sub_le_sub_right hl lease))

theorem leased_together (b : List OutboxRow) (dbNow later : Instant) (lease : Duration) :
    (∀ row ∈ b.map (·.leased dbNow), row.unleased later lease = true) ∨
      ∀ row ∈ b.map (·.leased dbNow), row.unleased later lease = false := by
  by_cases h : dbNow < later - lease
  · left
    intro row hr
    obtain ⟨old, -, rfl⟩ := List.mem_map.1 hr
    exact decide_eq_true h
  · right
    intro row hr
    obtain ⟨old, -, rfl⟩ := List.mem_map.1 hr
    exact decide_eq_false h

end Pass

/-- The queue cut into batches that are under lease as a whole or not at all. -/
structure Arranged (deps : OutboxDispatchDeps) (t : OutboxTable) (clock : Instant)
    (bs : List (List OutboxRow)) : Prop where
  queue : t.queue deps.collation = bs.flatten
  blocked : Blocked deps.batch bs
  together : ∀ b ∈ bs, ∀ later, clock ≤ later →
    (∀ row ∈ b, row.unleased later deps.leaseTime = true) ∨
      ∀ row ∈ b, row.unleased later deps.leaseTime = false

/-- What a pass does to the batches: it claims the first that is under no lease, if there is one,
and takes it off the queue or leases it. -/
inductive Turn (deps : OutboxDispatchDeps) (dbNow : Instant) (bs : List (List OutboxRow)) :
    List EnvelopeId → List (List OutboxRow) → Prop
  | idle (h : ∀ b ∈ bs, ∀ row ∈ b, row.unleased dbNow deps.leaseTime = false) : Turn deps dbNow bs [] bs
  | serve {l b m} {ids : List EnvelopeId} (h : bs = l ++ b :: m)
      (hl : ∀ c ∈ l, ∀ row ∈ c, row.unleased dbNow deps.leaseTime = false)
      (hb : ∀ row ∈ b, row.unleased dbNow deps.leaseTime = true) (hd : ∀ row ∈ b, row.decodable)
      (hids : ∀ id, id ∈ ids ↔ id ∈ b.map (·.id)) : Turn deps dbNow bs ids (l ++ m)
  | stick {l b m} {row : OutboxRow} (h : bs = l ++ b :: m)
      (hl : ∀ c ∈ l, ∀ row ∈ c, row.unleased dbNow deps.leaseTime = false)
      (hb : ∀ row ∈ b, row.unleased dbNow deps.leaseTime = true) (hr : row ∈ b)
      (hd : ¬ row.decodable) : Turn deps dbNow bs [] (l ++ b.map (·.leased dbNow) :: m)

section Arranged

variable {deps : OutboxDispatchDeps} {t : OutboxTable} {clock now dbNow : Instant}
  {bs cs : List (List OutboxRow)}

theorem Arranged.later (h : Arranged deps t clock bs) (hl : clock ≤ dbNow) :
    Arranged deps t dbNow bs :=
  ⟨h.queue, h.blocked, fun b hb later hlater ↦ h.together b hb later (hl.trans hlater)⟩

theorem Arranged.pass (h : Arranged deps t clock bs) (hl : clock ≤ dbNow) :
    ∃ cs, Turn deps dbNow bs (servingPass deps t now dbNow).delivered cs ∧
      Arranged deps (servingPass deps t now dbNow).table dbNow cs := by
  have hclaim := @claimRows_eq deps t dbNow
  rw [h.queue] at hclaim
  rcases h.blocked.take_filter (fun b hb ↦ h.together b hb dbNow hl) with
    ⟨hnone, hall⟩ | ⟨l, b, m, rfl, hlb, hfree, hb⟩
  · rw [hnone] at hclaim
    obtain ⟨hq, hd⟩ := @pass_clean deps t now dbNow (by simp [hclaim])
    have hdel : (servingPass deps t now dbNow).delivered = [] :=
      List.eq_nil_iff_forall_not_mem.2 fun id hid ↦ by simpa [hclaim] using (hd id).1 hid
    refine ⟨bs, hdel ▸ .idle hall, ?_, h.blocked, (h.later hl).together⟩
    rw [hq, hclaim, ← h.queue]
    simp
  · rw [hb] at hclaim
    have hnodup := @queue_nodup t deps.collation
    have hflat : (l ++ b :: m).flatten = l.flatten ++ (b ++ m.flatten) := by simp
    rw [h.queue, hflat] at hnodup
    by_cases hd : ∀ row ∈ b, row.decodable
    · obtain ⟨hq, hids⟩ := @pass_clean deps t now dbNow (by rwa [hclaim])
      rw [hclaim] at hids
      refine ⟨l ++ m, .serve rfl hlb hfree hd hids, ?_, ?_, ?_⟩
      · rw [hq, hclaim, h.queue, hflat, filter_around hnodup, List.flatten_append]
      · exact h.blocked.sublist ((List.Sublist.refl l).append (List.sublist_cons_self b m))
      · intro c hc
        refine (h.later hl).together c ?_
        rcases List.mem_append.1 hc with hc | hc
        · exact List.mem_append_left _ hc
        · exact List.mem_append_right _ (List.mem_cons_of_mem b hc)
    · push Not at hd
      obtain ⟨row, hr, hd⟩ := hd
      obtain ⟨hq, hdel⟩ := @pass_dirty deps t now dbNow row (by rwa [hclaim]) (by simpa using hd)
      refine ⟨l ++ b.map (·.leased dbNow) :: m,
        hdel ▸ .stick rfl hlb hfree hr (by simpa using hd), ?_, ?_, ?_⟩
      · rw [hq, hclaim, h.queue, hflat, map_around (·.leased dbNow) hnodup]
        simp
      · have hlast : (l ++ b.map (·.leased dbNow) :: m).map List.length =
            (l ++ b :: m).map List.length := by simp
        exact h.blocked.congr hlast
      · intro c hc
        rcases List.mem_append.1 hc with hc | hc
        · exact (h.later hl).together c (List.mem_append_left _ hc)
        · rcases List.mem_cons.1 hc with rfl | hc
          · exact fun later _ ↦ leased_together b dbNow later deps.leaseTime
          · exact (h.later hl).together c (List.mem_append_right _ (List.mem_cons_of_mem b hc))

/-- A batch with a row that cannot be decoded stays on the queue. -/
theorem Turn.sticks {ids : List EnvelopeId} {b : List OutboxRow} {row : OutboxRow}
    (h : Turn deps dbNow bs ids cs) (hb : b ∈ bs) (hr : row ∈ b) (hd : ¬ row.decodable) :
    b ∈ cs ∨ b.map (·.leased dbNow) ∈ cs := by
  cases h with
  | idle => exact .inl hb
  | @serve l c m ids heq hl hfree hdec hids =>
    rw [heq] at hb
    rcases List.mem_append.1 hb with hb | hb
    · exact .inl (List.mem_append_left _ hb)
    · rcases List.mem_cons.1 hb with rfl | hb
      · exact absurd (hdec row hr) hd
      · exact .inl (List.mem_append_right _ hb)
  | @stick l c m x heq hl hfree hx hdx =>
    rw [heq] at hb
    rcases List.mem_append.1 hb with hb | hb
    · exact .inl (List.mem_append_left _ hb)
    · rcases List.mem_cons.1 hb with rfl | hb
      · exact .inr (List.mem_append_right _ List.mem_cons_self)
      · exact .inl (List.mem_append_right _ (List.mem_cons_of_mem _ hb))

/-- Its neighbours in the batch stay with it, however many passes there are. -/
theorem stuck {clocks : List (Instant × Instant)} (h : Arranged deps t clock bs)
    (hc : (clock :: clocks.map (·.2)).Pairwise (· ≤ ·)) {b : List OutboxRow} {x row : OutboxRow}
    (hb : b ∈ bs) (hx : x ∈ b) (hd : ¬ x.decodable) (hr : row ∈ b) :
    ∃ r ∈ (dispatchPasses deps t clocks).1.queue deps.collation, r.id = row.id := by
  induction clocks generalizing t clock bs b x row with
  | nil =>
    refine ⟨row, ?_, rfl⟩
    rw [dispatchPasses, h.queue]
    exact List.mem_flatten.2 ⟨b, hb, hr⟩
  | cons c clocks ih =>
    obtain ⟨now, dbNow⟩ := c
    obtain ⟨hle, hc⟩ := List.pairwise_cons.1 hc
    obtain ⟨cs, hturn, hcs⟩ := @Arranged.pass deps t clock now dbNow bs h (hle _ List.mem_cons_self)
    rcases hturn.sticks hb hx hd with hb | hb
    · exact ih hcs hc hb hx hd hr
    · have hr' : row.leased dbNow ∈ b.map (·.leased dbNow) := List.mem_map_of_mem hr
      have hx' : x.leased dbNow ∈ b.map (·.leased dbNow) := List.mem_map_of_mem hx
      obtain ⟨r, hmem, hid⟩ := ih hcs hc hb hx' hd hr'
      exact ⟨r, hmem, hid⟩

/-- What is on the queue after a turn was on it before. -/
theorem Turn.origin {ids : List EnvelopeId} (h : Turn deps dbNow bs ids cs) {row : OutboxRow}
    (hr : row ∈ cs.flatten) : ∃ old ∈ bs.flatten, row.toEventEnvelope = old.toEventEnvelope := by
  cases h with
  | idle => exact ⟨row, hr, rfl⟩
  | @serve l b m ids heq =>
    refine ⟨row, ?_, rfl⟩
    rw [heq]
    simp only [List.flatten_append, List.flatten_cons, List.mem_append] at hr ⊢
    exact hr.imp_right .inr
  | @stick l b m x heq =>
    simp only [List.flatten_append, List.flatten_cons, List.mem_append, List.mem_map] at hr
    rw [heq]
    simp only [List.flatten_append, List.flatten_cons, List.mem_append]
    rcases hr with hr | ⟨old, hold, rfl⟩ | hr
    · exact ⟨row, .inl hr, rfl⟩
    · exact ⟨old, .inr (.inl hold), rfl⟩
    · exact ⟨row, .inr (.inr hr), rfl⟩

/-- What was on the queue before a turn is on it afterwards or has been handed over. -/
theorem Turn.fate {ids : List EnvelopeId} (h : Turn deps dbNow bs ids cs) {row : OutboxRow}
    (hr : row ∈ bs.flatten) : row.id ∈ ids ∨
      ∃ r ∈ cs.flatten, r.toEventEnvelope = row.toEventEnvelope := by
  cases h with
  | idle => exact .inr ⟨row, hr, rfl⟩
  | @serve l b m ids heq hl hfree hdec hids =>
    rw [heq] at hr
    simp only [List.flatten_append, List.flatten_cons, List.mem_append] at hr ⊢
    rcases hr with hr | hr | hr
    · exact .inr ⟨row, .inl hr, rfl⟩
    · exact .inl ((hids _).2 (List.mem_map_of_mem hr))
    · exact .inr ⟨row, .inr hr, rfl⟩
  | @stick l b m x heq =>
    rw [heq] at hr
    simp only [List.flatten_append, List.flatten_cons, List.mem_append, List.mem_map] at hr ⊢
    right
    rcases hr with hr | hr | hr
    · exact ⟨row, .inl hr, rfl⟩
    · exact ⟨_, .inr (.inl ⟨row, hr, rfl⟩), rfl⟩
    · exact ⟨row, .inr (.inr hr), rfl⟩

theorem decodable_congr {a b : OutboxRow} (h : a.toEventEnvelope = b.toEventEnvelope) :
    a.decodable = b.decodable := by
  obtain ⟨e, _⟩ := a
  obtain ⟨e', _⟩ := b
  obtain rfl : e = e' := h
  rfl

/-- No batch holds both rows that can be decoded and others, and none that is under lease holds
one that can. -/
structure Sifted (deps : OutboxDispatchDeps) (dbNow : Instant) (bs : List (List OutboxRow)) :
    Prop where
  uniform : ∀ b ∈ bs, (∀ row ∈ b, row.decodable) ∨ ∀ row ∈ b, ¬ row.decodable
  leased : ∀ b ∈ bs, b.all (·.unleased dbNow deps.leaseTime) = false → ∀ row ∈ b, ¬ row.decodable

/-- The batches a pass may claim. -/
def freeBatches (deps : OutboxDispatchDeps) (dbNow : Instant) (bs : List (List OutboxRow)) : ℕ :=
  bs.countP (fun b ↦ b.all (·.unleased dbNow deps.leaseTime))

theorem Turn.progress {ids : List EnvelopeId} (h : Turn deps dbNow bs ids cs)
    (hlease : 0 ≤ deps.leaseTime) (hne : ∀ b ∈ bs, b ≠ []) (hs : Sifted deps dbNow bs) :
    freeBatches deps dbNow cs ≤ freeBatches deps dbNow bs - 1 ∧ Sifted deps dbNow cs := by
  cases h with
  | idle hall =>
    have hzero : freeBatches deps dbNow bs = 0 := by
      rw [freeBatches, List.countP_eq_zero]
      intro b hb hfree
      obtain ⟨row, hr⟩ := List.exists_mem_of_ne_nil b (hne b hb)
      have := List.all_eq_true.1 hfree row hr
      rw [hall b hb row hr] at this
      cases this
    exact ⟨by omega, hs⟩
  | @serve l b m ids heq hl hfree hdec hids =>
    subst heq
    have hb : b.all (·.unleased dbNow deps.leaseTime) = true := List.all_eq_true.2 hfree
    have hsub {c : List OutboxRow} (hc : c ∈ l ++ m) : c ∈ l ++ b :: m :=
      ((List.Sublist.refl l).append (List.sublist_cons_self b m)).subset hc
    refine ⟨?_, fun c hc ↦ hs.uniform c (hsub hc), fun c hc ↦ hs.leased c (hsub hc)⟩
    simp only [freeBatches, List.countP_append, List.countP_cons, hb, if_true]
    omega
  | @stick l b m x heq hl hfree hx hdx =>
    subst heq
    have hb : b.all (·.unleased dbNow deps.leaseTime) = true := List.all_eq_true.2 hfree
    have hund : ∀ row ∈ b, ¬ row.decodable :=
      (hs.uniform b (by simp)).resolve_left (fun hall ↦ hdx (hall x hx))
    have hund' : ∀ row ∈ b.map (·.leased dbNow), ¬ row.decodable := by
      intro row hr
      obtain ⟨old, hold, rfl⟩ := List.mem_map.1 hr
      exact hund old hold
    have hb' : (b.map (·.leased dbNow)).all (·.unleased dbNow deps.leaseTime) = false := by
      rw [List.all_eq_false]
      refine ⟨x.leased dbNow, List.mem_map_of_mem (f := (·.leased dbNow)) hx, ?_⟩
      have : ¬ dbNow < dbNow - deps.leaseTime := by
        have hle := sub_le_self dbNow hlease
        exact not_lt.2 hle
      simpa [OutboxRow.unleased, OutboxRow.leased] using this
    have hold {c : List OutboxRow} (hc : c ∈ l ++ b.map (·.leased dbNow) :: m) :
        c ∈ l ++ b :: m ∨ c = b.map (·.leased dbNow) := by
      rcases List.mem_append.1 hc with hc | hc
      · exact .inl (List.mem_append_left _ hc)
      · rcases List.mem_cons.1 hc with rfl | hc
        · exact .inr rfl
        · exact .inl (List.mem_append_right _ (List.mem_cons_of_mem b hc))
    refine ⟨?_, fun c hc ↦ ?_, fun c hc hleased ↦ ?_⟩
    · simp only [freeBatches, List.countP_append, List.countP_cons, hb, hb', if_true]
      simp
    · rcases hold hc with hc | rfl
      · exact hs.uniform c hc
      · exact .inr hund'
    · rcases hold hc with hc | rfl
      · exact hs.leased c hc hleased
      · exact hund'

/-- The passes of one moment hand over every row that can be decoded, and leave no other on the
queue. -/
theorem serve_batches (hlease : 0 ≤ deps.leaseTime) {n : ℕ} (h : Arranged deps t dbNow bs)
    (hn : freeBatches deps dbNow bs ≤ n) (hs : Sifted deps dbNow bs) :
    (∀ row ∈ (dispatchPasses deps t (.replicate n (0, dbNow))).1.queue deps.collation,
      ¬ row.decodable ∧ ∃ old ∈ t.queue deps.collation, row.toEventEnvelope = old.toEventEnvelope) ∧
    ∀ row ∈ t.queue deps.collation, row.decodable →
      row.id ∈ (dispatchPasses deps t (.replicate n (0, dbNow))).2 := by
  induction n generalizing t bs with
  | zero =>
    have hnone : ∀ row ∈ t.queue deps.collation, ¬ row.decodable := by
      intro row hr
      rw [h.queue] at hr
      obtain ⟨b, hb, hr⟩ := List.mem_flatten.1 hr
      have hleased := List.countP_eq_zero.1 (Nat.le_zero.1 hn) b hb
      exact hs.leased b hb (by simpa using hleased) row hr
    exact ⟨fun row hr ↦ ⟨hnone row hr, row, hr, rfl⟩, fun row hr hd ↦ absurd hd (hnone row hr)⟩
  | succ n ih =>
    obtain ⟨cs, hturn, hcs⟩ := @Arranged.pass deps t dbNow 0 dbNow bs h le_rfl
    obtain ⟨hless, hsorted⟩ := hturn.progress hlease h.blocked.ne_nil hs
    obtain ⟨hrest, hdel⟩ := ih hcs (by omega) hsorted
    rw [List.replicate_succ, dispatchPasses]
    refine ⟨fun row hr ↦ ?_, fun row hr hd ↦ ?_⟩
    · obtain ⟨hd, old, hold, he⟩ := hrest row hr
      rw [hcs.queue] at hold
      obtain ⟨first, hfirst, he'⟩ := hturn.origin hold
      exact ⟨hd, first, h.queue ▸ hfirst, he.trans he'⟩
    · rw [h.queue] at hr
      rcases hturn.fate hr with hid | ⟨r, hr', he⟩
      · exact List.mem_append_left _ hid
      · have := hdel r (hcs.queue ▸ hr') (by rwa [decodable_congr he])
        rw [show r.id = row.id from congrArg EventEnvelope.id he] at this
        exact List.mem_append_right _ this

theorem not_dispatched_of_queue {row : OutboxRow} (h : row ∈ t.queue deps.collation) :
    ¬ t.Dispatched row.id now := by
  rintro ⟨r, hr, hid, hd⟩
  obtain ⟨hrow, hnone⟩ := mem_queue.1 h
  have heq := List.inj_on_of_nodup_map t.unique hr hrow hid
  rw [heq, hnone] at hd
  cases hd

theorem dispatched_of_not_queue (c : Collation) {id : EnvelopeId} (hid : id ∈ t.rows.map (·.id))
    (h : ∀ row ∈ t.queue c, row.id ≠ id) : ∃ now, t.Dispatched id now := by
  obtain ⟨row, hr, rfl⟩ := List.mem_map.1 hid
  cases hd : row.dispatchedAt with
  | none => exact absurd rfl (h row (mem_queue.2 ⟨hr, hd⟩))
  | some now => exact ⟨now, row, hr, rfl, hd⟩

theorem passes_ids (clocks : List (Instant × Instant)) :
    (dispatchPasses deps t clocks).1.rows.map (·.id) = t.rows.map (·.id) := by
  induction clocks generalizing t with
  | nil => rfl
  | cons c clocks ih =>
    rw [dispatchPasses]
    exact ih.trans pass_ids

/-- Passes that claim nothing leave the queue as it is. -/
theorem passes_idle (hb : deps.batch = 0) (clocks : List (Instant × Instant)) :
    (dispatchPasses deps t clocks).1.queue deps.collation = t.queue deps.collation := by
  induction clocks generalizing t with
  | nil => rfl
  | cons c clocks ih =>
    have hclaim : claimRows deps t c.2 [] = [] := by
      rw [claimRows, OutboxTable.selected, hb, List.take_zero]
    rw [dispatchPasses]
    refine ih.trans ?_
    rw [(@pass_clean deps t c.1 c.2 (by simp [hclaim])).1, hclaim]
    simp

theorem exists_unleased (l : List OutboxRow) (lease : Duration) :
    ∃ dbNow, ∀ row ∈ l, row.unleased dbNow lease := by
  induction l with
  | nil => exact ⟨0, by simp⟩
  | cons row l ih =>
    obtain ⟨dbNow, h⟩ := ih
    cases hc : row.claimedAt with
    | none =>
      refine ⟨dbNow, fun r hr ↦ ?_⟩
      rcases List.mem_cons.1 hr with rfl | hr
      · rw [OutboxRow.unleased, hc]
        rfl
      · exact h r hr
    | some c =>
      refine ⟨max dbNow (c + lease + 1), fun r hr ↦ ?_⟩
      rcases List.mem_cons.1 hr with rfl | hr
      · rw [OutboxRow.unleased, hc]
        have hle := le_max_right dbNow (c + lease + 1)
        refine decide_eq_true (?_ : c < _ - lease)
        have hlt (a b : ℤ) : a < a + b + 1 - b := by omega
        exact (hlt c lease).trans_le (sub_le_sub_right hle lease)
      · exact unleased_mono (h r hr) (le_max_left _ _)

theorem arranged_of_unleased (hb : 0 < deps.batch)
    (h : ∀ row ∈ t.queue deps.collation, row.unleased clock deps.leaseTime) :
    ∃ bs, Arranged deps t clock bs ∧
      (∀ b ∈ bs, ∃ k, b = ((t.queue deps.collation).drop (k * deps.batch)).take deps.batch) ∧
      ∀ k, ((t.queue deps.collation).drop (k * deps.batch)).take deps.batch = [] ∨
        ((t.queue deps.collation).drop (k * deps.batch)).take deps.batch ∈ bs := by
  obtain ⟨bs, hbs, hflat, hsome, hall⟩ := exists_blocked hb (t.queue deps.collation)
  refine ⟨bs, ⟨hflat.symm, hbs, fun b hb later hl ↦ .inl fun row hr ↦ ?_⟩, hsome, hall⟩
  exact unleased_mono (h row (hflat ▸ List.mem_flatten.2 ⟨b, hb, hr⟩)) hl

/-- The batch of a row that cannot be decoded stays on the queue. -/
theorem mixed_sticks {clocks : List (Instant × Instant)} (h : Ticking deps t clocks) {k : ℕ}
    {x row : OutboxRow}
    (hx : x ∈ ((t.queue deps.collation).drop (k * deps.batch)).take deps.batch)
    (hd : ¬ x.decodable)
    (hr : row ∈ ((t.queue deps.collation).drop (k * deps.batch)).take deps.batch) :
    ∃ r ∈ (dispatchPasses deps t clocks).1.queue deps.collation, r.id = row.id := by
  obtain ⟨hsorted, hover⟩ := h
  cases clocks with
  | nil => exact ⟨row, List.mem_of_mem_drop (List.mem_of_mem_take hr), rfl⟩
  | cons c clocks =>
    have hb : 0 < deps.batch := by
      refine Nat.pos_of_ne_zero fun hb ↦ ?_
      rw [hb, List.take_zero] at hr
      cases hr
    obtain ⟨bs, harr, -, hall⟩ := arranged_of_unleased hb (hover c List.mem_cons_self)
    have hclock : (c.2 :: (c :: clocks).map (·.2)).Pairwise (· ≤ ·) := by
      rw [List.map_cons, List.pairwise_cons] at hsorted ⊢
      refine ⟨fun y hy ↦ ?_, List.pairwise_cons.2 hsorted⟩
      rcases List.mem_cons.1 hy with rfl | hy
      · exact le_rfl
      · exact hsorted.1 y hy
    exact stuck harr hclock ((hall k).resolve_left (List.ne_nil_of_mem hr)) hx hd hr

end Arranged

section Sample

open OutboxSystem (renamed)

open LeaseSystem (fiveMinutes)

def undecodable : EventEnvelope := { renamed with
  id := js "f"
  payload := .obj [] }

def renamedAndUndecodable : OutboxTable := OutboxTable.empty.enqueue [renamed, undecodable]

end Sample

end Counted.Outbox
