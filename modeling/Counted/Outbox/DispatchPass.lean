import Counted.Outbox.Leases

namespace Counted.Outbox

open Foundations

/-- How the handler of an envelope ends, and after a failure the statement that records it. -/
inductive HandlerAnswer
  | resolved
  | rejected (detail : JsString) (recording : Recording)

/-- What a pass leaves: the table, the envelopes whose handlers succeeded, its log lines, and its
report unless it threw. -/
structure PassEnd where
  table : OutboxTable
  delivered : List EnvelopeId
  log : List DispatchLine
  report : Option OutboxDispatchReport

section Loop

variable (deps : OutboxDispatchDeps) (answers : EnvelopeId → HandlerAnswer)

/-- The loop of `dispatchOutbox`, and what follows it. -/
def dispatchLoop (t : OutboxTable) (p : Pass) (log : List DispatchLine) : List Held → PassEnd
  | [] => ⟨p.mark t, p.delivered, log, some (p.report (p.mark t))⟩
  | held :: rest =>
    match answers held.envelope.id with
    | .resolved => dispatchLoop t (p.afterDelivery held rest) log rest
    | .rejected detail recording =>
      match recording, t.attemptsOf held.envelope.id with
      | .failed, _ | _, none => ⟨t, p.delivered, log, none⟩
      | .lost, some _ =>
        ⟨t.recordFailure held.envelope.id detail p.now, p.delivered, log, none⟩
      | .answered, some attempts =>
        dispatchLoop (t.recordFailure held.envelope.id detail p.now)
          (p.afterFailure deps.maxAttempts (attempts + 1) rest)
          (log ++ [failureLine deps.maxAttempts (attempts + 1) held.envelope detail]) rest

/-- A pass that no other worker interferes with. -/
def dispatchOutbox (t : OutboxTable) (now dbNow : Instant) (locked : List EnvelopeId) : PassEnd :=
  match claim deps t dbNow locked with
  | (.error _, t) => ⟨t, [], [], none⟩
  | (.ok held, t) => dispatchLoop deps answers t ⟨now, held.length, held, [], 0, 0⟩ [] held

end Loop

/-- The statement that records a failure does not answer. -/
def HandlerAnswer.throws : HandlerAnswer → Bool
  | .resolved => false
  | .rejected _ recording => recording ≠ .answered

def HandlerAnswer.succeeds : HandlerAnswer → Bool
  | .resolved => true
  | .rejected .. => false

theorem not_throws_of_succeeds {a : HandlerAnswer} (h : a.succeeds) : a.throws = false := by
  cases a with
  | resolved => rfl
  | rejected => cases h

/-- The envelope was handed to its handlers and they succeeded. -/
def Succeeded (deps : OutboxDispatchDeps) (answers : EnvelopeId → HandlerAnswer) (t : OutboxTable)
    (dbNow : Instant) (locked : List EnvelopeId) (x : Held) : Prop :=
  ∃ l m, (claim deps t dbNow locked).1 = .ok (l ++ x :: m) ∧
    (∀ y ∈ l, (answers y.envelope.id).throws = false) ∧
    (answers x.envelope.id).succeeds

/-- No `recordFailure` fails, or every envelope before the first for which it does has a handler
that failed. -/
def NothingToLose (deps : OutboxDispatchDeps) (answers : EnvelopeId → HandlerAnswer)
    (t : OutboxTable) (dbNow : Instant) (locked : List EnvelopeId) : Prop :=
  ∀ l x m, (claim deps t dbNow locked).1 = .ok (l ++ x :: m) →
    (∀ y ∈ l, (answers y.envelope.id).throws = false) → (answers x.envelope.id).throws →
    ∀ y ∈ l, (answers y.envelope.id).succeeds = false

namespace OutboxTable

def Dispatched (t : OutboxTable) (id : EnvelopeId) (now : Instant) : Prop :=
  ∃ row ∈ t.rows, row.id = id ∧ row.dispatchedAt = some now

/-- What a pass changes of the table for good. -/
def marks (t : OutboxTable) : List (EnvelopeId × Option Instant) :=
  t.rows.map (fun row ↦ (row.id, row.dispatchedAt))

variable {t : OutboxTable} {ids : List EnvelopeId} {id : EnvelopeId} {now : Instant}
  {f : OutboxRow → OutboxRow} {hf : ∀ row, (f row).id = row.id}

theorem dispatched_iff : t.Dispatched id now ↔ (id, some now) ∈ t.marks := by
  simp [Dispatched, marks]

theorem mem_ids : id ∈ t.rows.map (·.id) ↔ id ∈ t.marks.map (·.1) := by
  simp [marks]

theorem marks_update (h : ∀ row, (f row).dispatchedAt = row.dispatchedAt) :
    (t.update ids f hf).marks = t.marks := by
  rw [marks, update, List.map_map]
  refine List.map_congr_left fun row _ ↦ ?_
  by_cases hr : row.id ∈ ids <;> simp [hr, hf, h]

theorem marks_recordFailure {error : JsString} : (t.recordFailure id error now).marks = t.marks :=
  marks_update fun _ ↦ rfl

theorem marks_lease {rows : List OutboxRow} : (t.lease now rows).marks = t.marks :=
  marks_update fun _ ↦ rfl

theorem attemptsOf_isSome (h : id ∈ t.rows.map (·.id)) : ∃ n, t.attemptsOf id = some n := by
  obtain ⟨row, hr, rfl⟩ := List.mem_map.1 h
  rw [attemptsOf, ← Option.isSome_iff_exists, Option.isSome_map, List.find?_isSome]
  exact ⟨row, hr, by simp⟩

end OutboxTable

namespace Pass

variable {p : Pass} {t : OutboxTable} {id : EnvelopeId}

theorem dispatched_mark (h : id ∈ p.delivered) (ht : id ∈ t.rows.map (·.id)) :
    (p.mark t).Dispatched id p.now := by
  obtain ⟨row, hr, rfl⟩ := List.mem_map.1 ht
  rw [mark, if_neg (List.ne_nil_of_mem h)]
  exact ⟨_, OutboxTable.mem_update.2 (.inl ⟨row, hr, h, rfl⟩), rfl, rfl⟩

end Pass

section Loop

variable {deps : OutboxDispatchDeps} {answers : EnvelopeId → HandlerAnswer} {t : OutboxTable}
  {p : Pass} {log : List DispatchLine} {held : List Held}

/-- What the loop does with one envelope. -/
theorem dispatchLoop_cons (deps : OutboxDispatchDeps) (answers : EnvelopeId → HandlerAnswer)
    (p : Pass) (log : List DispatchLine) (held : List Held) {x : Held} (hx : x.envelope.id ∈ t.rows.map (·.id)) :
    ∃ t' : OutboxTable, t'.marks = t.marks ∧
      if (answers x.envelope.id).throws then
        dispatchLoop deps answers t p log (x :: held) = ⟨t', p.delivered, log, none⟩
      else ∃ p' : Pass, ∃ log', p'.now = p.now ∧
        p'.delivered = p.delivered ++
          (if (answers x.envelope.id).succeeds then [x.envelope.id] else []) ∧
        dispatchLoop deps answers t p log (x :: held) =
          dispatchLoop deps answers t' p' log' held := by
  obtain ⟨n, hn⟩ := OutboxTable.attemptsOf_isSome hx
  rw [dispatchLoop]
  cases h : answers x.envelope.id with
  | resolved => exact ⟨t, rfl, p.afterDelivery x held, log, rfl, rfl, rfl⟩
  | rejected detail recording =>
    rw [hn]
    cases recording with
    | failed => exact ⟨t, rfl, rfl⟩
    | lost => exact ⟨_, OutboxTable.marks_recordFailure, rfl⟩
    | answered =>
      exact ⟨_, OutboxTable.marks_recordFailure, p.afterFailure deps.maxAttempts (n + 1) held, _,
        rfl, (List.append_nil _).symm, rfl⟩

/-- Once a failure cannot be recorded nothing is marked. -/
theorem dispatchLoop_throws {l m : List Held} {x : Held}
    (hids : ∀ y ∈ l ++ x :: m, y.envelope.id ∈ t.rows.map (·.id))
    (hl : ∀ y ∈ l, (answers y.envelope.id).throws = false) (hx : (answers x.envelope.id).throws) :
    (dispatchLoop deps answers t p log (l ++ x :: m)).table.marks = t.marks := by
  induction l generalizing t p log with
  | nil =>
    obtain ⟨t', ht', h⟩ := dispatchLoop_cons deps answers p log m (hids x List.mem_cons_self)
    rw [if_pos hx] at h
    rw [List.nil_append, h, ht']
  | cons y l ih =>
    obtain ⟨t', ht', h⟩ := dispatchLoop_cons deps answers p log (l ++ x :: m)
      (hids y List.mem_cons_self)
    rw [hl y List.mem_cons_self, if_neg Bool.false_ne_true] at h
    obtain ⟨p', log', -, -, h⟩ := h
    rw [List.cons_append, h, ih, ht']
    · intro z hz
      rw [OutboxTable.mem_ids, ht', ← OutboxTable.mem_ids]
      exact hids z (List.mem_cons_of_mem y hz)
    · exact fun z hz ↦ hl z (List.mem_cons_of_mem y hz)

/-- While every failure is recorded, what was delivered is marked. -/
theorem dispatchLoop_marks (hids : ∀ y ∈ held, y.envelope.id ∈ t.rows.map (·.id))
    (h : ∀ y ∈ held, (answers y.envelope.id).throws = false) {id : EnvelopeId}
    (ht : id ∈ t.rows.map (·.id))
    (hid : id ∈ p.delivered ∨ ∃ y ∈ held, y.envelope.id = id ∧ (answers id).succeeds) :
    (dispatchLoop deps answers t p log held).table.Dispatched id p.now := by
  induction held generalizing t p log with
  | nil =>
    rw [dispatchLoop]
    refine Pass.dispatched_mark (hid.resolve_right ?_) ht
    simp
  | cons x rest ih =>
    obtain ⟨t', ht', hl⟩ := dispatchLoop_cons deps answers p log rest (hids x List.mem_cons_self)
    rw [h x List.mem_cons_self, if_neg Bool.false_ne_true] at hl
    obtain ⟨p', log', hnow, hdel, hl⟩ := hl
    have hmem (y : EnvelopeId) : y ∈ t'.rows.map (·.id) ↔ y ∈ t.rows.map (·.id) := by
      rw [OutboxTable.mem_ids, ht', ← OutboxTable.mem_ids]
    rw [hl, ← hnow]
    refine ih (fun y hy ↦ (hmem _).2 (hids y (List.mem_cons_of_mem x hy)))
      (fun y hy ↦ h y (List.mem_cons_of_mem x hy)) ((hmem _).2 ht) ?_
    rw [hdel, List.mem_append]
    rcases hid with hid | ⟨y, hy, rfl, hs⟩
    · exact .inl (.inl hid)
    · rcases List.mem_cons.1 hy with rfl | hy
      · rw [if_pos hs]
        exact .inl (.inr (List.mem_singleton.2 rfl))
      · exact .inr ⟨y, hy, rfl, hs⟩

end Loop

section Pass

variable {deps : OutboxDispatchDeps} {answers : EnvelopeId → HandlerAnswer} {t : OutboxTable}
  {now dbNow : Instant} {locked : List EnvelopeId} {held : List Held}

theorem claim_marks : (claim deps t dbNow locked).2.marks = t.marks := by
  rcases claim_table deps t dbNow locked with h | h
  · rw [h]
  · rw [h, OutboxTable.marks_lease]

theorem dispatchOutbox_of_claim (h : (claim deps t dbNow locked).1 = .ok held) :
    dispatchOutbox deps answers t now dbNow locked = dispatchLoop deps answers
      (claim deps t dbNow locked).2 ⟨now, held.length, held, [], 0, 0⟩ [] held := by
  rw [dispatchOutbox]
  split
  · rename_i e u hc
    rw [hc] at h
    cases h
  · rename_i held' u hc
    rw [hc] at h
    cases h
    rw [hc]

/-- A claim takes rows of the table that are not dispatched. -/
theorem claim_undispatched (h : (claim deps t dbNow locked).1 = .ok held) {x : Held}
    (hx : x ∈ held) : (x.envelope.id, none) ∈ t.marks := by
  obtain ⟨row, hr, hid, -⟩ := claim_held h hx
  obtain ⟨hrow, hfree⟩ := claimRows_free hr
  refine List.mem_map.2 ⟨row, hrow, ?_⟩
  rw [hid, (LeaseSystem.isFree_iff.1 hfree).1]

/-- In a pass every envelope whose handlers succeeded is marked as dispatched exactly where none
was delivered before a failure that could not be recorded. -/
theorem neighbours_kept_iff (deps : OutboxDispatchDeps) (answers : EnvelopeId → HandlerAnswer)
    (t : OutboxTable) (now dbNow : Instant) (locked : List EnvelopeId) :
    (∀ x, Succeeded deps answers t dbNow locked x →
      (dispatchOutbox deps answers t now dbNow locked).table.Dispatched x.envelope.id now) ↔
    NothingToLose deps answers t dbNow locked := by
  have hids {held : List Held} (h : (claim deps t dbNow locked).1 = .ok held) (y : Held)
      (hy : y ∈ held) : y.envelope.id ∈ (claim deps t dbNow locked).2.rows.map (·.id) := by
    rw [OutboxTable.mem_ids, claim_marks]
    exact List.mem_map.2 ⟨_, claim_undispatched h hy, rfl⟩
  constructor
  · intro h l x m hc hl hx y hy
    by_contra hs
    rw [Bool.not_eq_false] at hs
    obtain ⟨l₁, l₂, rfl⟩ := List.append_of_mem hy
    have hy' : Succeeded deps answers t dbNow locked y :=
      ⟨l₁, l₂ ++ x :: m, by rw [hc, List.append_assoc, List.cons_append],
        fun z hz ↦ hl z (List.mem_append_left _ hz), hs⟩
    have hd := h y hy'
    rw [dispatchOutbox_of_claim hc, OutboxTable.dispatched_iff,
      dispatchLoop_throws (hids hc) hl hx, claim_marks] at hd
    have hnone := claim_undispatched hc (List.mem_append_left _ hy)
    have hnodup : (t.marks.map (·.1)).Nodup := by
      simpa [OutboxTable.marks, Function.comp_def] using t.unique
    cases congrArg Prod.snd (List.inj_on_of_nodup_map hnodup hd hnone rfl)
  · rintro h x ⟨l, m, hc, hl, hs⟩
    cases hfind : (l ++ x :: m).find? (fun y ↦ (answers y.envelope.id).throws) with
    | some y =>
      obtain ⟨hy, l₁, m₁, heq, hl₁⟩ := List.find?_eq_some_iff_append.1 hfind
      simp only [Bool.not_eq_true'] at hl₁
      have hne : y ≠ x := by
        rintro rfl
        rw [not_throws_of_succeeds hs] at hy
        cases hy
      have hxl : x ∈ l₁ := by
        rcases List.append_eq_append_iff.1 heq with ⟨c, rfl, hc'⟩ | ⟨c, rfl, hc'⟩
        · cases c with
          | nil => exact absurd (List.cons.inj hc').1.symm hne
          | cons z c =>
            rw [(List.cons.inj hc').1]
            simp
        · cases c with
          | nil => exact absurd (List.cons.inj hc').1 hne
          | cons z c =>
            have hyl := hl z (by simp)
            rw [← (List.cons.inj hc').1, hy] at hyl
            cases hyl
      rw [h l₁ y m₁ (heq ▸ hc) hl₁ hy x hxl] at hs
      cases hs
    | none =>
      rw [List.find?_eq_none] at hfind
      rw [dispatchOutbox_of_claim hc]
      exact dispatchLoop_marks (hids hc) (fun y hy ↦ by simpa using hfind y hy)
        (hids hc x (by simp)) (.inr ⟨x, by simp, rfl, hs⟩)

/-- A claim that finds rows in their order, no more than its limit. -/
theorem claim_sorted {rows : List OutboxRow} (h : t.claimable dbNow deps.leaseTime locked = rows)
    (hr : rows.Pairwise (fun a b ↦ envelopeLe deps.collation a.toEventEnvelope b.toEventEnvelope))
    (hb : 0 < deps.batch) (hlen : rows.length ≤ deps.batch) (hd : rows.mapM heldOf = .ok held)
    (hh : held.Pairwise (fun a b ↦ envelopeLe deps.locale a.envelope b.envelope)) :
    claim deps t dbNow locked = (.ok held, t.lease dbNow rows) := by
  have hrows : claimRows deps t dbNow locked = rows := by
    rw [claimRows, OutboxTable.selected, h, List.mergeSort_of_pairwise hr,
      List.take_of_length_le hlen]
  rw [claim, if_neg hb.ne', hrows, hd]
  simp only [Except.map, sortHeld]
  rw [List.mergeSort_of_pairwise hh]

end Pass

section Run

variable {deps : OutboxDispatchDeps} {answers : EnvelopeId → HandlerAnswer} {held : List Held}

def HandlerAnswer.action : HandlerAnswer → OutboxAction
  | .resolved => .deliver 0
  | .rejected detail recording => .deliveryFails 0 detail recording

/-- The steps of a pass until it ends. -/
def passActions (answers : EnvelopeId → HandlerAnswer) : List Held → List OutboxAction
  | [] => [.finish 0 true]
  | held :: rest => (answers held.envelope.id).action ::
      if (answers held.envelope.id).throws then [] else passActions answers rest

/-- The loop does what the one pass of a system does that takes no other steps. -/
theorem dispatchLoop_run {s : OutboxSystem} {p : Pass} (hs : s.passes = [p])
    (hp : p.pending = held) (hids : ∀ y ∈ held, y.envelope.id ∈ s.table.rows.map (·.id)) :
    ∃ u, run (OutboxSystem.step deps) s (passActions answers held) = some u ∧ u.passes = [] ∧
      u.table = (dispatchLoop deps answers s.table p s.log held).table ∧
      u.log = (dispatchLoop deps answers s.table p s.log held).log ∧
      u.reports = s.reports ++ (dispatchLoop deps answers s.table p s.log held).report.toList := by
  induction held generalizing s p with
  | nil =>
    refine ⟨{ s.drop 0 with
      table := p.mark s.table
      reports := s.reports ++ [p.report (p.mark s.table)] }, ?_, ?_, rfl, rfl, rfl⟩
    · simp only [passActions, run, OutboxSystem.step, hs, List.getElem?_cons_zero,
        Option.bind_some, hp, if_true]
    · simp [OutboxSystem.drop, hs]
  | cons x rest ih =>
    have hx := hids x List.mem_cons_self
    have hrest (y : Held) (hy : y ∈ rest) : y.envelope.id ∈ s.table.rows.map (·.id) :=
      hids y (List.mem_cons_of_mem x hy)
    obtain ⟨n, hn⟩ := OutboxTable.attemptsOf_isSome hx
    rw [passActions, run, dispatchLoop]
    cases ha : answers x.envelope.id with
    | resolved =>
      have hstep : s.step deps (.deliver 0) = some { s with passes := [p.afterDelivery x rest] } := by
        simp [OutboxSystem.step, hs, hp]
      rw [HandlerAnswer.action, hstep]
      exact ih (s := { s with passes := [p.afterDelivery x rest] }) rfl rfl hrest
    | rejected detail recording =>
      have hstep : s.step deps (.deliveryFails 0 detail recording) =
          some (s.failed deps 0 p x rest detail recording) := by
        simp [OutboxSystem.step, hs, hp]
      rw [HandlerAnswer.action, hstep, hn]
      cases recording with
      | failed =>
        have hf : s.failed deps 0 p x rest detail .failed = s.drop 0 := by simp [OutboxSystem.failed]
        rw [hf]
        exact ⟨_, rfl, by simp [OutboxSystem.drop, hs], rfl, rfl, (List.append_nil _).symm⟩
      | lost =>
        have hf : s.failed deps 0 p x rest detail .lost = s.record 0 p x detail := by
          simp [OutboxSystem.failed, hn]
        rw [hf]
        exact ⟨_, rfl, by simp [OutboxSystem.record, hs], rfl, rfl, (List.append_nil _).symm⟩
      | answered =>
        have hf : s.failed deps 0 p x rest detail .answered = { s.record 0 p x detail with
            passes := [p.afterFailure deps.maxAttempts (n + 1) rest]
            log := s.log ++ [failureLine deps.maxAttempts (n + 1) x.envelope detail] } := by
          simp [OutboxSystem.failed, hn, hs]
        rw [hf]
        refine ih (s := { s.record 0 p x detail with
          passes := [p.afterFailure deps.maxAttempts (n + 1) rest]
          log := s.log ++ [failureLine deps.maxAttempts (n + 1) x.envelope detail] }) rfl rfl ?_
        intro y hy
        change y.envelope.id ∈ (s.table.recordFailure _ _ _).rows.map (·.id)
        rw [recordFailure_ids]
        exact hrest y hy

end Run

section Sample

open OutboxSystem (codeUnits renamed)

open LeaseSystem (fiveMinutes)

/-- The second of two renames. -/
def renamedAgain : EventEnvelope := { renamed with id := js "f" }

def twoRenamed : OutboxTable := OutboxTable.empty.enqueue [renamed, renamedAgain]

/-- The receiver of the second is down, and so is the database when the failure is recorded. -/
def secondFails (id : EnvelopeId) : HandlerAnswer :=
  if id = js "e" then .resolved else .rejected (js "502") .failed

theorem twoRenamed_claimed : claim fiveMinutes twoRenamed 0 [] =
    (.ok [⟨renamed, 0⟩, ⟨renamedAgain, 0⟩],
      twoRenamed.lease 0 [.ofEnvelope renamed, .ofEnvelope renamedAgain]) :=
  claim_sorted rfl (by decide) (by decide) (by decide) rfl (by decide)

/-- The first is delivered and not marked, so it is delivered again. -/
theorem unrecorded_failure_loses_neighbour :
    (dispatchOutbox fiveMinutes secondFails twoRenamed 0 0 []).delivered = [js "e"] ∧
      (dispatchOutbox fiveMinutes secondFails twoRenamed 0 0 []).report = none ∧
      Succeeded fiveMinutes secondFails twoRenamed 0 [] ⟨renamed, 0⟩ ∧
      ¬ (dispatchOutbox fiveMinutes secondFails twoRenamed 0 0 []).table.Dispatched (js "e") 0 := by
  have hp : dispatchOutbox fiveMinutes secondFails twoRenamed 0 0 [] =
      ⟨twoRenamed.lease 0 [.ofEnvelope renamed, .ofEnvelope renamedAgain], [js "e"], [], none⟩ := by
    rw [dispatchOutbox, twoRenamed_claimed]
    rfl
  rw [hp]
  refine ⟨rfl, rfl, ⟨[], _, by rw [twoRenamed_claimed]; rfl, by simp, rfl⟩, ?_⟩
  rw [OutboxTable.dispatched_iff]
  decide

end Sample

end Counted.Outbox
