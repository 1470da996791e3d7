import Counted.Foundations.Decoding
import Counted.Outbox.Table

namespace Counted.Outbox

open Foundations

structure OutboxDispatchDeps where
  batch : ℕ
  maxAttempts : ℕ
  leaseTime : Duration
  collation : Collation
  locale : Collation

structure OutboxDispatchReport where
  claimed : ℕ
  dispatched : ℕ
  failed : ℕ
  deadLettered : ℕ
  pending : ℕ
  deriving DecidableEq

inductive DispatchLine
  | deadLettered (envelope : EnvelopeId) (type : JsString) (attempts : ℕ) (detail : JsString)
  | dispatchFailed (envelope : EnvelopeId) (type : JsString) (attempts : ℕ) (detail : JsString)

/-- A claimed envelope, and the attempts its row had when it was claimed. -/
structure Held where
  envelope : EventEnvelope
  attempts : ℕ

/-- A dispatch pass of some worker that has claimed and not yet returned. -/
structure Pass where
  now : Instant
  claimed : ℕ
  pending : List Held
  delivered : List EnvelopeId
  failed : ℕ
  deadLettered : ℕ

/-- What becomes of the statement that records a failure: it is answered, it fails, or it takes
effect and its answer is lost. -/
inductive Recording | answered | failed | lost
  deriving DecidableEq

/-- The table, the passes in progress, and what the passes leave. The claims carry the attempts
their rows had, and the failures are those recorded, both the latest first. -/
structure OutboxSystem where
  table : OutboxTable
  passes : List Pass
  log : List DispatchLine
  reports : List OutboxDispatchReport
  claims : List (EnvelopeId × ℕ)
  failures : List EnvelopeId

inductive OutboxAction
  | enqueue (events : List EventEnvelope)
  | claim (now dbNow : Instant) (locked : List EnvelopeId)
  | deliver (index : ℕ)
  | deliveryFails (index : ℕ) (detail : JsString) (recording : Recording)
  | finish (index : ℕ) (returned : Bool)
  | crash (index : ℕ)

section Claim

variable (deps : OutboxDispatchDeps) (t : OutboxTable) (dbNow : Instant) (locked : List EnvelopeId)

def heldOf (row : OutboxRow) : Except RowDecodeError Held :=
  (envelopeOf row).map fun envelope ↦ ⟨envelope, row.attempts⟩

/-- The order in which a pass dispatches what it has claimed. -/
def sortHeld (held : List Held) : List Held :=
  held.mergeSort (fun a b ↦ envelopeLe deps.locale a.envelope b.envelope)

def claimRows : List OutboxRow := t.selected deps.collation dbNow deps.leaseTime locked deps.batch

/-- The rows are leased first and decoded afterwards. -/
def claim : Except RowDecodeError (List Held) × OutboxTable :=
  if deps.batch = 0 then (.ok [], t)
  else
    (((claimRows deps t dbNow locked).mapM heldOf).map (sortHeld deps),
      t.lease dbNow (claimRows deps t dbNow locked))

end Claim

namespace Pass

variable (p : Pass)

def afterDelivery (held : Held) (rest : List Held) : Pass :=
  { p with pending := rest, delivered := p.delivered ++ [held.envelope.id] }

def afterFailure (maxAttempts attempts : ℕ) (rest : List Held) : Pass := { p with
  pending := rest
  failed := p.failed + 1
  deadLettered := if maxAttempts ≤ attempts then p.deadLettered + 1 else p.deadLettered }

def report (t : OutboxTable) : OutboxDispatchReport :=
  ⟨p.claimed, p.delivered.length, p.failed, p.deadLettered, t.pendingCount⟩

/-- The successes are marked in one call. -/
def mark (t : OutboxTable) : OutboxTable :=
  if p.delivered = [] then t else t.markDispatched p.delivered p.now

end Pass

def failureLine (maxAttempts attempts : ℕ) (envelope : EventEnvelope) (detail : JsString) :
    DispatchLine :=
  if maxAttempts ≤ attempts then .deadLettered envelope.id envelope.type attempts detail
  else .dispatchFailed envelope.id envelope.type attempts detail

namespace OutboxSystem

variable (deps : OutboxDispatchDeps) (s : OutboxSystem)

def empty : OutboxSystem := ⟨.empty, [], [], [], [], []⟩

def drop (index : ℕ) : OutboxSystem := { s with passes := s.passes.eraseIdx index }

def leased (now dbNow : Instant) (locked : List EnvelopeId) : OutboxSystem :=
  let answer := Outbox.claim deps s.table dbNow locked
  { s with
    table := answer.2
    passes := match answer.1 with
      | .error _ => s.passes
      | .ok held => s.passes ++ [⟨now, held.length, held, [], 0, 0⟩]
    claims := (claimRows deps s.table dbNow locked).map (fun row ↦ (row.id, row.attempts)) ++
      s.claims }

/-- The statement has taken effect. -/
def record (index : ℕ) (p : Pass) (held : Held) (detail : JsString) : OutboxSystem := { s with
  table := s.table.recordFailure held.envelope.id detail p.now
  passes := s.passes.eraseIdx index
  failures := held.envelope.id :: s.failures }

/-- The pass goes on only where the statement answers with the row's attempts. -/
def failed (index : ℕ) (p : Pass) (held : Held) (rest : List Held) (detail : JsString)
    (recording : Recording) : OutboxSystem :=
  match recording, s.table.attemptsOf held.envelope.id with
  | .failed, _ | _, none => s.drop index
  | .lost, some _ => s.record index p held detail
  | .answered, some attempts => { s.record index p held detail with
      passes := s.passes.set index (p.afterFailure deps.maxAttempts (attempts + 1) rest)
      log := s.log ++ [failureLine deps.maxAttempts (attempts + 1) held.envelope detail] }

def step : OutboxAction → Option OutboxSystem
  | .enqueue events => some { s with table := s.table.enqueue events }
  | .claim now dbNow locked => some (s.leased deps now dbNow locked)
  | .deliver index => s.passes[index]?.bind fun p ↦
    match p.pending with
    | [] => none
    | held :: rest => some { s with passes := s.passes.set index (p.afterDelivery held rest) }
  | .deliveryFails index detail recording => s.passes[index]?.bind fun p ↦
    match p.pending with
    | [] => none
    | held :: rest => some (s.failed deps index p held rest detail recording)
  | .finish index returned => s.passes[index]?.bind fun p ↦
    match p.pending with
    | [] => some { s.drop index with
        table := p.mark s.table
        reports := if returned then s.reports ++ [p.report (p.mark s.table)] else s.reports }
    | _ :: _ => none
  | .crash index => some (s.drop index)

end OutboxSystem

section ClaimLemmas

variable {deps : OutboxDispatchDeps} {t u : OutboxTable} {dbNow : Instant}
  {locked : List EnvelopeId}

theorem heldOf_ok {row : OutboxRow} {held : Held} (h : heldOf row = .ok held) :
    held.envelope.id = row.id ∧ held.attempts = row.attempts := by
  obtain ⟨envelope, he, rfl⟩ := map_ok.1 h
  obtain ⟨payload, -, rfl⟩ := map_ok.1 he
  exact ⟨rfl, rfl⟩

/-- Whether or not its rows can be decoded, a claim leases them. -/
theorem claim_table (deps : OutboxDispatchDeps) (t : OutboxTable) (dbNow : Instant)
    (locked : List EnvelopeId) : (claim deps t dbNow locked).2 = t ∨
    (claim deps t dbNow locked).2 = t.lease dbNow (claimRows deps t dbNow locked) := by
  rw [claim]
  split_ifs
  · exact .inl rfl
  · exact .inr rfl

theorem claim_held {held : List Held} (h : (claim deps t dbNow locked).1 = .ok held) {x : Held}
    (hx : x ∈ held) : ∃ row ∈ claimRows deps t dbNow locked,
      x.envelope.id = row.id ∧ x.attempts = row.attempts := by
  rw [claim] at h
  split_ifs at h
  · obtain rfl := Except.ok.inj h
    cases hx
  · obtain ⟨decoded, hd, rfl⟩ := map_ok.1 h
    obtain ⟨row, hr, hrx⟩ := mem_of_mapM_ok hd (List.mem_mergeSort.1 hx)
    exact ⟨row, hr, heldOf_ok hrx⟩

/-- A claim that finds one row. -/
theorem claim_single (row : OutboxRow) (held : Held)
    (h : t.claimable dbNow deps.leaseTime locked = [row]) (hb : 0 < deps.batch)
    (hd : heldOf row = .ok held) : claimRows deps t dbNow locked = [row] ∧
      claim deps t dbNow locked = (.ok [held], t.lease dbNow [row]) := by
  have hr : claimRows deps t dbNow locked = [row] := by
    rw [claimRows, OutboxTable.selected, h, List.mergeSort_singleton, List.take_of_length_le hb]
  refine ⟨hr, ?_⟩
  rw [claim, if_neg hb.ne', hr, List.mapM_cons, hd]
  simp [sortHeld, ok_bind, Except.map, pure, Except.pure]

end ClaimLemmas

namespace OutboxSystem

variable {deps : OutboxDispatchDeps} {s : OutboxSystem} {now dbNow : Instant}
  {locked : List EnvelopeId}

theorem leased_single (row : OutboxRow) (held : Held)
    (h : s.table.claimable dbNow deps.leaseTime locked = [row]) (hb : 0 < deps.batch)
    (hd : heldOf row = .ok held) : s.leased deps now dbNow locked = { s with
      table := s.table.lease dbNow [row]
      passes := s.passes ++ [⟨now, 1, [held], [], 0, 0⟩]
      claims := (row.id, row.attempts) :: s.claims } := by
  obtain ⟨hr, hc⟩ := claim_single row held h hb hd
  simp only [leased, hr, hc, List.length_singleton, List.map_cons, List.map_nil, List.cons_append,
    List.nil_append]

end OutboxSystem

end Counted.Outbox
