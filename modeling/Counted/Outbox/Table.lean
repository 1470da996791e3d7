import Counted.Ingestion.Batch
import Counted.Kernel.Json

namespace Counted.Outbox

abbrev EnvelopeId := JsString

/-- A domain event as it travels. -/
structure EventEnvelope where
  id : EnvelopeId
  type : JsString
  occurredAt : Instant
  payload : Json

/-- A row of `outbox`. -/
structure OutboxRow extends EventEnvelope where
  claimedAt : Option Instant
  dispatchedAt : Option Instant
  attempts : ℕ
  lastError : Option JsString
  lastFailedAt : Option Instant

structure RowDecodeError where
  table : JsString
  id : JsString
  column : JsString
  value : Json

/-- An order of texts: the collation of a column, or `localeCompare`. -/
structure Collation where
  le : JsString → JsString → Bool
  total : ∀ a b, (le a b || le b a) = true
  trans : ∀ a b c, le a b = true → le b c = true → le a c = true

structure OutboxTable where
  rows : List OutboxRow
  unique : (rows.map (·.id)).Nodup

/-- Oldest first, and by id among those of one instant. -/
def envelopeLe (c : Collation) (a b : EventEnvelope) : Bool :=
  a.occurredAt < b.occurredAt || (a.occurredAt = b.occurredAt && c.le a.id b.id)

def OutboxRow.ofEnvelope (e : EventEnvelope) : OutboxRow := ⟨e, none, none, 0, none, none⟩

/-- Undispatched, and under no lease that is still current. -/
def OutboxRow.isFree (row : OutboxRow) (dbNow : Instant) (lease : Duration) : Bool :=
  row.dispatchedAt.isNone && row.claimedAt.all (· < dbNow - lease)

/-- A payload is a domain event, which means it has a `kind` and an `at`. -/
def payloadOf (row : OutboxRow) : Except RowDecodeError Json :=
  let refused : RowDecodeError := ⟨js "outbox", row.id, js "payload", row.payload⟩
  match row.payload with
  | .obj fields =>
    match JsObject.get fields (js "kind"), JsObject.get fields (js "at") with
    | some (.str _), some (.num _) => .ok row.payload
    | _, _ => .error refused
  | _ => .error refused

def envelopeOf (row : OutboxRow) : Except RowDecodeError EventEnvelope :=
  (payloadOf row).map fun payload ↦ { row.toEventEnvelope with payload := payload }

namespace OutboxTable

variable (t : OutboxTable)

def empty : OutboxTable := ⟨[], List.nodup_nil⟩

/-- An update of the rows of some ids, as the statements write it. -/
def update (ids : List EnvelopeId) (f : OutboxRow → OutboxRow) (hf : ∀ row, (f row).id = row.id) :
    OutboxTable where
  rows := t.rows.map (fun row ↦ if row.id ∈ ids then f row else row)
  unique := by
    have h : ((fun row : OutboxRow ↦ row.id) ∘ fun row ↦ if row.id ∈ ids then f row else row) =
        fun row ↦ row.id := by
      funext row
      by_cases hr : row.id ∈ ids <;> simp [hr, hf]
    rw [List.map_map, h]
    exact t.unique

/-- `ON CONFLICT (id) DO NOTHING`. -/
def insert (e : EventEnvelope) : OutboxTable :=
  if h : e.id ∈ t.rows.map (·.id) then t
  else ⟨t.rows ++ [.ofEnvelope e], by
    rw [List.map_append, List.map_singleton, ← List.concat_eq_append]
    exact t.unique.concat h⟩

def enqueue (events : List EventEnvelope) : OutboxTable := events.foldl insert t

section Claim

variable (c : Collation) (dbNow : Instant) (leaseTime : Duration) (locked : List EnvelopeId)

/-- The rows a claim may take: those of other transactions in flight are skipped. -/
def claimable : List OutboxRow :=
  t.rows.filter (fun row ↦ row.isFree dbNow leaseTime && row.id ∉ locked)

/-- The rows a claim takes. -/
def selected (limit : ℕ) : List OutboxRow :=
  ((t.claimable dbNow leaseTime locked).mergeSort
    (fun a b ↦ envelopeLe c a.toEventEnvelope b.toEventEnvelope)).take limit

/-- The `UPDATE` of a claim. -/
def lease (rows : List OutboxRow) : OutboxTable :=
  t.update (rows.map (·.id)) (fun row ↦ { row with claimedAt := some dbNow }) fun _ ↦ rfl

end Claim

def markDispatched (ids : List EnvelopeId) (at' : Instant) : OutboxTable :=
  t.update ids (fun row ↦ { row with dispatchedAt := some at' }) fun _ ↦ rfl

/-- The row is claimable again. -/
def recordFailure (id : EnvelopeId) (error : JsString) (at' : Instant) : OutboxTable :=
  t.update [id] (fun row ↦ { row with
    attempts := row.attempts + 1
    lastError := some error
    lastFailedAt := some at'
    claimedAt := none }) fun _ ↦ rfl

/-- `RETURNING attempts`. -/
def attemptsOf (id : EnvelopeId) : Option ℕ := (t.rows.find? (·.id = id)).map (·.attempts)

def pendingCount : ℕ := t.rows.countP (·.dispatchedAt.isNone)

end OutboxTable

section Order

variable {α : Type} {le : α → α → Bool} {l : List α} {x : α} {n : ℕ}

/-- What is taken of a sorted list has few before it. -/
theorem countP_before (hrefl : ∀ a, le a a = true) (hl : l.Pairwise (fun a b ↦ le a b = true))
    (h : x ∈ l.take n) : l.countP (fun y ↦ !le x y) < n := by
  induction l generalizing n with
  | nil =>
    rw [List.take_nil] at h
    cases h
  | cons a l ih =>
    rw [List.pairwise_cons] at hl
    cases n with
    | zero => cases h
    | succ n =>
      rw [List.take_succ_cons, List.mem_cons] at h
      rcases h with rfl | h
      · have h0 : (x :: l).countP (fun y ↦ !le x y) = 0 := by
          rw [List.countP_eq_zero]
          intro y hy
          rcases List.mem_cons.1 hy with rfl | hy
          · simp [hrefl]
          · simp [hl.1 y hy]
        omega
      · have := ih hl.2 h
        rw [List.countP_cons]
        split_ifs <;> omega

/-- What is taken of a list that is sorted first has few before it. -/
theorem countP_before_mergeSort (total : ∀ a b, (le a b || le b a) = true)
    (trans : ∀ a b c, le a b = true → le b c = true → le a c = true)
    (h : x ∈ (l.mergeSort le).take n) : l.countP (fun y ↦ !le x y) < n := by
  rw [← (List.mergeSort_perm l le).countP_eq]
  refine countP_before (fun a ↦ ?_) (List.pairwise_mergeSort trans total l) h
  simpa using total a a

end Order

theorem envelopeLe_iff {c : Collation} {a b : EventEnvelope} : envelopeLe c a b = true ↔
    a.occurredAt < b.occurredAt ∨ a.occurredAt = b.occurredAt ∧ c.le a.id b.id = true := by
  simp [envelopeLe]

theorem envelopeLe_total (c : Collation) (a b : EventEnvelope) :
    (envelopeLe c a b || envelopeLe c b a) = true := by
  rw [Bool.or_eq_true, envelopeLe_iff, envelopeLe_iff]
  rcases lt_trichotomy a.occurredAt b.occurredAt with h | h | h
  · exact .inl (.inl h)
  · exact (Bool.or_eq_true _ _ ▸ c.total a.id b.id).imp (fun hab ↦ .inr ⟨h, hab⟩)
      fun hba ↦ .inr ⟨h.symm, hba⟩
  · exact .inr (.inl h)

theorem envelopeLe_trans (c : Collation) (a b d : EventEnvelope) (h : envelopeLe c a b = true)
    (h' : envelopeLe c b d = true) : envelopeLe c a d = true := by
  rw [envelopeLe_iff] at h h' ⊢
  rcases h with h | ⟨h, hc⟩
  · rcases h' with h' | ⟨h', -⟩
    · exact .inl (h.trans h')
    · exact .inl (h' ▸ h)
  · rcases h' with h' | ⟨h', hc'⟩
    · exact .inl (h ▸ h')
    · exact .inr ⟨h.trans h', c.trans _ _ _ hc hc'⟩

namespace OutboxTable

variable {t : OutboxTable} {ids : List EnvelopeId} {f : OutboxRow → OutboxRow}
  {hf : ∀ row, (f row).id = row.id} {row : OutboxRow} {c : Collation} {dbNow : Instant}
  {leaseTime : Duration} {locked : List EnvelopeId} {limit : ℕ}

theorem mem_update : row ∈ (t.update ids f hf).rows ↔
    (∃ r ∈ t.rows, r.id ∈ ids ∧ row = f r) ∨ row ∈ t.rows ∧ row.id ∉ ids := by
  rw [update, List.mem_map]
  constructor
  · rintro ⟨r, hr, rfl⟩
    split_ifs with hi
    · exact .inl ⟨r, hr, hi, rfl⟩
    · exact .inr ⟨hr, hi⟩
  · rintro (⟨r, hr, hi, rfl⟩ | ⟨hr, hi⟩)
    · exact ⟨r, hr, if_pos hi⟩
    · exact ⟨row, hr, if_neg hi⟩

theorem map_id_update : (t.update ids f hf).rows.map (·.id) = t.rows.map (·.id) := by
  rw [update, List.map_map]
  refine List.map_congr_left fun row _ ↦ ?_
  by_cases h : row.id ∈ ids <;> simp [h, hf]

theorem mem_insert {e : EventEnvelope} (h : row ∈ (t.insert e).rows) :
    row ∈ t.rows ∨ e.id ∉ t.rows.map (·.id) ∧ row = .ofEnvelope e := by
  rw [insert] at h
  split_ifs at h with he
  · exact .inl h
  · exact (List.mem_append.1 h).imp_right fun h ↦ ⟨he, List.mem_singleton.1 h⟩

theorem mem_selected (h : row ∈ t.selected c dbNow leaseTime locked limit) :
    row ∈ t.rows ∧ row.isFree dbNow leaseTime = true ∧ row.id ∉ locked := by
  have h := List.mem_mergeSort.1 (List.mem_of_mem_take h)
  obtain ⟨hr, hc⟩ := List.mem_filter.1 h
  rw [Bool.and_eq_true, decide_eq_true_eq] at hc
  exact ⟨hr, hc⟩

/-- A claim takes a row only where fewer than its limit come before it. -/
theorem before_selected (h : row ∈ t.selected c dbNow leaseTime locked limit) :
    (t.claimable dbNow leaseTime locked).countP
      (fun r ↦ !envelopeLe c row.toEventEnvelope r.toEventEnvelope) < limit :=
  countP_before_mergeSort (fun _ _ ↦ envelopeLe_total c _ _)
    (fun _ _ _ ↦ envelopeLe_trans c _ _ _) h

end OutboxTable

end Counted.Outbox
