import Counted.Dashboarding.Commands
import Counted.Dashboarding.Delivery
import Counted.Foundations.Keyed
import Counted.Foundations.Run

namespace Counted.Dashboarding

open Foundations Foundations.Keyed Ingestion

variable {A : Type}

/-- A row of `monitors`: the aggregate's columns and `evaluation_claimed_until`. -/
structure MonitorRow (A : Type) where
  monitor : Monitor A
  claimedUntil : Option Instant

/-- `interval '10 minutes'`. -/
def evaluationLease : Duration := 600000

namespace MonitorRow

def claimable (row : MonitorRow A) (at' : Instant) : Bool :=
  row.monitor.enabled && row.claimedUntil.all (· ≤ at')

def claim (row : MonitorRow A) (at' : Instant) : MonitorRow A :=
  ⟨{ row.monitor with lastAttemptAt := some at' }, some (at' + evaluationLease)⟩

/-- The snapshot `claimEnabled` gives the worker: its claim is the time of the attempt. -/
def claimed (row : MonitorRow A) (at' : Instant) : Monitor A :=
  { row.monitor with lastAttemptAt := some at', evaluationClaim := some at' }

/-- The condition of the upsert: a claimed evaluation has to find its claim. -/
def accepts (row : MonitorRow A) (monitor : Monitor A) : Bool :=
  monitor.evaluationClaim.all (fun token ↦
    row.monitor.lastAttemptAt == some token && row.claimedUntil.isSome)

/-- Every write clears the claim. -/
def written (monitor : Monitor A) : MonitorRow A := ⟨{ monitor with evaluationClaim := none }, none⟩

end MonitorRow

/-- What a worker learns from the engine. -/
inductive Outcome
  | measured (observed : JsNumber)
  | unavailable (detail : JsString)

def Outcome.applied (m : Monitor A) (at' : Instant) : Outcome → MonitorApplied A
  | .measured observed => m.evaluate observed at'
  | .unavailable detail => ⟨m.measurementUnavailable detail at', []⟩

/-- An evaluation a worker is running, with the number of its claim. -/
structure Evaluation (A : Type) where
  claim : ℕ
  monitor : Monitor A
  token : Instant

/-- A monitor a user's command has loaded, with what has been committed since. -/
structure Edit (A : Type) where
  loaded : Monitor A
  since : List (Emission A)

/-- The monitor's row and the deliveries, what workers and users hold in memory, and a record of
what was committed: the claims granted, the one in force, those whose evaluation has committed, and
all events, the latest first. -/
structure MonitorStore (A : Type) where
  row : MonitorRow A
  deliveries : Deliveries
  evaluations : List (Evaluation A)
  edits : List (Edit A)
  claims : ℕ
  holder : Option ℕ
  commits : List ℕ
  history : List (Emission A)

inductive StoreAction (A : Type)
  | claim (at' : Instant)
  | evaluate (claim : ℕ) (outcome : Outcome) (now : Instant)
  | finish (claim : ℕ)
  | load
  | edit (index : ℕ) (command : MonitorCommand A) (at' now : Instant)

namespace MonitorStore

def initial (m : Monitor A) (deliveries : Deliveries) : MonitorStore A where
  row := .written m
  deliveries := deliveries
  evaluations := []
  edits := []
  claims := 0
  holder := none
  commits := []
  history := []

/-- `save`: the row and the deliveries in one statement, or neither. -/
def save (s : MonitorStore A) (before : Monitor A) (applied : MonitorApplied A) (now : Instant)
    (claim : Option ℕ) : MonitorStore A :=
  if s.row.accepts applied.monitor then
    let emitted := applied.events.reverse.map (Emission.mk before)
    { s with
      row := .written applied.monitor
      deliveries := saveDeliveries applied.monitor applied.events now s.deliveries
      edits := s.edits.map (fun edit ↦ { edit with since := emitted ++ edit.since })
      holder := none
      commits := claim.toList ++ s.commits
      history := emitted ++ s.history }
  else s

def claim (s : MonitorStore A) (at' : Instant) : MonitorStore A :=
  { s with
    row := s.row.claim at'
    evaluations := ⟨s.claims, s.row.claimed at', at'⟩ :: s.evaluations
    claims := s.claims + 1
    holder := some s.claims }

def evaluate (s : MonitorStore A) (e : Evaluation A) (outcome : Outcome) (now : Instant) :
    MonitorStore A :=
  s.save e.monitor (outcome.applied e.monitor e.token) now (some e.claim)

/-- A refused command and one that changes nothing save nothing. -/
def commit (s : MonitorStore A) (loaded : Monitor A) (now : Instant) :
    MonitorResult A → MonitorStore A
  | .error _ => s
  | .ok applied => if applied.events.isEmpty then s else s.save loaded applied now none

variable (isScalar : A → Except MonitorError Unit)

def step (s : MonitorStore A) : StoreAction A → Option (MonitorStore A)
  | .claim at' => if s.row.claimable at' then some (s.claim at') else none
  | .evaluate i outcome now =>
    (lookup Evaluation.claim i s.evaluations).map (s.evaluate · outcome now)
  | .finish i => some { s with evaluations := remove Evaluation.claim i s.evaluations }
  | .load => some { s with edits := s.edits ++ [⟨s.row.monitor, []⟩] }
  | .edit i command at' now =>
    s.edits[i]?.map (fun edit ↦
      s.commit edit.loaded now (command.applied isScalar edit.loaded at'))

/-- No claim is made at the very time that is the token of an evaluation still running. -/
def FreshToken (s : MonitorStore A) : StoreAction A → Prop
  | .claim at' => ∀ e ∈ s.evaluations, e.token ≠ at'
  | .evaluate .. | .finish _ | .load | .edit .. => True

/-- What an evaluation does to a monitor whose claims are fenced. -/
structure EvaluationFenced (s : MonitorStore A) (a : StoreAction A) : Prop where
  superseded : ∀ i outcome now, a = .evaluate i outcome now → s.holder ≠ some i →
    ∀ t, s.step isScalar a = some t → t.row = s.row ∧ t.deliveries = s.deliveries
  together : ∀ i outcome now, a = .evaluate i outcome now → ∀ t, s.step isScalar a = some t →
    (t.row = s.row ∧ t.deliveries = s.deliveries ∧ t.commits = s.commits) ∨
      ∃ e, lookup Evaluation.claim i s.evaluations = some e ∧ t.commits = i :: s.commits ∧
        t.row = .written (outcome.applied e.monitor e.token).monitor ∧
        t.deliveries = saveDeliveries (outcome.applied e.monitor e.token).monitor
          (outcome.applied e.monitor e.token).events now s.deliveries

/-- What every step with fresh tokens keeps of the claims. -/
structure ClaimInv (s : MonitorStore A) : Prop where
  running : ∀ e ∈ s.evaluations, e.claim < s.claims ∧ e.monitor.evaluationClaim = some e.token
  held : s.row.claimedUntil.isSome → ∃ i, s.holder = some i ∧
    ∀ e ∈ s.evaluations, s.row.monitor.lastAttemptAt = some e.token → e.claim = i
  holder : ∀ i, s.holder = some i → i < s.claims ∧ i ∉ s.commits
  nodup : s.commits.Nodup
  committed : ∀ i ∈ s.commits, i < s.claims
  row : s.row.monitor.evaluationClaim = none
  edits : ∀ edit ∈ s.edits, edit.loaded.evaluationClaim = none

variable {isScalar} {s t : MonitorStore A}

theorem initial_inv (m : Monitor A) (deliveries : Deliveries) :
    ClaimInv (initial m deliveries) where
  running := by rintro e ⟨⟩
  held := by rintro ⟨⟩
  holder := by rintro i ⟨⟩
  nodup := .nil
  committed := by rintro i ⟨⟩
  row := rfl
  edits := by rintro edit ⟨⟩

theorem outcome_claim (outcome : Outcome) (m : Monitor A) (at' : Instant) :
    (outcome.applied m at').monitor.evaluationClaim = m.evaluationClaim := by
  cases outcome with
  | measured observed =>
    rw [Outcome.applied, Monitor.evaluate]
    cases m.decide observed at' <;> rfl
  | unavailable detail => rfl

theorem save_refused {before : Monitor A} {applied : MonitorApplied A} {now : Instant}
    {i : Option ℕ} (h : s.row.accepts applied.monitor = false) : s.save before applied now i = s := by
  rw [save, h]
  rfl

/-- The save of an evaluation is accepted from the holder alone. -/
theorem ClaimInv.accepted (h : ClaimInv s) {e : Evaluation A} (he : e ∈ s.evaluations)
    {outcome : Outcome} (ha : s.row.accepts (outcome.applied e.monitor e.token).monitor = true) :
    s.holder = some e.claim := by
  rw [MonitorRow.accepts, outcome_claim, (h.running e he).2, Option.all_some, Bool.and_eq_true,
    beq_iff_eq] at ha
  obtain ⟨i, hi, hall⟩ := h.held ha.2
  rw [hi, hall e he ha.1]

/-- A save that is accepted, by the holder or by a user. -/
theorem ClaimInv.save (h : ClaimInv s) {before : Monitor A} {applied : MonitorApplied A}
    {now : Instant} {i : Option ℕ} (hi : ∀ j, i = some j → s.holder = some j) :
    ClaimInv (s.save before applied now i) := by
  rw [MonitorStore.save]
  split_ifs
  · refine ⟨h.running, by rintro ⟨⟩, by rintro j ⟨⟩, ?_, ?_, rfl, ?_⟩
    · cases i with
      | none => exact h.nodup
      | some j => exact List.nodup_cons.2 ⟨(h.holder j (hi j rfl)).2, h.nodup⟩
    · cases i with
      | none => exact h.committed
      | some j =>
        intro k hk
        rcases List.mem_cons.1 hk with rfl | hk
        · exact (h.holder k (hi k rfl)).1
        · exact h.committed k hk
    · intro edit hedit
      obtain ⟨old, hold, rfl⟩ := List.mem_map.1 hedit
      exact h.edits old hold
  · exact h

theorem ClaimInv.evaluate (h : ClaimInv s) {e : Evaluation A} (he : e ∈ s.evaluations)
    (outcome : Outcome) (now : Instant) : ClaimInv (s.evaluate e outcome now) := by
  cases ha : s.row.accepts (outcome.applied e.monitor e.token).monitor with
  | false =>
    rw [MonitorStore.evaluate, save_refused ha]
    exact h
  | true =>
    refine h.save fun j hj ↦ ?_
    rw [h.accepted he ha]
    exact hj

theorem ClaimInv.claim (h : ClaimInv s) {at' : Instant} (hf : ∀ e ∈ s.evaluations, e.token ≠ at') :
    ClaimInv (s.claim at') where
  running := by
    intro e he
    rcases List.mem_cons.1 he with rfl | he
    · exact ⟨Nat.lt_succ_self _, rfl⟩
    · exact ⟨(h.running e he).1.trans (Nat.lt_succ_self _), (h.running e he).2⟩
  held := by
    refine fun _ ↦ ⟨s.claims, rfl, fun e he ht ↦ ?_⟩
    rcases List.mem_cons.1 he with rfl | he
    · rfl
    · exact absurd (Option.some.inj ht).symm (hf e he)
  holder := by
    intro i hi
    obtain rfl := Option.some.inj hi
    exact ⟨Nat.lt_succ_self _, fun hm ↦ lt_irrefl _ (h.committed _ hm)⟩
  nodup := h.nodup
  committed i hi := (h.committed i hi).trans (Nat.lt_succ_self _)
  row := h.row
  edits := h.edits

theorem ClaimInv.commit (h : ClaimInv s) (loaded : Monitor A) (now : Instant)
    (r : MonitorResult A) : ClaimInv (s.commit loaded now r) := by
  cases r with
  | error e => exact h
  | ok applied =>
    rw [MonitorStore.commit]
    split_ifs
    · exact h
    · exact h.save (by rintro j ⟨⟩)

theorem step_claimInv {a : StoreAction A} (h : ClaimInv s) (hf : s.FreshToken a)
    (hs : s.step isScalar a = some t) : ClaimInv t := by
  cases a with
  | claim at' =>
    rw [step] at hs
    split_ifs at hs
    exact Option.some.inj hs ▸ h.claim hf
  | evaluate i outcome now =>
    obtain ⟨e, he, rfl⟩ := Option.map_eq_some_iff.1 hs
    exact h.evaluate (lookup_eq_some he).1 outcome now
  | finish i =>
    obtain rfl := Option.some.inj hs
    refine ⟨fun e he ↦ h.running e (mem_remove.1 he).1, fun hc ↦ ?_, h.holder, h.nodup, h.committed,
      h.row, h.edits⟩
    obtain ⟨j, hj, hall⟩ := h.held hc
    exact ⟨j, hj, fun e he ↦ hall e (mem_remove.1 he).1⟩
  | load =>
    obtain rfl := Option.some.inj hs
    refine ⟨h.running, h.held, h.holder, h.nodup, h.committed, h.row, fun edit hedit ↦ ?_⟩
    rcases List.mem_append.1 hedit with hedit | hedit
    · exact h.edits edit hedit
    · rw [List.mem_singleton.1 hedit]
      exact h.row
  | edit i command at' now =>
    obtain ⟨edit, -, rfl⟩ := Option.map_eq_some_iff.1 hs
    exact h.commit edit.loaded now _

theorem ClaimInv.fenced (h : ClaimInv s) (a : StoreAction A) : s.EvaluationFenced isScalar a where
  superseded := by
    rintro i outcome now rfl hn t hs
    obtain ⟨e, he, rfl⟩ := Option.map_eq_some_iff.1 hs
    obtain ⟨hmem, rfl⟩ := lookup_eq_some he
    rw [MonitorStore.evaluate, save_refused (Bool.eq_false_iff.2 fun ha ↦ hn (h.accepted hmem ha))]
    exact ⟨rfl, rfl⟩
  together := by
    rintro i outcome now rfl t hs
    obtain ⟨e, he, rfl⟩ := Option.map_eq_some_iff.1 hs
    obtain ⟨-, rfl⟩ := lookup_eq_some he
    rw [MonitorStore.evaluate, MonitorStore.save]
    split_ifs
    · exact .inr ⟨e, he, rfl, rfl, rfl⟩
    · exact .inl ⟨rfl, rfl, rfl⟩

/-- Evaluations are fenced along every run that never claims at the token of an evaluation still
running, and each claim is committed by one evaluation at most. -/
theorem evaluations_fenced (isScalar : A → Except MonitorError Unit) (m : Monitor A)
    (deliveries : Deliveries) {actions : List (StoreAction A)}
    (h : Along (step isScalar) FreshToken (initial m deliveries) actions) :
    Along (step isScalar) (EvaluationFenced isScalar) (initial m deliveries) actions ∧
      Throughout (step isScalar) (fun s ↦ s.commits.Nodup) (initial m deliveries) actions := by
  refine ⟨h.imp (fun _ _ _ ↦ step_claimInv) (fun _ a hi _ ↦ hi.fenced a) (initial_inv m deliveries),
    ?_⟩
  exact (throughout_of_along (fun _ _ _ ↦ step_claimInv) (initial_inv m deliveries) h).mono
    fun _ ↦ ClaimInv.nodup

def sampleMonitor : Monitor Unit where
  id := js "m"
  workspace := js "w"
  project := js "p"
  name := js "Signups"
  analysis := ()
  threshold := ⟨.above, (10 : ℤ)⟩
  cooldown := defaultCooldown
  channels := [.email (js "a")]
  enabled := true
  state := .ok
  lastNotifiedAt := none
  lastValue := none
  lastAttemptAt := none
  lastMeasuredAt := none
  evaluationError := none
  evaluationClaim := none

def newName : MonitorUpdate Unit := ⟨some (js "Sales"), none, none, none, none⟩

def anyScalar : Unit → Except MonitorError Unit := fun _ ↦ .ok ()

/-- A user's save clears a claim, and another worker claims a millisecond later. -/
def takenOver (again : Instant) : List (StoreAction Unit) :=
  [.claim 1000, .load, .edit 0 (.update newName) 1000 1000, .claim again]

/-- Within the same millisecond both claims have one token, and the superseded evaluation writes. -/
theorem superseded_writes : ¬ ∀ actions : List (StoreAction Unit),
    Along (step anyScalar) (EvaluationFenced anyScalar) (initial sampleMonitor []) actions := by
  intro h
  have hf := (h (takenOver 1000 ++ [.evaluate 0 (.measured (15 : ℤ)) 1000])).after
    (l := takenOver 1000) rfl
  have hrow := (hf.superseded 0 _ 1000 rfl (by decide) _ rfl).1
  exact absurd (congrArg MonitorRow.claimedUntil hrow) (by decide)

theorem evaluations_fenced_sample :
    Along (step anyScalar) (EvaluationFenced anyScalar) (initial sampleMonitor []) (takenOver 1001) ∧
      Throughout (step anyScalar) (fun s ↦ s.commits.Nodup) (initial sampleMonitor [])
        (takenOver 1001) := by
  refine evaluations_fenced anyScalar sampleMonitor [] ⟨?_, ?_⟩
  · rintro e ⟨⟩
  · intro s₁ h₁
    obtain rfl := Option.some.inj h₁
    refine ⟨trivial, fun s₂ h₂ ↦ ?_⟩
    obtain rfl := Option.some.inj h₂
    refine ⟨trivial, fun s₃ h₃ ↦ ?_⟩
    obtain rfl := Option.some.inj h₃
    refine ⟨?_, fun _ _ ↦ trivial⟩
    intro e he
    obtain rfl := List.mem_singleton.1 he
    decide

end MonitorStore

end Counted.Dashboarding
