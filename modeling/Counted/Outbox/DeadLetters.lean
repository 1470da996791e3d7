import Counted.Foundations.Run
import Counted.Outbox.Dispatch

namespace Counted.Outbox

open Foundations

/-- The table against the failures recorded in it: each row counts its own, up to a bound. -/
structure Tallied (maxAttempts : ℕ) (t : OutboxTable) (failures : List EnvelopeId) : Prop where
  counted : ∀ row ∈ t.rows, failures.count row.id = row.attempts
  known : ∀ id ∈ failures, id ∈ t.rows.map (·.id)
  bounded : ∀ row ∈ t.rows, row.attempts ≤ maxAttempts

section Table

variable {maxAttempts : ℕ} {t : OutboxTable} {failures ids : List EnvelopeId}
  {f : OutboxRow → OutboxRow} {hf : ∀ row, (f row).id = row.id}

/-- An update that leaves the attempts alone. -/
theorem Tallied.update (h : Tallied maxAttempts t failures)
    (ha : ∀ row, (f row).attempts = row.attempts) :
    Tallied maxAttempts (t.update ids f hf) failures := by
  refine ⟨fun row hr ↦ ?_, fun id hid ↦ ?_, fun row hr ↦ ?_⟩
  · rcases OutboxTable.mem_update.1 hr with ⟨r, hm, -, rfl⟩ | ⟨hm, -⟩
    · rw [hf, ha]
      exact h.counted r hm
    · exact h.counted row hm
  · rw [OutboxTable.map_id_update]
    exact h.known id hid
  · rcases OutboxTable.mem_update.1 hr with ⟨r, hm, -, rfl⟩ | ⟨hm, -⟩
    · rw [ha]
      exact h.bounded r hm
    · exact h.bounded row hm

theorem Tallied.insert (h : Tallied maxAttempts t failures) (e : EventEnvelope) :
    Tallied maxAttempts (t.insert e) failures := by
  refine ⟨fun row hr ↦ ?_, fun id hid ↦ ?_, fun row hr ↦ ?_⟩
  · rcases OutboxTable.mem_insert hr with hr | ⟨hn, rfl⟩
    · exact h.counted row hr
    · exact List.count_eq_zero.2 fun hm ↦ hn (h.known _ hm)
  · rw [OutboxTable.insert]
    split_ifs
    · exact h.known id hid
    · rw [List.map_append]
      exact List.mem_append_left _ (h.known id hid)
  · rcases OutboxTable.mem_insert hr with hr | ⟨-, rfl⟩
    · exact h.bounded row hr
    · exact Nat.zero_le _

theorem Tallied.enqueue (h : Tallied maxAttempts t failures) (events : List EventEnvelope) :
    Tallied maxAttempts (t.enqueue events) failures := by
  induction events generalizing t with
  | nil => exact h
  | cons e events ih => exact ih (h.insert e)

/-- A failure recorded below the bound. -/
theorem Tallied.recordFailure (h : Tallied maxAttempts t failures) {id : EnvelopeId}
    {detail : JsString} {at' : Instant} (hid : id ∈ t.rows.map (·.id))
    (hlt : ∀ row ∈ t.rows, row.id = id → row.attempts < maxAttempts) :
    Tallied maxAttempts (t.recordFailure id detail at') (id :: failures) := by
  refine ⟨fun row hr ↦ ?_, fun id' hm ↦ ?_, fun row hr ↦ ?_⟩
  · rcases OutboxTable.mem_update.1 hr with ⟨r, hm, he, rfl⟩ | ⟨hm, hne⟩
    · obtain rfl := List.mem_singleton.1 he
      have hc := h.counted r hm
      simp only [List.count_cons_self, hc]
    · rw [List.count_cons_of_ne fun he ↦ hne (List.mem_singleton.2 he.symm)]
      exact h.counted row hm
  · rw [OutboxTable.recordFailure, OutboxTable.map_id_update]
    rcases List.mem_cons.1 hm with rfl | hm
    · exact hid
    · exact h.known id' hm
  · rcases OutboxTable.mem_update.1 hr with ⟨r, hm, he, rfl⟩ | ⟨hm, -⟩
    · exact hlt r hm (List.mem_singleton.1 he)
    · exact h.bounded row hm

/-- An envelope has failed no more often than the bound. -/
theorem Tallied.count_le (h : Tallied maxAttempts t failures) (id : EnvelopeId) :
    failures.count id ≤ maxAttempts := by
  by_cases hid : id ∈ failures
  · obtain ⟨row, hr, rfl⟩ := List.mem_map.1 (h.known id hid)
    rw [h.counted row hr]
    exact h.bounded row hr
  · rw [List.count_eq_zero.2 hid]
    exact Nat.zero_le _

end Table

namespace OutboxSystem

variable (deps : OutboxDispatchDeps)

/-- No envelope fails more often than `maxAttempts` times, and none is claimed once it has. -/
def StayDead (s : OutboxSystem) : Prop :=
  (∀ id, s.failures.count id ≤ deps.maxAttempts) ∧ ∀ c ∈ s.claims, c.2 < deps.maxAttempts

/-- A claim finds no free dead letter before its limit, and a failure is recorded where none has
been recorded since the envelope was claimed. -/
def LeavesDeadLetters (s : OutboxSystem) : OutboxAction → Prop
  | .claim _ dbNow locked => ∀ row ∈ s.table.claimable dbNow deps.leaseTime locked,
    deps.maxAttempts ≤ row.attempts →
      deps.batch ≤ (s.table.claimable dbNow deps.leaseTime locked).countP
        (fun r ↦ !envelopeLe deps.collation row.toEventEnvelope r.toEventEnvelope)
  | .deliveryFails index _ recording => recording ≠ .failed →
    ∀ p held, s.passes[index]? = some p → p.pending.head? = some held →
      ∀ row ∈ s.table.rows, row.id = held.envelope.id → row.attempts = held.attempts
  | .enqueue _ | .deliver _ | .finish .. | .crash _ => True

structure DeadLetterInv (s : OutboxSystem) : Prop where
  tallied : Tallied deps.maxAttempts s.table s.failures
  held : ∀ p ∈ s.passes, ∀ x ∈ p.pending, x.attempts < deps.maxAttempts
  claims : ∀ c ∈ s.claims, c.2 < deps.maxAttempts

variable {deps} {s t : OutboxSystem} {index : ℕ} {p : Pass} {held : Held} {rest : List Held}
  {a : OutboxAction}

theorem empty_inv : DeadLetterInv deps empty where
  tallied := ⟨by rintro _ ⟨⟩, by rintro _ ⟨⟩, by rintro _ ⟨⟩⟩
  held := by rintro _ ⟨⟩
  claims := by rintro _ ⟨⟩

theorem DeadLetterInv.stayDead (h : DeadLetterInv deps s) : StayDead deps s :=
  ⟨h.tallied.count_le, h.claims⟩

theorem DeadLetterInv.drop (h : DeadLetterInv deps s) (index : ℕ) :
    DeadLetterInv deps (s.drop index) :=
  ⟨h.tallied, fun p hp ↦ h.held p (List.mem_of_mem_eraseIdx hp), h.claims⟩

/-- A pass that moves on keeps of its envelopes what it has not handed to a handler. -/
theorem DeadLetterInv.moveOn (h : DeadLetterInv deps s) (hp : s.passes[index]? = some p)
    (hc : p.pending = held :: rest) {q : Pass} (hq : q.pending = rest) :
    ∀ p ∈ s.passes.set index q, ∀ x ∈ p.pending, x.attempts < deps.maxAttempts := by
  intro r hr x hx
  rcases List.mem_or_eq_of_mem_set hr with hr | rfl
  · exact h.held r hr x hx
  · refine h.held p (List.mem_of_getElem? hp) x ?_
    rw [hc]
    exact .tail _ (hq ▸ hx)

theorem DeadLetterInv.leased (h : DeadLetterInv deps s) {now dbNow : Instant}
    {locked : List EnvelopeId} (hl : s.LeavesDeadLetters deps (.claim now dbNow locked)) :
    DeadLetterInv deps (s.leased deps now dbNow locked) := by
  have hrows : ∀ row ∈ claimRows deps s.table dbNow locked, row.attempts < deps.maxAttempts := by
    intro row hr
    by_contra hd
    have hc : row ∈ s.table.claimable dbNow deps.leaseTime locked :=
      List.mem_mergeSort.1 (List.mem_of_mem_take hr)
    have hlt := OutboxTable.before_selected hr
    have hle := hl row hc (not_lt.1 hd)
    omega
  have htable : Tallied deps.maxAttempts (Outbox.claim deps s.table dbNow locked).2 s.failures := by
    rcases claim_table deps s.table dbNow locked with ht | ht
    · rw [ht]
      exact h.tallied
    · rw [ht]
      exact h.tallied.update fun _ ↦ rfl
  refine ⟨htable, fun p hp x hx ↦ ?_, fun c hc ↦ ?_⟩
  · rw [OutboxSystem.leased] at hp
    cases hcl : (Outbox.claim deps s.table dbNow locked).1 with
    | error e =>
      simp only [hcl] at hp
      exact h.held p hp x hx
    | ok held =>
      simp only [hcl] at hp
      rcases List.mem_append.1 hp with hp | hp
      · exact h.held p hp x hx
      · obtain rfl := List.mem_singleton.1 hp
        obtain ⟨row, hr, -, ha⟩ := claim_held hcl hx
        exact ha ▸ hrows row hr
  · rcases List.mem_append.1 hc with hc | hc
    · obtain ⟨row, hr, rfl⟩ := List.mem_map.1 hc
      exact hrows row hr
    · exact h.claims c hc

/-- A failure whose statement took effect. -/
theorem DeadLetterInv.record (h : DeadLetterInv deps s) (hp : s.passes[index]? = some p)
    (hc : p.pending = held :: rest) (detail : JsString) {attempts : ℕ}
    (ha : s.table.attemptsOf held.envelope.id = some attempts)
    (hl : ∀ row ∈ s.table.rows, row.id = held.envelope.id → row.attempts = held.attempts) :
    DeadLetterInv deps (s.record index p held detail) := by
  have hlt : held.attempts < deps.maxAttempts := by
    refine h.held p (List.mem_of_getElem? hp) held ?_
    rw [hc]
    exact .head _
  have hid : held.envelope.id ∈ s.table.rows.map (·.id) := by
    obtain ⟨row, hr, -⟩ := Option.map_eq_some_iff.1 ha
    have hri : row.id = held.envelope.id := by simpa using List.find?_some hr
    exact hri ▸ List.mem_map_of_mem (List.mem_of_find?_eq_some hr)
  refine ⟨h.tallied.recordFailure hid fun row hr he ↦ ?_, (h.drop index).held, h.claims⟩
  exact hl row hr he ▸ hlt

theorem DeadLetterInv.failed (h : DeadLetterInv deps s) (hp : s.passes[index]? = some p)
    (hc : p.pending = held :: rest) (detail : JsString) {recording : Recording}
    (hl : recording ≠ .failed →
      ∀ row ∈ s.table.rows, row.id = held.envelope.id → row.attempts = held.attempts) :
    DeadLetterInv deps (s.failed deps index p held rest detail recording) := by
  cases ha : s.table.attemptsOf held.envelope.id with
  | none =>
    have hd : s.failed deps index p held rest detail recording = s.drop index := by
      cases recording <;> simp only [OutboxSystem.failed, ha]
    exact hd ▸ h.drop index
  | some attempts =>
    cases recording with
    | failed =>
      have hd : s.failed deps index p held rest detail .failed = s.drop index := by
        simp only [OutboxSystem.failed]
      exact hd ▸ h.drop index
    | lost =>
      simp only [OutboxSystem.failed, ha]
      exact h.record hp hc detail ha (hl (by decide))
    | answered =>
      simp only [OutboxSystem.failed, ha]
      obtain ⟨ht, -, hcl⟩ := h.record hp hc detail ha (hl (by decide))
      exact ⟨ht, h.moveOn hp hc rfl, hcl⟩

theorem step_inv (h : DeadLetterInv deps s) (hl : s.LeavesDeadLetters deps a)
    (hs : s.step deps a = some t) : DeadLetterInv deps t := by
  cases a with
  | enqueue events =>
    obtain rfl := Option.some.inj hs
    exact ⟨h.tallied.enqueue events, h.held, h.claims⟩
  | claim now dbNow locked =>
    obtain rfl := Option.some.inj hs
    exact h.leased hl
  | deliver index =>
    obtain ⟨p, hp, hs⟩ := Option.bind_eq_some_iff.1 hs
    cases hc : p.pending with
    | nil =>
      rw [hc] at hs
      cases hs
    | cons held rest =>
      rw [hc] at hs
      obtain rfl := Option.some.inj hs
      exact ⟨h.tallied, h.moveOn hp hc rfl, h.claims⟩
  | deliveryFails index detail recording =>
    obtain ⟨p, hp, hs⟩ := Option.bind_eq_some_iff.1 hs
    cases hc : p.pending with
    | nil =>
      rw [hc] at hs
      cases hs
    | cons held rest =>
      rw [hc] at hs
      obtain rfl := Option.some.inj hs
      refine h.failed hp hc detail fun hr ↦ hl hr p held hp ?_
      rw [hc]
      rfl
  | finish index returned =>
    obtain ⟨p, hp, hs⟩ := Option.bind_eq_some_iff.1 hs
    cases hc : p.pending with
    | nil =>
      rw [hc] at hs
      obtain rfl := Option.some.inj hs
      refine ⟨?_, (h.drop index).held, h.claims⟩
      change Tallied deps.maxAttempts (p.mark s.table) s.failures
      rw [Pass.mark]
      split_ifs
      · exact h.tallied
      · exact h.tallied.update fun _ ↦ rfl
    | cons held rest =>
      rw [hc] at hs
      cases hs
  | crash index =>
    obtain rfl := Option.some.inj hs
    exact h.drop index

/-- Dead letters stay dead in every run whose claims find none of them free. -/
theorem stay_dead (deps : OutboxDispatchDeps) {actions : List OutboxAction}
    (h : Along (step deps) (LeavesDeadLetters deps) empty actions) :
    Throughout (step deps) (StayDead deps) empty actions :=
  (throughout_of_along (fun _ _ _ ↦ step_inv) empty_inv h).mono fun _ ↦ DeadLetterInv.stayDead

def codeUnits : Collation where
  le := JsString.le
  total := by
    intro a b
    rw [Bool.or_eq_true]
    exact JsString.le_total a b
  trans := fun _ _ _ ↦ JsString.le_trans

def oneAttempt : OutboxDispatchDeps := ⟨10, 1, 300000, codeUnits, codeUnits⟩

def renamed : EventEnvelope :=
  ⟨js "e", js "ProjectRenamed", 0, .obj [(js "kind", .str (js "ProjectRenamed")), (js "at", .num (0 : ℤ))]⟩

/-- The one attempt fails, and the next pass claims the dead letter. -/
theorem dead_letter_claimed : ¬ ∀ actions : List OutboxAction,
    Throughout (step oneAttempt) (StayDead oneAttempt) empty actions := by
  intro h
  have h₁ := (h [.enqueue [renamed], .claim 0 0 [], .deliveryFails 0 (js "502") .answered,
    .finish 0 true, .claim 1 1 []]).2 _ rfl
  have h₂ := h₁.2 _ rfl
  rw [leased_single (.ofEnvelope renamed) ⟨renamed, 0⟩ rfl (by decide) rfl] at h₂
  have h₃ := (h₂.2 _ rfl).2 _ rfl
  have h₄ := h₃.2 _ rfl
  rw [leased_single { OutboxRow.ofEnvelope renamed with
    attempts := 1
    lastError := some (js "502")
    lastFailedAt := some 0 } ⟨renamed, 1⟩ rfl (by decide) rfl] at h₄
  exact absurd (h₄.2 _ (.head _)) (by decide)

/-- A pass claims an envelope whose delivery then fails. -/
theorem stay_dead_sample : Throughout (step oneAttempt) (StayDead oneAttempt) empty
    [.enqueue [renamed], .claim 0 0 [], .deliveryFails 0 (js "502") .answered, .finish 0 true] := by
  refine stay_dead oneAttempt ⟨trivial, fun s₁ h₁ ↦ ⟨?_, fun s₂ h₂ ↦ ⟨?_, fun s₃ h₃ ↦
    ⟨trivial, fun _ _ ↦ trivial⟩⟩⟩⟩
  · obtain rfl := Option.some.inj h₁
    intro row hr ha
    obtain rfl := List.mem_singleton.1 hr
    exact absurd ha (by decide)
  · obtain rfl := Option.some.inj h₁
    obtain rfl := Option.some.inj h₂
    rw [leased_single (.ofEnvelope renamed) ⟨renamed, 0⟩ rfl (by decide) rfl]
    intro _ p held hp hh row hr _
    obtain rfl := Option.some.inj hp
    obtain rfl := Option.some.inj hh
    obtain rfl := List.mem_singleton.1 hr
    rfl

end OutboxSystem

end Counted.Outbox
