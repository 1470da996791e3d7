import Counted.Foundations.Run
import Counted.Sdk.Scripts

namespace Counted.Sdk

open Foundations

namespace SdkClient

variable {E : Type} {t : SdkTraits} {c : SdkClient E}

/-- A client that has been stopped holds nothing. -/
def Quiet (c : SdkClient E) : Prop := c.disabled = true → c.buffer = []

theorem quiet_of_enabled (h : c.disabled = false) : c.Quiet := fun hd ↦ by simp [h] at hd

/-- An answer stops the client only where it empties the buffer. -/
theorem quiet_settle (h : c.disabled = false) (batch : List E) (heard : Heard) (now random : ℚ) :
    (c.settle t batch heard now random).Quiet := by
  cases heard with
  | failed =>
    have hd : ((c.requeue t batch).backOff t now random).disabled = false :=
      (disabled_requeue batch).trans h
    rw [settle]
    split_ifs <;> exact quiet_of_enabled hd
  | answer a =>
    rw [settle, settleAnswer]
    split_ifs
    · rw [accept]
      split_ifs <;> exact quiet_of_enabled h
    · exact quiet_of_enabled (((disabled_retryAt now random a.retryAfter)).trans
        ((disabled_requeue batch).trans h))
    · exact fun _ ↦ rfl
    · exact quiet_of_enabled h

theorem enabled_of_batch {now : ℚ} (h : c.batch t now ≠ []) : c.disabled = false := by
  rw [batch, blocked] at h
  by_contra hd
  rw [Bool.not_eq_false] at hd
  simp [hd] at h

/-- A batch that is accepted is not seen again. -/
theorem settle_accepts {heard : Heard} (h : heard.accepts = true) (batch : List E)
    (now random : ℚ) : (c.settle t batch heard now random).buffer = c.buffer := by
  cases heard with
  | failed => cases h
  | answer a =>
    have hstatus : 200 ≤ a.status ∧ a.status < 300 := by simpa [Heard.accepts] using h
    rw [settle, settleAnswer, if_pos hstatus, accept]
    split_ifs <;> rfl

end SdkClient

namespace Conversation

variable {sdk : Sdk} {k : SdkSizes} {server : Server} {c : Conversation}

def Quiet (c : Conversation) : Prop := c.client.Quiet

theorem Quiet.flush (h : c.Quiet) (sdk : Sdk) (k : SdkSizes) (server : Server) :
    (c.flush sdk k server).Quiet := by
  unfold Conversation.flush
  dsimp only
  by_cases hnil : c.client.batch (sdk.traits k) c.clock = []
  · rw [if_pos hnil]
    intro hd
    have hdis : c.client.disabled = true := (SdkClient.disabled_taken _).symm.trans hd
    change (c.client.taken (sdk.traits k) c.clock).buffer = []
    rw [SdkClient.taken, SdkClient.blocked, hdis]
    exact h hdis
  · rw [if_neg hnil]
    exact SdkClient.quiet_settle
      ((SdkClient.disabled_taken _).trans (SdkClient.enabled_of_batch hnil)) _ _ _ _

theorem currentVisit_client (c : Conversation) : c.currentVisit.1.client = c.client := by
  rw [currentVisit]
  cases c.visit with
  | none => rfl
  | some v =>
    dsimp only
    split_ifs <;> rfl

theorem Quiet.step (h : c.Quiet) (sdk : Sdk) (k : SdkSizes) (server : Server) (a : ScriptStep) :
    (c.step sdk k server a).Quiet := by
  cases a with
  | track name =>
    rw [Conversation.step, track]
    split_ifs with hclosed
    · exact h
    · have hpushed (e : ScriptEvent) : (c.currentVisit.1.client.push (sdk.traits k) e).Quiet := by
        refine SdkClient.quiet_of_enabled (SdkClient.disabled_trim.trans ?_)
        rw [SdkClient.append, currentVisit_client]
        exact (Bool.or_eq_false_iff.1 (Bool.not_eq_true _ ▸ hclosed)).2
      dsimp only
      split_ifs
      · refine Quiet.flush ?_ sdk k server
        exact hpushed _
      · exact hpushed _
  | identify userId => exact h
  | reset => exact h
  | flush => exact h.flush sdk k server
  | shutdown =>
    refine Quiet.flush ?_ sdk k server
    exact h
  | advance ms => exact h

theorem quiet_play (sdk : Sdk) (k : SdkSizes) (server : Server) (l : List ScriptStep) :
    (play sdk k server initial l).Quiet := by
  have hgen (l : List ScriptStep) : ∀ c : Conversation, c.Quiet → (play sdk k server c l).Quiet := by
    induction l with
    | nil => exact fun _ h ↦ h
    | cons a l ih => exact fun c h ↦ ih _ (h.step sdk k server a)
  exact hgen l initial fun _ ↦ rfl

/-- A shutdown sends all that was queued, each event once, and leaves nothing. -/
def Sends (c d : Conversation) : Prop :=
  d.client.buffer = [] ∧
    ∀ e, d.acknowledged.count e = c.acknowledged.count e + c.client.buffer.count e

/-- A flush with which the server agrees sends what it can take, and the rest stays. -/
theorem flush_accepted (sdk : Sdk) (k : SdkSizes) (hc : c.Quiet) (haccepts : (server c.sent.length).1.accepts = true)
    (hpause : c.client.pausedUntil ≤ c.clock) :
    (c.flush sdk k server).client.buffer = c.client.buffer.drop k.maxBatch ∧
      (c.flush sdk k server).acknowledged =
        c.acknowledged ++ c.client.buffer.take k.maxBatch := by
  have hpaused : decide ((c.clock : ℚ) < c.client.pausedUntil) = false :=
    decide_eq_false (not_lt.2 hpause)
  unfold Conversation.flush
  dsimp only
  cases hd : c.client.disabled with
  | true =>
    have hnil := hc hd
    rw [SdkClient.batch, SdkClient.taken, SdkClient.blocked, hd]
    simp [hnil]
  | false =>
    have hbatch : c.client.batch (sdk.traits k) c.clock = c.client.buffer.take k.maxBatch := by
      rw [SdkClient.batch, SdkClient.blocked, hd, hpaused]
      rfl
    have htaken : (c.client.taken (sdk.traits k) c.clock).buffer =
        c.client.buffer.drop k.maxBatch := by
      rw [SdkClient.taken, SdkClient.blocked, hd, hpaused]
      rfl
    rw [hbatch]
    by_cases hnil : c.client.buffer.take k.maxBatch = []
    · rw [if_pos hnil]
      exact ⟨htaken, by rw [hnil, List.append_nil]⟩
    · rw [if_neg hnil]
      exact ⟨(SdkClient.settle_accepts haccepts _ _ _).trans htaken, if_pos haccepts⟩

theorem shutdown_sends_iff (hc : c.Quiet) (haccepts : (server c.sent.length).1.accepts = true)
    (hpause : c.client.pausedUntil ≤ c.clock) :
    c.Sends (c.shutdown sdk k server) ↔ c.client.buffer.length ≤ k.maxBatch := by
  obtain ⟨hbuffer, hack⟩ := flush_accepted
    (c := { c with client := { c.client with closed := true } }) sdk k hc haccepts hpause
  rw [Sends, shutdown, hbuffer, hack, List.drop_eq_nil_iff]
  refine and_iff_left_of_imp fun hle e ↦ ?_
  rw [List.count_append, List.take_of_length_le hle]

end Conversation

namespace Session

variable {ar : Arithmetic} {o : CountedOptions} {s t : Session} {a : ClientAction}

/-- A client that has been stopped has nothing queued and nothing in flight. -/
def Quiet (s : Session) : Prop := s.disabled = true → s.queue.events = [] ∧ s.inFlight = none

theorem Quiet.report (h : s.Quiet) (d : Diagnostic) : (s.report d).Quiet := h

theorem Quiet.drain (h : s.Quiet) (o : CountedOptions) (now : JsNumber) : (s.drain o now).Quiet := by
  rw [Session.drain]
  dsimp only
  split_ifs with hidle hpaused hnil
  · exact h
  · exact h
  all_goals
    have hd : s.disabled = false := (Bool.or_eq_false_iff.1 (Bool.not_eq_true _ ▸ hidle)).1
    exact fun hdis ↦ absurd hdis (by simp [hd])

theorem Quiet.flush (h : s.Quiet) (o : CountedOptions) (now : JsNumber) : (s.flush o now).Quiet := by
  rw [Session.flush]
  split_ifs
  · exact h
  · exact h.drain o now

theorem reportReceipt_fields (s : Session) (receipt : IngestReceipt) :
    (s.reportReceipt receipt).queue = s.queue ∧ (s.reportReceipt receipt).inFlight = s.inFlight ∧
      (s.reportReceipt receipt).disabled = s.disabled ∧
      (s.reportReceipt receipt).acknowledged = s.acknowledged := by
  have hr : (s.reportRejected receipt).queue = s.queue ∧
      (s.reportRejected receipt).inFlight = s.inFlight ∧
      (s.reportRejected receipt).disabled = s.disabled ∧
      (s.reportRejected receipt).acknowledged = s.acknowledged := by
    rw [reportRejected]
    split_ifs <;> exact ⟨rfl, rfl, rfl, rfl⟩
  rw [reportReceipt]
  cases receipt.quota with
  | none => exact hr
  | some quota =>
    rw [reportQuota]
    split_ifs <;> exact hr

theorem Quiet.step (h : s.Quiet) (ha : s.step ar o a = some t) : t.Quiet := by
  cases a with
  | track event now =>
    obtain rfl := Option.some.inj ha
    rw [Session.track]
    dsimp only
    by_cases hc : (s.closed || s.disabled) = true
    · rwa [if_pos hc]
    · have hd : s.disabled = false := (Bool.or_eq_false_iff.1 (Bool.not_eq_true _ ▸ hc)).2
      have hp : (s.pushed event).Quiet := fun hdis ↦ absurd hdis (by simp [pushed, hd])
      rw [if_neg hc]
      split_ifs
      · exact Quiet.flush (hp.report _) o now
      · exact hp.report _
      · exact hp.flush o now
      · exact hp
  | flush now =>
    obtain rfl := Option.some.inj ha
    exact h.flush o now
  | timer now =>
    rw [Session.step] at ha
    split_ifs at ha
    obtain rfl := Option.some.inj ha
    exact h.flush o now
  | hidden sent =>
    rw [Session.step] at ha
    split_ifs at ha
    obtain rfl := Option.some.inj ha
    rw [Session.hidden]
    dsimp only
    split_ifs with hnil
    all_goals
      intro hdis
      have hq := h hdis
      simp_all [EventQueue.take]
  | shutdown now =>
    obtain rfl := Option.some.inj ha
    exact Quiet.flush (s := { s with closed := true, timer := false }) h o now
  | reply reply now random =>
    obtain ⟨batch, hb, rfl⟩ := Option.map_eq_some_iff.1 ha
    have hd : s.disabled = false := by
      by_contra hd
      simp [(h (Bool.not_eq_false _ ▸ hd)).2] at hb
    cases outcomeOf batch reply with
    | accepted receipt =>
      have hf := reportReceipt_fields { s with
        inFlight := none, attempt := 0, acknowledged := s.acknowledged ++ batch } receipt
      exact fun hdis ↦ absurd (hf.2.2.1.symm.trans hdis) (by simp [hd])
    | refused status detail =>
      rw [handle]
      dsimp only
      split_ifs
      · refine fun _ ↦ ⟨?_, rfl⟩
        simp [Session.disable, Session.report, EventQueue.take, EventQueue.size]
      · exact fun hdis ↦ absurd hdis (by simp [Session.report, hd])
    | retry status wait detail =>
      cases wait <;> exact fun hdis ↦ absurd hdis (by simp [handle, requeued, backedOff, hd])

/-- A shutdown is over when the request it waits for has been answered: here, with a receipt. -/
def afterShutdown (ar : Arithmetic) (o : CountedOptions) (s : Session) (now : JsNumber)
    (receipt : Option IngestReceipt) (later random : JsNumber) : Session :=
  let t := s.shutdown o now
  match t.inFlight with
  | none => t
  | some batch =>
    { t with inFlight := none }.handle ar batch later random (outcomeOf batch (.ok receipt))

/-- All that was queued or in flight is acknowledged once, and nothing is left. -/
def Sends (s t : Session) : Prop :=
  t.queue.events = [] ∧ ∀ e, t.acknowledged.count e =
    s.acknowledged.count e + (s.inFlight.getD []).count e + s.queue.events.count e

theorem answered (ar : Arithmetic) (t : Session) (batch : List QueuedEvent) (receipt : Option IngestReceipt)
    (later random : JsNumber) :
    let u := { t with inFlight := none }.handle ar batch later random
      (outcomeOf batch (.ok receipt))
    u.queue = t.queue ∧ u.acknowledged = t.acknowledged ++ batch := by
  have hf := reportReceipt_fields { t with
    inFlight := none, attempt := 0, acknowledged := t.acknowledged ++ batch }
    (receipt.getD ⟨batch.length, 0, 0, [], none⟩)
  exact ⟨hf.1, hf.2.2.2⟩

/-- A shutdown joins the request in flight, or sends one batch. -/
theorem shutdown_sends_iff (h : s.Quiet) {now : JsNumber} (hpause : now.lt s.pausedUntil = false)
    (receipt : Option IngestReceipt) (later random : JsNumber) :
    s.Sends (s.afterShutdown ar o now receipt later random) ↔
      (s.inFlight = none → s.queue.events.length ≤ o.batchSize.toNat) ∧
        (s.inFlight ≠ none → s.queue.events = []) := by
  cases hf : s.inFlight with
  | some batch =>
    have ht : s.shutdown o now = { s with closed := true, timer := false } := by
      rw [Session.shutdown, Session.flush, if_pos]
      simp [hf]
    have hin : (s.shutdown o now).inFlight = some batch := by rw [ht, hf]
    obtain ⟨hqueue, hack⟩ := answered ar (s.shutdown o now) batch receipt later random
    unfold afterShutdown
    simp only [hin]
    simp only [reduceCtorEq, IsEmpty.forall_iff, ne_eq, not_false_eq_true, true_and, forall_const]
    rw [Sends, hqueue, hack, ht, hf]
    refine and_iff_left_of_imp fun hnil e ↦ ?_
    rw [hnil, List.count_append, Option.getD_some, List.count_nil, Nat.add_zero]
  | none =>
    simp only [ne_eq, not_true_eq_false, IsEmpty.forall_iff, and_true, forall_const]
    have hshut : s.shutdown o now = { s with closed := true, timer := false }.drain o now := by
      rw [Session.shutdown, Session.flush, if_neg]
      simp [hf]
    by_cases hidle : (s.disabled || s.queue.size = 0) = true
    · have hnil : s.queue.events = [] := by
        rcases Bool.or_eq_true _ _ ▸ hidle with hd | hz
        · exact (h hd).1
        · exact List.length_eq_zero_iff.1 (of_decide_eq_true hz)
      have ht : s.shutdown o now = { s with closed := true, timer := false } := by
        rw [hshut, Session.drain, if_pos hidle]
      have hin : (s.shutdown o now).inFlight = none := by rw [ht, hf]
      unfold afterShutdown
      simp only [hin]
      rw [Sends, ht, hf, hnil]
      exact iff_of_true ⟨rfl, fun e ↦ rfl⟩ (Nat.zero_le _)
    · have hbusy : ¬ (now.lt s.pausedUntil = true) := by simp [hpause]
      by_cases hnil : s.queue.events.take o.batchSize.toNat = []
      · have ht : s.shutdown o now = { s with
            closed := true, timer := false, queue := (s.queue.take o.batchSize).2 } := by
          rw [hshut, Session.drain, if_neg hidle, if_neg hbusy]
          exact if_pos hnil
        have hin : (s.shutdown o now).inFlight = none := by rw [ht, hf]
        unfold afterShutdown
        simp only [hin]
        rw [Sends, ht, hf]
        change s.queue.events.drop o.batchSize.toNat = [] ∧ _ ↔ _
        rw [List.drop_eq_nil_iff]
        refine and_iff_left_of_imp fun hle e ↦ ?_
        rw [List.take_of_length_le hle] at hnil
        rw [hnil]
        rfl
      · have ht : s.shutdown o now = { s with
            closed := true, timer := false, queue := (s.queue.take o.batchSize).2
            inFlight := some (s.queue.events.take o.batchSize.toNat)
            sent := s.sent ++ [s.queue.events.take o.batchSize.toNat] } := by
          rw [hshut, Session.drain, if_neg hidle, if_neg hbusy]
          exact if_neg hnil
        have hin : (s.shutdown o now).inFlight = some (s.queue.events.take o.batchSize.toNat) := by
          rw [ht]
        obtain ⟨hqueue, hack⟩ := answered ar (s.shutdown o now)
          (s.queue.events.take o.batchSize.toNat) receipt later random
        unfold afterShutdown
        simp only [hin]
        rw [Sends, hqueue, hack, ht, hf]
        change s.queue.events.drop o.batchSize.toNat = [] ∧ _ ↔ _
        rw [List.drop_eq_nil_iff]
        refine and_iff_left_of_imp fun hle e ↦ ?_
        rw [List.take_of_length_le hle, List.count_append]
        rfl

end Session

section Samples

/-- Nothing is heard of the first request, and every other is accepted. -/
def lateServer : Server
  | 0 => (.failed, 1 / 2)
  | _ + 1 => (.answer ⟨202, none, none, 0⟩, 0)

def sampleTracked (key : JsString) : QueuedEvent :=
  ⟨js "page_viewed", js "v", none, js "2026-08-01T00:00:00.000Z", key, none, none⟩

end Samples

end Counted.Sdk
