import Counted.Sdk.Scripts

namespace Counted.Sdk

/-- When a pause ends for a client that may count whole milliseconds only. -/
def Sdk.instant : Sdk → ℚ → ℚ
  | .javaScript, q | .python, q => q
  | .go, q | .rust, q => (⌊q⌋ : ℤ)

theorem truncate_of_nonneg {q : ℚ} (h : 0 ≤ q) : truncate q = (⌊q⌋ : ℤ) := if_pos h

theorem Sdk.instant_add (sdk : Sdk) (now : ℕ) {q : ℚ} (h : 0 ≤ q) :
    sdk.instant (now + q) = now + sdk.wait q := by
  have hfloor : ((⌊(now : ℚ) + q⌋ : ℤ) : ℚ) = now + (⌊q⌋ : ℤ) := by
    rw [Int.floor_natCast_add]
    push_cast
    rfl
  have hpos : (0 : ℚ) ≤ (⌊q⌋ : ℤ) := Int.cast_nonneg (Int.floor_nonneg.2 h)
  cases sdk with
  | javaScript => rfl
  | python => rfl
  | go => rw [instant, wait, hfloor, truncate_of_nonneg h]
  | rust => rw [instant, wait, hfloor, truncate_of_nonneg h, max_eq_right hpos]

theorem instant_of_flushesWhenFull {sdk : Sdk} {k : SdkSizes} (h : (sdk.traits k).flushesWhenFull = true)
    (q : ℚ) : sdk.instant q = q := by
  cases sdk with
  | javaScript => rfl
  | python => rfl
  | go => exact absurd h Bool.false_ne_true
  | rust => exact absurd h Bool.false_ne_true

/-- An answer that is retried names a date. -/
def Heard.tellsDate : Heard → Bool
  | .answer ⟨status, retryable, some (.date at'), rejected⟩ =>
    !(200 ≤ status && status < 300) &&
      (Answer.mk status retryable (some (.date at')) rejected).isRetryable
  | .answer _ | .failed => false

namespace SdkClient

variable {E : Type} {sdk : Sdk} {k : SdkSizes} {c d : SdkClient E}

/-- A client stands where the one in JavaScript does, but for what it has reported. -/
structure Alike (sdk : Sdk) (c d : SdkClient E) : Prop where
  buffer : d.buffer = c.buffer
  pausedUntil : d.pausedUntil = sdk.instant c.pausedUntil
  attempt : d.attempt = c.attempt
  disabled : d.disabled = c.disabled
  closed : d.closed = c.closed

namespace Alike

variable (h : Alike sdk c d)

include h

theorem report_right (r : SdkDiagnostic) : Alike sdk c (d.report r) :=
  ⟨h.buffer, h.pausedUntil, h.attempt, h.disabled, h.closed⟩

theorem report_left (r : SdkDiagnostic) : Alike sdk (c.report r) d :=
  ⟨h.buffer, h.pausedUntil, h.attempt, h.disabled, h.closed⟩

theorem report (r s : SdkDiagnostic) : Alike sdk (c.report r) (d.report s) :=
  (h.report_left r).report_right s

theorem close : Alike sdk { c with closed := true } { d with closed := true } :=
  ⟨h.buffer, h.pausedUntil, h.attempt, h.disabled, rfl⟩

theorem prepend (batch : List E) : Alike sdk (c.prepend batch) (d.prepend batch) :=
  ⟨congrArg (batch ++ ·) h.buffer, h.pausedUntil, h.attempt, h.disabled, h.closed⟩

theorem append (e : E) : Alike sdk (c.append e) (d.append e) :=
  ⟨congrArg (· ++ [e]) h.buffer, h.pausedUntil, h.attempt, h.disabled, h.closed⟩

theorem excess : d.excess (sdk.traits k) = c.excess (Sdk.javaScript.traits k) := by
  rw [SdkClient.excess, SdkClient.excess, h.buffer]
  rfl

theorem cut : Alike sdk (c.cut (Sdk.javaScript.traits k)) (d.cut (sdk.traits k)) where
  buffer := by rw [SdkClient.cut, SdkClient.cut, h.excess, h.buffer]
  pausedUntil := h.pausedUntil
  attempt := h.attempt
  disabled := h.disabled
  closed := h.closed

theorem trim : Alike sdk (c.trim (Sdk.javaScript.traits k)) (d.trim (sdk.traits k)) := by
  rw [SdkClient.trim, SdkClient.trim, h.excess]
  split_ifs
  · exact h
  · exact h.cut.report _ _

theorem push (e : E) : Alike sdk (c.push (Sdk.javaScript.traits k) e) (d.push (sdk.traits k) e) :=
  (h.append e).trim

/-- The client in JavaScript does not report what it drops here. -/
theorem requeue (batch : List E) :
    Alike sdk (c.requeue (Sdk.javaScript.traits k) batch) (d.requeue (sdk.traits k) batch) := by
  have hleft : c.requeue (Sdk.javaScript.traits k) batch =
      (c.prepend batch).cut (Sdk.javaScript.traits k) := rfl
  have hcut := (h.prepend batch).cut (k := k)
  have hexcess := (h.prepend batch).excess (k := k)
  rw [hleft, SdkClient.requeue]
  split_ifs
  · rw [SdkClient.trim, hexcess]
    split_ifs with hnone
    · refine ⟨?_, h.pausedUntil, h.attempt, h.disabled, h.closed⟩
      rw [SdkClient.cut, hnone]
      exact (h.prepend batch).buffer
    · exact hcut.report_right _
  · exact hcut

theorem backOff (now : ℕ) (random : NNRat) :
    Alike sdk (c.backOff (Sdk.javaScript.traits k) now random)
      (d.backOff (sdk.traits k) now random) where
  buffer := h.buffer
  pausedUntil := by
    have hpos : (0 : ℚ) ≤ random * backoffCeiling (c.attempt + 1) :=
      mul_nonneg random.2 (Nat.cast_nonneg _)
    rw [SdkClient.backOff, SdkClient.backOff, h.attempt]
    exact (sdk.instant_add now hpos).symm
  attempt := congrArg (· + 1) h.attempt
  disabled := h.disabled
  closed := h.closed

theorem retryAt_seconds (now : ℕ) (random : NNRat) (s : NNRat) :
    Alike sdk (c.retryAt (Sdk.javaScript.traits k) now random (some (.seconds s)))
      (d.retryAt (sdk.traits k) now random (some (.seconds s))) where
  buffer := h.buffer
  pausedUntil := (sdk.instant_add now (mul_nonneg s.2 (by norm_num))).symm
  attempt := h.attempt
  disabled := h.disabled
  closed := h.closed

theorem accept (rejected : ℕ) : Alike sdk (c.accept rejected) (d.accept rejected) := by
  have hreset : Alike sdk { c with attempt := 0 } { d with attempt := 0 } :=
    ⟨h.buffer, h.pausedUntil, rfl, h.disabled, h.closed⟩
  rw [SdkClient.accept, SdkClient.accept]
  split_ifs
  · exact hreset.report _ _
  · exact hreset

theorem disable (status : ℕ) : Alike sdk (c.disable status) (d.disable status) :=
  ⟨rfl, h.pausedUntil, h.attempt, rfl, h.closed⟩

theorem settle {heard : Heard} (hdate : sdk = .javaScript ∨ heard.tellsDate = false)
    (batch : List E) (now : ℕ) (random : NNRat) :
    Alike sdk (c.settle (Sdk.javaScript.traits k) batch heard now random)
      (d.settle (sdk.traits k) batch heard now random) := by
  cases heard with
  | failed =>
    have hback := (h.requeue (k := k) batch).backOff (k := k) now random
    rw [SdkClient.settle, SdkClient.settle]
    split_ifs
    · exact hback.report _ _
    · exact hback.report_left _
    · exact hback.report_right _
    · exact hback
  | answer a =>
    rw [SdkClient.settle, SdkClient.settle, settleAnswer, settleAnswer]
    split_ifs with hok hretry hfatal
    · exact h.accept a.rejected
    · have hqueued := h.requeue (k := k) batch
      obtain ⟨status, retryable, retryAfter, rejected⟩ := a
      cases retryAfter with
      | none => exact hqueued.backOff now random
      | some r =>
        cases r with
        | seconds s => exact hqueued.retryAt_seconds now random s
        | date at' =>
          rcases hdate with rfl | hdate
          · exact ⟨hqueued.buffer, rfl, hqueued.attempt, hqueued.disabled, hqueued.closed⟩
          · have htells : (Heard.answer ⟨status, retryable, some (.date at'), rejected⟩).tellsDate =
                true := by
              have hstatus : (200 ≤ status && status < 300) = false := by simpa using hok
              rw [Heard.tellsDate, hstatus, hretry]
              rfl
            exact absurd htells (by simp [hdate])
    · exact h.disable a.status
    · exact h.report _ _

/-- Both see a pause end at the same time, or have nothing to send. -/
theorem blocked {now : ℕ} (hpause : (now : ℚ) < c.pausedUntil ↔ (now : ℚ) < sdk.instant c.pausedUntil) :
    d.blocked now = c.blocked now := by
  rw [SdkClient.blocked, SdkClient.blocked, h.disabled, h.pausedUntil, decide_eq_decide.2 hpause]

theorem taken {now : ℕ} (hblocked : d.blocked now = c.blocked now) :
    Alike sdk (c.taken (Sdk.javaScript.traits k) now) (d.taken (sdk.traits k) now) := by
  rw [SdkClient.taken, SdkClient.taken, hblocked]
  split_ifs
  · exact h
  · exact ⟨congrArg (List.drop k.maxBatch) h.buffer, h.pausedUntil, h.attempt, h.disabled,
      h.closed⟩

theorem batch {now : ℕ} (hblocked : d.blocked now = c.blocked now) :
    d.batch (sdk.traits k) now = c.batch (Sdk.javaScript.traits k) now := by
  rw [SdkClient.batch, SdkClient.batch, hblocked, h.buffer]
  rfl

end Alike

theorem blocked_of_paused {now : ℚ} (h : now < c.pausedUntil) : c.blocked now = true := by
  rw [blocked, decide_eq_true h, Bool.or_true]

theorem blocked_of_disabled {now : ℚ} (h : c.disabled = true) : c.blocked now = true := by
  rw [blocked, h, Bool.true_or]

end SdkClient

namespace Conversation

variable (sdk : Sdk) (k : SdkSizes) (server : Server) {c d : Conversation}

/-- The end of a pause is not between the two counts of time, where there is something to send. -/
def Punctual (c : Conversation) : Prop :=
  c.client.disabled = true ∨ c.client.buffer = [] ∨
    ((c.clock : ℚ) < c.client.pausedUntil ↔ (c.clock : ℚ) < sdk.instant c.client.pausedUntil)

/-- A flush comes at a time on which both agree, and no date is to be read from its answer. -/
def FlushAgrees (c : Conversation) : Prop :=
  c.Punctual sdk ∧ (c.client.blocked c.clock = false → c.client.buffer ≠ [] →
    sdk = .javaScript ∨ (server c.sent.length).1.tellsDate = false)

/-- The step is one for which the client in JavaScript and the other take the same course. -/
def Agreeable (c : Conversation) : ScriptStep → Prop
  | .track _ => (c.client.closed || c.client.disabled) = true ∨
      min (c.client.buffer.length + 1) k.maxBuffer < k.maxBatch ∨
      (c.clock : ℚ) < c.client.pausedUntil ∨ (sdk.traits k).flushesWhenFull = true ∧
        (sdk = .javaScript ∨ (server c.sent.length).1.tellsDate = false)
  | .identify userId => sdk.trim userId = Sdk.javaScript.trim userId
  | .flush | .shutdown => c.FlushAgrees sdk server
  | .reset | .advance _ => True

/-- Two conversations are told apart by what their clients have reported, and by how they count
time. -/
structure Alike (c d : Conversation) : Prop where
  client : SdkClient.Alike sdk c.client d.client
  person : d.person = c.person
  visit : d.visit = c.visit
  visits : d.visits = c.visits
  visitSeen : d.visitSeen = c.visitSeen
  clock : d.clock = c.clock
  sent : d.sent = c.sent

variable {sdk k server}

/-- A flush that has nothing to send, or may not send it, changes nothing. -/
theorem flush_idle (h : c.client.blocked c.clock = true ∨ c.client.buffer = []) :
    c.flush sdk k server = c := by
  have hidle : c.client.batch (sdk.traits k) c.clock = [] ∧
      c.client.taken (sdk.traits k) c.clock = c.client := by
    rw [SdkClient.batch, SdkClient.taken]
    split_ifs with hblocked
    · exact ⟨rfl, rfl⟩
    · have hnil := h.resolve_left hblocked
      obtain ⟨⟨buffer, pausedUntil, attempt, disabled, closed, diagnostics⟩, _⟩ := c
      obtain rfl : buffer = [] := hnil
      exact ⟨List.take_nil, by rw [List.drop_nil]⟩
  unfold Conversation.flush
  dsimp only
  rw [if_pos hidle.1, hidle.2]

/-- What `track` leaves before it looks at how much is queued. -/
def pushed (sdk : Sdk) (k : SdkSizes) (c : Conversation) (name : JsString) : Conversation :=
  let d := c.currentVisit.1
  { d with client := d.client.push (sdk.traits k) ⟨name, d.person, c.currentVisit.2, d.clock⟩ }

theorem track_eq (name : JsString) : c.track sdk k server name =
    if c.client.closed || c.client.disabled then c
    else if (sdk.traits k).flushesWhenFull && k.maxBatch ≤ (c.pushed sdk k name).client.buffer.length
    then (c.pushed sdk k name).flush sdk k server
    else c.pushed sdk k name := rfl

theorem currentVisit_fields (c : Conversation) : c.currentVisit.1.client = c.client ∧
    c.currentVisit.1.clock = c.clock ∧ c.currentVisit.1.sent = c.sent := by
  rw [currentVisit]
  cases c.visit with
  | none => exact ⟨rfl, rfl, rfl⟩
  | some v =>
    dsimp only
    split_ifs <;> exact ⟨rfl, rfl, rfl⟩

theorem pushed_fields (name : JsString) :
    (c.pushed sdk k name).client.blocked (c.pushed sdk k name).clock = c.client.blocked c.clock ∧
      (c.pushed sdk k name).client.pausedUntil = c.client.pausedUntil ∧
      (c.pushed sdk k name).clock = c.clock ∧ (c.pushed sdk k name).sent = c.sent := by
  obtain ⟨hclient, hclock, hsent⟩ := c.currentVisit_fields
  unfold pushed
  dsimp only
  rw [hclient, hclock, hsent, SdkClient.blocked, SdkClient.blocked]
  unfold SdkClient.push
  rw [SdkClient.trim]
  split_ifs <;> exact ⟨rfl, rfl, rfl, rfl⟩

theorem length_pushed (name : JsString) :
    (c.pushed sdk k name).client.buffer.length = min (c.client.buffer.length + 1) k.maxBuffer := by
  have hclient := c.currentVisit_fields.1
  have hlen : (c.currentVisit.1.client.buffer ++
      [(⟨name, c.currentVisit.1.person, c.currentVisit.2, c.currentVisit.1.clock⟩ :
        ScriptEvent)]).length = c.client.buffer.length + 1 := by
    rw [List.length_append, hclient, List.length_singleton]
  exact SdkClient.length_trim.trans (congrArg (min · k.maxBuffer) hlen)

namespace Alike

variable (h : Alike sdk c d)

include h

theorem startVisit : Alike sdk c.startVisit d.startVisit :=
  ⟨h.client, h.person, congrArg some h.visits, congrArg (· + 1) h.visits, h.clock, h.clock, h.sent⟩

theorem currentVisit :
    Alike sdk c.currentVisit.1 d.currentVisit.1 ∧ d.currentVisit.2 = c.currentVisit.2 := by
  rw [Conversation.currentVisit, Conversation.currentVisit, h.visit]
  cases hv : c.visit with
  | none => exact ⟨h.startVisit, h.visits⟩
  | some v =>
    dsimp only
    rw [h.clock, h.visitSeen]
    split_ifs
    · exact ⟨h.startVisit, h.visits⟩
    · exact ⟨⟨h.client, h.person, rfl, h.visits, rfl, rfl, h.sent⟩, rfl⟩

theorem flush (hagrees : c.FlushAgrees sdk server) :
    Alike sdk (c.flush .javaScript k server) (d.flush sdk k server) := by
  obtain ⟨hpunctual, hplain⟩ := hagrees
  by_cases hidle : c.client.disabled = true ∨ c.client.buffer = []
  · have hidle' : d.client.disabled = true ∨ d.client.buffer = [] := by
      rwa [h.client.disabled, h.client.buffer]
    rw [flush_idle (hidle.imp_left SdkClient.blocked_of_disabled),
      flush_idle (hidle'.imp_left SdkClient.blocked_of_disabled)]
    exact h
  · rw [not_or] at hidle
    have hpause := (hpunctual.resolve_left hidle.1).resolve_left hidle.2
    have hblocked := h.client.blocked hpause
    unfold Conversation.flush
    dsimp only
    rw [h.clock, h.client.batch hblocked, h.sent]
    by_cases hnil : c.client.batch (Sdk.javaScript.traits k) c.clock = []
    · rw [if_pos hnil, if_pos hnil]
      exact ⟨h.client.taken hblocked, h.person, h.visit, h.visits, h.visitSeen, rfl, rfl⟩
    · rw [if_neg hnil, if_neg hnil]
      have hopen : c.client.blocked c.clock = false := by
        by_contra hb
        rw [Bool.not_eq_false] at hb
        exact hnil (if_pos hb)
      have hsettled := (h.client.taken hblocked (k := k)).settle (k := k) (hplain hopen hidle.2)
        (c.client.batch (Sdk.javaScript.traits k) c.clock) c.clock (server c.sent.length).2
      exact ⟨hsettled, h.person, h.visit, h.visits, h.visitSeen, rfl, rfl⟩

theorem pushed (name : JsString) :
    Alike sdk (c.pushed .javaScript k name) (d.pushed sdk k name) := by
  obtain ⟨hvisit, hnumber⟩ := h.currentVisit
  have hclient := hvisit.client.push (k := k)
    ⟨name, c.currentVisit.1.person, c.currentVisit.2, c.currentVisit.1.clock⟩
  unfold Conversation.pushed
  dsimp only
  rw [hvisit.person, hvisit.clock, hnumber]
  exact ⟨hclient, rfl, hvisit.visit, hvisit.visits, hvisit.visitSeen, rfl, hvisit.sent⟩

theorem track (name : JsString) (hagrees : c.Agreeable sdk k server (.track name)) :
    Alike sdk (c.track .javaScript k server name) (d.track sdk k server name) := by
  have hgone : (d.client.closed || d.client.disabled) = (c.client.closed || c.client.disabled) := by
    rw [h.client.closed, h.client.disabled]
  rw [track_eq, track_eq, hgone]
  by_cases hclosed : (c.client.closed || c.client.disabled) = true
  · rw [if_pos hclosed, if_pos hclosed]
    exact h
  · rw [if_neg hclosed, if_neg hclosed]
    have hp := h.pushed (k := k) name
    rw [hp.client.buffer]
    rcases hagrees.resolve_left hclosed with hroom | hpaused | ⟨hfull, hplain⟩
    · have hfew : decide (k.maxBatch ≤ (c.pushed .javaScript k name).client.buffer.length) = false :=
        decide_eq_false (not_le.2 ((length_pushed name).trans_lt hroom))
      rw [hfew, Bool.and_false, Bool.and_false]
      exact hp
    · have hwait : (c.pushed .javaScript k name).client.blocked
          (c.pushed .javaScript k name).clock = true :=
        (pushed_fields name).1.trans (SdkClient.blocked_of_paused hpaused)
      rw [flush_idle (.inl hwait), ite_self]
      split_ifs with hfull
      · have hfulls := (Bool.and_eq_true_iff.1 hfull).1
        have hsame : (d.pushed sdk k name).client.blocked (c.pushed .javaScript k name).clock =
            (c.pushed .javaScript k name).client.blocked (c.pushed .javaScript k name).clock :=
          hp.client.blocked (by rw [instant_of_flushesWhenFull hfulls])
        rw [flush_idle (.inl (by rw [hp.clock, hsame, hwait]))]
        exact hp
      · exact hp
    · have hleft : (Sdk.javaScript.traits k).flushesWhenFull = true := rfl
      rw [hfull, hleft]
      split_ifs
      · refine hp.flush ⟨.inr (.inr ?_), fun _ _ ↦ ?_⟩
        · rw [instant_of_flushesWhenFull hfull]
        · rwa [(pushed_fields name).2.2.2]
      · exact hp

theorem step (a : ScriptStep) (hagrees : c.Agreeable sdk k server a) :
    Alike sdk (c.step .javaScript k server a) (d.step sdk k server a) := by
  cases a with
  | track name => exact h.track name hagrees
  | identify userId =>
    refine ⟨h.client, ?_, h.visit, h.visits, h.visitSeen, h.clock, h.sent⟩
    rw [Conversation.step, Conversation.step, identify, identify, hagrees]
  | reset => exact ⟨h.client, rfl, congrArg some h.visits, congrArg (· + 1) h.visits, h.clock, h.clock, h.sent⟩
  | flush => exact h.flush hagrees
  | shutdown =>
    have hclose : Alike sdk { c with client := { c.client with closed := true } }
        { d with client := { d.client with closed := true } } :=
      ⟨h.client.close, h.person, h.visit, h.visits, h.visitSeen, h.clock, h.sent⟩
    exact hclose.flush hagrees
  | advance ms =>
    exact ⟨h.client, h.person, h.visit, h.visits, h.visitSeen, congrArg (· + ms) h.clock, h.sent⟩

end Alike

theorem alike_initial : Alike sdk .initial .initial where
  client := by
    refine ⟨rfl, ?_, rfl, rfl, rfl⟩
    cases sdk <;> rfl
  person := rfl
  visit := rfl
  visits := rfl
  visitSeen := rfl
  clock := rfl
  sent := rfl

theorem alike_play (l : List ScriptStep)
    (hl : ∀ m a, m ++ [a] <+: l → (play .javaScript k server initial m).Agreeable sdk k server a) :
    Alike sdk (play .javaScript k server initial l) (play sdk k server initial l) := by
  induction l using List.reverseRecOn with
  | nil => exact alike_initial
  | append_singleton l a ih =>
    have hl' := ih fun m b hm ↦ hl m b (hm.trans (List.prefix_append l [a]))
    have hplay (sdk : Sdk) : play sdk k server initial (l ++ [a]) =
        (play sdk k server initial l).step sdk k server a := List.foldl_concat ..
    rw [hplay, hplay]
    exact hl'.step a (hl l a (List.prefix_refl _))

end Conversation

end Counted.Sdk
