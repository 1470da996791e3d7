import Counted.Foundations.Run
import Counted.Sdk.Threaded

namespace Counted.Sdk

open Foundations

section

variable {α : Type} {p : α → Bool} {l : List α} {i : ℕ} {a : α}

/-- A list around one of its places. -/
theorem around (h : l[i]? = some a) :
    ∃ l₁ l₂, l = l₁ ++ a :: l₂ ∧ ∀ b, l.set i b = l₁ ++ b :: l₂ := by
  obtain ⟨hi, rfl⟩ := List.getElem?_eq_some_iff.1 h
  refine ⟨l.take i, l.drop (i + 1), ?_, fun b ↦ ?_⟩
  · rw [← List.drop_eq_getElem_cons hi, List.take_append_drop]
  · rw [List.set_eq_take_append_cons_drop, if_pos hi]

theorem filter_set_of_not (h : l[i]? = some a) (ha : p a = false) {b : α} (hb : p b = false) :
    (l.set i b).filter p = l.filter p := by
  obtain ⟨l₁, l₂, hl, hset⟩ := around h
  rw [hset, hl, List.filter_append, List.filter_append,
    List.filter_cons_of_neg (by rw [hb]; exact Bool.false_ne_true),
    List.filter_cons_of_neg (by rw [ha]; exact Bool.false_ne_true)]

theorem filter_set_of_single (h : l[i]? = some a) (ha : p a = true)
    (hone : (l.filter p).length ≤ 1) :
    l.filter p = [a] ∧ ∀ b, (l.set i b).filter p = [b].filter p := by
  obtain ⟨l₁, l₂, hl, hset⟩ := around h
  rw [hl, List.filter_append, List.filter_cons_of_pos ha, List.length_append,
    List.length_cons] at hone
  have h₁ : l₁.filter p = [] := List.eq_nil_of_length_eq_zero (by omega)
  have h₂ : l₂.filter p = [] := List.eq_nil_of_length_eq_zero (by omega)
  refine ⟨?_, fun b ↦ ?_⟩
  · rw [hl, List.filter_append, List.filter_cons_of_pos ha, h₁, h₂, List.nil_append]
  · rw [hset, List.filter_append, h₁, List.nil_append, List.filter_cons, List.filter_cons, h₂,
      List.filter_nil]

theorem filter_set_of_nil (h : l[i]? = some a) (hnil : l.filter p = []) (b : α) :
    (l.set i b).filter p = [b].filter p := by
  obtain ⟨l₁, l₂, hl, hset⟩ := around h
  rw [hl, List.filter_append, List.append_eq_nil_iff] at hnil
  have h₂ : l₂.filter p = [] := List.filter_eq_nil_iff.2 fun x hx ↦
    List.filter_eq_nil_iff.1 hnil.2 x (List.mem_cons_of_mem _ hx)
  rw [hset, List.filter_append, hnil.1, List.nil_append, List.filter_cons, List.filter_cons, h₂,
    List.filter_nil]

end

/-- Where a call stands between two of its sections under the lock. -/
inductive ThreadCall (E : Type)
  | tracking (event : E)
  | calling
  | entering
  | sending (batch : List E)
  | accepting (rejected : ℕ)
  | refusing (status : ℕ)
  | disabling (status : ℕ)
  | stopping (status discarded : ℕ)
  | requeueing (batch : List E) (heard : Heard)
  | pausing (heard : Heard)
  | done

/-- The wait a client reads of what it has heard. -/
def Heard.wait (t : SdkTraits) : Heard → Option ℚ
  | .answer ⟨_, _, some (.seconds s), _⟩ => some (t.wait (s * 1000))
  | .answer _ | .failed => none

/-- The instant an answer names, where the request is to be made again. -/
def Heard.named (now : ℚ) : Heard → List ℚ
  | .failed => []
  | .answer a =>
    if 200 ≤ a.status ∧ a.status < 300 ∨ a.isRetryable = false then []
    else
      match a.retryAfter with
      | some (.seconds s) => [now + s * 1000]
      | some (.date at') => [at']
      | none => []

/-- What a flush goes on with when its request returns. -/
def Heard.next {E : Type} (batch : List E) : Heard → ThreadCall E
  | .failed => .requeueing batch .failed
  | .answer a =>
    if 200 ≤ a.status ∧ a.status < 300 then .accepting a.rejected
    else if a.isRetryable then .requeueing batch (.answer a)
    else if fatalStatuses.contains a.status then .disabling a.status
    else .refusing a.status

/-- How long a client stays away after what it has heard. -/
def SdkClient.pauseFor {E : Type} (c : SdkClient E) (t : SdkTraits) (now random : ℚ) :
    Heard → SdkClient E
  | .answer a => c.retryAt t now random a.retryAfter
  | .failed =>
    let d := c.backOff t now random
    if t.reportsFailures then d.report .retry else d

namespace ThreadCall

variable {E : Type}

/-- The events a call has taken out of the buffer. -/
def held : ThreadCall E → List E
  | .sending batch | .requeueing batch _ => batch
  | _ => []

/-- A flush that has taken its batch and is not through with the answer. -/
def away : ThreadCall E → Bool
  | .tracking _ | .calling | .entering | .done => false
  | _ => true

def isSending : ThreadCall E → Bool
  | .sending _ => true
  | _ => false

/-- The buffer is discarded, and the client does not know yet that it is disabled. -/
def isStopping : ThreadCall E → Bool
  | .stopping .. => true
  | _ => false

/-- A wait that is read and not yet set. -/
def wait (t : SdkTraits) : ThreadCall E → Option ℚ
  | .requeueing _ heard | .pausing heard => heard.wait t
  | _ => none

end ThreadCall

/-- A request, and what the answers before it had named. -/
structure Started where
  at' : ℚ
  named : List ℚ

/-- A client that several threads call. -/
structure Threads (E : Type) where
  client : SdkClient E
  calls : List (ThreadCall E)
  clock : ℚ
  tracked : List E
  named : List ℚ
  starts : List Started

/-- A call begins, goes through its next section, or has its request come back. -/
inductive ThreadAction (E : Type)
  | track (event : E)
  | flush
  | proceed (i : ℕ) (now random : ℚ)
  | returns (i : ℕ) (heard : Heard) (now : ℚ)

/-- Python looks at the flags before it takes the lock, the others under it. -/
def looksFirst (sdk : Sdk) : Bool := sdk = .python

namespace Threads

variable {E : Type} (sdk : Sdk) (t : SdkTraits)

def initial : Threads E := ⟨.initial, [], 0, [], [], []⟩

def put (s : Threads E) (i : ℕ) (c : ThreadCall E) : Threads E :=
  { s with calls := s.calls.set i c }

/-- The batch a flush takes when it goes in. -/
def takes (c : SdkClient E) (now : ℚ) : List E :=
  if (!looksFirst sdk && c.disabled) || now < c.pausedUntil then [] else c.buffer.take t.maxBatch

/-- The next section of a call. -/
def attend (s : Threads E) (i : ℕ) (random : ℚ) : ThreadCall E → Option (Threads E)
  | .tracking event =>
    if !looksFirst sdk && s.client.disabled then some (s.put i .done)
    else
      let client := s.client.push t event
      some ({ s with client, tracked := s.tracked ++ [event] }.put i
        (if t.flushesWhenFull && t.maxBatch ≤ client.buffer.length then .calling else .done))
  | .calling => some (s.put i (if looksFirst sdk && s.client.disabled then .done else .entering))
  | .entering =>
    let batch := takes sdk t s.client s.clock
    if batch.isEmpty then some (s.put i .done)
    else some ({ s with
      client := { s.client with buffer := s.client.buffer.drop t.maxBatch }
      starts := s.starts ++ [Started.mk s.clock s.named] }.put i (.sending batch))
  | .accepting rejected => some ({ s with client := s.client.accept rejected }.put i .done)
  | .refusing status => some ({ s with client := s.client.report (.refused status) }.put i .done)
  | .disabling status =>
    -- Python empties the buffer under the lock and sets the flag after it
    if looksFirst sdk then
      some ({ s with client := { s.client with buffer := [] } }.put i
        (.stopping status s.client.buffer.length))
    else some ({ s with client := s.client.disable status }.put i .done)
  | .stopping status discarded =>
    let client := { s.client with disabled := true }
    some ({ s with client := client.report (.disabled status discarded) }.put i .done)
  | .requeueing batch heard =>
    some ({ s with client := s.client.requeue t batch }.put i (.pausing heard))
  | .pausing heard =>
    some ({ s with client := s.client.pauseFor t s.clock random heard }.put i .done)
  | .sending _ | .done => none

/-- A request comes back. -/
def receive (s : Threads E) (i : ℕ) (heard : Heard) : ThreadCall E → Option (Threads E)
  | .sending batch =>
    some ({ s with named := s.named ++ heard.named s.clock }.put i (heard.next batch))
  | _ => none

def step (s : Threads E) : ThreadAction E → Option (Threads E)
  | .track event =>
    if looksFirst sdk && s.client.disabled then some s
    else some { s with calls := s.calls ++ [.tracking event] }
  | .flush => some { s with calls := s.calls ++ [.calling] }
  | .proceed i now random =>
    if s.clock ≤ now then s.calls[i]?.bind (attend sdk t { s with clock := now } i random) else none
  | .returns i heard now =>
    if s.clock ≤ now then s.calls[i]?.bind (receive { s with clock := now } i heard) else none

/-- What the contract promises of overlapping calls. -/
structure Promised (s : Threads E) : Prop where
  ordered : (∀ c ∈ s.calls, c.isSending = false) → s.client.buffer.Sublist s.tracked
  patient : ∀ r ∈ s.starts, ∀ n ∈ r.named, n ≤ r.at'
  stopped : s.client.disabled = true → s.client.buffer = []
  lasting : s.client.disabled = true → ∀ a u, step sdk t s a = some u → u.client.disabled = true

/-- A flush takes a batch only when no other has one out, a call of `track` that has looked at the
flags goes on only while they stand, and the wait an answer names is the one that is read. -/
def Apart (s : Threads E) : ThreadAction E → Prop
  | .proceed i now _ =>
    match s.calls[i]? with
    | some .entering => takes sdk t s.client now ≠ [] → ∀ c ∈ s.calls, c.away = false
    | some (.tracking _) => looksFirst sdk = true →
        s.client.disabled = false ∧ ∀ c ∈ s.calls, c.isStopping = false
    | _ => True
  | .returns _ heard now =>
    ∀ n ∈ heard.named now, n ≤ now ∨ ∃ w ∈ heard.wait t, n ≤ now + w
  | .track _ | .flush => True

def out (s : Threads E) : List (ThreadCall E) := s.calls.filter ThreadCall.away

/-- What is true of the client and of the flushes that are out. -/
structure Sound (out : List (ThreadCall E)) (client : SdkClient E) (clock : ℚ) (tracked : List E)
    (named : List ℚ) : Prop where
  one : out.length ≤ 1
  ordered : (out.flatMap ThreadCall.held ++ client.buffer).Sublist tracked
  patient : ∀ n ∈ named, n ≤ clock ∨ (out = [] ∧ n ≤ client.pausedUntil) ∨
    ∃ c ∈ out, ∃ w ∈ c.wait t, n ≤ clock + w
  stopped : (client.disabled = true ∨ ∃ c ∈ out, c.isStopping = true) →
    out.flatMap ThreadCall.held ++ client.buffer = []
  looks : ∀ c ∈ out, c.isStopping = true → looksFirst sdk = true

def Inv (s : Threads E) : Prop :=
  Sound sdk t s.out s.client s.clock s.tracked s.named ∧
    ∀ r ∈ s.starts, ∀ n ∈ r.named, n ≤ r.at'

variable {sdk t} {s u : Threads E} {c : ThreadCall E} {client : SdkClient E} {clock now : ℚ}
  {tracked : List E} {named : List ℚ} {i : ℕ} {random : ℚ}

theorem sound_nil : Sound sdk t [] client clock tracked named ↔
    client.buffer.Sublist tracked ∧ (∀ n ∈ named, n ≤ clock ∨ n ≤ client.pausedUntil) ∧
      (client.disabled = true → client.buffer = []) := by
  constructor
  · intro h
    exact ⟨h.ordered, fun n hn ↦ by simpa using h.patient n hn, fun hd ↦ h.stopped (.inl hd)⟩
  · rintro ⟨ho, hp, hs⟩
    exact ⟨by simp, ho, fun n hn ↦ by simpa using hp n hn, fun h ↦ hs (by simpa using h), by simp⟩

theorem sound_single : Sound sdk t [c] client clock tracked named ↔
    (c.held ++ client.buffer).Sublist tracked ∧
      (∀ n ∈ named, n ≤ clock ∨ ∃ w ∈ c.wait t, n ≤ clock + w) ∧
      ((client.disabled = true ∨ c.isStopping = true) → c.held ++ client.buffer = []) ∧
      (c.isStopping = true → looksFirst sdk = true) := by
  have hheld : [c].flatMap ThreadCall.held = c.held := List.flatMap_singleton ..
  constructor
  · intro h
    refine ⟨hheld ▸ h.ordered, fun n hn ↦ by simpa using h.patient n hn, fun hd ↦ ?_,
      h.looks c (List.mem_singleton_self c)⟩
    exact hheld ▸ h.stopped (by simpa using hd)
  · rintro ⟨ho, hp, hs, hl⟩
    refine ⟨le_rfl, hheld.symm ▸ ho, fun n hn ↦ by simpa using hp n hn, fun h ↦ ?_,
      by simpa using hl⟩
    exact hheld.symm ▸ hs (by simpa using h)

theorem Sound.advance (h : Sound sdk t s.out client clock tracked named) (hle : clock ≤ now) :
    Sound sdk t s.out client now tracked named := by
  refine ⟨h.one, h.ordered, fun n hn ↦ ?_, h.stopped, h.looks⟩
  rcases h.patient n hn with hn | hn | ⟨c, hc, w, hw, hn⟩
  · exact .inl (hn.trans hle)
  · exact .inr (.inl hn)
  · exact .inr (.inr ⟨c, hc, w, hw, hn.trans (by linarith)⟩)

theorem Inv.advance (h : Inv sdk t s) (hle : s.clock ≤ now) : Inv sdk t { s with clock := now } :=
  ⟨h.1.advance hle, h.2⟩

/-- A flush that is through leaves none out. -/
theorem Inv.finished (h : Inv sdk t s) (hset : (s.calls.set i .done).filter ThreadCall.away = [])
    (ho : client.buffer.Sublist s.tracked)
    (hp : ∀ n ∈ s.named, n ≤ s.clock ∨ n ≤ client.pausedUntil)
    (hs : client.disabled = true → client.buffer = []) :
    Inv sdk t ({ s with client }.put i .done) := by
  have hsound : Sound sdk t [] client s.clock s.tracked s.named := sound_nil.2 ⟨ho, hp, hs⟩
  rw [← hset] at hsound
  exact ⟨hsound, h.2⟩

theorem Inv.goes (h : Inv sdk t s) (hset : (s.calls.set i c).filter ThreadCall.away = [c])
    (ho : (c.held ++ client.buffer).Sublist s.tracked)
    (hp : ∀ n ∈ s.named, n ≤ s.clock ∨ ∃ w ∈ c.wait t, n ≤ s.clock + w)
    (hs : client.disabled = true ∨ c.isStopping = true → c.held ++ client.buffer = [])
    (hl : c.isStopping = true → looksFirst sdk = true) :
    Inv sdk t ({ s with client }.put i c) := by
  have hsound : Sound sdk t [c] client s.clock s.tracked s.named :=
    sound_single.2 ⟨ho, hp, hs, hl⟩
  rw [← hset] at hsound
  exact ⟨hsound, h.2⟩

theorem accept_fields (client : SdkClient E) (rejected : ℕ) :
    (client.accept rejected).buffer = client.buffer ∧
      (client.accept rejected).disabled = client.disabled := by
  rw [SdkClient.accept]
  split_ifs <;> exact ⟨rfl, rfl⟩

theorem requeue_buffer (client : SdkClient E) (batch : List E) :
    ∃ k, (client.requeue t batch).buffer = (batch ++ client.buffer).drop k := by
  refine ⟨(client.prepend batch).excess t, ?_⟩
  rw [SdkClient.requeue]
  split_ifs
  · exact SdkClient.trim_buffer
  · rfl

theorem trim_pausedUntil (client : SdkClient E) :
    (client.trim t).pausedUntil = client.pausedUntil := by
  rw [SdkClient.trim]
  split_ifs <;> rfl

theorem pauseFor_fields (client : SdkClient E) (now random : ℚ) (heard : Heard) :
    (client.pauseFor t now random heard).buffer = client.buffer ∧
      (client.pauseFor t now random heard).disabled = client.disabled ∧
      ∀ w ∈ heard.wait t, now + w ≤ (client.pauseFor t now random heard).pausedUntil := by
  rcases heard with ⟨status, retryable, _ | s | at', rejected⟩ | _
  · exact ⟨rfl, rfl, fun w hw ↦ by cases hw⟩
  · refine ⟨rfl, rfl, fun w hw ↦ ?_⟩
    cases hw
    exact le_rfl
  · simp only [SdkClient.pauseFor, SdkClient.retryAt]
    split_ifs <;> exact ⟨rfl, rfl, fun w hw ↦ by cases hw⟩
  · simp only [SdkClient.pauseFor]
    split_ifs <;> exact ⟨rfl, rfl, fun w hw ↦ by cases hw⟩

/-- The next section of the flush that is out. -/
theorem Inv.attend_away (h : Inv sdk t s) (hc : s.calls[i]? = some c) (ha : c.away = true)
    (hu : attend sdk t s i random c = some u) : Inv sdk t u := by
  obtain ⟨hout, hset⟩ := filter_set_of_single hc ha h.1.one
  have hsound : Sound sdk t [c] s.client s.clock s.tracked s.named := hout ▸ h.1
  obtain ⟨ho, hp, hs, hl⟩ := sound_single.1 hsound
  cases c with
  | tracking | calling | entering | done => cases ha
  | sending batch => cases hu
  | accepting rejected =>
    cases hu
    obtain ⟨hbuffer, hdisabled⟩ := accept_fields s.client rejected
    refine h.finished (hset _) (hbuffer ▸ ho) (fun n hn ↦ .inl ?_) fun hd ↦ ?_
    · simpa [ThreadCall.wait] using hp n hn
    · exact hbuffer.trans (hs (.inl (hdisabled ▸ hd)))
  | refusing status =>
    cases hu
    refine h.finished (hset _) ho (fun n hn ↦ .inl ?_) fun hd ↦ hs (.inl hd)
    simpa [ThreadCall.wait] using hp n hn
  | disabling status =>
    have hp' : ∀ n ∈ s.named, n ≤ s.clock := fun n hn ↦ by simpa [ThreadCall.wait] using hp n hn
    rw [attend] at hu
    split_ifs at hu with hlooks
    · cases hu
      exact h.goes (hset _) (List.nil_sublist _) (fun n hn ↦ .inl (hp' n hn)) (fun _ ↦ rfl)
        fun _ ↦ hlooks
    · cases hu
      exact h.finished (hset _) (List.nil_sublist _) (fun n hn ↦ .inl (hp' n hn)) fun _ ↦ rfl
  | stopping status discarded =>
    cases hu
    refine h.finished (hset _) ho (fun n hn ↦ .inl ?_) fun _ ↦ hs (.inr rfl)
    simpa [ThreadCall.wait] using hp n hn
  | requeueing batch heard =>
    cases hu
    obtain ⟨k, hk⟩ := @requeue_buffer E t s.client batch
    refine h.goes (hset _) ?_ hp (fun hd ↦ ?_) fun hd ↦ by cases hd
    · rw [hk]
      exact (List.drop_sublist k _).trans ho
    · have hold : batch ++ s.client.buffer = [] := by
        refine hs (.inl ?_)
        rw [← SdkClient.disabled_requeue batch]
        exact hd.resolve_right (fun hd ↦ by cases hd)
      rw [hk, hold, List.drop_nil]
      rfl
  | pausing heard =>
    cases hu
    obtain ⟨hbuffer, hdisabled, hwait⟩ := @pauseFor_fields E t s.client s.clock random heard
    refine h.finished (hset _) (hbuffer ▸ ho) (fun n hn ↦ ?_) fun hd ↦ ?_
    · exact (hp n hn).imp_right fun ⟨w, hw, hle⟩ ↦ hle.trans (hwait w hw)
    · exact hbuffer.trans (hs (.inl (hdisabled ▸ hd)))

/-- A call that is not out and does not go out leaves the client sound. -/
theorem Inv.put_not (h : Inv sdk t s) (hc : s.calls[i]? = some c) (ha : c.away = false)
    {c' : ThreadCall E} (ha' : c'.away = false) : Inv sdk t (s.put i c') := by
  have hout : (s.put i c').out = s.out := filter_set_of_not hc ha ha'
  refine ⟨?_, h.2⟩
  rw [hout]
  exact h.1

theorem Inv.push (h : Inv sdk t s) (hd : s.client.disabled = false)
    (hs : ∀ c ∈ s.out, c.isStopping = false) (e : E) :
    Inv sdk t { s with client := s.client.push t e, tracked := s.tracked ++ [e] } := by
  refine ⟨⟨h.1.one, ?_, ?_, ?_, h.1.looks⟩, h.2⟩
  · have hbuffer : (s.client.push t e).buffer =
        (s.client.buffer ++ [e]).drop ((s.client.append e).excess t) := SdkClient.trim_buffer
    have hall := h.1.ordered.append (List.Sublist.refl [e])
    rw [List.append_assoc] at hall
    rw [hbuffer]
    exact ((List.Sublist.refl _).append (List.drop_sublist _ _)).trans hall
  · have hpaused : (s.client.push t e).pausedUntil = s.client.pausedUntil := trim_pausedUntil _
    rw [hpaused]
    exact h.1.patient
  · have hdisabled : (s.client.push t e).disabled = s.client.disabled := SdkClient.disabled_trim
    rintro (hd' | ⟨c, hc, hstop⟩)
    · rw [hdisabled, hd] at hd'
      cases hd'
    · rw [hs c hc] at hstop
      cases hstop

/-- What a call takes is the head of the buffer, when the client is neither paused nor disabled. -/
theorem takes_cases (h : takes sdk t client now ≠ []) :
    takes sdk t client now = client.buffer.take t.maxBatch ∧ client.pausedUntil ≤ now := by
  rw [takes] at h ⊢
  split_ifs at h ⊢ with hb
  · exact absurd rfl h
  · rw [Bool.or_eq_true, not_or, decide_eq_true_eq] at hb
    exact ⟨rfl, not_lt.1 hb.2⟩

theorem Inv.entered (h : Inv sdk t s) (hc : s.calls[i]? = some .entering)
    (hnil : s.out = []) (htakes : takes sdk t s.client s.clock ≠ []) :
    Inv sdk t ({ s with
      client := { s.client with buffer := s.client.buffer.drop t.maxBatch }
      starts := s.starts ++ [Started.mk s.clock s.named] }.put i
        (.sending (takes sdk t s.client s.clock))) := by
  obtain ⟨hbatch, hpause⟩ := takes_cases htakes
  have hsound : Sound sdk t [] s.client s.clock s.tracked s.named := hnil ▸ h.1
  obtain ⟨ho, hp, hs⟩ := sound_nil.1 hsound
  have hnamed : ∀ n ∈ s.named, n ≤ s.clock := fun n hn ↦ (hp n hn).elim id (·.trans hpause)
  have hset := filter_set_of_nil hc hnil (.sending (takes sdk t s.client s.clock))
  have hall : takes sdk t s.client s.clock ++ s.client.buffer.drop t.maxBatch =
      s.client.buffer := by
    rw [hbatch, List.take_append_drop]
  have hstarts : Inv sdk t { s with starts := s.starts ++ [Started.mk s.clock s.named] } := by
    refine ⟨h.1, fun r hr ↦ ?_⟩
    rcases List.mem_append.1 hr with hr | hr
    · exact h.2 r hr
    · rw [List.mem_singleton.1 hr]
      exact hnamed
  refine hstarts.goes hset ?_ (fun n hn ↦ .inl (hnamed n hn)) (fun hd ↦ ?_) fun hd ↦ by cases hd
  · exact hall.symm ▸ ho
  · exact hall.trans (hs (hd.resolve_right fun hd ↦ by cases hd))

/-- The next section of a call that is not out. -/
theorem Inv.attend_home (h : Inv sdk t s) (hc : s.calls[i]? = some c) (ha : c.away = false)
    (hentering : c = .entering → takes sdk t s.client s.clock ≠ [] → s.out = [])
    (htracking : ∀ e, c = .tracking e → looksFirst sdk = true →
      s.client.disabled = false ∧ ∀ c ∈ s.out, c.isStopping = false)
    (hu : attend sdk t s i random c = some u) : Inv sdk t u := by
  cases c with
  | tracking e =>
    rw [attend] at hu
    split_ifs at hu with hoff
    · cases hu
      exact h.put_not hc ha rfl
    · cases hu
      have hfree : s.client.disabled = false ∧ ∀ c ∈ s.out, c.isStopping = false := by
        cases hlooks : looksFirst sdk with
        | true => exact htracking e rfl hlooks
        | false =>
          refine ⟨by simpa [hlooks] using hoff, fun c hc ↦ ?_⟩
          by_contra hstop
          rw [Bool.not_eq_false] at hstop
          rw [h.1.looks c hc hstop] at hlooks
          cases hlooks
      refine (h.push hfree.1 hfree.2 e).put_not hc ha ?_
      split_ifs <;> rfl
  | calling =>
    cases hu
    refine h.put_not hc ha ?_
    split_ifs <;> rfl
  | entering =>
    rw [attend] at hu
    split_ifs at hu with hempty
    · cases hu
      exact h.put_not hc ha rfl
    · cases hu
      rw [List.isEmpty_iff] at hempty
      exact h.entered hc (hentering rfl hempty) hempty
  | done => cases hu
  | sending | accepting | refusing | disabling | stopping | requeueing | pausing => cases ha

theorem next_spec (heard : Heard) (batch : List E) (now : ℚ) :
    (heard.next batch).away = true ∧ (heard.next batch).isStopping = false ∧
      (heard.next batch = .requeueing batch heard ∨
        (heard.next batch).held = [] ∧ heard.named now = []) := by
  cases heard with
  | failed => exact ⟨rfl, rfl, .inl rfl⟩
  | answer a =>
    rw [Heard.next, Heard.named]
    by_cases hok : 200 ≤ a.status ∧ a.status < 300
    · rw [if_pos hok, if_pos (.inl hok)]
      exact ⟨rfl, rfl, .inr ⟨rfl, rfl⟩⟩
    · rw [if_neg hok]
      by_cases hretry : a.isRetryable = true
      · rw [if_pos hretry]
        exact ⟨rfl, rfl, .inl rfl⟩
      · have hno : 200 ≤ a.status ∧ a.status < 300 ∨ a.isRetryable = false :=
          .inr (Bool.eq_false_iff.2 hretry)
        rw [if_neg hretry, if_pos hno]
        split_ifs <;> exact ⟨rfl, rfl, .inr ⟨rfl, rfl⟩⟩

/-- A request comes back. -/
theorem Inv.received (h : Inv sdk t s) (hc : s.calls[i]? = some c) {heard : Heard}
    (hread : ∀ n ∈ heard.named s.clock, n ≤ s.clock ∨ ∃ w ∈ heard.wait t, n ≤ s.clock + w)
    (hu : receive s i heard c = some u) : Inv sdk t u := by
  cases c with
  | sending batch =>
    cases hu
    obtain ⟨hout, hset⟩ := filter_set_of_single hc rfl h.1.one
    have hsound : Sound sdk t [.sending batch] s.client s.clock s.tracked s.named := hout ▸ h.1
    obtain ⟨ho, hp, hs, -⟩ := sound_single.1 hsound
    obtain ⟨haway, hstop, hcases⟩ := next_spec heard batch s.clock
    have hput : (s.calls.set i (heard.next batch)).filter ThreadCall.away = [heard.next batch] := by
      rw [hset, List.filter_cons_of_pos haway, List.filter_nil]
    have hold : ∀ n ∈ s.named, n ≤ s.clock := fun n hn ↦ by simpa [ThreadCall.wait] using hp n hn
    have hnext : Sound sdk t [heard.next batch] s.client s.clock s.tracked
        (s.named ++ heard.named s.clock) := by
      refine sound_single.2 ⟨?_, fun n hn ↦ ?_, fun hd ↦ ?_, fun hd ↦ ?_⟩
      · rcases hcases with hnext | ⟨hheld, -⟩
        · rw [hnext]
          exact ho
        · rw [hheld]
          exact (List.sublist_append_right batch _).trans ho
      · rcases List.mem_append.1 hn with hn | hn
        · exact .inl (hold n hn)
        · rcases hcases with hnext | ⟨-, hnone⟩
          · rw [hnext]
            exact hread n hn
          · rw [hnone] at hn
            cases hn
      · rw [hstop] at hd
        have hempty := hs (.inl (hd.resolve_right Bool.false_ne_true))
        rcases hcases with hnext | ⟨hheld, -⟩
        · rw [hnext]
          exact hempty
        · rw [hheld]
          exact (List.append_eq_nil_iff.1 hempty).2
      · rw [hstop] at hd
        cases hd
    rw [← hput] at hnext
    exact ⟨hnext, h.2⟩
  | tracking | calling | entering | accepting | refusing | disabling | stopping | requeueing
  | pausing | done => cases hu

theorem Inv.begins (h : Inv sdk t s) (ha : c.away = false) :
    Inv sdk t { s with calls := s.calls ++ [c] } := by
  have hout : (s.calls ++ [c]).filter ThreadCall.away = s.out := by
    rw [List.filter_append, List.filter_cons_of_neg (by rw [ha]; exact Bool.false_ne_true),
      List.filter_nil, List.append_nil]
    rfl
  have hsound := h.1
  rw [← hout] at hsound
  exact ⟨hsound, h.2⟩

theorem inv_initial : Inv sdk t (initial : Threads E) :=
  ⟨sound_nil.2 ⟨List.Sublist.refl _, nofun, fun _ ↦ rfl⟩, nofun⟩

/-- What one step keeps, where flushes are apart. -/
theorem Inv.preserved (h : Inv sdk t s) {a : ThreadAction E} (ha : Apart sdk t s a)
    (hu : step sdk t s a = some u) : Inv sdk t u := by
  cases a with
  | track e =>
    rw [step] at hu
    split_ifs at hu
    · cases hu
      exact h
    · cases hu
      exact h.begins rfl
  | flush =>
    cases hu
    exact h.begins rfl
  | proceed i now random =>
    rw [step] at hu
    split_ifs at hu with hle
    obtain ⟨c, hc, hu⟩ := Option.bind_eq_some_iff.1 hu
    cases haway : c.away with
    | true => exact (h.advance hle).attend_away hc haway hu
    | false =>
      rw [Apart, hc] at ha
      refine (h.advance hle).attend_home hc haway ?_ ?_ hu
      · rintro rfl htakes
        exact List.filter_eq_nil_iff.2 fun d hd ↦ by
          rw [ha htakes d hd]
          exact Bool.false_ne_true
      · rintro e rfl hlooks
        exact ⟨(ha hlooks).1, fun d hd ↦ (ha hlooks).2 d (List.mem_of_mem_filter hd)⟩
  | returns i heard now =>
    rw [step] at hu
    split_ifs at hu with hle
    obtain ⟨c, hc, hu⟩ := Option.bind_eq_some_iff.1 hu
    exact (h.advance hle).received hc ha hu

/-- Nothing enables a client again. -/
theorem disabled_step {a : ThreadAction E} (hu : step sdk t s a = some u)
    (hd : s.client.disabled = true) : u.client.disabled = true := by
  cases a with
  | track e =>
    rw [step] at hu
    split_ifs at hu <;> cases hu <;> exact hd
  | flush =>
    cases hu
    exact hd
  | proceed i now random =>
    rw [step] at hu
    split_ifs at hu
    obtain ⟨c, -, hu⟩ := Option.bind_eq_some_iff.1 hu
    cases c with
    | tracking e =>
      rw [attend] at hu
      split_ifs at hu <;> cases hu
      · exact hd
      · exact SdkClient.disabled_trim.trans hd
    | calling =>
      cases hu
      exact hd
    | entering =>
      rw [attend] at hu
      split_ifs at hu <;> cases hu <;> exact hd
    | accepting rejected =>
      cases hu
      exact (accept_fields s.client rejected).2.trans hd
    | refusing status =>
      cases hu
      exact hd
    | disabling status =>
      rw [attend] at hu
      split_ifs at hu <;> cases hu
      · exact hd
      · rfl
    | stopping status discarded =>
      cases hu
      rfl
    | requeueing batch heard =>
      cases hu
      exact (SdkClient.disabled_requeue batch).trans hd
    | pausing heard =>
      cases hu
      exact (pauseFor_fields s.client now random heard).2.1.trans hd
    | sending | done => cases hu
  | returns i heard now =>
    rw [step] at hu
    split_ifs at hu
    obtain ⟨c, -, hu⟩ := Option.bind_eq_some_iff.1 hu
    cases c with
    | sending batch =>
      cases hu
      exact hd
    | tracking | calling | entering | accepting | refusing | disabling | stopping | requeueing
    | pausing | done => cases hu

theorem Inv.promised (h : Inv sdk t s) : Promised sdk t s where
  ordered _ := (List.sublist_append_right _ _).trans h.1.ordered
  patient := h.2
  stopped hd := (List.append_eq_nil_iff.1 (h.1.stopped (.inl hd))).2
  lasting hd _ _ hu := disabled_step hu hd

def smallSizes : SdkSizes := ⟨1, 10, by decide, by decide⟩

/-- Two events are tracked, and two flushes take one each. -/
def twoOut : List (ThreadAction ℕ) :=
  [.track 1, .track 2, .proceed 0 0 0, .proceed 1 0 0, .flush, .flush, .proceed 2 0 0,
    .proceed 3 0 0, .proceed 2 0 0, .proceed 3 0 0]

/-- Both fail, and come back in the order of their failures. -/
def bothFail : List (ThreadAction ℕ) :=
  twoOut ++ [.returns 2 .failed 0, .returns 3 .failed 0, .proceed 2 0 0, .proceed 3 0 0]

/-- One is told to stay away for a minute, the other fails, and a third flush goes in. -/
def oneWaits : List (ThreadAction ℕ) :=
  twoOut ++ [.returns 2 (.answer ⟨429, none, some (.seconds 60), 0⟩) 0, .returns 3 .failed 0,
    .proceed 2 0 0, .proceed 2 0 0, .proceed 3 0 0, .proceed 3 0 0, .flush, .proceed 4 0 0,
    .proceed 4 0 0]

/-- One is refused its credential, and the other fails. -/
def oneStops (sdk : Sdk) : List (ThreadAction ℕ) :=
  twoOut ++ [.returns 2 (.answer ⟨401, none, none, 0⟩) 0, .returns 3 .failed 0, .proceed 2 0 0] ++
    (if looksFirst sdk then [.proceed 2 0 0] else []) ++ [.proceed 3 0 0]

/-- Each of the promises is broken in one of the three runs. -/
def Broken (sdk : Sdk) : Prop :=
  ¬ Throughout (step sdk (sdk.traits smallSizes))
      (fun s ↦ (∀ c ∈ s.calls, c.isSending = false) → s.client.buffer.Sublist s.tracked)
      initial bothFail ∧
    ¬ Throughout (step sdk (sdk.traits smallSizes))
      (fun s ↦ ∀ r ∈ s.starts, ∀ n ∈ r.named, n ≤ r.at') initial oneWaits ∧
    ¬ Throughout (step sdk (sdk.traits smallSizes))
      (fun s ↦ s.client.disabled = true → s.client.buffer = []) initial (oneStops sdk)

theorem broken_of_mem {sdk : Sdk} (hsdk : sdk ∈ [Sdk.rust, .go, .python]) : Broken sdk := by
  have hfail : ∀ sdk ∈ [Sdk.rust, .go, .python],
      (run (step sdk (sdk.traits smallSizes)) initial bothFail).map
        (fun s ↦ (s.calls.all (!·.isSending), s.client.buffer, s.tracked)) =
          some (true, [2, 1], [1, 2]) := by decide
  have hwait : ∀ sdk ∈ [Sdk.rust, .go, .python],
      (run (step sdk (sdk.traits smallSizes)) initial oneWaits).map
        (fun s ↦ s.starts.map (fun r ↦ (r.at', r.named))) =
          some [(0, []), (0, []), (0, [60000])] := by decide +kernel
  have hstop : ∀ sdk ∈ [Sdk.rust, .go, .python],
      (run (step sdk (sdk.traits smallSizes)) initial (oneStops sdk)).map
        (fun s ↦ (s.client.disabled, s.client.buffer)) = some (true, [2]) := by decide
  refine ⟨fun h ↦ ?_, fun h ↦ ?_, fun h ↦ ?_⟩
  · obtain ⟨s, hs, hobs⟩ := Option.map_eq_some_iff.1 (hfail sdk hsdk)
    simp only [Prod.mk.injEq] at hobs
    obtain ⟨hquiet, hbuffer, htracked⟩ := hobs
    have hsub := h.last hs (by simpa using hquiet)
    rw [hbuffer, htracked] at hsub
    exact absurd hsub (by decide)
  · obtain ⟨s, hs, hobs⟩ := Option.map_eq_some_iff.1 (hwait sdk hsdk)
    have hin : ((0, [60000]) : ℚ × List ℚ) ∈ s.starts.map (fun r ↦ (r.at', r.named)) := by
      rw [hobs]
      simp
    obtain ⟨r, hr, heq⟩ := List.mem_map.1 hin
    obtain ⟨hat, hnamed⟩ := Prod.mk.injEq .. ▸ heq
    have hle := h.last hs r hr 60000 (by rw [hnamed]; exact List.mem_singleton_self _)
    rw [hat] at hle
    norm_num at hle
  · obtain ⟨s, hs, hobs⟩ := Option.map_eq_some_iff.1 (hstop sdk hsdk)
    simp only [Prod.mk.injEq] at hobs
    rw [h.last hs hobs.1] at hobs
    cases hobs.2

end Threads

end Counted.Sdk
