import Counted.Foundations.Run
import Counted.Projects.CredentialStore

namespace Counted.Projects

open Foundations

/-- The columns of a key's row that the limiter reads and writes. -/
structure MeterRow where
  windowStartedAt : Option Instant
  windowCount : ℕ
  lastUsedAt : Option Instant
  deriving DecidableEq

/-- As `place` writes them. -/
def MeterRow.placed : MeterRow := ⟨none, 0, none⟩

structure RateLimit where
  window : Duration
  max : ℕ

namespace RateLimit

variable (limit : RateLimit)

/-- Whether the window that started then is over. There is none before the first use. -/
def expired (startedAt : Option Instant) (at' : Instant) : Bool :=
  startedAt.all (fun startedAt ↦ startedAt + limit.window ≤ at')

def reset (row : MeterRow) (at' : Instant) : MeterRow :=
  { row with windowStartedAt := some at', windowCount := 1, lastUsedAt := some at' }

/-- `incrementOne`, whose `where` is both selector and guard. -/
def incrementOne (row : MeterRow) (at' : Instant) : Option MeterRow :=
  if row.windowCount < limit.max then
    some { row with windowCount := row.windowCount + 1, lastUsedAt := some at' }
  else none

/-- `meter`, from a row that was read to its one update, which finds the row as it is by then. -/
def meter (startedAt : Option Instant) (at' : Instant) (row : MeterRow) :
    Option VerificationFailure × MeterRow :=
  match startedAt.filter (fun startedAt ↦ at' < startedAt + limit.window) with
  | none => (none, reset row at')
  | some startedAt =>
    match limit.incrementOne row at' with
    | some row => (none, row)
    | none => (some (.rateLimited (startedAt + limit.window - at')), row)

end RateLimit

/-- How far a call of `verify` has come. A call that meters holds the window it read, and how
many had been opened by then. -/
inductive Verifying
  | looking (kind : CredentialKind) (at' : Instant)
  | metering (verified : VerifiedCredential) (at' : Instant) (startedAt : Option Instant)
      (opened : ℕ)
  | answered (answer : Except VerificationFailure VerifiedCredential)

/-- A window, and how many calls have been admitted since it was opened and before it expired. -/
structure Window where
  startedAt : Instant
  admitted : ℕ

/-- A key, the calls of `verify` on it, and the windows that have been opened, the latest first. -/
structure MeteredKey where
  row : MeterRow := .placed
  clock : Instant
  calls : List Verifying := []
  windows : List Window := []

inductive MeterAction
  | call (kind : CredentialKind) (now : Instant)
  | read (i : ℕ) (now : Instant)
  | update (i : ℕ) (now : Instant)

def MeterAction.now : MeterAction → Instant
  | .call _ now | .read _ now | .update _ now => now

namespace MeteredKey

variable (key : ApiKeyRow) (limit : RateLimit)

def letIn (s : MeteredKey) : MeteredKey :=
  { s with windows := s.windows.map (fun w ↦
      if s.clock < w.startedAt + limit.window then { w with admitted := w.admitted + 1 } else w) }

/-- Only a reset opens a window. -/
def openWindow (s : MeteredKey) (startedAt : Option Instant) (at' : Instant) : MeteredKey :=
  if limit.expired startedAt at' then { s with windows := ⟨at', 0⟩ :: s.windows } else s

def update (s : MeteredKey) (i : ℕ) (verified : VerifiedCredential) (at' : Instant)
    (startedAt : Option Instant) : MeteredKey :=
  match limit.meter startedAt at' s.row with
  | (some failure, row) => { s with row, calls := s.calls.set i (.answered (.error failure)) }
  | (none, row) =>
    letIn limit { s.openWindow limit startedAt at' with
      row, calls := s.calls.set i (.answered (.ok verified)) }

/-- One statement of one call, at a time of the clock. -/
def step (s : MeteredKey) (a : MeterAction) : Option MeteredKey :=
  if a.now < s.clock then none
  else
    let s : MeteredKey := { s with clock := a.now }
    match a with
    | .call kind now => some { s with calls := s.calls ++ [.looking kind now] }
    | .read i _ =>
      match s.calls[i]? with
      | some (.looking kind at') =>
        match key.check kind at' with
        | .error failure => some { s with calls := s.calls.set i (.answered (.error failure)) }
        | .ok verified => some
          { s with
            calls := s.calls.set i
              (.metering verified at' s.row.windowStartedAt s.windows.length) }
      | _ => none
    | .update i _ =>
      match s.calls[i]? with
      | some (.metering verified at' startedAt _) => some (s.update limit i verified at' startedAt)
      | _ => none

/-- No window that was opened has let in more calls than the limit. -/
def Limited (s : MeteredKey) : Prop := ∀ w ∈ s.windows, w.admitted ≤ limit.max

/-- A call that opens a window finds that no other call has opened one since it read the row. -/
def OpensAlone (s : MeteredKey) : MeterAction → Prop
  | .update i _ => ∀ verified at' startedAt opened,
      s.calls[i]? = some (.metering verified at' startedAt opened) →
        limit.expired startedAt at' = true → opened = s.windows.length
  | .call .. | .read .. => True

/-- What a call under way knows of the key. -/
def Knows (s : MeteredKey) : Verifying → Prop
  | .looking _ at' => at' ≤ s.clock
  | .metering _ at' startedAt opened => at' ≤ s.clock ∧ opened ≤ s.windows.length ∧
      (opened = s.windows.length → startedAt = s.row.windowStartedAt)
  | .answered _ => True

/-- The row counts the latest window, and all the others are over. -/
structure Inv (s : MeteredKey) : Prop where
  count : s.row.windowCount ≤ limit.max
  current : s.row.windowStartedAt = s.windows.head?.map (·.startedAt)
  latest : ∀ w ∈ s.windows.head?, w.admitted ≤ s.row.windowCount
  closed : ∀ w ∈ s.windows.tail, w.startedAt + limit.window ≤ s.clock ∧ w.admitted ≤ limit.max
  calls : ∀ c ∈ s.calls, s.Knows c

variable {key limit} {s t : MeteredKey} {a : MeterAction} {i j : ℕ} {c : Verifying}
  {verified : VerifiedCredential} {at' : Instant} {startedAt : Option Instant} {opened : ℕ}

theorem Inv.limited (h : s.Inv limit) : s.Limited limit := by
  intro w hw
  cases hs : s.windows with
  | nil =>
    rw [hs] at hw
    cases hw
  | cons v windows =>
    rw [hs] at hw
    rcases List.mem_cons.1 hw with rfl | hw
    · exact (h.latest w (by rw [hs]; rfl)).trans h.count
    · exact (h.closed w (by rw [hs]; exact hw)).2

theorem inv_new (limit : RateLimit) (clock : Instant) : Inv limit { clock } where
  count := Nat.zero_le _
  current := rfl
  latest := by rintro w ⟨⟩
  closed := by rintro w ⟨⟩
  calls := by rintro c ⟨⟩

theorem Inv.tick {now : Instant} (h : s.Inv limit) (hn : s.clock ≤ now) :
    Inv limit { s with clock := now } where
  count := h.count
  current := h.current
  latest := h.latest
  closed w hw := ⟨(h.closed w hw).1.trans hn, (h.closed w hw).2⟩
  calls c hc := by
    have hk := h.calls c hc
    cases c with
    | looking kind at' => exact le_trans hk hn
    | metering verified at' startedAt opened => exact ⟨hk.1.trans hn, hk.2⟩
    | answered answer => trivial

theorem Inv.setCalls {calls : List Verifying} (h : s.Inv limit) (hc : ∀ c ∈ calls, s.Knows c) :
    Inv limit { s with calls } where
  count := h.count
  current := h.current
  latest := h.latest
  closed := h.closed
  calls c hm := by
    have hk := hc c hm
    cases c <;> exact hk

theorem Inv.set (h : s.Inv limit) (hc : s.Knows c) :
    Inv limit { s with calls := s.calls.set i c } := by
  apply h.setCalls
  intro d hd
  rcases List.mem_or_eq_of_mem_set hd with hd | rfl
  · exact h.calls d hd
  · exact hc

/-- An admission reaches no window that is over. -/
theorem letIn_closed {windows : List Window}
    (h : ∀ w ∈ windows, w.startedAt + limit.window ≤ s.clock ∧ w.admitted ≤ limit.max) :
    (letIn limit { s with windows }).windows = windows := by
  apply (List.map_congr_left fun w hw ↦ ?_).trans (List.map_id windows)
  exact if_neg (not_lt.2 (h w hw).1)

/-- What one step does, the clock having moved. -/
theorem step_cases (h : step key limit s a = some t) : s.clock ≤ a.now ∧
    ∃ u, u = { s with clock := a.now } ∧
      ((∃ kind, t = { u with calls := u.calls ++ [.looking kind a.now] }) ∨
        (∃ i kind at', u.calls[i]? = some (.looking kind at') ∧
          ((∃ failure, t = { u with calls := u.calls.set i (.answered (.error failure)) }) ∨
            ∃ verified, t = { u with
              calls := u.calls.set i
                (.metering verified at' u.row.windowStartedAt u.windows.length) })) ∨
        ∃ i now verified at' startedAt opened, a = .update i now ∧
          u.calls[i]? = some (.metering verified at' startedAt opened) ∧
            t = u.update limit i verified at' startedAt) := by
  rw [step] at h
  split_ifs at h with hn
  refine ⟨not_lt.1 hn, _, rfl, ?_⟩
  cases a with
  | call kind now => exact .inl ⟨kind, (Option.some.inj h).symm⟩
  | read i now =>
    dsimp only at h
    split at h
    · rename_i kind at' hc
      refine .inr (.inl ⟨i, kind, at', hc, ?_⟩)
      split at h
      · rename_i failure hk
        exact .inl ⟨failure, (Option.some.inj h).symm⟩
      · rename_i verified hk
        exact .inr ⟨verified, (Option.some.inj h).symm⟩
    · cases h
  | update i now =>
    dsimp only at h
    split at h
    · rename_i verified at' startedAt opened hc
      exact .inr (.inr ⟨i, now, verified, at', startedAt, opened, rfl, hc, (Option.some.inj h).symm⟩)
    · cases h

/-- What the update of a call does: it opens a window, or is counted in, or is refused. -/
theorem update_cases (s : MeteredKey) (i : ℕ) (verified : VerifiedCredential) (at' : Instant)
    (startedAt : Option Instant) :
    (limit.expired startedAt at' = true ∧ s.update limit i verified at' startedAt =
        letIn limit { s with
          row := RateLimit.reset s.row at'
          windows := ⟨at', 0⟩ :: s.windows
          calls := s.calls.set i (.answered (.ok verified)) }) ∨
      limit.expired startedAt at' = false ∧
        ((s.row.windowCount < limit.max ∧ s.update limit i verified at' startedAt =
          letIn limit { s with
            row := { s.row with
              windowCount := s.row.windowCount + 1, lastUsedAt := some at' }
            calls := s.calls.set i (.answered (.ok verified)) }) ∨
          ∃ failure, s.update limit i verified at' startedAt =
            { s with calls := s.calls.set i (.answered (.error failure)) }) := by
  cases startedAt with
  | none => exact .inl ⟨rfl, rfl⟩
  | some start =>
    by_cases hx : start + limit.window ≤ at'
    · have hm : limit.meter (some start) at' s.row = (none, RateLimit.reset s.row at') := by
        rw [RateLimit.meter, Option.filter_some, if_neg (by simpa using hx)]
      have he : limit.expired (some start) at' = true := decide_eq_true hx
      refine .inl ⟨he, ?_⟩
      rw [update, hm, openWindow, if_pos he]
    · have he : limit.expired (some start) at' = false := decide_eq_false hx
      refine .inr ⟨he, ?_⟩
      have hf : (some start).filter (fun start ↦ decide (at' < start + limit.window)) = some start := by
        rw [Option.filter_some, if_pos (by simpa using hx)]
      rw [update, RateLimit.meter, hf, RateLimit.incrementOne]
      by_cases hc : s.row.windowCount < limit.max
      · refine .inl ⟨hc, ?_⟩
        rw [if_pos hc, openWindow, he]
        rfl
      · refine .inr ⟨.rateLimited (start + limit.window - at'), ?_⟩
        rw [if_neg hc]

theorem Inv.call (h : s.Inv limit) (hc : s.calls[i]? = some c) : s.Knows c :=
  h.calls c (List.mem_of_getElem? hc)

theorem Inv.reset (h : s.Inv limit) (hm : 1 ≤ limit.max)
    (hc : s.calls[i]? = some (.metering verified at' startedAt opened))
    (he : limit.expired startedAt at' = true) (ho : opened = s.windows.length) :
    Inv limit (letIn limit { s with
      row := RateLimit.reset s.row at'
      windows := ⟨at', 0⟩ :: s.windows
      calls := s.calls.set i (.answered (.ok verified)) }) := by
  obtain ⟨hat, -, hcur⟩ := h.call hc
  have hover : ∀ w ∈ s.windows, w.startedAt + limit.window ≤ s.clock ∧ w.admitted ≤ limit.max := by
    intro w hw
    refine ⟨?_, h.limited w hw⟩
    cases hs : s.windows with
    | nil =>
      rw [hs] at hw
      cases hw
    | cons v windows =>
      rw [hs] at hw
      rcases List.mem_cons.1 hw with rfl | hw
      · -- the window the call read is the latest, and is over for it
        rw [hcur ho, h.current, hs] at he
        exact (of_decide_eq_true he).trans hat
      · exact (h.closed w (by rw [hs]; exact hw)).1
  have hw : (letIn limit { s with windows := ⟨at', 0⟩ :: s.windows }).windows =
      (if s.clock < at' + limit.window then ⟨at', 1⟩ else ⟨at', 0⟩) :: s.windows :=
    congrArg (List.cons _) (letIn_closed hover)
  have hl : (letIn limit { s with windows := ⟨at', 0⟩ :: s.windows }).windows.length =
      s.windows.length + 1 := by rw [hw, List.length_cons]
  refine ⟨hm, ?_, ?_, ?_, fun d hd ↦ ?_⟩
  · change some at' = (letIn limit { s with windows := ⟨at', 0⟩ :: s.windows }).windows.head?.map _
    rw [hw]
    split_ifs <;> rfl
  · change ∀ w ∈ (letIn limit { s with windows := ⟨at', 0⟩ :: s.windows }).windows.head?, w.admitted ≤ 1
    rw [hw]
    intro w hw
    obtain rfl := Option.some.inj hw
    split_ifs
    · exact le_rfl
    · exact Nat.zero_le 1
  · change ∀ w ∈ (letIn limit { s with windows := ⟨at', 0⟩ :: s.windows }).windows.tail, _
    rw [hw]
    exact hover
  · rcases List.mem_or_eq_of_mem_set hd with hd | rfl
    · have hk := h.calls d hd
      cases d with
      | looking kind at' => exact hk
      | metering verified at' startedAt opened =>
        refine ⟨hk.1, ?_, fun hn ↦ ?_⟩
        · exact (hk.2.1.trans (Nat.le_succ _)).trans_eq hl.symm
        · exact absurd (hn.trans hl) (Nat.lt_succ_of_le hk.2.1).ne
      | answered answer => trivial
    · trivial

theorem Inv.increment (h : s.Inv limit) (hc : s.row.windowCount < limit.max) :
    Inv limit (letIn limit { s with
      row := { s.row with windowCount := s.row.windowCount + 1, lastUsedAt := some at' }
      calls := s.calls.set i (.answered (.ok verified)) }) := by
  have hl : (letIn limit s).windows.length = s.windows.length := List.length_map _
  have ht : (letIn limit s).windows.tail = s.windows.tail := by
    rw [letIn, ← List.map_tail]
    exact letIn_closed h.closed
  refine ⟨hc, ?_, ?_, ?_, fun d hd ↦ ?_⟩
  · change s.row.windowStartedAt = (letIn limit s).windows.head?.map _
    rw [h.current, letIn, List.head?_map, Option.map_map]
    congr 1
    funext w
    dsimp only [Function.comp_apply]
    split_ifs <;> rfl
  · change ∀ w ∈ (letIn limit s).windows.head?, w.admitted ≤ s.row.windowCount + 1
    rw [letIn, List.head?_map]
    intro w hw
    obtain ⟨v, hv, rfl⟩ := Option.map_eq_some_iff.1 hw
    have hle := h.latest v hv
    split_ifs
    · exact Nat.succ_le_succ hle
    · exact hle.trans (Nat.le_succ _)
  · change ∀ w ∈ (letIn limit s).windows.tail, _
    rw [ht]
    exact h.closed
  · rcases List.mem_or_eq_of_mem_set hd with hd | rfl
    · have hk := h.calls d hd
      cases d with
      | looking kind at' => exact hk
      | metering verified at' startedAt opened =>
        exact ⟨hk.1, hk.2.1.trans_eq hl.symm, fun hn ↦ hk.2.2 (hn.trans hl)⟩
      | answered answer => trivial
    · trivial

theorem inv_step (hm : 1 ≤ limit.max) (h : s.Inv limit) (hC : s.OpensAlone limit a)
    (ha : step key limit s a = some t) : t.Inv limit := by
  obtain ⟨hn, u, hu, ha⟩ := step_cases ha
  have hui : u.Inv limit := hu ▸ h.tick hn
  rcases ha with ⟨kind, rfl⟩ | ⟨i, kind, at', hc, ⟨failure, rfl⟩ | ⟨verified, rfl⟩⟩ |
    ⟨i, now, verified, at', startedAt, opened, rfl, hc, rfl⟩
  · apply hui.setCalls
    intro c hc
    rcases List.mem_append.1 hc with hc | hc
    · exact hui.calls c hc
    · rw [List.mem_singleton.1 hc, hu]
      exact le_rfl
  · exact hui.set trivial
  · exact hui.set ⟨hui.call hc, le_rfl, fun _ ↦ rfl⟩
  · rcases update_cases u i verified at' startedAt with ⟨he, hx⟩ | ⟨-, ⟨hlt, hx⟩ | ⟨failure, hx⟩⟩
    · rw [hx]
      exact hui.reset hm hc he (by subst hu; exact hC verified at' startedAt opened hc he)
    · rw [hx]
      exact hui.increment hlt
    · rw [hx]
      exact hui.set trivial

theorem refused_update {failure : VerificationFailure}
    (hi : s.calls[i]? ≠ (s.update limit j verified at' startedAt).calls[i]?)
    (ht : (s.update limit j verified at' startedAt).calls[i]? =
      some (.answered (.error failure))) : (s.update limit j verified at' startedAt).row = s.row := by
  -- a call that is let in gets no refusal
  have hok (hset : (s.calls.set j (.answered (.ok verified)))[i]? =
      some (.answered (.error failure))) :
      s.calls[i]? = (s.calls.set j (.answered (.ok verified)))[i]? := by
    rw [List.getElem?_set] at hset ⊢
    split_ifs at hset ⊢
    · cases hset
    · rfl
  rcases update_cases s j verified at' startedAt with ⟨-, hx⟩ | ⟨-, ⟨-, hx⟩ | ⟨f, hx⟩⟩
  · rw [hx] at hi ht
    exact absurd (hok ht) hi
  · rw [hx] at hi ht
    exact absurd (hok ht) hi
  · rw [hx]

/-- A refusal leaves the row of the key as it was. -/
theorem refused_unmetered {failure : VerificationFailure}
    (h : step key limit s a = some t) (hi : s.calls[i]? ≠ t.calls[i]?)
    (ht : t.calls[i]? = some (.answered (.error failure))) : t.row = s.row := by
  obtain ⟨-, u, rfl, ha⟩ := step_cases h
  rcases ha with ⟨kind, rfl⟩ | ⟨j, kind, at', hc, ⟨f, rfl⟩ | ⟨verified, rfl⟩⟩ |
    ⟨j, now, verified, at', startedAt, opened, rfl, hc, rfl⟩
  · rfl
  · rfl
  · rfl
  · exact refused_update hi ht

/-- While no call opens a window behind the back of another, every window lets in at most as many
calls as the limit from the time it is opened to the time it expires. A refusal never counts. -/
theorem windows_limited (key : ApiKeyRow) (limit : RateLimit) (hm : 1 ≤ limit.max)
    (clock : Instant) (l : List MeterAction)
    (h : Along (step key limit) (OpensAlone limit) { clock } l) :
    Throughout (step key limit) (Limited limit) { clock } l ∧
      ∀ (s t : MeteredKey) (a : MeterAction) (i : ℕ) (failure : VerificationFailure),
        step key limit s a = some t → s.calls[i]? ≠ t.calls[i]? →
          t.calls[i]? = some (.answered (.error failure)) → t.row = s.row := by
  refine ⟨?_, fun s t a i failure ↦ refused_unmetered⟩
  have hi := throughout_of_along (fun _ _ _ hs hC ha ↦ inv_step hm hs hC ha)
    (inv_new limit clock) h
  exact hi.mono fun _ ↦ Inv.limited

def sampleKey : ApiKeyRow where
  id := js "cr_1"
  kind := .ingest
  name := js "web"
  expiresAt := none
  revokedAt := none
  workspace := js "w"
  project := some (js "pr_1")
  permissions := [.eventsWrite]
  issuedBy := js "ac_1"
  createdAt := 0
  enabled := true

/-- Two calls come as the first window expires, and both read the row before either updates it. -/
def twoResets : List MeterAction :=
  [.call .ingest 0, .read 0 0, .update 0 0, .call .ingest 60000, .call .ingest 60000,
    .read 1 60000, .read 2 60000, .update 1 60000, .update 2 60000]

/-- One at a time, and refused once the window is full. -/
def oneReset : List MeterAction :=
  [.call .ingest 0, .read 0 0, .update 0 0, .call .ingest 1, .read 1 1, .update 1 2]

theorem windows_limited_sample :
    Throughout (step sampleKey ⟨60000, 1⟩) (Limited ⟨60000, 1⟩) { clock := 0 } oneReset := by
  refine (windows_limited sampleKey ⟨60000, 1⟩ le_rfl 0 oneReset ?_).1
  refine ⟨trivial, fun _ h ↦ ?_⟩
  cases h
  refine ⟨trivial, fun _ h ↦ ?_⟩
  cases h
  refine ⟨?_, fun _ h ↦ ?_⟩
  · rintro verified at' startedAt opened hc -
    cases hc
    rfl
  cases h
  refine ⟨trivial, fun _ h ↦ ?_⟩
  cases h
  refine ⟨trivial, fun _ h ↦ ?_⟩
  cases h
  refine ⟨?_, fun _ _ ↦ trivial⟩
  rintro verified at' startedAt opened hc -
  cases hc
  rfl

/-- With a limit of one, the window that the first of them opens lets in both. -/
theorem window_overrun :
    (run (step sampleKey ⟨60000, 1⟩) { clock := 0 } twoResets).map
        (fun s ↦ s.windows.map (fun w ↦ (w.startedAt, w.admitted))) =
          some [(60000, 1), (60000, 2), (0, 1)] ∧
      ¬ Throughout (step sampleKey ⟨60000, 1⟩) (Limited ⟨60000, 1⟩) { clock := 0 } twoResets := by
  have hw : (run (step sampleKey ⟨60000, 1⟩) { clock := 0 } twoResets).map
      (fun s ↦ s.windows.map (fun w ↦ (w.startedAt, w.admitted))) =
        some [(60000, 1), (60000, 2), (0, 1)] := rfl
  refine ⟨hw, fun h ↦ ?_⟩
  obtain ⟨s, hs, hm⟩ := Option.map_eq_some_iff.1 hw
  have hin : ((60000, 2) : Instant × ℕ) ∈ s.windows.map (fun w ↦ (w.startedAt, w.admitted)) :=
    hm ▸ List.mem_cons_of_mem _ List.mem_cons_self
  obtain ⟨w, hwin, he⟩ := List.mem_map.1 hin
  have hle : w.admitted ≤ 1 := h.last hs w hwin
  have ha : w.admitted = 2 := congrArg Prod.snd he
  omega

end MeteredKey

end Counted.Projects
