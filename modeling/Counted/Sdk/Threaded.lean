import Counted.Sdk.Client

namespace Counted.Sdk

/-- What a server says when a client is to come back. -/
inductive RetryAfter
  | seconds (s : NNRat)
  | date (at' : ℚ)

structure Answer where
  status : ℕ
  retryable : Option Bool
  retryAfter : Option RetryAfter
  rejected : ℕ

/-- A server's own answer wins over the list of statuses. -/
def Answer.isRetryable (a : Answer) : Bool :=
  a.retryable.getD (retryableStatuses.contains a.status)

inductive Heard
  | answer (a : Answer)
  | failed

/-- The sizes of a client, and what the clients in the four languages differ in. -/
structure SdkTraits where
  maxBatch : ℕ
  maxBuffer : ℕ
  maxBatch_pos : 0 < maxBatch
  maxBuffer_pos : 0 < maxBuffer
  flushesWhenFull : Bool
  readsDates : Bool
  wait : ℚ → ℚ
  reportsRequeued : Bool
  reportsFailures : Bool

/-- Toward zero, as a conversion to `int64` goes. -/
def truncate (q : ℚ) : ℚ := if 0 ≤ q then (⌊q⌋ : ℤ) else (⌈q⌉ : ℤ)

structure SdkSizes where
  maxBatch : ℕ
  maxBuffer : ℕ
  maxBatch_pos : 0 < maxBatch
  maxBuffer_pos : 0 < maxBuffer

/-- `DEFAULTS`. -/
def SdkSizes.default : SdkSizes := ⟨50, 1000, by decide, by decide⟩

/-- At most 250 events a batch, where the caller names the size. -/
def SdkSizes.capped (maxBatchSize maxBufferEvents : ℕ) (hbatch : 0 < maxBatchSize)
    (hbuffer : 0 < maxBufferEvents) : SdkSizes :=
  ⟨min maxBatchSize 250, maxBufferEvents, lt_min hbatch (by decide), hbuffer⟩

inductive Sdk | javaScript | python | go | rust
  deriving DecidableEq

/-- A conversion to `u64` saturates at zero. -/
def Sdk.wait : Sdk → ℚ → ℚ
  | .javaScript, q | .python, q => q
  | .go, q => truncate q
  | .rust, q => max 0 (truncate q)

def Sdk.traits (sdk : Sdk) (k : SdkSizes) : SdkTraits where
  maxBatch := k.maxBatch
  maxBuffer := k.maxBuffer
  maxBatch_pos := k.maxBatch_pos
  maxBuffer_pos := k.maxBuffer_pos
  flushesWhenFull := sdk = .javaScript || sdk = .python
  readsDates := sdk = .javaScript
  wait := sdk.wait
  reportsRequeued := sdk ≠ .javaScript
  reportsFailures := sdk = .python

inductive SdkDiagnostic
  | dropped (events : ℕ)
  | rejected (events : ℕ)
  | refused (status : ℕ)
  | disabled (status discarded : ℕ)
  | retry
  deriving DecidableEq

/-- Events a diagnostic reports as dropped. -/
def SdkDiagnostic.drops : SdkDiagnostic → ℕ
  | .dropped events => events
  | .rejected _ | .refused _ | .disabled .. | .retry => 0

structure SdkClient (E : Type) where
  buffer : List E
  pausedUntil : ℚ
  attempt : ℕ
  disabled : Bool
  closed : Bool
  diagnostics : List SdkDiagnostic

namespace SdkClient

variable {E : Type} (t : SdkTraits) (c : SdkClient E)

def initial : SdkClient E := ⟨[], 0, 0, false, false, []⟩

def report (d : SdkDiagnostic) : SdkClient E := { c with diagnostics := c.diagnostics ++ [d] }

def excess : ℕ := c.buffer.length - t.maxBuffer

def cut : SdkClient E := { c with buffer := c.buffer.drop (c.excess t) }

/-- The oldest go, and are counted. -/
def trim : SdkClient E :=
  if c.excess t = 0 then c else (c.cut t).report (.dropped (c.excess t))

/-- The events that `trim` takes out. -/
def spilled : List E := c.buffer.take (c.excess t)

def append (e : E) : SdkClient E := { c with buffer := c.buffer ++ [e] }

def prepend (batch : List E) : SdkClient E := { c with buffer := batch ++ c.buffer }

/-- What `track` does with the event it has made. -/
def push (e : E) : SdkClient E := (c.append e).trim t

/-- A batch goes back to the head. -/
def requeue (batch : List E) : SdkClient E :=
  if t.reportsRequeued then (c.prepend batch).trim t else (c.prepend batch).cut t

def blocked (now : ℚ) : Bool := c.disabled || now < c.pausedUntil

def batch (now : ℚ) : List E := if c.blocked now then [] else c.buffer.take t.maxBatch

/-- What a flush leaves behind when it takes its batch. -/
def taken (now : ℚ) : SdkClient E :=
  if c.blocked now then c else { c with buffer := c.buffer.drop t.maxBatch }

/-- Exponential, capped, with full jitter. -/
def backOff (now random : ℚ) : SdkClient E := { c with
  attempt := c.attempt + 1
  pausedUntil := now + t.wait (random * backoffCeiling (c.attempt + 1)) }

/-- A date is told to one of the clients only. -/
def retryAt (now random : ℚ) : Option RetryAfter → SdkClient E
  | some (.seconds s) => { c with pausedUntil := now + t.wait (s * 1000) }
  | some (.date at') =>
    if t.readsDates then { c with pausedUntil := now + max 0 (at' - now) }
    else c.backOff t now random
  | none => c.backOff t now random

def accept (rejected : ℕ) : SdkClient E :=
  if 0 < rejected then { c with attempt := 0 }.report (.rejected rejected)
  else { c with attempt := 0 }

/-- A credential that is refused stops the client, and the buffer is discarded. -/
def disable (status : ℕ) : SdkClient E :=
  { c with buffer := [], disabled := true }.report (.disabled status c.buffer.length)

def settleAnswer (batch : List E) (a : Answer) (now random : ℚ) : SdkClient E :=
  if 200 ≤ a.status ∧ a.status < 300 then c.accept a.rejected
  else if a.isRetryable then (c.requeue t batch).retryAt t now random a.retryAfter
  else if fatalStatuses.contains a.status then c.disable a.status
  else c.report (.refused a.status)

/-- What becomes of a batch that was sent, and of the client. -/
def settle (batch : List E) (heard : Heard) (now random : ℚ) : SdkClient E :=
  match heard with
  | .answer a => c.settleAnswer t batch a now random
  | .failed =>
    let d := (c.requeue t batch).backOff t now random
    if t.reportsFailures then d.report .retry else d

variable {t c}

theorem trim_buffer : (c.trim t).buffer = c.buffer.drop (c.excess t) := by
  rw [trim]
  split_ifs with h
  · rw [h, List.drop_zero]
  · rfl

theorem trim_fits (h : c.buffer.length ≤ t.maxBuffer) : c.trim t = c :=
  if_pos (Nat.sub_eq_zero_of_le h)

theorem length_trim : (c.trim t).buffer.length = min c.buffer.length t.maxBuffer := by
  rw [trim_buffer, List.length_drop, excess]
  omega

theorem disabled_trim : (c.trim t).disabled = c.disabled := by
  rw [trim]
  split_ifs <;> rfl

theorem disabled_requeue (batch : List E) : (c.requeue t batch).disabled = c.disabled := by
  rw [requeue]
  split_ifs
  · exact disabled_trim
  · rfl

theorem disabled_taken (now : ℚ) : (c.taken t now).disabled = c.disabled := by
  rw [taken]
  split_ifs <;> rfl

theorem disabled_retryAt (now random : ℚ) (r : Option RetryAfter) :
    (c.retryAt t now random r).disabled = c.disabled := by
  rcases r with _ | s | at'
  · rfl
  · rfl
  · rw [retryAt]
    split_ifs <;> rfl

end SdkClient

end Counted.Sdk
