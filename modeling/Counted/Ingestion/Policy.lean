import Counted.Ingestion.Batch

namespace Counted.Ingestion

structure GroupCommitPolicy where
  linger : Duration
  maxEvents : ℕ
  maxWaiters : ℕ
  maxBuffered : ℕ
  maxInFlight : ℕ
  retryAfter : Duration

def defaultGroupCommitPolicy : GroupCommitPolicy where
  linger := 20
  maxEvents := 500
  maxWaiters := 64
  maxBuffered := 50000
  maxInFlight := 4
  retryAfter := 1000

/-- A group being assembled. `openedAt` is when its first event joined. -/
structure PendingGroup where
  events : ℕ
  waiters : ℕ
  openedAt : Instant

structure CommitState where
  group : Option PendingGroup
  inFlight : ℕ
  draining : Bool

inductive FlushReason
  | size | waiters | linger | drain
  deriving DecidableEq

inductive Decision
  | flush (reason : FlushReason)
  | wait (deadline : Instant)
  | blocked
  | idle
  deriving DecidableEq

inductive Reception
  | accept
  | refuse (retryAfter : Duration)
  deriving DecidableEq

namespace GroupCommitPolicy

variable (policy : GroupCommitPolicy)

def deadline (group : PendingGroup) : Instant := group.openedAt + policy.linger

def flushReason (group : PendingGroup) (draining : Bool) (now : Instant) : Option FlushReason :=
  if draining then some .drain
  else if policy.maxEvents ≤ group.events then some .size
  else if policy.maxWaiters ≤ group.waiters then some .waiters
  else if ¬ now < policy.deadline group then some .linger
  else none

def decide (state : CommitState) (now : Instant) : Decision :=
  match state.group with
  | none => .idle
  | some group =>
    match policy.flushReason group state.draining now with
    | none => .wait (policy.deadline group)
    | some reason => if policy.maxInFlight ≤ state.inFlight then .blocked else .flush reason

def receive (buffered : ℤ) (arriving : ℕ) : Reception :=
  if policy.maxBuffered < buffered + arriving then .refuse policy.retryAfter else .accept

variable {policy} {state : CommitState} {now : Instant} {buffered : ℤ} {arriving : ℕ}

theorem decide_flush {reason : FlushReason} (h : policy.decide state now = .flush reason) :
    ∃ group, state.group = some group ∧
      policy.flushReason group state.draining now = some reason ∧
      state.inFlight < policy.maxInFlight := by
  unfold decide at h
  split at h
  · cases h
  · rename_i group hg
    split at h
    · cases h
    · rename_i r hr
      split_ifs at h with hf
      cases h
      exact ⟨group, hg, hr, not_le.1 hf⟩

theorem receive_accept :
    policy.receive buffered arriving = .accept ↔ buffered + arriving ≤ policy.maxBuffered := by
  rw [receive]
  split_ifs with h
  · simpa using h
  · simpa using h

end GroupCommitPolicy

end Counted.Ingestion
