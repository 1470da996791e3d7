import Counted.Foundations.Concurrency
import Counted.Tenancy.ProjectCap

namespace Counted.Projects

open Foundations Tenancy
open Ingestion (ProjectId)

/-- `inherit` keeps events for as long as the plan does. -/
inductive RetentionPolicy
  | inherit
  | days (days : ℕ)
  deriving DecidableEq

inductive LifecycleError
  | project (e : ProjectError)
  | nameUnchanged
  | retentionUnchanged

inductive ProjectEvent
  | renamed (project : ProjectId) (name : JsString) (at' : Instant)
  | archived (project : ProjectId) (at' : Instant)
  | restored (project : ProjectId) (at' : Instant)
  | retentionChanged (project : ProjectId) (days : Option ℕ) (at' : Instant)
  | claimed (project : ProjectId) (workspace : WorkspaceId) (at' : Instant)

/-- The workspace a claim was reported into. -/
def ProjectEvent.claimant : ProjectEvent → Option WorkspaceId
  | .claimed _ workspace _ => some workspace
  | .renamed .. | .archived .. | .restored .. | .retentionChanged .. => none

/-- A whole row of `projects`. -/
structure ProjectSnapshot extends Project where
  retention : RetentionPolicy

structure ProjectApplied where
  project : ProjectSnapshot
  events : List ProjectEvent

abbrev ProjectResult := Except LifecycleError ProjectApplied

def RetentionPolicy.pinned : RetentionPolicy → Option ℕ
  | .inherit => none
  | .days n => some n

namespace ProjectSnapshot

variable (p : ProjectSnapshot)

def applied (event : ProjectEvent) : Except ProjectError Project → ProjectResult
  | .error e => .error (.project e)
  | .ok q => .ok ⟨{ p with toProject := q }, [event]⟩

def rename (name : JsString) (at' : Instant) : ProjectResult :=
  if p.archived then .error (.project (.projectArchived p.id))
  else if name.trim = [] then .error (.project .nameRequired)
  else if name.trim = p.name then .error .nameUnchanged
  else .ok ⟨{ p with name := name.trim }, [.renamed p.id name.trim at']⟩

def archive (at' : Instant) : ProjectResult :=
  p.applied (.archived p.id at') p.toProject.archive

def restore (at' : Instant) : ProjectResult :=
  p.applied (.restored p.id at') p.toProject.restore

def setRetention (policy : RetentionPolicy) (at' : Instant) : ProjectResult :=
  if p.archived then .error (.project (.projectArchived p.id))
  else if policy = p.retention then .error .retentionUnchanged
  else .ok ⟨{ p with retention := policy }, [.retentionChanged p.id policy.pinned at']⟩

def claim (presented : JsString) (into : WorkspaceId) (at' : Instant) : ProjectResult :=
  p.applied (.claimed p.id into at') (p.toProject.claim presented into at')

end ProjectSnapshot

/-- What `mutate` decides between its load and its save. -/
inductive LifecycleCommand
  | rename (name : JsString)
  | archive
  | restore
  | setRetention (policy : RetentionPolicy)
  | claim (digest : JsString) (into : WorkspaceId)

def LifecycleCommand.decide (p : ProjectSnapshot) (at' : Instant) :
    LifecycleCommand → ProjectResult
  | .rename name => p.rename name at'
  | .archive => p.archive at'
  | .restore => p.restore at'
  | .setRetention policy => p.setRetention policy at'
  | .claim digest into => p.claim digest into at'

/-- What a command that succeeds can do to the ownership. -/
inductive Decided (p : ProjectSnapshot) : ProjectApplied → Prop
  | kept (q : ProjectSnapshot) (event : ProjectEvent) : q.ownership = p.ownership →
    event.claimant = none → Decided p ⟨q, [event]⟩
  | claimed (q : ProjectSnapshot) (into : WorkspaceId) (at' : Instant) : p.workspace = none →
    q.ownership = .claimed into at' → Decided p ⟨q, [.claimed p.id into at']⟩

theorem archive_ownership {p q : Project} (h : p.archive = .ok q) : q.ownership = p.ownership := by
  rw [Project.archive] at h
  split_ifs at h
  exact Except.ok.inj h ▸ rfl

theorem restore_ownership {p q : Project} (h : p.restore = .ok q) : q.ownership = p.ownership := by
  rw [Project.restore] at h
  split_ifs at h
  exact Except.ok.inj h ▸ rfl

/-- Only an unclaimed project is claimed. -/
theorem claim_ownership {p q : Project} {digest : JsString} {into : WorkspaceId} {at' : Instant}
    (h : p.claim digest into at' = .ok q) :
    p.workspace = none ∧ q.ownership = .claimed into at' := by
  rw [Project.claim] at h
  cases ho : p.ownership with
  | claimed workspace claimedAt =>
    rw [ho] at h
    cases h
  | unclaimed grant =>
    rw [ho] at h
    simp only at h
    split_ifs at h
    exact ⟨by rw [Project.workspace, ho], Except.ok.inj h ▸ rfl⟩

theorem applied_ok {p : ProjectSnapshot} {event : ProjectEvent} {x : Except ProjectError Project}
    {r : ProjectApplied} (h : p.applied event x = .ok r) :
    ∃ q, x = .ok q ∧ r = ⟨{ p with toProject := q }, [event]⟩ := by
  cases x with
  | error e => cases h
  | ok q => exact ⟨q, rfl, (Except.ok.inj h).symm⟩

theorem decide_decided {p : ProjectSnapshot} {at' : Instant} {command : LifecycleCommand}
    {r : ProjectApplied} (h : command.decide p at' = .ok r) : Decided p r := by
  cases command with
  | rename name =>
    rw [LifecycleCommand.decide, ProjectSnapshot.rename] at h
    split_ifs at h
    obtain rfl := Except.ok.inj h
    exact .kept _ _ rfl rfl
  | archive =>
    obtain ⟨q, hq, rfl⟩ := applied_ok h
    exact .kept _ _ (archive_ownership hq) rfl
  | restore =>
    obtain ⟨q, hq, rfl⟩ := applied_ok h
    exact .kept _ _ (restore_ownership hq) rfl
  | setRetention policy =>
    rw [LifecycleCommand.decide, ProjectSnapshot.setRetention] at h
    split_ifs at h
    obtain rfl := Except.ok.inj h
    exact .kept _ _ rfl rfl
  | claim digest into =>
    obtain ⟨q, hq, rfl⟩ := applied_ok h
    obtain ⟨hp, ho⟩ := claim_ownership hq
    exact .claimed _ into at' hp ho

/-- The project's row, the copies of it that requests work on, and the events committed with it,
the latest first. A copy is outdated by a claim. -/
structure OwnershipStore where
  row : ProjectSnapshot
  copies : List (Copy ProjectSnapshot)
  outbox : List ProjectEvent

/-- A request loads the row in one step, and in another decides and saves. -/
inductive LifecycleAction
  | load
  | save (index : ℕ) (command : LifecycleCommand) (at' : Instant)

namespace OwnershipStore

def initial (p : ProjectSnapshot) : OwnershipStore := ⟨p, [], []⟩

/-- The workspaces whose claim reported success. -/
def claimants (s : OwnershipStore) : List WorkspaceId := s.outbox.filterMap ProjectEvent.claimant

/-- The whole row is written, and nothing where the command is refused. -/
def commit (s : OwnershipStore) : ProjectResult → OwnershipStore
  | .error _ => s
  | .ok applied => {
    row := applied.project
    copies := if applied.events.any (·.claimant.isSome) then s.copies.map Copy.outdate else s.copies
    outbox := applied.events ++ s.outbox }

def settle (s : OwnershipStore) (index : ℕ) : OwnershipStore :=
  { s with copies := s.copies.eraseIdx index }

def step (s : OwnershipStore) : LifecycleAction → Option OwnershipStore
  | .load => some { s with copies := s.copies ++ [⟨s.row, false⟩] }
  | .save index command at' =>
    s.copies[index]?.map (fun copy ↦ (s.settle index).commit (command.decide copy.state at'))

/-- One claim at most has succeeded, and the project is still the claimant's. -/
def ClaimedOnce (s : OwnershipStore) : Prop :=
  s.claimants.length ≤ 1 ∧ ∀ w ∈ s.claimants, s.row.workspace = some w

/-- What is saved has been loaded since the project was claimed. -/
def LoadedSinceClaim (s : OwnershipStore) : LifecycleAction → Prop
  | .load => True
  | .save index .. => ∀ copy, s.copies[index]? = some copy → copy.moved = false

structure OwnershipInv (s : OwnershipStore) : Prop where
  seen : Seen (·.ownership) s.row s.copies
  owner : s.claimants = [] ∨ ∃ w at', s.claimants = [w] ∧ s.row.ownership = .claimed w at'

variable {s t : OwnershipStore}

theorem initial_inv (p : ProjectSnapshot) : OwnershipInv (initial p) := ⟨seen_nil p, .inl rfl⟩

theorem OwnershipInv.claimedOnce (h : OwnershipInv s) : ClaimedOnce s := by
  rcases h.owner with hc | ⟨w, at', hc, ho⟩
  · rw [ClaimedOnce, hc]
    exact ⟨Nat.zero_le 1, by rintro w ⟨⟩⟩
  · rw [ClaimedOnce, hc]
    refine ⟨le_rfl, fun v hv ↦ ?_⟩
    rw [List.mem_singleton.1 hv, Project.workspace, ho]

theorem OwnershipInv.settle (h : OwnershipInv s) (index : ℕ) : OwnershipInv (s.settle index) :=
  ⟨h.seen.sublist (List.eraseIdx_sublist ..), h.owner⟩

/-- A command decided on the ownership the row still has. -/
theorem OwnershipInv.commit (h : OwnershipInv s) {p : ProjectSnapshot} {command : LifecycleCommand}
    {at' : Instant} (hp : p.ownership = s.row.ownership) :
    OwnershipInv (s.commit (command.decide p at')) := by
  cases hr : command.decide p at' with
  | error e => exact h
  | ok applied =>
    cases decide_decided hr with
    | kept q event hq he =>
      have hc : (s.commit (.ok ⟨q, [event]⟩)).claimants = s.claimants := by
        simp [claimants, OwnershipStore.commit, he]
      have hs : (s.commit (.ok ⟨q, [event]⟩)).copies = s.copies := by
        simp [OwnershipStore.commit, he]
      have ho : q.ownership = s.row.ownership := hq.trans hp
      refine ⟨hs ▸ h.seen.keep ho, ?_⟩
      rw [hc]
      exact h.owner.imp_right fun ⟨w, t, hw, hr⟩ ↦ ⟨w, t, hw, ho.trans hr⟩
    | claimed q into at' hn hq =>
      have hw : s.row.workspace = none := by
        rwa [Project.workspace, ← hp]
      have hc : s.claimants = [] := by
        refine h.owner.resolve_right ?_
        rintro ⟨w, t, -, ho⟩
        rw [Project.workspace, ho] at hw
        cases hw
      refine ⟨seen_outdate q s.copies, .inr ⟨into, at', ?_, hq⟩⟩
      change into :: s.claimants = [into]
      rw [hc]

theorem step_inv {a : LifecycleAction} (h : OwnershipInv s) (hl : s.LoadedSinceClaim a)
    (hs : s.step a = some t) : OwnershipInv t := by
  cases a with
  | load => exact Option.some.inj hs ▸ ⟨h.seen.load, h.owner⟩
  | save index command at' =>
    obtain ⟨copy, hi, rfl⟩ := Option.map_eq_some_iff.1 hs
    exact (h.settle index).commit (h.seen.at hi (hl copy hi))

/-- A project is claimed once in every run whose requests have loaded it since it was claimed. -/
theorem claimed_once (p : ProjectSnapshot) {actions : List LifecycleAction}
    (h : Along step LoadedSinceClaim (initial p) actions) :
    Throughout step ClaimedOnce (initial p) actions :=
  (throughout_of_along (fun _ _ _ ↦ step_inv) (initial_inv p) h).mono
    fun _ ↦ OwnershipInv.claimedOnce

def unclaimedSite : ProjectSnapshot where
  id := js "p"
  name := js "Site"
  ownership := .unclaimed ⟨js "d", 1000⟩
  archived := false
  retention := .inherit

/-- Two workspaces load the unclaimed project, and then both claim it. -/
theorem claimed_twice : ¬ ∀ actions : List LifecycleAction,
    Throughout step ClaimedOnce (initial unclaimedSite) actions := by
  intro h
  have hl := (h [.load, .load, .save 0 (.claim (js "d") (js "v")) 1,
    .save 0 (.claim (js "d") (js "w")) 2]).last rfl
  exact absurd hl.1 (by decide)

/-- A rename loaded after the claim. -/
theorem claimed_once_sample : Throughout step ClaimedOnce (initial unclaimedSite)
    [.load, .save 0 (.claim (js "d") (js "v")) 1, .load, .save 0 (.rename (js "Shop")) 2] := by
  refine claimed_once unclaimedSite ⟨trivial, fun s₁ h₁ ↦ ⟨?_, fun s₂ h₂ ↦ ⟨trivial, fun s₃ h₃ ↦
    ⟨?_, fun _ _ ↦ trivial⟩⟩⟩⟩
  · obtain rfl := Option.some.inj h₁
    intro copy hc
    exact Option.some.inj hc ▸ rfl
  · obtain rfl := Option.some.inj h₁
    obtain rfl := Option.some.inj h₂
    obtain rfl := Option.some.inj h₃
    intro copy hc
    exact Option.some.inj hc ▸ rfl

end OwnershipStore

end Counted.Projects
