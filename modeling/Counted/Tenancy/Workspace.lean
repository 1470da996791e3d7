import Counted.Ingestion.Batch

namespace Counted.Tenancy

open Ingestion

abbrev WorkspaceId := JsString

inductive PlanId | free | pro
  deriving DecidableEq

inductive PaymentState | none | active | pastDue | canceled
  deriving DecidableEq

/-- `none` means unlimited. -/
structure PlanLimits where
  eventsPerMonth : Option ℕ
  projects : Option ℕ
  seats : Option ℕ
  retentionDays : Option ℕ
  deriving DecidableEq

def PlanId.limitsFor : PlanId → PlanLimits
  | .free => ⟨some 100000, some 3, none, some 180⟩
  | .pro => ⟨some 1000000, none, none, some 730⟩

structure Entitlement where
  plan : PlanId
  limits : PlanLimits
  inGrace : Bool

/-- The single definition of what a plan and its payment are worth. -/
def Entitlement.resolve (plan : PlanId) : PaymentState → Entitlement
  | .active => ⟨plan, plan.limitsFor, false⟩
  | .pastDue => ⟨plan, plan.limitsFor, true⟩
  | .none | .canceled => ⟨.free, PlanId.free.limitsFor, false⟩

structure WorkspaceLimits where
  maxProjects : Option ℕ
  maxSeats : Option ℕ
  deriving DecidableEq

def Entitlement.toWorkspaceLimits (e : Entitlement) : WorkspaceLimits :=
  ⟨e.limits.projects, e.limits.seats⟩

/-- The limit that one more would breach. -/
def WorkspaceLimits.breached (count : ℕ) (limit : Option ℕ) : Option ℕ := limit.filter (· ≤ count)

/-- The limit `count` is past already. -/
def WorkspaceLimits.over (count : ℕ) (limit : Option ℕ) : Option ℕ := limit.filter (· < count)

inductive ProjectState | active | archived
  deriving DecidableEq

structure ProjectEntry where
  id : ProjectId
  name : JsString
  state : ProjectState

def countsAgainstCap (entry : ProjectEntry) : Bool := entry.state = .active

def countAgainstCap (entries : List ProjectEntry) : ℕ := entries.countP countsAgainstCap

def findProject (entries : List ProjectEntry) (id : ProjectId) : Option ProjectEntry :=
  entries.find? (fun entry ↦ entry.id = id)

inductive WorkspaceError
  | nameRequired
  | noSuchWorkspace (workspace : WorkspaceId)
  | projectExists (project : ProjectId)
  | noSuchProject (project : ProjectId)
  | projectAlreadyArchived (project : ProjectId)
  | projectNotArchived (project : ProjectId)
  | projectLimitReached (limit : ℕ)
  deriving DecidableEq

inductive WorkspaceEvent
  | planChanged (workspace : WorkspaceId) (fromPlan toPlan : PlanId) (at' : Instant)
  | paymentStateChanged (workspace : WorkspaceId) (fromState toState : PaymentState) (at' : Instant)
  | limitsChanged (workspace : WorkspaceId) (limits : WorkspaceLimits) (at' : Instant)
  | overProjectLimit (workspace : WorkspaceId) (active limit : ℕ) (at' : Instant)
  | overSeatLimit (workspace : WorkspaceId) (seats limit : ℕ) (at' : Instant)
  | projectProvisioned (workspace : WorkspaceId) (project : ProjectId) (name : JsString)
      (at' : Instant)
  | projectArchived (workspace : WorkspaceId) (project : ProjectId) (at' : Instant)
  | projectRestored (workspace : WorkspaceId) (project : ProjectId) (at' : Instant)
  | projectDeregistered (workspace : WorkspaceId) (project : ProjectId) (at' : Instant)

/-- The plan, the payment standing, and the register of projects that consume its slots. -/
structure Workspace where
  id : WorkspaceId
  name : JsString
  plan : PlanId
  payment : PaymentState
  projects : List ProjectEntry

structure WorkspaceApplied where
  workspace : Workspace
  events : List WorkspaceEvent

namespace Workspace

variable (w : Workspace)

def limits : WorkspaceLimits := (Entitlement.resolve w.plan w.payment).toWorkspaceLimits

def projectCount : ℕ := countAgainstCap w.projects

/-- The cap check, written once so admission and restoration cannot diverge. -/
def refuseIfFull : Option WorkspaceError :=
  (WorkspaceLimits.breached w.projectCount w.limits.maxProjects).map .projectLimitReached

def replace (id : ProjectId) (entry : ProjectEntry) : List ProjectEntry :=
  w.projects.map (fun p ↦ if p.id = id then entry else p)

def registerProject (id : ProjectId) (name : JsString) (at' : Instant) :
    Except WorkspaceError WorkspaceApplied :=
  let trimmed := name.trim
  if trimmed = [] then .error .nameRequired
  else if (findProject w.projects id).isSome then .error (.projectExists id)
  else
    match w.refuseIfFull with
    | some refused => .error refused
    | none => .ok ⟨{ w with projects := w.projects ++ [⟨id, trimmed, .active⟩] },
        [.projectProvisioned w.id id trimmed at']⟩

/-- Archiving frees the slot. -/
def archiveProject (id : ProjectId) (at' : Instant) : Except WorkspaceError WorkspaceApplied :=
  match findProject w.projects id with
  | none => .error (.noSuchProject id)
  | some entry =>
    if entry.state = .archived then .error (.projectAlreadyArchived id)
    else .ok ⟨{ w with projects := w.replace id { entry with state := .archived } },
      [.projectArchived w.id id at']⟩

/-- Bringing an archived project back is a cap decision. -/
def restoreProject (id : ProjectId) (at' : Instant) : Except WorkspaceError WorkspaceApplied :=
  match findProject w.projects id with
  | none => .error (.noSuchProject id)
  | some entry =>
    if entry.state = .active then .error (.projectNotArchived id)
    else
      match w.refuseIfFull with
      | some refused => .error refused
      | none => .ok ⟨{ w with projects := w.replace id { entry with state := .active } },
          [.projectRestored w.id id at']⟩

def deregisterProject (id : ProjectId) (at' : Instant) : Except WorkspaceError WorkspaceApplied :=
  if (findProject w.projects id).isSome then
    .ok ⟨{ w with projects := w.projects.filter (fun p ↦ p.id ≠ id) },
      [.projectDeregistered w.id id at']⟩
  else .error (.noSuchProject id)

/-- Adopts what the payment provider says, and reports what that costs. -/
def applyStanding (plan : PlanId) (payment : PaymentState) (seats : ℕ) (at' : Instant) :
    WorkspaceApplied :=
  let next := { w with plan, payment }
  let after := next.limits
  ⟨next,
    (if plan = w.plan then [] else [.planChanged w.id w.plan plan at']) ++
    (if payment = w.payment then [] else [.paymentStateChanged w.id w.payment payment at']) ++
    if w.limits = after then []
    else
      [.limitsChanged w.id after at'] ++
      ((WorkspaceLimits.over next.projectCount after.maxProjects).map
        (.overProjectLimit w.id next.projectCount · at')).toList ++
      ((WorkspaceLimits.over seats after.maxSeats).map (.overSeatLimit w.id seats · at')).toList⟩

end Workspace

theorem breached_eq_none {count : ℕ} {limit : Option ℕ} (h : WorkspaceLimits.breached count limit = none) :
    ∀ l, limit = some l → count < l := by
  rintro l rfl
  by_contra hl
  simp [WorkspaceLimits.breached, Option.filter, not_lt.1 hl] at h

/-- A project is registered only where there is room. -/
theorem registerProject_room {w : Workspace} {id : ProjectId} {name : JsString} {at' : Instant}
    {r : WorkspaceApplied} (h : w.registerProject id name at' = .ok r) :
    ∀ l, w.limits.maxProjects = some l → w.projectCount < l := by
  simp only [Workspace.registerProject] at h
  split_ifs at h
  cases hf : w.refuseIfFull with
  | some e =>
    rw [hf] at h
    cases h
  | none => exact breached_eq_none (Option.map_eq_none_iff.1 hf)

theorem restoreProject_room {w : Workspace} {id : ProjectId} {at' : Instant}
    {r : WorkspaceApplied} (h : w.restoreProject id at' = .ok r) :
    ∀ l, w.limits.maxProjects = some l → w.projectCount < l := by
  rw [Workspace.restoreProject] at h
  cases hp : findProject w.projects id with
  | none =>
    rw [hp] at h
    cases h
  | some entry =>
    rw [hp] at h
    simp only at h
    split_ifs at h
    cases hf : w.refuseIfFull with
    | some e =>
      rw [hf] at h
      cases h
    | none => exact breached_eq_none (Option.map_eq_none_iff.1 hf)

end Counted.Tenancy
