import Counted.Authorization.Grants
import Counted.Identity.Membership
import Counted.Projects.Provisioning

namespace Counted.Worker

open Authorization Foundations Identity Projects Tenancy
open Ingestion (ProjectId)

structure ProjectRecord where
  project : ProjectId
  workspace : WorkspaceId
  name : JsString
  createdAt : Instant

/-- The part of a row the window is told of, where it is claimed and not archived. -/
def recordOf (row : ProjectRow) : Option ProjectRecord :=
  if row.archived then none
  else row.workspace.map fun workspace ↦ ⟨row.id, workspace, row.name, row.createdAt⟩

/-- Oldest first. -/
def createdSince (s : ProvisioningStores) (since : Instant) (limit : ℕ) : List ProjectRecord :=
  (((s.projects.filterMap recordOf).filter (fun record ↦ since ≤ record.createdAt)).mergeSort
    (fun a b ↦ a.createdAt ≤ b.createdAt)).take limit

/-- What the calls for one project run into. The members are `none` where reading them throws. -/
structure SweepCalls where
  listThrows : Bool
  members : Option (List Membership)
  repair : RepairDeps

/-- The parts of the worker that need identity to be wired. -/
structure ProvisioningIdentity where
  can : AccessControl
  calls : ProjectId → SweepCalls

structure ProvisioningDeps where
  identity : Option ProvisioningIdentity
  windowThrows : Bool
  lookback : Duration
  batch : ℕ
  repair : Bool

inductive Unrepairable
  | noMembers
  | refused (e : CredentialFailure)

/-- How the turn of one project ends, `unprovisioned` telling whether it had been counted so. -/
inductive ProvisioningOutcome
  | skipped
  | unprovisioned
  | unrepairable (why : Unrepairable)
  | settled
  | repaired (credential : CredentialId) (issuedBy : Projects.AccountId)
  | failed (unprovisioned : Bool)

/-- Whether the turn writes a line to the log, which names the project. -/
def ProvisioningOutcome.logged : ProvisioningOutcome → Bool
  | .skipped | .settled => false
  | .unprovisioned | .unrepairable _ | .repaired .. | .failed _ => true

def ProvisioningOutcome.isUnprovisioned : ProvisioningOutcome → Bool
  | .skipped | .failed false => false
  | .unprovisioned | .unrepairable _ | .settled | .repaired .. | .failed true => true

def ProvisioningOutcome.isRepaired : ProvisioningOutcome → Bool
  | .repaired .. => true
  | .skipped | .unprovisioned | .unrepairable _ | .settled | .failed _ => false

def ProvisioningOutcome.isUnrepairable : ProvisioningOutcome → Bool
  | .unrepairable _ => true
  | .skipped | .unprovisioned | .settled | .repaired .. | .failed _ => false

def ProvisioningOutcome.isFailed : ProvisioningOutcome → Bool
  | .failed _ => true
  | .skipped | .unprovisioned | .unrepairable _ | .settled | .repaired .. => false

structure ProvisioningLine where
  record : ProjectRecord
  outcome : ProvisioningOutcome

inductive ProvisioningReport
  | unavailable
  | checked (scanned unprovisioned repaired unrepairable failures : ℕ)

/-- The first of the members whose role is the highest. -/
def mostSenior (members : List Membership) : Option Membership :=
  members.foldl (fun best member ↦
    match best with
    | none => some member
    | some b => if b.role.rank < member.role.rank then some member else some b) none

section Job

variable (deps : ProvisioningDeps) (identity : ProvisioningIdentity)

/-- What is done for a project that no credential was found of. -/
def attend (record : ProjectRecord) : Provisioning ProvisioningOutcome := do
  if deps.repair = false then return .unprovisioned
  else
    let calls := identity.calls record.project
    let members ← .read calls.members.isNone (fun _ ↦ calls.members.getD [])
    match mostSenior members with
    | none => return .unrepairable .noMembers
    | some issuer =>
      let command : RepairProjectCredentialCommand :=
        ⟨record.project, issuer.account, permissionsForRole identity.can issuer.role, none⟩
      match ← repairProjectCredential calls.repair command with
      | .error e => return .unrepairable (.refused e)
      | .ok (.repaired credential) => return .repaired credential.id issuer.account
      | .ok .alreadyProvisioned | .ok .lapsed => return .settled

/-- The turn of one project, in its own `try`. -/
def turn (record : ProjectRecord) : Provisioning ProvisioningLine := do
  let calls := identity.calls record.project
  let outcome ← Attempt.rescue (do
    let existing ← .read calls.listThrows (·.keys.list (.project record.project))
    if existing.length > 0 then return .skipped
    else (attend deps identity record).rescue (.failed true)) (.failed false)
  return ⟨record, outcome⟩

def countLines (lines : List ProvisioningLine) (p : ProvisioningOutcome → Bool) : ℕ :=
  lines.countP (fun line ↦ p line.outcome)

def reportOf (records : List ProjectRecord) (lines : List ProvisioningLine) : ProvisioningReport :=
  .checked records.length
    (countLines lines ProvisioningOutcome.isUnprovisioned)
    (countLines lines ProvisioningOutcome.isRepaired)
    (countLines lines ProvisioningOutcome.isUnrepairable)
    (countLines lines ProvisioningOutcome.isFailed)

/-- The report, and the lines that are logged. -/
def reconcileProvisioning (now : Instant) :
    Provisioning (ProvisioningReport × List ProvisioningLine) := do
  match deps.identity with
  | none => return (.unavailable, [])
  | some identity =>
    let records ← .read deps.windowThrows
      (fun s ↦ createdSince s (now - deps.lookback) deps.batch)
    let lines ← Attempt.each (turn deps identity) records
    return (reportOf records lines, lines.filter (·.outcome.logged))

end Job

end Counted.Worker
