import Counted.Foundations.Attempt
import Counted.Kernel.NumberText
import Counted.Projects.Claiming
import Counted.Projects.CredentialStore
import Counted.Projects.Credential

namespace Counted.Projects

open Foundations Tenancy
open Ingestion (ProjectId)

inductive ProvisioningEvent
  | projectCreated (project : ProjectId) (workspace : WorkspaceId) (name : JsString)
      (at' : Instant)
  | projectProvisionedUnclaimed (project : ProjectId) (name : JsString) (grantExpiresAt : Instant)
      (at' : Instant)
  | projectDeleted (project : ProjectId) (workspace : WorkspaceId) (at' : Instant)
  | credentialIssued (project : ProjectId) (credential : CredentialId) (kind : CredentialKind)
      (at' : Instant)
  deriving DecidableEq

structure ProjectRow extends ProjectSnapshot where
  createdAt : Instant

/-- Our database, and the vendor's table of keys, which no transaction spans. -/
structure ProvisioningStores where
  projects : List ProjectRow
  unique : (projects.map (·.id)).Nodup
  outbox : List ProvisioningEvent
  keys : CredentialStore

namespace ProvisioningStores

variable (s : ProvisioningStores)

def empty : ProvisioningStores := ⟨[], List.nodup_nil, [], .empty⟩

def find (project : ProjectId) : Option ProjectRow := Keyed.lookup (·.id) project s.projects

/-- A row that is there keeps the instant it was created at. -/
def save (project : ProjectSnapshot) (now : Instant) : ProvisioningStores :=
  { s with
    projects := Keyed.upsert (·.id) ⟨project, ((s.find project.id).map (·.createdAt)).getD now⟩
      s.projects
    unique := Keyed.nodup_upsert s.unique }

def delete (project : ProjectId) : ProvisioningStores :=
  { s with
    projects := Keyed.remove (·.id) project s.projects
    unique := Keyed.nodup_remove s.unique }

def enqueue (events : List ProvisioningEvent) : ProvisioningStores :=
  { s with outbox := s.outbox ++ events }

def hold (keys : CredentialStore) : ProvisioningStores := { s with keys }

/-- Whether the project has a key that can send events. -/
def CanIngest (project : ProjectId) (now : Instant) : Prop :=
  canIngest ((s.keys.list (.project project)).map (·.toCredentialFacts)) now = true

end ProvisioningStores

/-- What the store of keys does on a request to issue one. Where it throws, the vendor may hold a
key that was placed and could not be read back. -/
inductive IssueAnswer
  | refused (e : IssueFailure)
  | minted (key : Minted)
  | thrown (placed : Option Minted)

section Calls

abbrev Provisioning := Attempt ProvisioningStores

/-- `credentials.issue`. -/
def issueKey (answer : IssueAnswer) (request : IssueRequest) (at' : Instant) :
    Provisioning (Except IssueFailure CredentialSummary) := fun s ↦
  match answer with
  | .refused e => (some (.error e), s)
  | .minted key =>
    match s.keys.mint (request.row key at') with
    | none => (none, s)
    | some keys => (some (.ok (request.row key at').toCredentialSummary), s.hold keys)
  | .thrown none => (none, s)
  | .thrown (some key) => (none, s.hold ((s.keys.mint (request.row key at')).getD s.keys))

/-- `credentials.revoke`, whose answer no caller here reads. -/
def revokeKey (throws : Bool) (credential : CredentialId) (at' : Instant) : Provisioning Unit :=
  .write throws fun s ↦ s.hold ((s.keys.revoke credential at').toOption.getD s.keys)

end Calls

/-- The environment of one use case: its clock, its random values and what its calls run into. -/
structure ProvisionDeps where
  now : Instant
  undoneAt : Instant
  savedAt : Instant
  nextId : ProjectId
  suggestedName : JsString
  saveThrows : Bool
  issue : IssueAnswer
  revokeThrows : Bool
  undoThrows : Bool
  announceThrows : Bool

structure ProvisionProjectCommand where
  workspace : WorkspaceId
  name : JsString
  issuedBy : AccountId
  held : List Permission
  credentialName : Option JsString
  id : Option ProjectId

structure HoldingPlacement where
  workspace : WorkspaceId
  issuedBy : AccountId

structure ProvisionUnclaimedProjectCommand where
  name : JsString
  grant : ClaimGrant
  holding : HoldingPlacement
  credentialName : Option JsString
  id : Option ProjectId

structure ProvisionedProject where
  project : ProjectSnapshot
  credential : CredentialSummary

abbrev ProvisionResult := Except CredentialFailure ProvisionedProject

section Provision

variable (deps : ProvisionDeps)

/-- Blank falls back to a generated name. -/
def ProvisionDeps.nameOr (name : JsString) : JsString :=
  if name.trim = [] then deps.suggestedName else name

/-- The request for a project's first key. -/
def firstKey (workspace : WorkspaceId) (issuedBy : AccountId) (credentialName : Option JsString)
    (project : ProjectId) : IssueRequest :=
  ⟨.ingest, credentialName.getD (js "default"), workspace, some project, issuedBy, none⟩

/-- `compensate` and `deleteUnclaimed`, which differ in what they enqueue. -/
def undo (project : ProjectId) (events : List ProvisioningEvent) : Provisioning Unit :=
  .write deps.undoThrows fun s ↦ (s.delete project).enqueue events

/-- What the two ways to provision a project do once its row can be written. -/
def provision (project : ProjectSnapshot) (created : ProvisioningEvent) (request : IssueRequest)
    (grantable : List Permission) (undone : List ProvisioningEvent) :
    Provisioning ProvisionResult := do
  .write deps.saveThrows fun s ↦ (s.save project deps.savedAt).enqueue [created]
  match ← issueKey deps.issue request deps.now with
  | .error e =>
    undo deps project.id undone
    return .error (.store e)
  | .ok issued =>
    match withinGrant issued.permissions grantable with
    | .error e =>
      revokeKey deps.revokeThrows issued.id deps.now
      undo deps project.id undone
      return .error e
    | .ok _ =>
      .write deps.announceThrows
        fun s ↦ s.enqueue [.credentialIssued project.id issued.id .ingest deps.now]
      return .ok ⟨project, issued⟩

def provisionProject (command : ProvisionProjectCommand) : Provisioning ProvisionResult :=
  match grantableTo .ingest command.held with
  | .error e => pure (.error e)
  | .ok grantable =>
    let id := command.id.getD deps.nextId
    match Project.create id (deps.nameOr command.name) command.workspace deps.now with
    | .error e => pure (.error (.project e))
    | .ok project =>
      provision deps ⟨project, .inherit⟩
        (.projectCreated id command.workspace project.name deps.now)
        (firstKey command.workspace command.issuedBy command.credentialName id) grantable
        [.projectDeleted id command.workspace deps.undoneAt]

/-- Undone without a word: the event of a deletion names a workspace, and there is none. -/
def provisionUnclaimedProject (command : ProvisionUnclaimedProjectCommand) :
    Provisioning ProvisionResult :=
  let id := command.id.getD deps.nextId
  match Project.provisionUnclaimed id (deps.nameOr command.name) command.grant deps.now with
  | .error e => pure (.error (.project e))
  | .ok project =>
    provision deps ⟨project, .inherit⟩
      (.projectProvisionedUnclaimed id project.name command.grant.expiresAt deps.now)
      (firstKey command.holding.workspace command.holding.issuedBy command.credentialName id)
      ingestPermissions []

end Provision

section Repair

/-- Whether the project's placement permits events. -/
def ProjectSnapshot.admitsEvents (p : ProjectSnapshot) (at' : Instant) : Bool :=
  if p.archived then false
  else
    match p.ownership with
    | .unclaimed grant => at' < grant.expiresAt
    | .claimed .. => true

/-- The first name of those that are tried in turn, and that no key has. -/
def uniqueName (taken : List JsString) (preferred : JsString) : JsString :=
  if preferred ∈ taken then
    (((List.range (taken.length + 1)).map fun i ↦ preferred ++ js "-" ++ natText (i + 2)).find?
      (· ∉ taken)).getD preferred
  else preferred

structure RepairDeps where
  now : Instant
  findThrows : Bool
  listThrows : Bool
  issue : IssueAnswer
  revokeThrows : Bool
  announceThrows : Bool

structure RepairProjectCredentialCommand where
  project : ProjectId
  issuedBy : AccountId
  held : List Permission
  credentialName : Option JsString

/-- `lapsed` is a project that will never send events again, and needs no key. -/
inductive CredentialRepair
  | alreadyProvisioned
  | lapsed
  | repaired (credential : CredentialSummary)

/-- Gives a project its missing key, or tells why it needs none. -/
def repairProjectCredential (deps : RepairDeps) (command : RepairProjectCredentialCommand) :
    Provisioning (Except CredentialFailure CredentialRepair) := do
  match ← .read deps.findThrows (·.find command.project) with
  | none => return .error (.project (.noSuchProject command.project))
  | some project =>
    if project.archived then return .ok .lapsed
    else if project.admitsEvents deps.now = false then return .ok .lapsed
    else
      let existing ← .read deps.listThrows (·.keys.list (.project command.project))
      if existing.any (fun c ↦ canIngest [c.toCredentialFacts] deps.now) then
        return .ok .alreadyProvisioned
      else
        match grantableTo .ingest command.held, project.workspace with
        | .error e, _ => return .error e
        | .ok _, none => return .ok .lapsed
        | .ok grantable, some workspace =>
          let name := uniqueName (existing.map (·.name))
            (command.credentialName.getD (js "default"))
          let request : IssueRequest :=
            ⟨.ingest, name, workspace, some command.project, command.issuedBy, none⟩
          match ← issueKey deps.issue request deps.now with
          | .error e => return .error (.store e)
          | .ok issued =>
            match withinGrant issued.permissions grantable with
            | .error e =>
              revokeKey deps.revokeThrows issued.id deps.now
              return .error e
            | .ok _ =>
              .write deps.announceThrows
                fun s ↦ s.enqueue [.credentialIssued command.project issued.id .ingest deps.now]
              return .ok (.repaired issued)

end Repair

end Counted.Projects
