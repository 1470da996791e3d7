import Counted.Projects.CredentialStore
import Counted.Projects.Credential

namespace Counted.Projects

open Tenancy
open Ingestion (ProjectId)

inductive CredentialEvent
  | credentialIssued (project : ProjectId) (credential : CredentialId) (kind : CredentialKind)
      (at' : Instant)
  | credentialRotated (project : ProjectId) (outgoing replacement : CredentialId)
      (graceEndsAt at' : Instant)
  | credentialRevoked (project : ProjectId) (credential : CredentialId) (at' : Instant)
  | workspaceCredentialIssued (workspace : WorkspaceId) (credential : CredentialId)
      (kind : CredentialKind) (at' : Instant)
  | workspaceCredentialRotated (workspace : WorkspaceId) (outgoing replacement : CredentialId)
      (graceEndsAt at' : Instant)

/-- What the use cases write: the rows of the vendor, and our outbox. -/
structure Credentials where
  store : CredentialStore
  outbox : List CredentialEvent

structure IssueCredentialCommand where
  project : ProjectId
  kind : CredentialKind
  name : JsString
  issuedBy : AccountId
  held : List Permission
  requested : Option (List Permission)
  expiresIn : Option Duration

structure RotateCredentialCommand where
  project : ProjectId
  credential : CredentialId
  held : List Permission
  expected : Option CredentialKind
  overlap : Option Duration

structure RevokeCredentialCommand where
  project : ProjectId
  credential : CredentialId

structure IssueWorkspaceCredentialCommand where
  workspace : WorkspaceId
  name : JsString
  issuedBy : AccountId
  held : List Permission
  requested : Option (List Permission)
  expiresIn : Option Duration

structure RotateWorkspaceCredentialCommand where
  workspace : WorkspaceId
  credential : CredentialId
  held : List Permission
  overlap : Option Duration

structure RotationOutcome where
  issued : CredentialSummary
  retiring : CredentialSummary
  graceEndsAt : Instant

/-- A day. -/
def defaultRotationOverlap : Duration := 24 * 60 * 60 * 1000

/-- Seven days. -/
def maxRotationOverlap : Duration := 7 * 24 * 60 * 60 * 1000

/-- Clamped rather than refused. -/
def resolveOverlap : Option Duration → Duration
  | none => defaultRotationOverlap
  | some requested =>
    if requested < 0 then 0
    else if maxRotationOverlap < requested then maxRotationOverlap
    else requested

def asProjectError : StoreFailure → CredentialFailure
  | .alreadyRevoked credential => .credentialRevoked credential
  | .unknownCredential credential => .unknownCredential credential

/-- What the store is asked for: the permissions an issue narrows to, and the name it takes. -/
def checkIssue (kind : CredentialKind) (requested : Option (List Permission))
    (held : List Permission) (existing : List CredentialSummary) (name : JsString) (at' : Instant) :
    Except CredentialFailure (List Permission × JsString) := do
  let grantable ← grantableTo kind held
  let narrowed ← withinGrant (if kind = .service then requested.getD grantable else grantable)
    grantable
  let name ← nameIsAvailable CredentialSummary.toCredentialFacts existing name at'
  return (narrowed, name)

def checkRotate (existing : List CredentialSummary) (credential : CredentialId)
    (expected : Option CredentialKind) (held : List Permission) (at' : Instant) :
    Except CredentialFailure CredentialSummary := do
  let rotatable ← mayRotate CredentialSummary.toCredentialFacts existing credential expected at'
  let _ ← withinGrant rotatable.permissions held
  return rotatable

namespace Credentials

variable (s : Credentials)

def initial (store : CredentialStore) : Credentials := ⟨store, []⟩

/-- The containment check: a key that came back with more than was asked for is killed before the
failure is returned. -/
def settleIssue (store : CredentialStore) (issued : CredentialSummary) (narrowed : List Permission)
    (event : CredentialEvent) (at' : Instant) :
    Except CredentialFailure CredentialSummary × Credentials :=
  match withinGrant issued.permissions narrowed with
  | .error e => (.error e, ⟨(store.revoke issued.id at').toOption.getD store, s.outbox⟩)
  | .ok _ => (.ok issued, ⟨store, s.outbox ++ [event]⟩)

/-- What the two ways to issue a credential share. `none` where the store's insert fails. -/
def issueWithin (request : IssueRequest) (requested : Option (List Permission))
    (held : List Permission) (scope : CredentialScope) (event : CredentialId → CredentialEvent)
    (answer : Except IssueFailure Minted) (at' : Instant) :
    Option (Except CredentialFailure CredentialSummary × Credentials) :=
  match checkIssue request.kind requested held (s.store.list scope) request.name at' with
  | .error e => some (.error e, s)
  | .ok (narrowed, name) =>
    match answer with
    | .error e => some (.error (.store e), s)
    | .ok minted =>
      (s.store.mint ({ request with name := name }.row minted at')).map fun store ↦
        s.settleIssue store ({ request with name := name }.row minted at').toCredentialSummary
          narrowed (event minted.id) at'

def issueCredential (found : Option Project) (command : IssueCredentialCommand)
    (answer : Except IssueFailure Minted) (at' : Instant) :
    Option (Except CredentialFailure CredentialSummary × Credentials) :=
  match found with
  | none => some (.error (.project (.noSuchProject command.project)), s)
  | some project =>
    if project.archived then some (.error (.project (.projectArchived command.project)), s)
    else
      match project.workspace with
      | none => some (.error (.project .grantMismatch), s)
      | some workspace =>
        s.issueWithin ⟨command.kind, command.name, workspace, some command.project,
          command.issuedBy, command.expiresIn⟩ command.requested command.held
          (.project command.project)
          (fun id ↦ .credentialIssued command.project id command.kind at') answer at'

def issueWorkspaceCredential (command : IssueWorkspaceCredentialCommand)
    (answer : Except IssueFailure Minted) (at' : Instant) :
    Option (Except CredentialFailure CredentialSummary × Credentials) :=
  s.issueWithin ⟨.service, command.name, command.workspace, none, command.issuedBy,
    command.expiresIn⟩ command.requested command.held (.workspace command.workspace)
    (fun id ↦ .workspaceCredentialIssued command.workspace id .service at') answer at'

/-- What the two ways to rotate a credential share. -/
def rotateWithin (existing : List CredentialSummary) (credential : CredentialId)
    (expected : Option CredentialKind) (held : List Permission) (overlap : Option Duration)
    (events : CredentialSummary → CredentialId → Instant → List CredentialEvent) (minted : Minted)
    (at' : Instant) : Option (Except CredentialFailure RotationOutcome × Credentials) :=
  match checkRotate existing credential expected held at' with
  | .error e => some (.error e, s)
  | .ok rotatable =>
    (s.store.rotate credential (resolveOverlap overlap) minted at').map fun answer ↦
      match answer.1 with
      | .error e => (.error (asProjectError e), s)
      | .ok rotated => (.ok ⟨rotated.issued, rotated.retiring, at' + resolveOverlap overlap⟩,
          ⟨answer.2, s.outbox ++
            events rotatable rotated.issued.id (at' + resolveOverlap overlap)⟩)

def rotateCredential (found : Option Project) (command : RotateCredentialCommand) (minted : Minted)
    (at' : Instant) : Option (Except CredentialFailure RotationOutcome × Credentials) :=
  match found with
  | none => some (.error (.project (.noSuchProject command.project)), s)
  | some project =>
    if project.archived then some (.error (.project (.projectArchived command.project)), s)
    else
      s.rotateWithin (s.store.list (.project command.project)) command.credential command.expected
        command.held command.overlap (fun rotatable replacement graceEndsAt ↦
          [.credentialIssued command.project replacement rotatable.kind at',
            .credentialRotated command.project command.credential replacement graceEndsAt at'])
        minted at'

/-- Only workspace-bound keys may use the workspace lifecycle endpoints. -/
def workspaceKeys (workspace : WorkspaceId) : List CredentialSummary :=
  (s.store.list (.workspace workspace)).filter
    (fun key ↦ key.workspace = workspace && key.project = none && key.kind = .service)

def rotateWorkspaceCredential (command : RotateWorkspaceCredentialCommand) (minted : Minted)
    (at' : Instant) : Option (Except CredentialFailure RotationOutcome × Credentials) :=
  s.rotateWithin (s.workspaceKeys command.workspace) command.credential (some .service)
    command.held command.overlap (fun _ replacement graceEndsAt ↦
      [.workspaceCredentialIssued command.workspace replacement .service at',
        .workspaceCredentialRotated command.workspace command.credential replacement graceEndsAt
          at'])
    minted at'

/-- Decides on the listing the request has read. -/
def revokeCredential (found : Option Project) (existing : List CredentialSummary)
    (command : RevokeCredentialCommand) (at' : Instant) :
    Except CredentialFailure CredentialSummary × Credentials :=
  match found with
  | none => (.error (.project (.noSuchProject command.project)), s)
  | some _ =>
    match mayRevoke CredentialSummary.toCredentialFacts existing command.credential at' with
    | .error e => (.error e, s)
    | .ok revocable =>
      match s.store.revoke command.credential at' with
      | .error e => (.error (asProjectError e), s)
      | .ok store => (.ok { revocable with revokedAt := some at' },
          ⟨store, s.outbox ++ [.credentialRevoked command.project command.credential at']⟩)

end Credentials

end Counted.Projects
