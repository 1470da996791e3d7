import Counted.Kernel.Authz
import Counted.Tenancy.ProjectCap

namespace Counted.Projects

open Foundations Tenancy
open Ingestion (ProjectId)

abbrev CredentialId := JsString

abbrev AccountId := JsString

inductive CredentialKind | ingest | service
  deriving DecidableEq

/-- The part of a credential that a rule needs. -/
structure CredentialFacts where
  id : CredentialId
  kind : CredentialKind
  name : JsString
  expiresAt : Option Instant
  revokedAt : Option Instant
  deriving DecidableEq

structure CredentialSummary extends CredentialFacts where
  workspace : WorkspaceId
  project : Option ProjectId
  permissions : List Permission
  issuedBy : AccountId
  createdAt : Instant
  deriving DecidableEq

inductive CredentialStatus | active | expiring | revoked | expired
  deriving DecidableEq

/-- What the store of credentials refuses to issue. -/
inductive IssueFailure
  | noSuchWorkspace (workspace : WorkspaceId)
  | noSuchProject (project : ProjectId)
  | issuerNotAMember (account : AccountId)
  | nothingGrantable (account : AccountId)

inductive CredentialFailure
  | project (e : ProjectError)
  | store (e : IssueFailure)
  | permissionsRequired
  | permissionEscalation (requested held : List Permission)
  | credentialExists (credential : CredentialId)
  | unknownCredential (credential : CredentialId)
  | credentialRevoked (credential : CredentialId)
  | credentialExpired (credential : CredentialId)
  | lastIngestCredential (credential : CredentialId)
  | rotationKindMismatch

/-- The single derivation. Revocation outranks expiry. -/
def credentialStatus (c : CredentialFacts) (at' : Instant) : CredentialStatus :=
  if c.revokedAt.isSome then .revoked
  else
    match c.expiresAt with
    | none => .active
    | some expiresAt => if at' < expiresAt then .expiring else .expired

def isUsable (c : CredentialFacts) (at' : Instant) : Bool :=
  credentialStatus c at' = .active || credentialStatus c at' = .expiring

section Rules

variable {C : Type} (facts : C → CredentialFacts) (credentials : List C)

def usableIngestCredentials (at' : Instant) : List C :=
  credentials.filter (fun c ↦ (facts c).kind = .ingest && isUsable (facts c) at')

def nameIsAvailable (name : JsString) (at' : Instant) : Except CredentialFailure JsString :=
  if name.trim = [] then .error (.project .nameRequired)
  else
    match credentials.find? (fun c ↦ isUsable (facts c) at' && (facts c).name = name.trim) with
    | some clash => .error (.credentialExists (facts clash).id)
    | none => .ok name.trim

/-- A credential, or why it cannot be acted on. -/
def live (target : CredentialId) (at' : Instant) : Except CredentialFailure C :=
  match credentials.find? (fun c ↦ (facts c).id = target) with
  | none => .error (.unknownCredential target)
  | some found =>
    match credentialStatus (facts found) at' with
    | .revoked => .error (.credentialRevoked target)
    | .expired => .error (.credentialExpired target)
    | .active | .expiring => .ok found

def mayRevoke (target : CredentialId) (at' : Instant) : Except CredentialFailure C :=
  (live facts credentials target at').bind fun found ↦
    if (facts found).kind = .ingest &&
        ((usableIngestCredentials facts credentials at').filter
          (fun c ↦ (facts c).id ≠ target)).isEmpty then
      .error (.lastIngestCredential target)
    else .ok found

/-- `none` for a caller that expects no kind. -/
def mayRotate (target : CredentialId) (expected : Option CredentialKind) (at' : Instant) :
    Except CredentialFailure C :=
  (live facts credentials target at').bind fun found ↦
    if expected.any (· ≠ (facts found).kind) then .error .rotationKindMismatch else .ok found

end Rules

/-- Whether the project can receive events at all. -/
def canIngest (credentials : List CredentialFacts) (at' : Instant) : Bool :=
  !(usableIngestCredentials id credentials at').isEmpty

variable {C : Type} {facts : C → CredentialFacts} {credentials : List C} {target : CredentialId}
  {at' : Instant} {found : C}

theorem isUsable_iff {c : CredentialFacts} :
    isUsable c at' = true ↔ c.revokedAt = none ∧ ∀ e ∈ c.expiresAt, at' < e := by
  rw [isUsable, credentialStatus]
  cases hr : c.revokedAt with
  | some r => simp
  | none =>
    cases he : c.expiresAt with
    | none => simp
    | some e => by_cases h : at' < e <;> simp [h]

theorem mem_usableIngestCredentials {c : C} : c ∈ usableIngestCredentials facts credentials at' ↔
    c ∈ credentials ∧ (facts c).kind = .ingest ∧ isUsable (facts c) at' = true := by
  simp [usableIngestCredentials]

theorem canIngest_iff {l : List CredentialFacts} :
    canIngest l at' = true ↔ ∃ c ∈ l, c.kind = .ingest ∧ isUsable c at' = true := by
  rw [canIngest, Bool.not_eq_true', List.isEmpty_eq_false_iff_exists_mem]
  simp only [mem_usableIngestCredentials, id]

theorem live_ok (h : live facts credentials target at' = .ok found) :
    found ∈ credentials ∧ (facts found).id = target ∧ isUsable (facts found) at' = true := by
  rw [live] at h
  cases hf : credentials.find? (fun c ↦ (facts c).id = target) with
  | none =>
    rw [hf] at h
    cases h
  | some c =>
    rw [hf] at h
    have hc := List.mem_of_find?_eq_some hf
    have hid : (facts c).id = target := by simpa using List.find?_some hf
    cases hs : credentialStatus (facts c) at' <;> simp only [hs] at h <;> cases h <;>
      exact ⟨hc, hid, by simp [isUsable, hs]⟩

/-- An ingest key is revoked only where another one is still usable. -/
theorem mayRevoke_ok (h : mayRevoke facts credentials target at' = .ok found) :
    found ∈ credentials ∧ (facts found).id = target ∧ ((facts found).kind = .ingest →
      ∃ c ∈ credentials, (facts c).kind = .ingest ∧ isUsable (facts c) at' = true ∧
        (facts c).id ≠ target) := by
  obtain ⟨c, hl, h⟩ := bind_ok h
  split_ifs at h with hk
  obtain rfl := Except.ok.inj h
  obtain ⟨hc, hid, -⟩ := live_ok hl
  refine ⟨hc, hid, fun hi ↦ ?_⟩
  rw [decide_eq_true hi, Bool.true_and, Bool.not_eq_true, List.isEmpty_eq_false_iff_exists_mem] at hk
  obtain ⟨d, hd⟩ := hk
  obtain ⟨hd, hne⟩ := List.mem_filter.1 hd
  obtain ⟨hd, hki, hu⟩ := mem_usableIngestCredentials.1 hd
  exact ⟨d, hd, hki, hu, of_decide_eq_true hne⟩

theorem mayRotate_ok {expected : Option CredentialKind}
    (h : mayRotate facts credentials target expected at' = .ok found) :
    found ∈ credentials ∧ (facts found).id = target := by
  obtain ⟨c, hl, h⟩ := bind_ok h
  split_ifs at h
  obtain rfl := Except.ok.inj h
  obtain ⟨hc, hid, -⟩ := live_ok hl
  exact ⟨hc, hid⟩

/-- An ingest key carries exactly this. These keys are public. -/
def ingestPermissions : List Permission := [.eventsWrite]

/-- What a service key may ever carry. -/
def serviceDelegablePermissions : List Permission :=
  [.eventsWrite, .queriesRun, .projectsRead, .projectsWrite, .projectsDelete, .dashboardsRead,
    .dashboardsWrite, .monitorsRead, .monitorsWrite, .credentialsRead, .credentialsWrite,
    .workspaceRead, .billingRead]

def CredentialKind.ceiling : CredentialKind → List Permission
  | .ingest => ingestPermissions
  | .service => serviceDelegablePermissions

/-- The refusal names the excess, not the whole request. -/
def withinGrant (requested held : List Permission) : Except CredentialFailure (List Permission) :=
  if requested.isEmpty then .error .permissionsRequired
  else if (requested.filter (fun p ↦ !held.contains p)).isEmpty then .ok requested
  else .error (.permissionEscalation (requested.filter (fun p ↦ !held.contains p)) held)

/-- The permission set a new credential gets. -/
def grantableTo (kind : CredentialKind) (held : List Permission) :
    Except CredentialFailure (List Permission) :=
  match kind with
  | .ingest => withinGrant ingestPermissions held
  | .service => withinGrant (serviceDelegablePermissions.filter (fun p ↦ held.contains p)) held

variable {requested held granted : List Permission} {kind : CredentialKind}

theorem withinGrant_ok (h : withinGrant requested held = .ok granted) :
    granted = requested ∧ requested ⊆ held := by
  rw [withinGrant] at h
  split_ifs at h with hr he
  refine ⟨(Except.ok.inj h).symm, fun p hp ↦ ?_⟩
  have := List.filter_eq_nil_iff.1 (List.isEmpty_iff.1 he) p hp
  simpa using this

theorem withinGrant_error {e : CredentialFailure} (h : withinGrant requested held = .error e)
    (hr : requested ≠ []) : ¬ requested ⊆ held := by
  rw [withinGrant, if_neg (by simpa using hr)] at h
  split_ifs at h with he
  intro hs
  exact he (List.isEmpty_iff.2 (List.filter_eq_nil_iff.2 fun p hp ↦ by simpa using hs hp))

theorem grantableTo_ok (h : grantableTo kind held = .ok granted) :
    granted ⊆ held ∧ granted ⊆ kind.ceiling := by
  cases kind with
  | ingest =>
    obtain ⟨rfl, hs⟩ := withinGrant_ok h
    exact ⟨hs, fun p hp ↦ hp⟩
  | service =>
    obtain ⟨rfl, hs⟩ := withinGrant_ok h
    exact ⟨hs, fun p hp ↦ (List.mem_filter.1 hp).1⟩

end Counted.Projects
