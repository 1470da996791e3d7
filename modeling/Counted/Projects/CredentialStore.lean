import Counted.Projects.Credential

namespace Counted.Projects

open Foundations Tenancy
open Ingestion (ProjectId)

/-- A row of the vendor's table of keys that has been placed. -/
structure ApiKeyRow extends CredentialSummary where
  enabled : Bool
  deriving DecidableEq

/-- Not revoked, by us or by the vendor. -/
def ApiKeyRow.Live (row : ApiKeyRow) : Prop := row.revokedAt = none ∧ row.enabled = true

structure CredentialStore where
  rows : List ApiKeyRow
  unique : (rows.map (·.id)).Nodup

inductive CredentialScope
  | workspace (workspace : WorkspaceId)
  | project (project : ProjectId)

inductive StoreFailure
  | unknownCredential (credential : CredentialId)
  | alreadyRevoked (credential : CredentialId)

/-- The permission ceiling is left to the store's answer. -/
structure IssueRequest where
  kind : CredentialKind
  name : JsString
  workspace : WorkspaceId
  project : Option ProjectId
  issuedBy : AccountId
  expiresIn : Option Duration

/-- What the vendor stored for a new key: its id, and the permissions it decided on. -/
structure Minted where
  id : CredentialId
  permissions : List Permission

structure RotatedCredential where
  issued : CredentialSummary
  retiring : CredentialSummary

def IssueRequest.row (request : IssueRequest) (minted : Minted) (at' : Instant) : ApiKeyRow where
  id := minted.id
  kind := request.kind
  name := request.name
  expiresAt := request.expiresIn.map (at' + ·)
  revokedAt := none
  workspace := request.workspace
  project := request.project
  permissions := minted.permissions
  issuedBy := request.issuedBy
  createdAt := at'
  enabled := true

/-- The replacement inherits all but the secret, and a fresh copy of the lifetime. -/
def ApiKeyRow.replacement (row : ApiKeyRow) (minted : Minted) (at' : Instant) : ApiKeyRow where
  id := minted.id
  kind := row.kind
  name := row.name
  expiresAt := row.expiresAt.map (fun expiresAt ↦ at' + (expiresAt - row.createdAt))
  revokedAt := none
  workspace := row.workspace
  project := row.project
  permissions := minted.permissions
  issuedBy := row.issuedBy
  createdAt := at'
  enabled := true

/-- Rotation never extends a life. -/
def ApiKeyRow.retire (row : ApiKeyRow) (overlapEnd : Instant) : ApiKeyRow :=
  { row with expiresAt := some ((row.expiresAt.map (min · overlapEnd)).getD overlapEnd) }

def ApiKeyRow.revoke (row : ApiKeyRow) (at' : Instant) : ApiKeyRow :=
  { row with revokedAt := some at', enabled := false }

def CredentialScope.includes (row : ApiKeyRow) : CredentialScope → Bool
  | .workspace w => row.workspace = w
  | .project p => row.project = some p

namespace CredentialStore

variable (s : CredentialStore)

def empty : CredentialStore := ⟨[], List.nodup_nil⟩

def find (credential : CredentialId) : Option ApiKeyRow := Keyed.lookup (·.id) credential s.rows

def put (row : ApiKeyRow) : CredentialStore :=
  ⟨Keyed.upsert (·.id) row s.rows, Keyed.nodup_upsert s.unique⟩

/-- Every credential in scope, revoked ones included. -/
def list (scope : CredentialScope) : List CredentialSummary :=
  (s.rows.filter (fun row ↦ scope.includes row)).map (·.toCredentialSummary)

/-- `none` where the id is taken: the vendor's insert fails. -/
def mint (row : ApiKeyRow) : Option CredentialStore :=
  if (s.find row.id).isSome then none else some (s.put row)

/-- The row, where it can still be acted on. -/
def acting (credential : CredentialId) : Except StoreFailure ApiKeyRow :=
  match s.find credential with
  | none => .error (.unknownCredential credential)
  | some row =>
    if row.revokedAt.isSome || !row.enabled then .error (.alreadyRevoked credential) else .ok row

def revoke (credential : CredentialId) (at' : Instant) : Except StoreFailure CredentialStore :=
  (s.acting credential).map fun row ↦ s.put (row.revoke at')

def rotate (credential : CredentialId) (overlap : Duration) (minted : Minted) (at' : Instant) :
    Option (Except StoreFailure RotatedCredential × CredentialStore) :=
  match s.acting credential with
  | .error e => some (.error e, s)
  | .ok row => (s.mint (row.replacement minted at')).map fun t ↦
      (.ok ⟨(row.replacement minted at').toCredentialSummary,
        (row.retire (at' + overlap)).toCredentialSummary⟩, t.put (row.retire (at' + overlap)))

variable {s} {t : CredentialStore} {row : ApiKeyRow} {credential : CredentialId} {at' : Instant}

theorem mem_put {r : ApiKeyRow} :
    r ∈ (s.put row).rows ↔ r = row ∨ r ∈ s.rows ∧ r.id ≠ row.id := Keyed.mem_upsert

theorem mem_list {scope : CredentialScope} {c : CredentialSummary} :
    c ∈ s.list scope ↔ ∃ r ∈ s.rows, scope.includes r = true ∧ r.toCredentialSummary = c := by
  simp [list, and_assoc]

theorem eq_of_id {r r' : ApiKeyRow} (hr : r ∈ s.rows) (hr' : r' ∈ s.rows) (h : r.id = r'.id) :
    r = r' := List.inj_on_of_nodup_map s.unique hr hr' h

theorem acting_ok (h : s.acting credential = .ok row) :
    row ∈ s.rows ∧ row.id = credential ∧ row.Live := by
  rw [acting] at h
  cases hf : s.find credential with
  | none =>
    rw [hf] at h
    cases h
  | some r =>
    rw [hf] at h
    simp only at h
    split_ifs at h with hl
    obtain rfl := Except.ok.inj h
    obtain ⟨hr, hid⟩ := Keyed.lookup_eq_some hf
    simp only [Bool.or_eq_true, Bool.not_eq_true', not_or, Bool.not_eq_true, Option.isSome_eq_false_iff,
      Option.isNone_iff_eq_none, Bool.not_eq_false] at hl
    exact ⟨hr, hid, hl⟩

theorem acting_of_live (hr : row ∈ s.rows) (hl : row.Live) : s.acting row.id = .ok row := by
  rw [acting, find, Keyed.lookup_of_mem s.unique hr]
  simp [hl.1, hl.2]

theorem revoke_ok (h : s.revoke credential at' = .ok t) : ∃ row ∈ s.rows,
    row.id = credential ∧ t = s.put (row.revoke at') := by
  rw [revoke] at h
  cases ha : s.acting credential with
  | error e =>
    rw [ha] at h
    cases h
  | ok row =>
    rw [ha] at h
    obtain ⟨hr, hid, -⟩ := acting_ok ha
    exact ⟨row, hr, hid, (Except.ok.inj h).symm⟩

theorem mint_some (h : s.mint row = some t) : row.id ∉ s.rows.map (·.id) ∧ t = s.put row := by
  rw [mint] at h
  split_ifs at h with hf
  rw [Bool.not_eq_true, Option.isSome_eq_false_iff, Option.isNone_iff_eq_none, find,
    Keyed.lookup_eq_none] at hf
  exact ⟨hf, (Option.some.inj h).symm⟩

/-- A key that has just been stored can be revoked. -/
theorem revoke_put (row : ApiKeyRow) (s : CredentialStore) (at' : Instant) (h : row.Live) :
    (s.put row).revoke row.id at' = .ok ((s.put row).put (row.revoke at')) := by
  rw [revoke, acting_of_live (mem_put.2 (.inl rfl)) h]
  rfl

end CredentialStore

/-- Why a secret did not resolve. -/
inductive VerificationFailure
  | unknown
  | revoked (at' : Instant)
  | expired (at' : Instant)
  | rateLimited (retryAfter : Duration)
  deriving DecidableEq

structure VerifiedCredential where
  id : CredentialId
  kind : CredentialKind
  workspace : WorkspaceId
  project : Option ProjectId
  permissions : List Permission
  issuedBy : AccountId
  deriving DecidableEq

namespace ApiKeyRow

variable (row : ApiKeyRow)

def verified : VerifiedCredential :=
  ⟨row.id, row.kind, row.workspace, row.project, row.permissions, row.issuedBy⟩

/-- `verify`, from the row its hash names to the limiter. `kind` is what the prefix of the secret
says. -/
def check (kind : CredentialKind) (at' : Instant) : Except VerificationFailure VerifiedCredential :=
  if row.kind ≠ kind then .error .unknown
  else match row.revokedAt with
    | some revokedAt => .error (.revoked revokedAt)
    | none =>
      -- turned off through a path that leaves no instant
      if !row.enabled then .error (.revoked at')
      else match row.expiresAt.filter (· ≤ at') with
        | some expiresAt => .error (.expired expiresAt)
        | none => .ok row.verified

end ApiKeyRow

end Counted.Projects
