import Mathlib

namespace Counted

/-- Three roles, ordered by authority. -/
inductive Role | owner | admin | member
  deriving DecidableEq

inductive Permission
  | eventsWrite | queriesRun | projectsRead | projectsWrite | projectsDelete | dashboardsRead
  | dashboardsWrite | monitorsRead | monitorsWrite | credentialsRead | credentialsWrite
  | workspaceRead | workspaceAdmin | billingRead | billingWrite
  deriving DecidableEq

def Role.rank : Role → ℕ
  | .owner => 3
  | .admin => 2
  | .member => 1

def allPermissions : List Permission :=
  [.eventsWrite, .queriesRun, .projectsRead, .projectsWrite, .projectsDelete, .dashboardsRead,
    .dashboardsWrite, .monitorsRead, .monitorsWrite, .credentialsRead, .credentialsWrite,
    .workspaceRead, .workspaceAdmin, .billingRead, .billingWrite]

/-- The left half of a permission string. -/
inductive PermissionResource
  | events | queries | projects | dashboards | monitors | credentials | workspace | billing
  deriving DecidableEq

/-- The right half. -/
inductive PermissionAction | write | run | read | delete | admin
  deriving DecidableEq

def splitPermission : Permission → PermissionResource × PermissionAction
  | .eventsWrite => (.events, .write)
  | .queriesRun => (.queries, .run)
  | .projectsRead => (.projects, .read)
  | .projectsWrite => (.projects, .write)
  | .projectsDelete => (.projects, .delete)
  | .dashboardsRead => (.dashboards, .read)
  | .dashboardsWrite => (.dashboards, .write)
  | .monitorsRead => (.monitors, .read)
  | .monitorsWrite => (.monitors, .write)
  | .credentialsRead => (.credentials, .read)
  | .credentialsWrite => (.credentials, .write)
  | .workspaceRead => (.workspace, .read)
  | .workspaceAdmin => (.workspace, .admin)
  | .billingRead => (.billing, .read)
  | .billingWrite => (.billing, .write)

theorem mem_allPermissions (p : Permission) : p ∈ allPermissions := by
  cases p <;> decide

theorem splitPermission_injective : Function.Injective splitPermission := by
  intro p q h
  cases p <;> cases q <;> first | rfl | cases h

end Counted
