import Counted.Authorization.Grants
import Counted.Projects.Credential

namespace Counted.Authorization

open Tenancy (WorkspaceId)
open Projects (AccountId CredentialId)
open Ingestion (ProjectId)

abbrev DashboardId := JsString

abbrev MonitorId := JsString

/-- A human's standing: what they may do, and where they were found to be able to do it. -/
structure WorkspaceRole where
  workspace : WorkspaceId
  role : Role
  deriving DecidableEq

/-- The projects of a server-side key. -/
inductive ProjectReach
  | all
  | only (projects : List ProjectId)
  deriving DecidableEq

/-- Who is asking. An account without a ceiling has a console session. -/
inductive Principal
  | anonymous
  | account (account : AccountId) (standing : Option WorkspaceRole)
      (permissionCeiling : Option (List Permission))
  | service (credential : CredentialId) (workspace : WorkspaceId) (projects : ProjectReach)
      (permissions : List Permission) (onBehalfOf : AccountId)
  | ingest (credential : CredentialId) (project : ProjectId) (workspace : Option WorkspaceId)
      (permissions : List Permission)
  | share (credential : CredentialId) (dashboard : DashboardId) (projects : List ProjectId)
      (permissions : List Permission)
  deriving DecidableEq

/-- Where a resource sits: `none` for a project that nothing owns yet, and for a resource that sits
at the workspace. -/
structure Placement where
  workspace : Option WorkspaceId
  project : Option ProjectId
  deriving DecidableEq

inductive Resource
  | workspace (id : WorkspaceId)
  | project (id : ProjectId)
  | dashboard (id : DashboardId)
  | monitor (id : MonitorId)
  | credential (id : CredentialId)
  deriving DecidableEq

/-- How far a principal reaches. -/
inductive Binding
  | nothing
  | workspace (workspace : WorkspaceId)
  | projects (workspace : Option WorkspaceId) (projects : List ProjectId)
  | dashboard (dashboard : DashboardId) (projects : List ProjectId)

inductive CoverageGap
  | boundToNothing | unplaced | differentWorkspace | differentProject | placedAboveBinding
  | differentDashboard
  deriving DecidableEq

inductive Coverage
  | covered
  | missing (gap : CoverageGap)
  deriving DecidableEq

def bindingOf : Principal → Binding
  | .anonymous => .nothing
  | .account _ none _ => .nothing
  | .account _ (some standing) _ => .workspace standing.workspace
  | .service _ workspace .all _ _ => .workspace workspace
  | .service _ workspace (.only projects) _ _ => .projects (some workspace) projects
  | .ingest _ project workspace _ => .projects workspace [project]
  | .share _ dashboard projects _ => .dashboard dashboard projects

/-- The id of a dashboard, for a resource that is one. -/
def Resource.dashboardId : Resource → Option DashboardId
  | .dashboard id => some id
  | .workspace _ | .project _ | .monitor _ | .credential _ => none

/-- The only comparison of a binding to a placement. -/
def covers (binding : Binding) (placement : Placement) (resource : Resource) : Coverage :=
  match binding with
  | .nothing => .missing .boundToNothing
  | .workspace w =>
    match placement.workspace with
    | none => .missing .unplaced
    | some placed => if placed = w then .covered else .missing .differentWorkspace
  | .projects w projects =>
    match placement.project with
    | none => .missing .placedAboveBinding
    | some project =>
      if !projects.contains project then .missing .differentProject
      else if w ≠ none ∧ placement.workspace ≠ w then .missing .differentWorkspace
      else .covered
  | .dashboard d projects =>
    match resource.dashboardId with
    | some id => if id = d then .covered else .missing .differentDashboard
    | none =>
      match placement.project with
      | none => .missing .placedAboveBinding
      | some project =>
        if projects.contains project then .covered else .missing .differentProject

namespace Principal

/-- The projects a project-bound principal is bound to. -/
def boundTo : Principal → Option (List ProjectId)
  | .service _ _ (.only projects) _ _ => some projects
  | .ingest _ project _ _ => some [project]
  | .share _ _ projects _ => some projects
  | .anonymous | .account .. | .service _ _ .all _ _ => none

/-- The one page a share link is a view of. -/
def ownPage : Principal → Option Resource
  | .share _ dashboard _ _ => some (.dashboard dashboard)
  | .anonymous | .account .. | .service .. | .ingest .. => none

/-- What lies inside a principal's binding. -/
def Reaches (placement : Placement) (resource : Resource) : Principal → Prop
  | .anonymous => False
  | .account _ standing _ => ∃ s ∈ standing, placement.workspace = some s.workspace
  | .service _ workspace .all _ _ => placement.workspace = some workspace
  | .service _ workspace (.only projects) _ _ =>
    placement.workspace = some workspace ∧ ∃ p ∈ projects, placement.project = some p
  | .ingest _ project workspace _ =>
    placement.project = some project ∧ ∀ w ∈ workspace, placement.workspace = some w
  | .share _ dashboard projects _ => resource = .dashboard dashboard ∨
    resource.dashboardId = none ∧ ∃ p ∈ projects, placement.project = some p

end Principal

variable {placement : Placement} {resource : Resource} {p : Principal}

theorem dashboardId_eq_some {id : DashboardId} :
    resource.dashboardId = some id ↔ resource = .dashboard id := by
  cases resource <;> simp [Resource.dashboardId]

theorem covers_workspace {w : WorkspaceId} :
    covers (.workspace w) placement resource = .covered ↔ placement.workspace = some w := by
  unfold covers
  cases placement.workspace with
  | none => simp
  | some placed => by_cases h : placed = w <;> simp [h]

theorem covers_projects {w : Option WorkspaceId} {projects : List ProjectId} :
    covers (.projects w projects) placement resource = .covered ↔
      (∃ p ∈ projects, placement.project = some p) ∧ ∀ v ∈ w, placement.workspace = some v := by
  unfold covers
  cases hp : placement.project with
  | none => simp
  | some project =>
    by_cases hc : project ∈ projects
    · cases w with
      | none => simp [hc]
      | some v => by_cases hv : placement.workspace = some v <;> simp [hc, hv]
    · have hn : ∀ p ∈ projects, project ≠ p := fun p hp he ↦ hc (he ▸ hp)
      simp [hc]

theorem covers_dashboard {d : DashboardId} {projects : List ProjectId} :
    covers (.dashboard d projects) placement resource = .covered ↔ resource = .dashboard d ∨
      resource.dashboardId = none ∧ ∃ p ∈ projects, placement.project = some p := by
  unfold covers
  cases hr : resource.dashboardId with
  | some id =>
    rw [dashboardId_eq_some] at hr
    subst hr
    by_cases hd : id = d <;> simp [hd]
  | none =>
    have hn : resource ≠ .dashboard d := by
      rintro rfl
      cases hr
    cases placement.project with
    | none => simp [hn]
    | some project => by_cases hc : project ∈ projects <;> simp [hc, hn]

/-- Coverage is reach. -/
theorem covers_iff : covers (bindingOf p) placement resource = .covered ↔
    p.Reaches placement resource := by
  cases p with
  | anonymous => simp [bindingOf, covers, Principal.Reaches]
  | account account standing ceiling =>
    cases standing with
    | none => simp [bindingOf, covers, Principal.Reaches]
    | some s =>
      rw [bindingOf, covers_workspace]
      simp [Principal.Reaches]
  | service credential workspace projects permissions onBehalfOf =>
    cases projects with
    | all => exact covers_workspace
    | only projects =>
      rw [bindingOf, covers_projects, Principal.Reaches, and_comm]
      simp
  | ingest credential project workspace permissions =>
    rw [bindingOf, covers_projects, Principal.Reaches]
    simp
  | share credential dashboard projects permissions => exact covers_dashboard

/-- A project-bound principal reaches nothing outside its projects and nothing at the workspace,
but for its own page. -/
theorem Principal.Reaches.inside {projects : List ProjectId} (h : p.Reaches placement resource)
    (hb : p.boundTo = some projects) (ho : p.ownPage ≠ some resource) :
    ∃ q ∈ projects, placement.project = some q := by
  cases p with
  | anonymous => cases hb
  | account => cases hb
  | service credential workspace reach permissions onBehalfOf =>
    cases reach with
    | all => cases hb
    | only ps =>
      obtain rfl := Option.some.inj hb
      exact h.2
  | ingest credential project workspace permissions =>
    obtain rfl := Option.some.inj hb
    exact ⟨project, .head _, h.1⟩
  | share credential dashboard ps permissions =>
    obtain rfl := Option.some.inj hb
    rcases h with rfl | h
    · exact absurd rfl ho
    · exact h.2

end Counted.Authorization
