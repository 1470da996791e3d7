import Counted.Authorization.Placement

namespace Counted.Authorization

open Tenancy (WorkspaceId)
open Projects (AccountId CredentialId)

inductive Denial
  | notAuthenticated
  | notAMember (account : AccountId)
  | notPermitted (required : Permission)
  | outOfBinding (required : Permission) (resource : Resource) (gap : CoverageGap)
  deriving DecidableEq

inductive Decision
  | allow
  | deny (denial : Denial)
  deriving DecidableEq

section Deciding

variable (can : AccessControl)

/-- What a ceiling leaves. Without one, everything. -/
def underCeiling (permissionCeiling : Option (List Permission)) (permission : Permission) : Bool :=
  permissionCeiling.all (·.contains permission)

/-- What this principal may do anywhere, before any question of where. -/
def permissionsHeldBy : Principal → List Permission
  | .anonymous => []
  | .account _ none _ => []
  | .account _ (some standing) ceiling =>
    (permissionsForRole can standing.role).filter (underCeiling ceiling)
  | .service _ _ _ permissions _ => permissions
  | .ingest _ _ _ permissions => permissions
  | .share _ _ _ permissions => permissions

def holds (principal : Principal) (permission : Permission) : Bool :=
  match principal with
  | .account _ standing ceiling =>
    standing.any (fun s ↦ permits can s.role permission) && underCeiling ceiling permission
  | .anonymous | .service .. | .ingest .. | .share .. =>
    (permissionsHeldBy can principal).contains permission

/-- The permission before the binding. -/
def decidePlaced (principal : Principal) (permission : Permission) (placement : Placement)
    (resource : Resource) : Decision :=
  if !holds can principal permission then .deny (.notPermitted permission)
  else
    match covers (bindingOf principal) placement resource with
    | .covered => .allow
    | .missing gap => .deny (.outOfBinding permission resource gap)

/-- The authorization function. -/
def decide (principal : Principal) (permission : Permission) (placement : Placement)
    (resource : Resource) : Decision :=
  match principal with
  | .anonymous => .deny .notAuthenticated
  | .account account none _ => .deny (.notAMember account)
  | .account _ (some _) _ | .service .. | .ingest .. | .share .. =>
    decidePlaced can principal permission placement resource

end Deciding

namespace Principal

/-- The effective set of a principal. -/
def Effective (permission : Permission) : Principal → Prop
  | .anonymous => False
  | .account _ standing ceiling =>
    (∃ s ∈ standing, Holds s.role permission) ∧ ∀ c ∈ ceiling, permission ∈ c
  | .service _ _ _ permissions _ => permission ∈ permissions
  | .ingest _ _ _ permissions => permission ∈ permissions
  | .share _ _ _ permissions => permission ∈ permissions

/-- The same principal with a larger permission set, a larger ceiling or none, or a role of more
authority. -/
inductive Enlarges : Principal → Principal → Prop
  | role {account : AccountId} {workspace : WorkspaceId} {ceiling : Option (List Permission)}
      {r r' : Role} : r.rank ≤ r'.rank →
    Enlarges (.account account (some ⟨workspace, r⟩) ceiling)
      (.account account (some ⟨workspace, r'⟩) ceiling)
  | ceiling {account : AccountId} {standing : Option WorkspaceRole} {c c' : List Permission} :
    c ⊆ c' → Enlarges (.account account standing (some c)) (.account account standing (some c'))
  | noCeiling {account : AccountId} {standing : Option WorkspaceRole} {c : List Permission} :
    Enlarges (.account account standing (some c)) (.account account standing none)
  | service {credential : CredentialId} {workspace : WorkspaceId} {projects : ProjectReach}
      {permissions permissions' : List Permission} {onBehalfOf : AccountId} :
    permissions ⊆ permissions' → Enlarges (.service credential workspace projects permissions
      onBehalfOf) (.service credential workspace projects permissions' onBehalfOf)
  | ingest {credential : CredentialId} {project : Ingestion.ProjectId}
      {workspace : Option WorkspaceId} {permissions permissions' : List Permission} :
    permissions ⊆ permissions' → Enlarges (.ingest credential project workspace permissions)
      (.ingest credential project workspace permissions')
  | share {credential : CredentialId} {dashboard : DashboardId}
      {projects : List Ingestion.ProjectId} {permissions permissions' : List Permission} :
    permissions ⊆ permissions' → Enlarges (.share credential dashboard projects permissions)
      (.share credential dashboard projects permissions')

end Principal

variable {can : AccessControl} {p q : Principal} {permission : Permission} {placement : Placement}
  {resource : Resource}

theorem underCeiling_iff {ceiling : Option (List Permission)} :
    underCeiling ceiling permission = true ↔ ∀ c ∈ ceiling, permission ∈ c := by
  cases ceiling <;> simp [underCeiling]

theorem mem_permissionsHeldBy (h : can.Unites) :
    permission ∈ permissionsHeldBy can p ↔ p.Effective permission := by
  cases p with
  | account account standing ceiling =>
    cases standing with
    | none => simp [permissionsHeldBy, Principal.Effective]
    | some s =>
      rw [permissionsHeldBy, List.mem_filter, mem_permissionsForRole h, underCeiling_iff]
      simp [Principal.Effective]
  | anonymous => simp [permissionsHeldBy, Principal.Effective]
  | service => rfl
  | ingest => rfl
  | share => rfl

theorem holds_iff (h : can.Unites) : holds can p permission = true ↔ p.Effective permission := by
  cases p with
  | account account standing ceiling =>
    rw [holds, Bool.and_eq_true, underCeiling_iff]
    cases standing with
    | none => simp [Principal.Effective]
    | some s => simp [Principal.Effective, permits_iff h]
  | anonymous => simp [holds, permissionsHeldBy, Principal.Effective]
  | service => exact List.contains_iff_mem
  | ingest => exact List.contains_iff_mem
  | share => exact List.contains_iff_mem

theorem decidePlaced_iff (h : can.Unites) :
    decidePlaced can p permission placement resource = .allow ↔
      p.Effective permission ∧ p.Reaches placement resource := by
  rw [← holds_iff h, ← covers_iff, decidePlaced]
  cases holds can p permission with
  | false => simp
  | true => cases covers (bindingOf p) placement resource <;> simp

/-- A decision allows exactly what is both in the effective set and inside the binding. -/
theorem decide_iff (h : can.Unites) : decide can p permission placement resource = .allow ↔
    p.Effective permission ∧ p.Reaches placement resource := by
  cases p with
  | anonymous => simp [decide, Principal.Effective]
  | account account standing ceiling =>
    cases standing with
    | none => simp [decide, Principal.Effective]
    | some s => exact decidePlaced_iff h
  | service => exact decidePlaced_iff h
  | ingest => exact decidePlaced_iff h
  | share => exact decidePlaced_iff h

theorem Principal.Enlarges.reaches (h : Principal.Enlarges p q)
    (hr : p.Reaches placement resource) : q.Reaches placement resource := by
  cases h with
  | role hrank =>
    obtain ⟨s, hs, hw⟩ := hr
    obtain rfl := Option.some.inj hs
    exact ⟨_, rfl, hw⟩
  | ceiling => exact hr
  | noCeiling => exact hr
  | @service _ _ projects => cases projects <;> exact hr
  | ingest => exact hr
  | share => exact hr

theorem Principal.Enlarges.effective (h : Principal.Enlarges p q) (he : p.Effective permission) :
    q.Effective permission := by
  cases h with
  | role hrank =>
    obtain ⟨⟨s, hs, hh⟩, hc⟩ := he
    obtain rfl := Option.some.inj hs
    exact ⟨⟨_, rfl, hh.mono hrank⟩, hc⟩
  | ceiling hsub =>
    refine ⟨he.1, fun c hc ↦ ?_⟩
    obtain rfl := Option.some.inj hc
    exact hsub (he.2 _ rfl)
  | noCeiling => exact ⟨he.1, fun c hc ↦ by cases hc⟩
  | service hsub => exact hsub he
  | ingest hsub => exact hsub he
  | share hsub => exact hsub he

/-- The laws of the decisions on one permission over one resource. -/
structure SoundAndMonotone (can : AccessControl) (permission : Permission) (placement : Placement)
    (resource : Resource) : Prop where
  sound : ∀ p, decide can p permission placement resource = .allow →
    permission ∈ permissionsHeldBy can p ∧ p.Effective permission ∧
      p.Reaches placement resource
  bound : ∀ p projects, p.boundTo = some projects → p.ownPage ≠ some resource →
    decide can p permission placement resource = .allow →
      ∃ project ∈ projects, placement.project = some project
  account : ∀ account standing ceiling,
    decide can (.account account standing ceiling) permission placement resource = .allow ↔
      ∃ w role, placement.workspace = some w ∧ standing = some ⟨w, role⟩ ∧
        Holds role permission ∧ ∀ c ∈ ceiling, permission ∈ c
  ceiling : ∀ account standing c,
    decide can (.account account standing (some c)) permission placement resource = .allow →
      decide can (.account account standing none) permission placement resource = .allow
  enlarged : ∀ p q, Principal.Enlarges p q →
    decide can p permission placement resource = .allow →
      decide can q permission placement resource = .allow

/-- A human is judged by the role held in the workspace the resource is placed in. -/
theorem decide_account (h : can.Unites) {account : AccountId} {standing : Option WorkspaceRole}
    {ceiling : Option (List Permission)} :
    decide can (.account account standing ceiling) permission placement resource = .allow ↔
      ∃ w role, placement.workspace = some w ∧ standing = some ⟨w, role⟩ ∧
        Holds role permission ∧ ∀ c ∈ ceiling, permission ∈ c := by
  rw [decide_iff h]
  constructor
  · rintro ⟨⟨⟨s, hs, hh⟩, hc⟩, s', hs', hw⟩
    obtain rfl := Option.some.inj (hs.symm.trans hs')
    exact ⟨s.workspace, s.role, hw, hs, hh, hc⟩
  · rintro ⟨w, role, hw, hs, hh, hc⟩
    exact ⟨⟨⟨_, hs, hh⟩, hc⟩, _, hs, hw⟩

theorem decide_enlarged (h : can.Unites) (hpq : Principal.Enlarges p q)
    (hp : decide can p permission placement resource = .allow) :
    decide can q permission placement resource = .allow := by
  obtain ⟨he, hr⟩ := (decide_iff h).1 hp
  exact (decide_iff h).2 ⟨hpq.effective he, hpq.reaches hr⟩

/-- Decisions are sound and monotone. -/
theorem decide_sound_monotone (h : can.Unites) (permission : Permission) (placement : Placement)
    (resource : Resource) : SoundAndMonotone can permission placement resource where
  sound := by
    intro p hp
    obtain ⟨he, hr⟩ := (decide_iff h).1 hp
    exact ⟨(mem_permissionsHeldBy h).2 he, he, hr⟩
  bound := by
    intro p projects hb ho hp
    exact ((decide_iff h).1 hp).2.inside hb ho
  account := fun _ _ _ ↦ decide_account h
  ceiling := fun _ _ _ ↦ decide_enlarged h .noCeiling
  enlarged := fun _ _ ↦ decide_enlarged h

theorem decide_sound_monotone_sample :
    SoundAndMonotone unitingLibrary .dashboardsRead ⟨some (js "w"), none⟩ (.dashboard (js "d")) :=
  decide_sound_monotone unitingLibrary_unites _ _ _

/-- A key narrowed to a project does not reach what is placed at the workspace. -/
example : decide unitingLibrary (.service (js "c") (js "w") (.only [js "p"]) allPermissions
    (js "u")) .dashboardsRead ⟨some (js "w"), none⟩ (.dashboard (js "d")) =
      .deny (.outOfBinding .dashboardsRead (.dashboard (js "d")) .placedAboveBinding) := rfl

end Counted.Authorization
