import Counted.Kernel.Authz

namespace Counted.Authorization

abbrev Statement := PermissionResource × PermissionAction

/-- What each role adds to the one below it. -/
def adds : Role → List Permission
  | .member => [.queriesRun, .projectsRead, .dashboardsRead, .dashboardsWrite, .monitorsRead,
      .monitorsWrite, .workspaceRead]
  | .admin => [.eventsWrite, .projectsWrite, .credentialsRead, .credentialsWrite, .billingRead]
  | .owner => [.projectsDelete, .workspaceAdmin, .billingWrite]

/-- Lowest authority first. -/
def inheritance : List Role := [.member, .admin, .owner]

/-- What the library is told of a role. -/
structure Grant where
  role : Role
  extended : Option Role
  statements : List Statement

def grantsFrom (below : Option Role) : List Role → List Grant
  | [] => []
  | role :: rest => ⟨role, below, (adds role).map splitPermission⟩ :: grantsFrom (some role) rest

def buildGrants : List Grant := grantsFrom none inheritance

/-- The union of a role's statements and those of the roles it extends. -/
inductive Stated (grants : List Grant) : Role → Statement → Prop
  | own {g : Grant} {st : Statement} : g ∈ grants → st ∈ g.statements → Stated grants g.role st
  | extended {g : Grant} {below : Role} {st : Statement} : g ∈ grants → g.extended = some below →
    Stated grants below st → Stated grants g.role st

/-- The library: whether a role may do an action on a resource, of the grants it was told. -/
abbrev AccessControl := List Grant → Role → Statement → Bool

/-- The library answers with the union of a role's statements. -/
def AccessControl.Unites (can : AccessControl) : Prop :=
  ∀ role st, can buildGrants role st = true ↔ Stated buildGrants role st

section Holdings

variable (can : AccessControl)

/-- The library is asked once for each role and permission. -/
def holdings (role : Role) : List Permission :=
  allPermissions.filter (fun p ↦ can buildGrants role (splitPermission p))

def permits (role : Role) (permission : Permission) : Bool := (holdings can role).contains permission

/-- In the vocabulary's canonical order. -/
def permissionsForRole (role : Role) : List Permission :=
  allPermissions.filter (fun p ↦ (holdings can role).contains p)

end Holdings

/-- A role holds what it adds and what the roles below it add. -/
def Holds (role : Role) (permission : Permission) : Prop :=
  ∃ r : Role, r.rank ≤ role.rank ∧ permission ∈ adds r

variable {can : AccessControl} {role : Role} {permission : Permission} {st : Statement}

theorem stated_own (h : permission ∈ adds role) :
    Stated buildGrants role (splitPermission permission) := by
  have hs := List.mem_map_of_mem (f := splitPermission) h
  cases role with
  | member => exact Stated.own (g := ⟨.member, none, _⟩) (.head _) hs
  | admin => exact Stated.own (g := ⟨.admin, some .member, _⟩) (.tail _ (.head _)) hs
  | owner => exact Stated.own (g := ⟨.owner, some .admin, _⟩) (.tail _ (.tail _ (.head _))) hs

theorem stated_admin (h : Stated buildGrants .member st) : Stated buildGrants .admin st :=
  Stated.extended (g := ⟨.admin, some .member, _⟩) (.tail _ (.head _)) rfl h

theorem stated_owner (h : Stated buildGrants .admin st) : Stated buildGrants .owner st :=
  Stated.extended (g := ⟨.owner, some .admin, _⟩) (.tail _ (.tail _ (.head _))) rfl h

theorem stated_of_rank {r : Role} (hr : r.rank ≤ role.rank) (h : Stated buildGrants r st) :
    Stated buildGrants role st := by
  cases role with
  | member =>
    cases r with
    | member => exact h
    | admin => exact absurd hr (by decide)
    | owner => exact absurd hr (by decide)
  | admin =>
    cases r with
    | member => exact stated_admin h
    | admin => exact h
    | owner => exact absurd hr (by decide)
  | owner =>
    cases r with
    | member => exact stated_owner (stated_admin h)
    | admin => exact stated_owner h
    | owner => exact h

/-- What is told of a role is what it adds, and it extends the role right below it. -/
theorem mem_buildGrants {g : Grant} (h : g ∈ buildGrants) :
    g.statements = (adds g.role).map splitPermission ∧
      ∀ below ∈ g.extended, below.rank ≤ g.role.rank := by
  simp only [buildGrants, inheritance, grantsFrom, List.mem_cons, List.not_mem_nil, or_false] at h
  rcases h with rfl | rfl | rfl
  · exact ⟨rfl, by rintro _ ⟨⟩⟩
  · exact ⟨rfl, by rintro _ ⟨⟩; decide⟩
  · exact ⟨rfl, by rintro _ ⟨⟩; decide⟩

theorem rank_of_stated (h : Stated buildGrants role st) :
    ∃ r : Role, r.rank ≤ role.rank ∧ st ∈ (adds r).map splitPermission := by
  induction h with
  | own hg hst => exact ⟨_, le_rfl, (mem_buildGrants hg).1 ▸ hst⟩
  | extended hg hb _ ih =>
    obtain ⟨r, hr, hst⟩ := ih
    exact ⟨r, hr.trans ((mem_buildGrants hg).2 _ hb), hst⟩

/-- The statements of a role are those of what it holds. -/
theorem stated_iff : Stated buildGrants role (splitPermission permission) ↔ Holds role permission := by
  constructor
  · intro h
    obtain ⟨r, hr, hst⟩ := rank_of_stated h
    obtain ⟨p, hp, he⟩ := List.mem_map.1 hst
    exact ⟨r, hr, splitPermission_injective he ▸ hp⟩
  · rintro ⟨r, hr, hp⟩
    exact stated_of_rank hr (stated_own hp)

theorem mem_holdings (h : can.Unites) : permission ∈ holdings can role ↔ Holds role permission := by
  rw [holdings, List.mem_filter, h, stated_iff]
  exact and_iff_right (mem_allPermissions permission)

theorem permits_iff (h : can.Unites) : permits can role permission = true ↔ Holds role permission := by
  rw [permits, List.contains_iff_mem, mem_holdings h]

theorem mem_permissionsForRole (h : can.Unites) :
    permission ∈ permissionsForRole can role ↔ Holds role permission := by
  rw [permissionsForRole, List.mem_filter, List.contains_iff_mem, mem_holdings h]
  exact and_iff_right (mem_allPermissions permission)

/-- A role holds what every role below it holds. -/
theorem Holds.mono {r : Role} (hr : role.rank ≤ r.rank) (h : Holds role permission) :
    Holds r permission := by
  obtain ⟨q, hq, hp⟩ := h
  exact ⟨q, hq.trans hr, hp⟩

/-- A library that answers as it should: whether a role at or below the one asked for was told of
the statement. -/
def unitingLibrary : AccessControl := fun grants role st ↦
  grants.any (fun g ↦ g.role.rank ≤ role.rank && g.statements.contains st)

theorem unitingLibrary_unites : unitingLibrary.Unites := by
  intro role st
  rw [unitingLibrary, List.any_eq_true]
  constructor
  · rintro ⟨g, hg, h⟩
    rw [Bool.and_eq_true, decide_eq_true_eq, List.contains_iff_mem] at h
    exact stated_of_rank h.1 (.own hg h.2)
  · intro h
    obtain ⟨r, hr, hst⟩ := rank_of_stated h
    have hg : ∃ g ∈ buildGrants, g.role = r ∧ g.statements = (adds r).map splitPermission := by
      cases r
      · exact ⟨_, .tail _ (.tail _ (.head _)), rfl, rfl⟩
      · exact ⟨_, .tail _ (.head _), rfl, rfl⟩
      · exact ⟨_, .head _, rfl, rfl⟩
    obtain ⟨g, hg, rfl, hs⟩ := hg
    refine ⟨g, hg, ?_⟩
    rw [Bool.and_eq_true, decide_eq_true_eq, List.contains_iff_mem, hs]
    exact ⟨hr, hst⟩

end Counted.Authorization
