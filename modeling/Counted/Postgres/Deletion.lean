import Counted.Dashboarding.DashboardEdits
import Counted.Dashboarding.LostUpdate
import Counted.Foundations.Upserts
import Counted.Projects.Claiming

namespace Counted.Postgres

open Foundations Upserts Projects Dashboarding Tenancy
open EditSystem (sharedColumns)
open MonitorStore (anyScalar sampleMonitor)

variable {A : Type}

/-- `PostgresProjectRepository`. Its save asks nothing of the row. -/
def projects : Upserts Unit ProjectSnapshot ProjectSnapshot (LifecycleCommand × Instant)
    ProjectSnapshot where
  take _ row := some (none, row)
  again project _ := project
  decide project c := match c.1.decide project c.2 with
    | .ok applied => some applied.project
    | .error _ => none
  fenced _ := false
  insert project := project
  update _ project := project

/-- What the register of a workspace has of the project. -/
def register (row : Option ProjectSnapshot) (workspace : WorkspaceId) : List ProjectEntry :=
  (row.toList.filter (fun project ↦ project.workspace = some workspace)).map
    (fun project ↦ project.entry)

/-- The commands that save a dashboard. Another dashboard's becoming the default clears it. -/
inductive DashboardOrder (A : Type)
  | edit (command : DashboardCommand A) (at' : Instant)
  | markDefault
  | clearDefault

def DashboardOrder.apply (d : DashboardSnapshot A) : DashboardOrder A → Option (DashboardSnapshot A)
  | .edit command at' => match command.apply d at' with
    | .ok applied => some applied.dashboard
    | .error _ => none
  | .markDefault => if d.isDefault then none else some { d with isDefault := true }
  | .clearDefault => if d.isDefault then some { d with isDefault := false } else none

/-- `PostgresDashboardRepository`. The tiles are read by a statement of their own. -/
def dashboards : Upserts Unit (DashboardSnapshot A) (DashboardColumns × Option (List (Tile A)))
    (DashboardOrder A) (DashboardSnapshot A) where
  take _ row := some (none, row.columns, none)
  again loaded row := (loaded.1, loaded.2.or (some ((row.map (·.tiles)).getD [])))
  decide loaded order := loaded.2.bind (fun tiles ↦ order.apply (loaded.1.rehydrate tiles))
  fenced _ := false
  insert dashboard := dashboard
  update _ dashboard := dashboard

/-- `findByShareDigest`, and `authorizeShareRead` of what it finds. -/
def sharedAt (row : Option (DashboardSnapshot A)) (digest : JsString) (at' : Instant) : Bool :=
  row.any (fun d ↦ d.share.any (fun grant ↦
    grant.digest = digest && grant.dashboard = d.id && at' < grant.expiresAt))

/-- A user's commands, and what the worker saves of a monitor it has claimed. -/
inductive MonitorOrder (A : Type)
  | edit (command : MonitorCommand A) (at' : Instant)
  | evaluate (outcome : Outcome)

/-- An edit that emits nothing saves nothing. -/
def MonitorOrder.apply (isScalar : A → Except MonitorError Unit) (m : Monitor A) :
    MonitorOrder A → Option (Monitor A)
  | .edit command at' => match command.applied isScalar m at' with
    | .ok applied => if applied.events.isEmpty then none else some applied.monitor
    | .error _ => none
  | .evaluate outcome => m.evaluationClaim.map (fun at' ↦ (outcome.applied m at').monitor)

/-- `PostgresMonitorRepository`: `find`, or `claimEnabled` at a time. The save of a claimed
evaluation asks that the row be there. -/
def monitors (isScalar : A → Except MonitorError Unit) :
    Upserts (Option Instant) (MonitorRow A) (Monitor A) (MonitorOrder A) (Monitor A) where
  take at' row := match at' with
    | none => some (none, row.monitor)
    | some at' => if row.claimable at' then some (some (row.claim at'), row.claimed at') else none
  again m _ := m
  decide m order := order.apply isScalar m
  fenced m := m.evaluationClaim.isSome
  insert m := .written m
  update row m := if row.accepts m then .written m else row

abbrev ProjectSystem := System ProjectSnapshot ProjectSnapshot ProjectSnapshot

abbrev DashboardSystem (A : Type) :=
  System (DashboardSnapshot A) (DashboardColumns × Option (List (Tile A))) (DashboardSnapshot A)

abbrev MonitorSystem (A : Type) := System (MonitorRow A) (Monitor A) (Monitor A)

/-- Of a project whose deletion has committed there is no row, and no workspace counts it. -/
def ProjectGone (s : ProjectSystem) : Prop := 0 < s.deletions →
  s.row = none ∧ ∀ workspace, register s.row workspace = [] ∧
    countAgainstCap (register s.row workspace) = 0

/-- A dashboard whose deletion has committed is no token's. -/
def DashboardGone (s : DashboardSystem A) : Prop := 0 < s.deletions →
  s.row = none ∧ ∀ digest at', sharedAt s.row digest at' = false

/-- A monitor whose deletion has committed is not claimed again. -/
def MonitorGone (isScalar : A → Except MonitorError Unit) (s : MonitorSystem A) : Prop :=
  0 < s.deletions → s.row = none ∧ ∀ at', (monitors isScalar).step s (.load (some at')) = none

theorem projectGone {s : ProjectSystem} (h : s.StaysDeleted) : ProjectGone s := by
  intro hd
  rw [h hd]
  exact ⟨rfl, fun _ ↦ ⟨rfl, rfl⟩⟩

theorem dashboardGone {s : DashboardSystem A} (h : s.StaysDeleted) : DashboardGone s := by
  intro hd
  rw [h hd]
  exact ⟨rfl, fun _ _ ↦ rfl⟩

theorem monitorGone {isScalar : A → Except MonitorError Unit} {s : MonitorSystem A}
    (h : s.StaysDeleted) : MonitorGone isScalar s := by
  intro hd
  refine ⟨h hd, fun at' ↦ ?_⟩
  simp only [step, h hd, Option.bind_none]

/-- What is deleted stays deleted in every run whose saves are timely. -/
theorem deleted_stays_deleted (isScalar : A → Except MonitorError Unit) :
    (∀ (project : ProjectSnapshot) (l : List (Action Unit (LifecycleCommand × Instant))),
      Along projects.step projects.Timely (start project) l →
        Throughout projects.step ProjectGone (start project) l) ∧
    (∀ (dashboard : DashboardSnapshot A) (l : List (Action Unit (DashboardOrder A))),
      Along dashboards.step dashboards.Timely (start dashboard) l →
        Throughout dashboards.step DashboardGone (start dashboard) l) ∧
    ∀ (row : MonitorRow A) (l : List (Action (Option Instant) (MonitorOrder A))),
      Along (monitors isScalar).step (monitors isScalar).Timely (start row) l →
        Throughout (monitors isScalar).step (MonitorGone isScalar) (start row) l := by
  refine ⟨fun project l h ↦ ?_, fun dashboard l h ↦ ?_, fun row l h ↦ ?_⟩
  · exact (staysDeleted_run project h).mono fun _ ↦ projectGone
  · exact (staysDeleted_run dashboard h).mono fun _ ↦ dashboardGone
  · exact (staysDeleted_run row h).mono fun _ ↦ monitorGone

def site : ProjectSnapshot where
  id := js "p"
  name := js "Site"
  ownership := .claimed (js "w") 0
  archived := false
  retention := .inherit

/-- A rename loads, a deletion goes through, and the rename is saved. -/
def renameOverDeletion : List (Action Unit (LifecycleCommand × Instant)) :=
  [.load (), .load (), .delete 1, .execute 1, .commit 1, .save 0 (.rename (js "Shop"), 5),
    .execute 0, .commit 0]

/-- The same of a dashboard that is shared. -/
def editOverDeletion : List (Action Unit (DashboardOrder Unit)) :=
  [.load (), .again 0, .load (), .delete 1, .execute 1, .commit 1,
    .save 0 (.edit (.rename (js "Sales")) 5), .execute 0, .commit 0]

/-- The worker's save begins before a deletion commits, and waits for it. -/
def evaluationOverDeletion : List (Action (Option Instant) (MonitorOrder Unit)) :=
  [.load (some 1000), .load none, .delete 1, .execute 1, .save 0 (.evaluate (.measured (5 : ℤ))),
    .commit 1, .execute 0, .commit 0]

theorem deleted_revived :
    (∃ s, run projects.step (start site) renameOverDeletion = some s ∧ s.deletions = 1 ∧
      register s.row (js "w") = [⟨js "p", js "Shop", .active⟩] ∧ ¬ ProjectGone s) ∧
    (∃ s, run dashboards.step (start (sharedColumns.rehydrate [])) editOverDeletion = some s ∧
      s.deletions = 1 ∧ sharedAt s.row (js "d1") 500 = true ∧ ¬ DashboardGone s) ∧
    ∃ s t, run (monitors anyScalar).step (start (.written sampleMonitor)) evaluationOverDeletion =
        some s ∧ s.deletions = 1 ∧ (monitors anyScalar).step s (.load (some 2000)) = some t ∧
      ¬ MonitorGone anyScalar s := by
  refine ⟨⟨_, rfl, rfl, rfl, ?_⟩, ⟨_, rfl, rfl, rfl, ?_⟩, ⟨_, _, rfl, rfl, rfl, ?_⟩⟩
  · intro h
    cases (h Nat.one_pos).1
  · intro h
    cases (h Nat.one_pos).1
  · intro h
    cases (h Nat.one_pos).1

/-- Renamed, saved, and then deleted. -/
theorem deleted_stays_deleted_sample : Throughout projects.step ProjectGone (start site)
    [.load (), .save 0 (.rename (js "Shop"), 5), .execute 0, .commit 0, .delete 0, .execute 0,
      .commit 0] := by
  refine (deleted_stays_deleted anyScalar).1 site _ ⟨trivial, fun s₁ h₁ ↦ ⟨trivial, fun s₂ h₂ ↦
    ⟨?_, fun s₃ h₃ ↦ ⟨trivial, fun s₄ h₄ ↦ ⟨trivial, fun s₅ h₅ ↦ ⟨?_, fun s₆ h₆ ↦
      ⟨trivial, fun _ _ ↦ trivial⟩⟩⟩⟩⟩⟩⟩
  · obtain rfl := Option.some.inj h₁
    obtain rfl := Option.some.inj h₂
    intro p write since seen hp _
    obtain rfl := Option.some.inj hp
    rfl
  · obtain rfl := Option.some.inj h₁
    obtain rfl := Option.some.inj h₂
    obtain rfl := Option.some.inj h₃
    obtain rfl := Option.some.inj h₄
    obtain rfl := Option.some.inj h₅
    intro p write since seen hp hst
    obtain rfl := Option.some.inj hp
    cases hst

end Counted.Postgres
