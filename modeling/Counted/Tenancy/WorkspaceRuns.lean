import Counted.Foundations.Keyed
import Counted.Foundations.Run
import Counted.Tenancy.Workspace

namespace Counted.Tenancy

open Foundations Foundations.Keyed
open Ingestion (ProjectId)

abbrev AccountId := JsString

/-- The event of a new workspace. The founder's membership is kept elsewhere. -/
structure WorkspaceOpened where
  workspace : WorkspaceId
  founder : AccountId
  at' : Instant

/-- Always free, and without a payment. -/
def openWorkspace (id : WorkspaceId) (name : JsString) (founder : AccountId) (at' : Instant) :
    Except WorkspaceError (Workspace × WorkspaceOpened) :=
  if name.trim = [] then .error .nameRequired
  else .ok (⟨id, name.trim, .free, .none, []⟩, ⟨id, founder, at'⟩)

inductive WorkspaceCommand
  | register (id : ProjectId) (name : JsString) (at' : Instant)
  | archive (id : ProjectId) (at' : Instant)
  | restore (id : ProjectId) (at' : Instant)
  | deregister (id : ProjectId) (at' : Instant)
  | applyStanding (plan : PlanId) (payment : PaymentState) (seats : ℕ) (at' : Instant)

namespace Workspace

def apply (w : Workspace) : WorkspaceCommand → Except WorkspaceError WorkspaceApplied
  | .register id name at' => w.registerProject id name at'
  | .archive id at' => w.archiveProject id at'
  | .restore id at' => w.restoreProject id at'
  | .deregister id at' => w.deregisterProject id at'
  | .applyStanding plan payment seats at' => .ok (w.applyStanding plan payment seats at')

/-- A refused command gives no new state. -/
def step (w : Workspace) (command : WorkspaceCommand) : Option Workspace :=
  match w.apply command with
  | .error _ => some w
  | .ok applied => some applied.workspace

/-- Whether there is room for one more project under the cap of the entitlement. -/
def BelowCap (w : Workspace) : Prop := ∀ limit, w.limits.maxProjects = some limit → w.projectCount < limit

/-- What one command may do. -/
structure Keeps (w : Workspace) (command : WorkspaceCommand) : Prop where
  one : ∀ v, w.step command = some v → v.projectCount ≤ w.projectCount + 1
  room : ∀ v, w.step command = some v → w.projectCount < v.projectCount → w.BelowCap
  spared : ∀ plan payment seats at', command = .applyStanding plan payment seats at' →
    ∀ v, w.step command = some v → v.projects = w.projects
  equal : ∀ seats at', command = .applyStanding w.plan w.payment seats at' →
    w.apply command = .ok ⟨w, []⟩
  refused : ∀ e, w.apply command = .error e → w.step command = some w

def Distinct (w : Workspace) : Prop := (w.projects.map ProjectEntry.id).Nodup

variable {w v : Workspace} {id : ProjectId} {name : JsString} {at' : Instant}
  {r : WorkspaceApplied} {command : WorkspaceCommand}

theorem step_ok (h : w.step command = some v) :
    v = w ∨ ∃ r, w.apply command = .ok r ∧ v = r.workspace := by
  rw [step] at h
  cases ha : w.apply command with
  | error e =>
    rw [ha] at h
    exact .inl (Option.some.inj h).symm
  | ok r =>
    rw [ha] at h
    exact .inr ⟨r, rfl, (Option.some.inj h).symm⟩

theorem findProject_eq {entries : List ProjectEntry} {entry : ProjectEntry}
    (h : findProject entries id = some entry) : entry ∈ entries ∧ entry.id = id :=
  lookup_eq_some h

/-- A registered project is new. -/
theorem registerProject_projects (h : w.registerProject id name at' = .ok r) :
    r.workspace.projects = w.projects ++ [⟨id, name.trim, .active⟩] ∧
      id ∉ w.projects.map ProjectEntry.id := by
  simp only [registerProject] at h
  split_ifs at h with _ hf
  cases hfull : w.refuseIfFull with
  | some e =>
    rw [hfull] at h
    cases h
  | none =>
    rw [hfull] at h
    refine ⟨Except.ok.inj h ▸ rfl, lookup_eq_none.1 ?_⟩
    rwa [Option.not_isSome_iff_eq_none] at hf

theorem archiveProject_projects (h : w.archiveProject id at' = .ok r) : ∃ entry,
    findProject w.projects id = some entry ∧
      r.workspace.projects = w.replace id { entry with state := .archived } := by
  rw [archiveProject] at h
  cases hp : findProject w.projects id with
  | none =>
    rw [hp] at h
    cases h
  | some entry =>
    rw [hp] at h
    simp only at h
    split_ifs at h
    exact ⟨entry, rfl, Except.ok.inj h ▸ rfl⟩

theorem restoreProject_projects (h : w.restoreProject id at' = .ok r) : ∃ entry,
    findProject w.projects id = some entry ∧
      r.workspace.projects = w.replace id { entry with state := .active } := by
  rw [restoreProject] at h
  cases hp : findProject w.projects id with
  | none =>
    rw [hp] at h
    cases h
  | some entry =>
    rw [hp] at h
    simp only at h
    split_ifs at h
    cases hfull : w.refuseIfFull with
    | some e =>
      rw [hfull] at h
      cases h
    | none =>
      rw [hfull] at h
      exact ⟨entry, rfl, Except.ok.inj h ▸ rfl⟩

theorem deregisterProject_projects (h : w.deregisterProject id at' = .ok r) :
    r.workspace.projects = remove ProjectEntry.id id w.projects := by
  rw [deregisterProject] at h
  split_ifs at h
  exact Except.ok.inj h ▸ rfl

theorem replace_ids {entry : ProjectEntry} {state : ProjectState} (he : entry.id = id) :
    (w.replace id { entry with state }).map ProjectEntry.id =
      w.projects.map ProjectEntry.id := by
  rw [replace, List.map_map]
  refine List.map_congr_left fun p _ ↦ ?_
  by_cases hp : p.id = id <;> simp [hp, he]

theorem replace_count {entry : ProjectEntry} (hd : w.Distinct) (he : entry.id = id) :
    countAgainstCap (w.replace id entry) ≤
      w.projectCount + if countsAgainstCap entry then 1 else 0 := by
  subst he
  exact countP_replace_le hd countsAgainstCap

theorem apply_distinct (hd : w.Distinct) (h : w.apply command = .ok r) : r.workspace.Distinct := by
  rw [Distinct]
  cases command with
  | register id name at' =>
    obtain ⟨hp, hnew⟩ := registerProject_projects h
    rw [hp, List.map_append, List.map_singleton, ← List.concat_eq_append]
    exact hd.concat hnew
  | archive id at' =>
    obtain ⟨entry, hf, hp⟩ := archiveProject_projects h
    have hid : entry.id = id := (findProject_eq hf).2
    rw [hp, replace_ids hid]
    exact hd
  | restore id at' =>
    obtain ⟨entry, hf, hp⟩ := restoreProject_projects h
    have hid : entry.id = id := (findProject_eq hf).2
    rw [hp, replace_ids hid]
    exact hd
  | deregister id at' =>
    rw [deregisterProject_projects h]
    exact nodup_remove hd
  | applyStanding plan payment seats at' => exact Except.ok.inj h ▸ hd

/-- A command takes one slot at most, and only one there is room for. -/
theorem apply_count (hd : w.Distinct) (h : w.apply command = .ok r) :
    r.workspace.projectCount ≤ w.projectCount ∨
      r.workspace.projectCount ≤ w.projectCount + 1 ∧ w.BelowCap := by
  rw [projectCount]
  cases command with
  | register id name at' =>
    refine .inr ⟨?_, registerProject_room h⟩
    rw [(registerProject_projects h).1, countAgainstCap, List.countP_append]
    exact le_rfl
  | archive id at' =>
    obtain ⟨entry, hf, hp⟩ := archiveProject_projects h
    rw [hp]
    exact .inl (replace_count hd (findProject_eq hf).2)
  | restore id at' =>
    obtain ⟨entry, hf, hp⟩ := restoreProject_projects h
    rw [hp]
    exact .inr ⟨replace_count hd (findProject_eq hf).2, restoreProject_room h⟩
  | deregister id at' =>
    rw [deregisterProject_projects h]
    exact .inl (List.Sublist.countP_le List.filter_sublist)
  | applyStanding plan payment seats at' => exact .inl (Except.ok.inj h ▸ le_rfl)

theorem applyStanding_self (w : Workspace) (seats : ℕ) (at' : Instant) :
    w.applyStanding w.plan w.payment seats at' = ⟨w, []⟩ := by
  simp [applyStanding]

theorem step_distinct (hd : w.Distinct) (h : w.step command = some v) : v.Distinct := by
  rcases step_ok h with rfl | ⟨r, hr, rfl⟩
  · exact hd
  · exact apply_distinct hd hr

theorem Distinct.keeps (hd : w.Distinct) (command : WorkspaceCommand) : w.Keeps command where
  one := by
    intro v hv
    rcases step_ok hv with rfl | ⟨r, hr, rfl⟩
    · exact Nat.le_succ _
    · rcases apply_count hd hr with hc | hc
      · omega
      · exact hc.1
  room := by
    intro v hv hlt
    rcases step_ok hv with rfl | ⟨r, hr, rfl⟩
    · exact absurd hlt (lt_irrefl _)
    · rcases apply_count hd hr with hc | hc
      · omega
      · exact hc.2
  spared := by
    rintro plan payment seats at' rfl v hv
    obtain rfl := Option.some.inj hv
    rfl
  equal := by
    rintro seats at' rfl
    rw [apply, applyStanding_self]
  refused := by
    intro e he
    rw [step, he]

/-- In every run from a new workspace the projects are distinct, and every command keeps the cap. -/
theorem cap_invariant {founder : AccountId} {opened : WorkspaceOpened}
    (h : openWorkspace id name founder at' = .ok (w, opened)) (commands : List WorkspaceCommand) :
    Throughout step Distinct w commands ∧ Along step Keeps w commands := by
  have hd : w.Distinct := by
    rw [openWorkspace] at h
    split_ifs at h
    obtain ⟨rfl, -⟩ := Prod.mk.inj (Except.ok.inj h)
    exact List.nodup_nil
  refine ⟨?_, along_of_invariant (fun _ _ _ ↦ step_distinct) (fun _ a hd ↦ hd.keeps a) hd commands⟩
  exact throughout_of_along (fun _ _ _ hd _ ↦ step_distinct hd) hd
    (along_of_invariant (fun _ _ _ ↦ step_distinct) (fun _ _ _ ↦ trivial) hd commands)

def acme : Workspace := ⟨js "w", js "Acme", .free, .none, []⟩

/-- A plan is bought, used and lost again. -/
def upAndDown : List WorkspaceCommand :=
  [.applyStanding .pro .active 1 1, .register (js "p") (js "Site") 2,
    .applyStanding .pro .canceled 1 3, .archive (js "p") 4]

theorem cap_invariant_sample :
    Throughout step Distinct acme upAndDown ∧ Along step Keeps acme upAndDown := by
  have h : openWorkspace (js "w") (js " Acme") (js "a") 0 = .ok (acme, ⟨js "w", js "a", 0⟩) := rfl
  exact cap_invariant h upAndDown

end Workspace

end Counted.Tenancy
