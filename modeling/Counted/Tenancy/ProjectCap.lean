import Counted.Foundations.Keyed
import Counted.Foundations.Run
import Counted.Ingestion.Admission
import Counted.Tenancy.Workspace

namespace Counted.Tenancy

open Foundations Foundations.Keyed Ingestion

structure ClaimGrant where
  digest : JsString
  expiresAt : Instant
  deriving DecidableEq

inductive Ownership
  | unclaimed (grant : ClaimGrant)
  | claimed (workspace : WorkspaceId) (claimedAt : Instant)
  deriving DecidableEq

inductive ProjectError
  | nameRequired
  | noSuchProject (project : ProjectId)
  | projectArchived (project : ProjectId)
  | projectNotArchived (project : ProjectId)
  | alreadyClaimed
  | grantExpired
  | grantMismatch
  deriving DecidableEq

/-- A row of `projects`, as the cap reads it. -/
structure Project where
  id : ProjectId
  name : JsString
  ownership : Ownership
  archived : Bool
  deriving DecidableEq

namespace Project

def workspace (p : Project) : Option WorkspaceId :=
  match p.ownership with
  | .unclaimed _ => none
  | .claimed workspace _ => some workspace

def create (id : ProjectId) (name : JsString) (workspace : WorkspaceId) (at' : Instant) :
    Except ProjectError Project :=
  if name.trim = [] then .error .nameRequired
  else .ok ⟨id, name.trim, .claimed workspace at', false⟩

def provisionUnclaimed (id : ProjectId) (name : JsString) (grant : ClaimGrant) (at' : Instant) :
    Except ProjectError Project :=
  if name.trim = [] then .error .nameRequired
  else if grant.expiresAt ≤ at' then .error .grantExpired
  else .ok ⟨id, name.trim, .unclaimed grant, false⟩

def archive (p : Project) : Except ProjectError Project :=
  if p.archived then .error (.projectArchived p.id) else .ok { p with archived := true }

def restore (p : Project) : Except ProjectError Project :=
  if p.archived then .ok { p with archived := false } else .error (.projectNotArchived p.id)

/-- Adopts an unclaimed project. Single use, and it expires. -/
def claim (p : Project) (presented : JsString) (into : WorkspaceId) (at' : Instant) :
    Except ProjectError Project :=
  match p.ownership with
  | .claimed .. => .error .alreadyClaimed
  | .unclaimed grant =>
    if grant.expiresAt ≤ at' then .error .grantExpired
    else if grant.digest ≠ presented then .error .grantMismatch
    else .ok { p with ownership := .claimed into at' }

def entry (p : Project) : ProjectEntry := ⟨p.id, p.name, if p.archived then .archived else .active⟩

end Project

/-- A request that has to take a slot before its project's row is written. -/
inductive SlotRequest
  | create (id : ProjectId) (name : JsString)
  | restore (id : ProjectId)
  | claim (id : ProjectId) (name digest : JsString)

/-- `reserveProjectSlot` and `restoreProjectSlot`. -/
def SlotRequest.slot (w : Workspace) (at' : Instant) :
    SlotRequest → Except WorkspaceError WorkspaceApplied
  | .create id name | .claim id name _ => w.registerProject id name at'
  | .restore id => w.restoreProject id at'

def findRow (projects : List Project) (id : ProjectId) : Except ProjectError Project :=
  match lookup Project.id id projects with
  | some p => .ok p
  | none => .error (.noSuchProject id)

/-- The row `provisionProject`, `restoreProject` and `claimProject` save. -/
def SlotRequest.row (workspace : WorkspaceId) (projects : List Project) (at' : Instant) :
    SlotRequest → Except ProjectError Project
  | .create id name => Project.create id name workspace at'
  | .restore id => (findRow projects id).bind Project.restore
  | .claim id _ digest => (findRow projects id).bind (Project.claim · digest workspace at')

/-- A workspace's row and the rows of all projects, the requests whose slot was granted and whose
project is not written yet, and whether the entitlement was ever lowered. -/
structure ProjectStore where
  id : WorkspaceId
  name : JsString
  plan : PlanId
  payment : PaymentState
  projects : List Project
  pending : List SlotRequest
  lowered : Bool

/-- Each is one transaction, or the end of a request. -/
inductive ProjectAction
  | take (request : SlotRequest) (at' : Instant)
  | write (index : ℕ) (at' : Instant)
  | abandon (index : ℕ)
  | archive (id : ProjectId)
  | release (id : ProjectId) (at' : Instant)
  | drop (id : ProjectId) (at' : Instant)
  | delete (id : ProjectId)
  | provision (id : ProjectId) (name : JsString) (grant : ClaimGrant) (at' : Instant)
  | applyStanding (plan : PlanId) (payment : PaymentState) (seats : ℕ) (at' : Instant)

/-- Whether a limit is lower than it was. -/
def lowers (before after : Option ℕ) : Bool := after.any (fun l ↦ before.all (l < ·))

namespace ProjectStore

/-- `find`: the register is derived from the rows of the projects. -/
def find (s : ProjectStore) : Workspace where
  id := s.id
  name := s.name
  plan := s.plan
  payment := s.payment
  projects := (s.projects.filter (fun p ↦ p.workspace = some s.id)).map Project.entry

/-- `save` persists the workspace's own columns and nothing else. -/
def save (s : ProjectStore) (w : Workspace) : ProjectStore :=
  { s with name := w.name, plan := w.plan, payment := w.payment }

def active (s : ProjectStore) : ℕ := s.find.projectCount

def maxProjects (s : ProjectStore) : Option ℕ := s.find.limits.maxProjects

/-- A refused command saves nothing. -/
def mutate (s : ProjectStore) : Except WorkspaceError WorkspaceApplied → ProjectStore
  | .error _ => s
  | .ok applied => s.save applied.workspace

def saveProject (s : ProjectStore) : Except ProjectError Project → ProjectStore
  | .error _ => s
  | .ok p => { s with projects := upsert Project.id p s.projects }

def take (s : ProjectStore) (request : SlotRequest) :
    Except WorkspaceError WorkspaceApplied → ProjectStore
  | .error _ => s
  | .ok applied => { s.save applied.workspace with pending := request :: s.pending }

def settle (s : ProjectStore) (index : ℕ) : ProjectStore :=
  { s with pending := s.pending.eraseIdx index }

def step (s : ProjectStore) : ProjectAction → Option ProjectStore
  | .take request at' => some (s.take request (request.slot s.find at'))
  | .write index at' =>
    s.pending[index]?.map (fun request ↦
      (s.settle index).saveProject (request.row s.id s.projects at'))
  | .abandon index => if index < s.pending.length then some (s.settle index) else none
  | .archive id => some (s.saveProject ((findRow s.projects id).bind Project.archive))
  | .release id at' => some (s.mutate (s.find.archiveProject id at'))
  | .drop id at' => some (s.mutate (s.find.deregisterProject id at'))
  | .delete id => some { s with projects := remove Project.id id s.projects }
  | .provision id name grant at' =>
    some (s.saveProject (Project.provisionUnclaimed id name grant at'))
  | .applyStanding plan payment seats at' =>
    let next := s.save (s.find.applyStanding plan payment seats at').workspace
    some { next with lowered := s.lowered || lowers s.maxProjects next.maxProjects }

/-- The cap of the current entitlement, until that is lowered. -/
def WithinCap (s : ProjectStore) : Prop :=
  s.lowered = false → ∀ limit, s.maxProjects = some limit → s.active ≤ limit

/-- Where the rows leave room for a slot, the slots that are not written yet do too. -/
def RoomLeft (s : ProjectStore) : ProjectAction → Prop
  | .take .. => ∀ limit, s.maxProjects = some limit → s.active < limit →
    s.active + s.pending.length < limit
  | .write .. | .abandon _ | .archive _ | .release .. | .drop .. | .delete _ | .provision ..
  | .applyStanding .. => True

structure CapInv (s : ProjectStore) : Prop where
  ids : (s.projects.map Project.id).Nodup
  room : s.lowered = false → ∀ limit, s.maxProjects = some limit →
    s.active + s.pending.length ≤ limit

/-- An active project of the workspace. -/
def counts (id : WorkspaceId) (p : Project) : Bool := p.workspace = some id && !p.archived

variable {s t : ProjectStore}

theorem active_eq (s : ProjectStore) : s.active = s.projects.countP (counts s.id) := by
  rw [active, Workspace.projectCount, countAgainstCap, find, List.countP_map, List.countP_filter]
  refine List.countP_congr fun p _ ↦ ?_
  by_cases h : p.archived = true
  · simp [countsAgainstCap, Project.entry, counts, h]
  · simp [countsAgainstCap, Project.entry, counts, h]

theorem CapInv.within (h : CapInv s) : s.WithinCap := fun hl limit hm ↦
  (Nat.le_add_right _ _).trans (h.room hl limit hm)

/-- A step that keeps the entitlement and takes no slot beyond what it frees. -/
theorem CapInv.mono (h : CapInv s) (hids : (t.projects.map Project.id).Nodup)
    (hl : t.lowered = s.lowered) (hm : t.maxProjects = s.maxProjects)
    (ha : t.active + t.pending.length ≤ s.active + s.pending.length) : CapInv t where
  ids := hids
  room hlow limit hlimit := ha.trans (h.room (hl ▸ hlow) limit (hm ▸ hlimit))

theorem findRow_id {projects : List Project} {id : ProjectId} {p : Project}
    (h : findRow projects id = .ok p) : p ∈ projects ∧ p.id = id := by
  rw [findRow] at h
  cases hl : lookup Project.id id projects with
  | none =>
    rw [hl] at h
    cases h
  | some q =>
    rw [hl] at h
    exact Except.ok.inj h ▸ lookup_eq_some hl

theorem save_maxProjects {w : Workspace} (hp : w.plan = s.plan) (hy : w.payment = s.payment) :
    (s.save w).maxProjects = s.maxProjects := by
  simp only [maxProjects, Workspace.limits, find, save, hp, hy]

/-- What the register's commands say nothing about. -/
theorem registerProject_standing {w : Workspace} {id : ProjectId} {name : JsString} {at' : Instant}
    {r : WorkspaceApplied} (h : w.registerProject id name at' = .ok r) :
    r.workspace.plan = w.plan ∧ r.workspace.payment = w.payment := by
  simp only [Workspace.registerProject] at h
  split_ifs at h
  cases hf : w.refuseIfFull with
  | some e =>
    rw [hf] at h
    cases h
  | none =>
    rw [hf] at h
    exact Except.ok.inj h ▸ ⟨rfl, rfl⟩

theorem restoreProject_standing {w : Workspace} {id : ProjectId} {at' : Instant}
    {r : WorkspaceApplied} (h : w.restoreProject id at' = .ok r) :
    r.workspace.plan = w.plan ∧ r.workspace.payment = w.payment := by
  rw [Workspace.restoreProject] at h
  cases hp : findProject w.projects id with
  | none =>
    rw [hp] at h
    cases h
  | some entry =>
    rw [hp] at h
    simp only at h
    split_ifs at h
    cases hf : w.refuseIfFull with
    | some e =>
      rw [hf] at h
      cases h
    | none =>
      rw [hf] at h
      exact Except.ok.inj h ▸ ⟨rfl, rfl⟩

theorem archiveProject_standing {w : Workspace} {id : ProjectId} {at' : Instant}
    {r : WorkspaceApplied} (h : w.archiveProject id at' = .ok r) :
    r.workspace.plan = w.plan ∧ r.workspace.payment = w.payment := by
  rw [Workspace.archiveProject] at h
  cases hp : findProject w.projects id with
  | none =>
    rw [hp] at h
    cases h
  | some entry =>
    rw [hp] at h
    simp only at h
    split_ifs at h
    exact Except.ok.inj h ▸ ⟨rfl, rfl⟩

theorem deregisterProject_standing {w : Workspace} {id : ProjectId} {at' : Instant}
    {r : WorkspaceApplied} (h : w.deregisterProject id at' = .ok r) :
    r.workspace.plan = w.plan ∧ r.workspace.payment = w.payment := by
  rw [Workspace.deregisterProject] at h
  split_ifs at h
  exact Except.ok.inj h ▸ ⟨rfl, rfl⟩

theorem CapInv.mutate (h : CapInv s) {x : Except WorkspaceError WorkspaceApplied}
    (hx : ∀ r, x = .ok r → r.workspace.plan = s.plan ∧ r.workspace.payment = s.payment) :
    CapInv (s.mutate x) := by
  cases x with
  | error e => exact h
  | ok r =>
    obtain ⟨hp, hy⟩ := hx r rfl
    exact h.mono h.ids rfl (save_maxProjects hp hy) le_rfl

/-- A slot that is taken leaves room for those taken before it. -/
theorem CapInv.take (h : CapInv s) {request : SlotRequest} {at' : Instant}
    (hr : s.RoomLeft (.take request at')) : CapInv (s.take request (request.slot s.find at')) := by
  cases hx : request.slot s.find at' with
  | error e => exact h
  | ok r =>
    have hs : (r.workspace.plan = s.plan ∧ r.workspace.payment = s.payment) ∧
        ∀ l, s.maxProjects = some l → s.active < l := by
      cases request with
      | create id name => exact ⟨registerProject_standing hx, registerProject_room hx⟩
      | restore id => exact ⟨restoreProject_standing hx, restoreProject_room hx⟩
      | claim id name digest => exact ⟨registerProject_standing hx, registerProject_room hx⟩
    refine ⟨h.ids, fun _ limit hl ↦ ?_⟩
    have hlimit : s.maxProjects = some limit := (save_maxProjects hs.1.1 hs.1.2).symm.trans hl
    exact hr limit hlimit (hs.2 limit hlimit)

/-- A saved row makes one more project count at most. -/
theorem saveProject_active (hn : (s.projects.map Project.id).Nodup) (p : Project) :
    (s.saveProject (.ok p)).active ≤ s.active + if counts s.id p then 1 else 0 := by
  rw [active_eq, active_eq]
  exact countP_upsert_le hn _

/-- Saving a row that does not count. -/
theorem CapInv.saveProject (h : CapInv s) {x : Except ProjectError Project}
    (hx : ∀ p, x = .ok p → counts s.id p = false) : CapInv (s.saveProject x) := by
  cases x with
  | error e => exact h
  | ok p =>
    refine h.mono (nodup_upsert h.ids) rfl rfl (Nat.add_le_add_right ?_ _)
    have := saveProject_active h.ids p
    rwa [hx p rfl] at this

theorem archive_not_counts {projects : List Project} {id : ProjectId} {p : Project}
    (h : (findRow projects id).bind Project.archive = .ok p) (w : WorkspaceId) :
    counts w p = false := by
  obtain ⟨q, -, h⟩ := bind_ok h
  rw [Project.archive] at h
  split_ifs at h
  obtain rfl := Except.ok.inj h
  simp [counts]

theorem provision_not_counts {id : ProjectId} {name : JsString} {grant : ClaimGrant} {at' : Instant}
    {p : Project} (h : Project.provisionUnclaimed id name grant at' = .ok p) (w : WorkspaceId) :
    counts w p = false := by
  rw [Project.provisionUnclaimed] at h
  split_ifs at h
  exact Except.ok.inj h ▸ rfl

/-- The row of a request is written in the place of its slot. -/
theorem CapInv.write (h : CapInv s) {index : ℕ} (hi : index < s.pending.length)
    (x : Except ProjectError Project) : CapInv ((s.settle index).saveProject x) := by
  have hlen : (s.settle index).pending.length + 1 = s.pending.length := by
    rw [settle, List.length_eraseIdx_of_lt hi]
    omega
  cases x with
  | error e =>
    refine h.mono h.ids rfl rfl (Nat.add_le_add_left ?_ _)
    change (s.settle index).pending.length ≤ s.pending.length
    omega
  | ok p =>
    refine h.mono (nodup_upsert h.ids) rfl rfl ?_
    have hp : ((s.settle index).saveProject (.ok p)).active ≤ s.active + _ :=
      saveProject_active (s := s.settle index) h.ids p
    have hone : (if counts s.id p then 1 else 0) ≤ 1 := by split_ifs <;> decide
    change _ + (s.settle index).pending.length ≤ _
    change _ ≤ s.active + (if counts s.id p then 1 else 0) at hp
    omega

theorem lowers_false {before after : Option ℕ} (h : lowers before after = false) {limit : ℕ}
    (hl : after = some limit) : ∃ l, before = some l ∧ l ≤ limit := by
  subst hl
  cases before with
  | none => cases h
  | some l => exact ⟨l, rfl, by simpa [lowers] using h⟩

theorem step_capInv {a : ProjectAction} (h : CapInv s) (hr : s.RoomLeft a)
    (hs : s.step a = some t) : CapInv t := by
  cases a with
  | take request at' => exact Option.some.inj hs ▸ h.take hr
  | write index at' =>
    obtain ⟨request, hi, rfl⟩ := Option.map_eq_some_iff.1 hs
    exact h.write (List.getElem?_eq_some_iff.1 hi).1 _
  | abandon index =>
    rw [step] at hs
    split_ifs at hs with hi
    exact Option.some.inj hs ▸ h.write hi (.error .alreadyClaimed)
  | archive id =>
    exact Option.some.inj hs ▸ h.saveProject fun p hp ↦ archive_not_counts hp s.id
  | release id at' => exact Option.some.inj hs ▸ h.mutate fun r ↦ archiveProject_standing
  | drop id at' => exact Option.some.inj hs ▸ h.mutate fun r ↦ deregisterProject_standing
  | delete id =>
    obtain rfl := Option.some.inj hs
    refine h.mono (nodup_remove h.ids) rfl rfl (Nat.add_le_add_right ?_ _)
    rw [active_eq, active_eq]
    exact List.Sublist.countP_le List.filter_sublist
  | provision id name grant at' =>
    exact Option.some.inj hs ▸ h.saveProject fun p hp ↦ provision_not_counts hp s.id
  | applyStanding plan payment seats at' =>
    obtain rfl := Option.some.inj hs
    refine ⟨h.ids, fun hl limit hlimit ↦ ?_⟩
    obtain ⟨hlow, hcap⟩ := Bool.or_eq_false_iff.1 hl
    obtain ⟨l, hbefore, hle⟩ := lowers_false hcap hlimit
    exact (h.room hlow l hbefore).trans hle

/-- The cap survives every interleaving of the transactions of requests in which a slot is only
taken where the slots still to be written leave room for it. -/
theorem cap_survives {actions : List ProjectAction} (hn : (s.projects.map Project.id).Nodup)
    (hp : s.pending = []) (hc : s.WithinCap) (h : Along step RoomLeft s actions) :
    Throughout step WithinCap s actions := by
  have h0 : CapInv s := ⟨hn, fun hl limit hm ↦ by rw [hp]; exact hc hl limit hm⟩
  exact (throughout_of_along (fun _ _ _ ↦ step_capInv) h0 h).mono fun _ ↦ CapInv.within

def sampleProject (id : JsString) : Project := ⟨id, js "Site", .claimed (js "w") 0, false⟩

/-- A free workspace with two of its three projects. -/
def sampleStore : ProjectStore where
  id := js "w"
  name := js "Acme"
  plan := .free
  payment := .none
  projects := [sampleProject (js "p"), sampleProject (js "q")]
  pending := []
  lowered := false

/-- Both reservations see two projects, and then both projects are written. -/
theorem two_creations_pass_the_cap : ¬ ∀ actions : List ProjectAction,
    Throughout step WithinCap sampleStore actions := by
  intro h
  have hw := (h [.take (.create (js "a") (js "A")) 1, .take (.create (js "b") (js "B")) 1,
    .write 0 2, .write 0 2]).last rfl
  exact absurd (hw rfl 3 rfl) (by decide)

/-- One after the other, the second reservation is refused. -/
theorem cap_survives_sample : Throughout step WithinCap sampleStore
    [.take (.create (js "a") (js "A")) 1, .write 0 2, .take (.create (js "b") (js "B")) 3] := by
  refine cap_survives (by decide) rfl ?_ ⟨?_, fun s₁ h₁ ↦ ⟨trivial, fun s₂ h₂ ↦ ⟨?_, fun _ _ ↦ trivial⟩⟩⟩
  · intro _ limit hm
    obtain rfl := Option.some.inj hm
    decide
  · intro limit hm _
    obtain rfl := Option.some.inj hm
    decide
  · obtain rfl := Option.some.inj h₁
    obtain rfl := Option.some.inj h₂
    intro limit hm hlt
    obtain rfl := Option.some.inj hm
    exact hlt

end ProjectStore

end Counted.Tenancy
