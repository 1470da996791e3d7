import Counted.Projects.Provisioning

namespace Counted.Projects

open Foundations Attempt Tenancy
open Ingestion (ProjectId)

namespace ProvisioningStores

variable {s t : ProvisioningStores} {project : ProjectSnapshot} {id : ProjectId} {now : Instant}
  {events : List ProvisioningEvent} {keys : CredentialStore}

@[simp] theorem projects_enqueue : (s.enqueue events).projects = s.projects := rfl

@[simp] theorem projects_hold : (s.hold keys).projects = s.projects := rfl

@[simp] theorem keys_enqueue : (s.enqueue events).keys = s.keys := rfl

@[simp] theorem keys_save : (s.save project now).keys = s.keys := rfl

@[simp] theorem keys_hold : (s.hold keys).keys = keys := rfl

@[simp] theorem keys_delete : (s.delete id).keys = s.keys := rfl

@[simp] theorem outbox_enqueue : (s.enqueue events).outbox = s.outbox ++ events := rfl

@[simp] theorem outbox_delete : (s.delete id).outbox = s.outbox := rfl

/-- What is saved is the one row that has its id. -/
theorem rows_save : ∃ row, (s.save project now).projects.filter (fun r ↦ r.id = project.id) = [row] ∧
    row.toProjectSnapshot = project := by
  refine ⟨_, Keyed.filter_key (s.save project now).unique (Keyed.mem_upsert.2 (.inl rfl)), rfl⟩

theorem notMem_delete {row : ProjectRow} (h : row ∈ (s.delete id).projects) : row.id ≠ id :=
  (Keyed.mem_remove.1 h).2

/-- A key for events that is neither revoked nor ever expires. -/
theorem canIngest_of_mem {row : ApiKeyRow} (h : row ∈ s.keys.rows) (hp : row.project = some id)
    (hk : row.kind = .ingest) (hr : row.revokedAt = none) (he : row.expiresAt = none)
    (now : Instant) : s.CanIngest id now := by
  refine canIngest_iff.2 ⟨row.toCredentialFacts, ?_, hk, isUsable_iff.2 ⟨hr, ?_⟩⟩
  · refine List.mem_map_of_mem (CredentialStore.mem_list.2 ⟨row, h, ?_, rfl⟩)
    rw [CredentialScope.includes, hp]
    exact decide_eq_true rfl
  · rw [he]
    rintro _ ⟨⟩

end ProvisioningStores

variable {s : ProvisioningStores} {deps : ProvisionDeps} {request : IssueRequest} {at' : Instant}

/-- What an issue can do. Where it throws, the key may be there. -/
theorem issueKey_ends (answer : IssueAnswer) :
    (issueKey answer request at').Ends s
      (fun r t ↦ (∃ e, r = .error e ∧ t = s) ∨
        ∃ key keys, answer = .minted key ∧ s.keys.mint (request.row key at') = some keys ∧
          r = .ok (request.row key at').toCredentialSummary ∧ t = s.hold keys)
      (fun t ↦ t = s ∨
        ∃ key keys, s.keys.mint (request.row key at') = some keys ∧ t = s.hold keys) := by
  cases answer with
  | refused e => exact .inl ⟨e, rfl, rfl⟩
  | minted key =>
    rw [Ends, issueKey]
    cases hm : s.keys.mint (request.row key at') with
    | none => exact .inl rfl
    | some keys => exact .inr ⟨key, keys, rfl, hm, rfl, rfl⟩
  | thrown placed =>
    cases placed with
    | none => exact .inl rfl
    | some key =>
      rw [Ends, issueKey]
      cases hm : s.keys.mint (request.row key at') with
      | none => exact .inl rfl
      | some keys => exact .inr ⟨key, keys, hm, rfl⟩

/-- A key that has been issued and revoked again leaves no live key behind. -/
theorem live_of_revoked {row key : ApiKeyRow} {keys : CredentialStore} (hl : row.Live)
    (h : key ∈ (((keys.put row).revoke row.id at').toOption.getD (keys.put row)).rows)
    (hk : key.Live) : key ∈ keys.rows := by
  rw [CredentialStore.revoke_put row keys at' hl] at h
  rcases CredentialStore.mem_put.1 h with rfl | ⟨h, hne⟩
  · cases hk.1
  · rcases CredentialStore.mem_put.1 h with rfl | ⟨h, -⟩
    · exact absurd rfl hne
    · exact h

/-- All of it: one row, and a key that can send events. -/
structure Provisioned (t : ProvisioningStores) (p : ProvisionedProject) : Prop where
  row : ∃ row, t.projects.filter (fun r ↦ r.id = p.project.id) = [row] ∧
    row.toProjectSnapshot = p.project
  ingests : ∀ now, t.CanIngest p.project.id now

/-- Nothing of it: no row, and no key that is live and was not before. -/
structure Undone (s t : ProvisioningStores) (id : ProjectId) : Prop where
  noRow : ∀ row ∈ t.projects, row.id ≠ id
  noKey : ∀ key ∈ t.keys.rows, key.Live → key ∈ s.keys.rows

/-- Nothing was written, or all of it was undone and, where a workspace is named, the deletion
from it announced. -/
def Cleared (s : ProvisioningStores) (id : ProjectId) (announced : Option WorkspaceId)
    (t : ProvisioningStores) : Prop :=
  t = s ∨ Undone s t id ∧ ∀ w ∈ announced, ∃ undoneAt, .projectDeleted id w undoneAt ∈ t.outbox

/-- No call threw, and the key that was issued carries no more than it may. -/
def ProvisionDeps.NothingFailed (deps : ProvisionDeps) : Prop :=
  deps.saveThrows = false ∧ deps.announceThrows = false ∧
    ∃ key, deps.issue = .minted key ∧ key.permissions ⊆ ingestPermissions

/-- A success is all of it and no failure, and a failure nothing of it. -/
def AllOrNothing (deps : ProvisionDeps) (s : ProvisioningStores) (id : ProjectId)
    (announced : Option WorkspaceId) : ProvisionResult → ProvisioningStores → Prop
  | .ok p, t => p.project.id = id ∧ Provisioned t p ∧ deps.NothingFailed
  | .error _, t => Cleared s id announced t

/-- What both ways to provision a project do once its row can be written. -/
theorem provision_ends (project : ProjectSnapshot) {created : ProvisioningEvent}
    {grantable : List Permission} {undone : List ProvisioningEvent} {announced : Option WorkspaceId}
    (hproject : request.project = some project.id) (hkind : request.kind = .ingest)
    (hexpires : request.expiresIn = none) (hgrantable : grantable ⊆ ingestPermissions)
    (hundone : ∀ w ∈ announced, ∃ undoneAt, .projectDeleted project.id w undoneAt ∈ undone) :
    (provision deps project created request grantable undone).Ends s
      (AllOrNothing deps s project.id announced) (fun t ↦ deps.saveThrows = true → t = s) := by
  have hundo {u : ProvisioningStores} {e : CredentialFailure}
      (h : ∀ key ∈ u.keys.rows, key.Live → key ∈ s.keys.rows) :
      AllOrNothing deps s project.id announced (.error e)
        ((u.delete project.id).enqueue undone) := by
    refine .inr ⟨⟨fun row hr ↦ ProvisioningStores.notMem_delete hr, h⟩, fun w hw ↦ ?_⟩
    obtain ⟨undoneAt, hu⟩ := hundone w hw
    exact ⟨undoneAt, List.mem_append_right _ hu⟩
  rw [provision, ends_bind, ends_write]
  refine ⟨fun _ _ ↦ rfl, fun hsave ↦ ?_⟩
  have hthrown (t : ProvisioningStores) : deps.saveThrows = true → t = s := by simp [hsave]
  rw [ends_bind]
  refine (issueKey_ends deps.issue).mono (fun r t hr ↦ ?_) (fun t _ ↦ hthrown t)
  rcases hr with ⟨e, rfl, rfl⟩ | ⟨key, keys, hkey, hm, rfl, rfl⟩
  · simp only [undo, ends_bind, ends_write, ends_pure]
    exact ⟨fun _ ↦ hthrown _, fun _ ↦ hundo fun _ h _ ↦ h⟩
  · obtain ⟨-, rfl⟩ := CredentialStore.mint_some hm
    dsimp only
    cases hw : withinGrant (request.row key deps.now).permissions grantable with
    | error e =>
      simp only [undo, revokeKey, ends_bind, ends_write, ends_pure]
      exact ⟨fun _ ↦ hthrown _, fun _ ↦ ⟨fun _ ↦ hthrown _,
        fun _ ↦ hundo fun k hk ↦ live_of_revoked ⟨rfl, rfl⟩ hk⟩⟩
    | ok granted =>
      simp only [ends_bind, ends_write, ends_pure]
      refine ⟨fun _ ↦ hthrown _, fun hannounce ↦ ⟨rfl, ⟨?_, fun now ↦ ?_⟩, hsave, hannounce, key,
        hkey, ?_⟩⟩
      · exact ProvisioningStores.rows_save
      · exact ProvisioningStores.canIngest_of_mem (CredentialStore.mem_put.2 (.inl rfl)) hproject
          hkind rfl (by rw [IssueRequest.row, hexpires]; rfl) now
      · exact List.Subset.trans (withinGrant_ok hw).2 hgrantable

/-- On success a project has its one row and a key that can send events. On a failure that is
returned nothing of it is left; a project that had a workspace is reported deleted from it. -/
theorem provisioning_settles (deps : ProvisionDeps) (s : ProvisioningStores)
    (command : ProvisionProjectCommand) (unclaimed : ProvisionUnclaimedProjectCommand) :
    (provisionProject deps command).Ends s
        (AllOrNothing deps s (command.id.getD deps.nextId) (some command.workspace))
        (fun t ↦ deps.saveThrows = true → t = s) ∧
      (provisionUnclaimedProject deps unclaimed).Ends s
        (AllOrNothing deps s (unclaimed.id.getD deps.nextId) none)
        (fun t ↦ deps.saveThrows = true → t = s) := by
  constructor
  · rw [provisionProject]
    cases hg : grantableTo .ingest command.held with
    | error e => exact .inl rfl
    | ok grantable =>
      dsimp only
      cases hc : Project.create (command.id.getD deps.nextId) (deps.nameOr command.name)
        command.workspace deps.now with
      | error e => exact .inl rfl
      | ok project =>
        have hid : project.id = command.id.getD deps.nextId := by
          rw [Project.create] at hc
          split_ifs at hc
          exact Except.ok.inj hc ▸ rfl
        rw [← hid]
        refine provision_ends ⟨project, .inherit⟩ (by rw [firstKey]) rfl rfl
          (grantableTo_ok hg).2 ?_
        rintro w ⟨⟩
        exact ⟨deps.undoneAt, List.mem_singleton.2 rfl⟩
  · rw [provisionUnclaimedProject]
    cases hc : Project.provisionUnclaimed (unclaimed.id.getD deps.nextId)
      (deps.nameOr unclaimed.name) unclaimed.grant deps.now with
    | error e => exact .inl rfl
    | ok project =>
      have hid : project.id = unclaimed.id.getD deps.nextId := by
        rw [Project.provisionUnclaimed] at hc
        split_ifs at hc
        exact Except.ok.inj hc ▸ rfl
      rw [← hid]
      refine provision_ends ⟨project, .inherit⟩ (by rw [firstKey]) rfl rfl
        (fun _ h ↦ h) ?_
      rintro w ⟨⟩

section Failures

/-- A minute in which the store of keys gives one answer, and nothing throws. -/
def answering (issue : IssueAnswer) : ProvisionDeps where
  now := 0
  undoneAt := 1
  savedAt := 0
  nextId := js "p"
  suggestedName := js "quiet-fox"
  saveThrows := false
  issue := issue
  revokeThrows := false
  undoThrows := false
  announceThrows := false

def agentScratch : ProvisionUnclaimedProjectCommand where
  name := js "Agent scratch"
  grant := ⟨js "digest", 72⟩
  holding := ⟨js "ws_holding", js "operator"⟩
  credentialName := none
  id := none

def acmeWeb : ProvisionProjectCommand where
  workspace := js "ws_1"
  name := js "Acme web"
  issuedBy := js "acc_1"
  held := [.eventsWrite]
  credentialName := none
  id := none

/-- An unclaimed project that is undone is not reported deleted, and a project whose key is not
issued because the store throws is not undone. -/
theorem undone_unannounced :
    (∃ t, provisionUnclaimedProject (answering (.refused (.nothingGrantable (js "operator"))))
        agentScratch .empty = (some (.error (.store (.nothingGrantable (js "operator")))), t) ∧
      t.projects = [] ∧
      .projectProvisionedUnclaimed (js "p") (js "Agent scratch") 72 0 ∈ t.outbox ∧
      ∀ w undoneAt, .projectDeleted (js "p") w undoneAt ∉ t.outbox) ∧
    ∃ t, provisionProject (answering (.thrown none)) acmeWeb .empty = (none, t) ∧
      (∃ row ∈ t.projects, row.id = js "p") ∧ t.keys.rows = [] ∧
      ∀ w undoneAt, .projectDeleted (js "p") w undoneAt ∉ t.outbox := by
  refine ⟨⟨_, rfl, rfl, .head _, fun w undoneAt h ↦ ?_⟩, _, rfl, ⟨_, .head _, rfl⟩, rfl,
    fun w undoneAt h ↦ ?_⟩
  · rcases List.mem_singleton.1 h with ⟨⟩
  · rcases List.mem_singleton.1 h with ⟨⟩

end Failures

section Repair

/-- A name a repair gives to a key is one that no key of the project has. -/
theorem uniqueName_notMem (taken : List JsString) (preferred : JsString) :
    uniqueName taken preferred ∉ taken := by
  rw [uniqueName]
  split_ifs with h
  · set tried := (List.range (taken.length + 1)).map fun i ↦ preferred ++ js "-" ++ natText (i + 2)
      with htried
    cases hf : tried.find? (· ∉ taken) with
    | some name => simpa using List.find?_some hf
    | none =>
      have hnodup : tried.Nodup := by
        refine List.nodup_range.map fun i j hij ↦ ?_
        have := natText_injective (List.append_cancel_left hij)
        omega
      have hsub : tried ⊆ taken := fun name hname ↦ by simpa using List.find?_eq_none.1 hf name hname
      have hlen := (List.subperm_of_subset hnodup hsub).length_le
      rw [htried, List.length_map, List.length_range] at hlen
      omega
  · exact h

def ProvisioningEvent.project : ProvisioningEvent → ProjectId
  | .projectCreated project .. => project
  | .projectProvisionedUnclaimed project .. => project
  | .projectDeleted project .. => project
  | .credentialIssued project .. => project

/-- All there is of a project. -/
structure Holdings where
  row : Option ProjectRow
  keys : List CredentialSummary
  events : List ProvisioningEvent

def ProvisioningStores.holdings (s : ProvisioningStores) (project : ProjectId) : Holdings :=
  ⟨s.find project, s.keys.list (.project project), s.outbox.filter (fun e ↦ e.project = project)⟩

/-- The project belongs to a workspace and is not archived. -/
def Holdings.Placed (h : Holdings) : Prop :=
  ∃ row, h.row = some row ∧ row.archived = false ∧ row.workspace ≠ none

def Holdings.CanIngest (h : Holdings) (now : Instant) : Prop :=
  canIngest (h.keys.map (·.toCredentialFacts)) now = true

variable {t u : ProvisioningStores} {project : ProjectId} {keys : CredentialStore} {row : ApiKeyRow}

/-- At most the keys and the events of one project have changed. -/
def OnlyOf (project : ProjectId) (s t : ProvisioningStores) : Prop :=
  t.projects = s.projects ∧ ∀ k ≠ project, t.holdings k = s.holdings k

theorem OnlyOf.refl (project : ProjectId) (s : ProvisioningStores) : OnlyOf project s s :=
  ⟨rfl, fun _ _ ↦ rfl⟩

theorem OnlyOf.trans (h : OnlyOf project s t) (h' : OnlyOf project t u) : OnlyOf project s u :=
  ⟨h'.1.trans h.1, fun k hk ↦ (h'.2 k hk).trans (h.2 k hk)⟩

theorem onlyOf_enqueue {events : List ProvisioningEvent} (h : ∀ e ∈ events, e.project = project) :
    OnlyOf project s (s.enqueue events) := by
  refine ⟨rfl, fun k hk ↦ ?_⟩
  have hnil : events.filter (fun e ↦ e.project = k) = [] :=
    List.filter_eq_nil_iff.2 fun e he hek ↦ hk ((of_decide_eq_true hek).symm.trans (h e he))
  rw [ProvisioningStores.holdings, ProvisioningStores.outbox_enqueue, List.filter_append, hnil,
    List.append_nil]
  rfl

/-- A key of one project, written over one of the same project or none, is in no other's list. -/
theorem onlyOf_put (row : ApiKeyRow) (hrow : row.project = some project)
    (h : ∀ r ∈ s.keys.rows, r.id = row.id → r.project = some project) :
    OnlyOf project s (s.hold (s.keys.put row)) := by
  refine ⟨rfl, fun k hk ↦ ?_⟩
  have hother {r : ApiKeyRow} (hr : r.project = some project) :
      (CredentialScope.project k).includes r = false := by
    rw [CredentialScope.includes, hr]
    exact decide_eq_false fun he ↦ hk (Option.some.inj he).symm
  have hlist : (s.keys.put row).list (.project k) = s.keys.list (.project k) :=
    congrArg (List.map ApiKeyRow.toCredentialSummary) (Keyed.filter_upsert
      (p := fun r : ApiKeyRow ↦ (CredentialScope.project k).includes r) (hother hrow)
      fun r hr hid ↦ hother (h r hr hid))
  rw [ProvisioningStores.holdings, ProvisioningStores.keys_hold, hlist]
  rfl

theorem onlyOf_mint (hrow : row.project = some project) (h : s.keys.mint row = some keys) :
    OnlyOf project s (s.hold keys) := by
  obtain ⟨hfresh, rfl⟩ := CredentialStore.mint_some h
  exact onlyOf_put row hrow fun r hr hid ↦ absurd (hid ▸ List.mem_map_of_mem hr) hfresh

theorem onlyOf_revoke (hrow : row.project = some project) (hl : row.Live)
    (h : s.keys.mint row = some keys) :
    OnlyOf project s
      ((s.hold keys).hold (((s.hold keys).keys.revoke row.id at').toOption.getD keys)) := by
  obtain ⟨-, rfl⟩ := CredentialStore.mint_some h
  refine (onlyOf_mint hrow h).trans ?_
  rw [ProvisioningStores.keys_hold, CredentialStore.revoke_put row s.keys at' hl]
  refine onlyOf_put (row.revoke at') hrow fun r hr hid ↦ ?_
  rcases CredentialStore.mem_put.1 hr with rfl | ⟨-, hne⟩
  · exact hrow
  · exact absurd hid hne

/-- A repair changes what there is of its project only. After one that is reported the project can
send events; a project that is in a workspace and has no credential is not told it needs none. -/
theorem repair_ends (deps : RepairDeps) (command : RepairProjectCredentialCommand)
    (s : ProvisioningStores) : (repairProjectCredential deps command).Ends s
      (fun r t ↦ OnlyOf command.project s t ∧
        (∀ c, r = .ok (.repaired c) → ∀ now, (t.holdings command.project).CanIngest now) ∧
        ((s.holdings command.project).Placed → (s.holdings command.project).keys = [] →
          r ≠ .ok .lapsed ∧ r ≠ .ok .alreadyProvisioned))
      (OnlyOf command.project s) := by
  rw [repairProjectCredential, ends_bind, ends_read]
  refine ⟨fun _ ↦ .refl _ s, fun _ ↦ ?_⟩
  cases hrow : s.find command.project with
  | none => exact ⟨.refl _ s, by rintro _ ⟨⟩, by rintro _ _; simp⟩
  | some row =>
    have hplaced (h : (s.holdings command.project).Placed) :
        row.archived = false ∧ ∃ w, row.workspace = some w := by
      obtain ⟨r, hr, ha, hw⟩ := h
      obtain rfl := Option.some.inj (hrow.symm.trans hr)
      exact ⟨ha, Option.ne_none_iff_exists'.1 hw⟩
    dsimp only
    split_ifs with harchived hadmits
    · exact ⟨.refl _ s, by rintro _ ⟨⟩, fun h ↦ by simp [(hplaced h).1] at harchived⟩
    · refine ⟨.refl _ s, by rintro _ ⟨⟩, fun h ↦ ?_⟩
      obtain ⟨ha, w, hw⟩ := hplaced h
      rw [ProjectSnapshot.admitsEvents, ha] at hadmits
      rw [Project.workspace] at hw
      cases ho : row.ownership <;> rw [ho] at hadmits hw <;> simp at hadmits hw
    · rw [ends_bind, ends_read]
      refine ⟨fun _ ↦ .refl _ s, fun _ ↦ ?_⟩
      split_ifs with hany
      · refine ⟨.refl _ s, by rintro _ ⟨⟩, fun _ hnil ↦ ?_⟩
        change s.keys.list _ = [] at hnil
        simp [hnil] at hany
      · cases hg : grantableTo .ingest command.held with
        | error e => exact ⟨.refl _ s, by rintro _ ⟨⟩, fun _ _ ↦ by simp⟩
        | ok grantable =>
          cases hw : row.workspace with
          | none =>
            refine ⟨.refl _ s, by rintro _ ⟨⟩, fun h ↦ ?_⟩
            obtain ⟨-, w, hw'⟩ := hplaced h
            rw [hw] at hw'
            cases hw'
          | some workspace =>
            dsimp only
            rw [ends_bind]
            refine (issueKey_ends deps.issue).mono (fun r t hr ↦ ?_) (fun t ht ↦ ?_)
            · rcases hr with ⟨e, rfl, rfl⟩ | ⟨key, keys, -, hm, rfl, rfl⟩
              · exact ⟨.refl _ t, by rintro _ ⟨⟩, fun _ _ ↦ by simp⟩
              · dsimp only
                split
                · simp only [revokeKey, ends_bind, ends_write, ends_pure]
                  refine ⟨fun _ ↦ onlyOf_mint rfl hm, fun _ ↦ ⟨onlyOf_revoke rfl ⟨rfl, rfl⟩ hm,
                    by rintro _ ⟨⟩, fun _ _ ↦ by simp⟩⟩
                · simp only [ends_bind, ends_write, ends_pure]
                  refine ⟨fun _ ↦ onlyOf_mint rfl hm, fun _ ↦ ⟨?_, fun c _ now ↦ ?_, fun _ _ ↦ by simp⟩⟩
                  · refine (onlyOf_mint rfl hm).trans (onlyOf_enqueue fun e he ↦ ?_)
                    rw [List.mem_singleton.1 he]
                    rfl
                  · obtain ⟨-, rfl⟩ := CredentialStore.mint_some hm
                    exact ProvisioningStores.canIngest_of_mem
                      (CredentialStore.mem_put.2 (.inl rfl)) rfl rfl rfl rfl now
            · rcases ht with rfl | ⟨key, keys, hm, rfl⟩
              · exact .refl _ t
              · exact onlyOf_mint rfl hm

end Repair

end Counted.Projects
