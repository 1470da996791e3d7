import Counted.Foundations.Run
import Counted.Projects.Credentials

namespace Counted.Projects

open Foundations Tenancy
open Ingestion (ProjectId)

def CredentialStore.ids (s : CredentialStore) : List CredentialId := s.rows.map (·.id)

section Outcomes

variable {requested : Option (List Permission)} {held narrowed : List Permission}
  {existing : List CredentialSummary} {at' : Instant}

/-- The store is asked for what the caller holds, under the ceiling of the kind. -/
theorem checkIssue_ok {kind : CredentialKind} {name trimmed : JsString}
    (h : checkIssue kind requested held existing name at' = .ok (narrowed, trimmed)) :
    narrowed ⊆ held ∧ narrowed ⊆ kind.ceiling := by
  obtain ⟨grantable, hg, h⟩ := bind_ok h
  obtain ⟨granted, hw, h⟩ := bind_ok h
  obtain ⟨name, -, h⟩ := bind_ok h
  obtain ⟨rfl, -⟩ := Prod.mk.inj (Except.ok.inj h)
  obtain ⟨hheld, hceiling⟩ := grantableTo_ok hg
  obtain ⟨rfl, hgr⟩ := withinGrant_ok hw
  exact ⟨List.Subset.trans hgr hheld, List.Subset.trans hgr hceiling⟩

theorem checkRotate_ok {credential : CredentialId} {expected : Option CredentialKind}
    {c : CredentialSummary} (h : checkRotate existing credential expected held at' = .ok c) :
    c ∈ existing ∧ c.id = credential ∧ c.permissions ⊆ held := by
  obtain ⟨rotatable, hm, h⟩ := bind_ok h
  obtain ⟨granted, hw, h⟩ := bind_ok h
  obtain rfl := Except.ok.inj h
  obtain ⟨hc, hid⟩ := mayRotate_ok hm
  exact ⟨hc, hid, (withinGrant_ok hw).2⟩

/-- What an issue can do. -/
inductive Issued (s : Credentials) (held : List Permission) (asked : Option (List Permission)) :
    Except CredentialFailure CredentialSummary × Credentials → Prop
  | refused (e : CredentialFailure) : Issued s held asked (.error e, s)
  | killed (row : ApiKeyRow) (e : CredentialFailure) (at' : Instant) : row.id ∉ s.store.ids →
    Issued s held asked (.error e, ⟨(s.store.put row).put (row.revoke at'), s.outbox⟩)
  | granted (row : ApiKeyRow) (narrowed : List Permission) (event : CredentialEvent) :
    row.id ∉ s.store.ids → asked = some narrowed → row.permissions ⊆ narrowed →
    narrowed ⊆ held → narrowed ⊆ row.kind.ceiling →
    Issued s held asked (.ok row.toCredentialSummary, ⟨s.store.put row, s.outbox ++ [event]⟩)

/-- What a rotation can do. The rotated row is one the caller holds every permission of. -/
inductive Rotated (s : Credentials) (held : List Permission) (asked : Option (List Permission))
    (credential : CredentialId) (minted : Minted) :
    Except CredentialFailure RotationOutcome × Credentials → Prop
  | refused (e : CredentialFailure) : Rotated s held asked credential minted (.error e, s)
  | rotated (row : ApiKeyRow) (overlapEnd graceEndsAt at' : Instant) (events : List CredentialEvent) :
    row ∈ s.store.rows → row.id = credential → row.Live → row.permissions ⊆ held →
    asked = some row.permissions → minted.id ∉ s.store.ids →
    Rotated s held asked credential minted
      (.ok ⟨(row.replacement minted at').toCredentialSummary,
        (row.retire overlapEnd).toCredentialSummary, graceEndsAt⟩,
        ⟨(s.store.put (row.replacement minted at')).put (row.retire overlapEnd),
          s.outbox ++ events⟩)

namespace Credentials

variable {s : Credentials}

theorem issueWithin_issued {request : IssueRequest} {scope : CredentialScope}
    {event : CredentialId → CredentialEvent} {answer : Except IssueFailure Minted}
    {r : Except CredentialFailure CredentialSummary × Credentials}
    (h : s.issueWithin request requested held scope event answer at' = some r) :
    Issued s held ((checkIssue request.kind requested held (s.store.list scope) request.name
      at').toOption.map Prod.fst) r := by
  unfold issueWithin at h
  cases hc : checkIssue request.kind requested held (s.store.list scope) request.name at' with
  | error e =>
    rw [hc] at h
    obtain rfl := Option.some.inj h
    exact .refused e
  | ok checked =>
    rw [hc] at h
    cases answer with
    | error e =>
      obtain rfl := Option.some.inj h
      exact .refused _
    | ok minted =>
      obtain ⟨store, hm, rfl⟩ := Option.map_eq_some_iff.1 h
      obtain ⟨hfresh, rfl⟩ := CredentialStore.mint_some hm
      obtain ⟨hheld, hceiling⟩ := checkIssue_ok hc
      have hfree : ({ request with name := checked.2 }.row minted at').id ∉ s.store.ids := hfresh
      rw [settleIssue]
      cases hw : withinGrant minted.permissions checked.1 with
      | error e =>
        have hr := CredentialStore.revoke_put
          ({ request with name := checked.2 }.row minted at') s.store at' ⟨rfl, rfl⟩
        simp only [IssueRequest.row] at hr hw ⊢
        rw [hw, hr]
        exact .killed _ e at' hfree
      | ok granted =>
        obtain ⟨-, hs⟩ := withinGrant_ok hw
        simp only [IssueRequest.row] at hw ⊢
        rw [hw]
        exact .granted _ checked.1 _ hfree rfl hs hheld hceiling

theorem issueCredential_issued {found : Option Project} {command : IssueCredentialCommand}
    {answer : Except IssueFailure Minted}
    {r : Except CredentialFailure CredentialSummary × Credentials}
    (h : s.issueCredential found command answer at' = some r) :
    Issued s command.held ((checkIssue command.kind command.requested command.held
      (s.store.list (.project command.project)) command.name at').toOption.map Prod.fst) r := by
  unfold issueCredential at h
  cases found with
  | none =>
    obtain rfl := Option.some.inj h
    exact .refused _
  | some project =>
    simp only at h
    split_ifs at h
    · obtain rfl := Option.some.inj h
      exact .refused _
    · cases hw : project.workspace with
      | none =>
        rw [hw] at h
        obtain rfl := Option.some.inj h
        exact .refused _
      | some workspace =>
        rw [hw] at h
        exact issueWithin_issued h

theorem rotateWithin_rotated {credential : CredentialId} {expected : Option CredentialKind}
    {overlap : Option Duration}
    {events : CredentialSummary → CredentialId → Instant → List CredentialEvent} {minted : Minted}
    {r : Except CredentialFailure RotationOutcome × Credentials}
    (he : ∀ c ∈ existing, ∃ row ∈ s.store.rows, row.toCredentialSummary = c)
    (h : s.rotateWithin existing credential expected held overlap events minted at' = some r) :
    Rotated s held ((checkRotate existing credential expected held at').toOption.map
      (·.permissions)) credential minted r := by
  unfold rotateWithin at h
  cases hc : checkRotate existing credential expected held at' with
  | error e =>
    rw [hc] at h
    obtain rfl := Option.some.inj h
    exact .refused e
  | ok rotatable =>
    rw [hc] at h
    obtain ⟨answer, ha, rfl⟩ := Option.map_eq_some_iff.1 h
    obtain ⟨hmem, hid, hheld⟩ := checkRotate_ok hc
    rw [CredentialStore.rotate] at ha
    cases hact : s.store.acting credential with
    | error e =>
      rw [hact] at ha
      obtain rfl := Option.some.inj ha
      exact .refused _
    | ok row =>
      rw [hact] at ha
      obtain ⟨store, hm, rfl⟩ := Option.map_eq_some_iff.1 ha
      obtain ⟨hfresh, rfl⟩ := CredentialStore.mint_some hm
      obtain ⟨hrow, hrid, hlive⟩ := CredentialStore.acting_ok hact
      obtain ⟨row', hrow', rfl⟩ := he rotatable hmem
      obtain rfl := CredentialStore.eq_of_id hrow' hrow (hid.trans hrid.symm)
      exact .rotated row' _ _ at' _ hrow hrid hlive hheld rfl hfresh

theorem rotateCredential_rotated {found : Option Project} {command : RotateCredentialCommand}
    {minted : Minted} {r : Except CredentialFailure RotationOutcome × Credentials}
    (h : s.rotateCredential found command minted at' = some r) :
    Rotated s command.held ((checkRotate (s.store.list (.project command.project))
      command.credential command.expected command.held at').toOption.map (·.permissions))
      command.credential minted r := by
  unfold rotateCredential at h
  cases found with
  | none =>
    obtain rfl := Option.some.inj h
    exact .refused _
  | some project =>
    simp only at h
    split_ifs at h
    · obtain rfl := Option.some.inj h
      exact .refused _
    · refine rotateWithin_rotated (fun c hc ↦ ?_) h
      obtain ⟨row, hr, -, hrc⟩ := CredentialStore.mem_list.1 hc
      exact ⟨row, hr, hrc⟩

theorem rotateWorkspaceCredential_rotated {command : RotateWorkspaceCredentialCommand}
    {minted : Minted} {r : Except CredentialFailure RotationOutcome × Credentials}
    (h : s.rotateWorkspaceCredential command minted at' = some r) :
    Rotated s command.held ((checkRotate (s.workspaceKeys command.workspace) command.credential
      (some .service) command.held at').toOption.map (·.permissions)) command.credential minted
      r := by
  refine rotateWithin_rotated (fun c hc ↦ ?_) h
  obtain ⟨row, hr, -, hrc⟩ := CredentialStore.mem_list.1 (List.mem_filter.1 hc).1
  exact ⟨row, hr, hrc⟩

end Credentials

end Outcomes

/-- A call, what it finds of the project it names, and what the store answers. -/
inductive KeyCall
  | issue (found : Option Project) (command : IssueCredentialCommand)
      (answer : Except IssueFailure Minted) (at' : Instant)
  | rotate (found : Option Project) (command : RotateCredentialCommand) (minted : Minted)
      (at' : Instant)
  | issueWorkspace (command : IssueWorkspaceCredentialCommand)
      (answer : Except IssueFailure Minted) (at' : Instant)
  | rotateWorkspace (command : RotateWorkspaceCredentialCommand) (minted : Minted) (at' : Instant)

namespace KeyCall

variable (c : Credentials)

/-- What the caller holds. -/
def held : KeyCall → List Permission
  | .issue _ command _ _ => command.held
  | .rotate _ command _ _ => command.held
  | .issueWorkspace command _ _ => command.held
  | .rotateWorkspace command _ _ => command.held

def issuedIds (r : Except CredentialFailure CredentialSummary) : Except CredentialFailure
    (List CredentialId) := r.map fun issued ↦ [issued.id]

def rotatedIds (r : Except CredentialFailure RotationOutcome) : Except CredentialFailure
    (List CredentialId) := r.map fun outcome ↦ [outcome.issued.id, outcome.retiring.id]

/-- The credentials a call that succeeds has issued or rotated. -/
def run : KeyCall → Option (Except CredentialFailure (List CredentialId) × Credentials)
  | .issue found command answer at' =>
    (c.issueCredential found command answer at').map (Prod.map issuedIds id)
  | .rotate found command minted at' =>
    (c.rotateCredential found command minted at').map (Prod.map rotatedIds id)
  | .issueWorkspace command answer at' =>
    (c.issueWorkspaceCredential command answer at').map (Prod.map issuedIds id)
  | .rotateWorkspace command minted at' =>
    (c.rotateWorkspaceCredential command minted at').map (Prod.map rotatedIds id)

/-- The permissions a call asks the store for: on a rotation, those of the rotated credential. -/
def asked : KeyCall → Option (List Permission)
  | .issue _ command _ at' => (checkIssue command.kind command.requested command.held
      (c.store.list (.project command.project)) command.name at').toOption.map Prod.fst
  | .rotate _ command _ at' => (checkRotate (c.store.list (.project command.project))
      command.credential command.expected command.held at').toOption.map (·.permissions)
  | .issueWorkspace command _ at' => (checkIssue .service command.requested command.held
      (c.store.list (.workspace command.workspace)) command.name at').toOption.map Prod.fst
  | .rotateWorkspace command _ at' => (checkRotate (c.workspaceKeys command.workspace)
      command.credential (some .service) command.held at').toOption.map (·.permissions)

/-- The replacement of a rotated credential carries no more than the credential does. -/
def Inherits : KeyCall → Prop
  | .issue .. | .issueWorkspace .. => True
  | .rotate _ command minted _ => ∀ row ∈ c.store.rows, row.id = command.credential →
      minted.permissions ⊆ row.permissions
  | .rotateWorkspace command minted _ => ∀ row ∈ c.store.rows, row.id = command.credential →
      minted.permissions ⊆ row.permissions

end KeyCall

/-- The credentials, and what the callers held who issued or rotated each of them. -/
structure KeySystem where
  credentials : Credentials
  grants : List (CredentialId × List Permission)

namespace KeySystem

def initial (store : CredentialStore) : KeySystem := ⟨.initial store, []⟩

def record (s : KeySystem) (held : List Permission)
    (r : Except CredentialFailure (List CredentialId) × Credentials) : KeySystem :=
  ⟨r.2, (r.1.toOption.getD []).map (·, held) ++ s.grants⟩

def step (s : KeySystem) (call : KeyCall) : Option KeySystem :=
  (call.run s.credentials).map (s.record call.held)

/-- A live credential carries no more than its kind may, or than a caller held who issued or
rotated it. -/
def Contained (s : KeySystem) : Prop :=
  ∀ row ∈ s.credentials.store.rows, row.Live → row.permissions ⊆ row.kind.ceiling ∧
    ∀ held, (row.id, held) ∈ s.grants → row.permissions ⊆ held

/-- A credential the store returned with more than it was asked for is revoked, and the call errs. -/
def OverGrantKilled (s : KeySystem) (call : KeyCall) : Prop :=
  ∀ r, call.run s.credentials = some r → ∀ asked, call.asked s.credentials = some asked →
    ∀ row ∈ r.2.store.rows, row.id ∉ s.credentials.store.ids → ¬ row.permissions ⊆ asked →
      (∃ e, r.1 = .error e) ∧ row.revokedAt.isSome = true

structure KeyInv (s : KeySystem) : Prop where
  known : ∀ g ∈ s.grants, g.1 ∈ s.credentials.store.ids
  contained : s.Contained

variable {s t : KeySystem} {held : List Permission} {asked : Option (List Permission)}

theorem mem_ids_put {store : CredentialStore} {row : ApiKeyRow} {id : CredentialId} :
    id ∈ (store.put row).ids ↔ id = row.id ∨ id ∈ store.ids := by
  rw [CredentialStore.ids, List.mem_map]
  constructor
  · rintro ⟨r, hr, rfl⟩
    rcases CredentialStore.mem_put.1 hr with rfl | ⟨hr, -⟩
    · exact .inl rfl
    · exact .inr (List.mem_map_of_mem hr)
  · intro h
    by_cases he : id = row.id
    · exact ⟨row, CredentialStore.mem_put.2 (.inl rfl), he.symm⟩
    · obtain ⟨r, hr, rfl⟩ := List.mem_map.1 (h.resolve_left he)
      exact ⟨r, CredentialStore.mem_put.2 (.inr ⟨hr, he⟩), rfl⟩

theorem initial_inv {store : CredentialStore}
    (h : ∀ row ∈ store.rows, row.Live → row.permissions ⊆ row.kind.ceiling) :
    KeyInv (initial store) :=
  ⟨fun g hg ↦ absurd hg List.not_mem_nil,
    fun row hr hl ↦ ⟨h row hr hl, fun held hh ↦ absurd hh List.not_mem_nil⟩⟩

theorem KeyInv.issued {r : Except CredentialFailure CredentialSummary × Credentials}
    (h : KeyInv s) (hi : Issued s.credentials held asked r) :
    KeyInv (s.record held (r.map KeyCall.issuedIds id)) := by
  cases hi with
  | refused e => exact h
  | killed row e at' hfresh =>
    constructor
    · intro g hg
      exact mem_ids_put.2 (.inr (mem_ids_put.2 (.inr (h.known g hg))))
    · intro r hr hl
      rcases CredentialStore.mem_put.1 hr with rfl | ⟨hr, hne⟩
      · cases hl.1
      · rcases CredentialStore.mem_put.1 hr with rfl | ⟨hr, -⟩
        · exact absurd rfl hne
        · exact h.contained r hr hl
  | granted row narrowed event hfresh ha hs hheld hceiling =>
    constructor
    · intro g hg
      rcases List.mem_cons.1 hg with rfl | hg
      · exact mem_ids_put.2 (.inl rfl)
      · exact mem_ids_put.2 (.inr (h.known g hg))
    · intro r hr hl
      rcases CredentialStore.mem_put.1 hr with rfl | ⟨hr, hne⟩
      · refine ⟨List.Subset.trans hs hceiling, fun held' hg ↦ ?_⟩
        rcases List.mem_cons.1 hg with hg | hg
        · obtain ⟨-, rfl⟩ := Prod.mk.inj hg
          exact List.Subset.trans hs hheld
        · exact absurd (h.known _ hg) hfresh
      · refine ⟨(h.contained r hr hl).1, fun held' hg ↦ ?_⟩
        rcases List.mem_cons.1 hg with hg | hg
        · exact absurd (Prod.mk.inj hg).1 hne
        · exact (h.contained r hr hl).2 held' hg

theorem KeyInv.rotated {credential : CredentialId} {minted : Minted}
    {r : Except CredentialFailure RotationOutcome × Credentials} (h : KeyInv s)
    (hi : Rotated s.credentials held asked credential minted r)
    (hm : ∀ row ∈ s.credentials.store.rows, row.id = credential →
      minted.permissions ⊆ row.permissions) :
    KeyInv (s.record held (r.map KeyCall.rotatedIds id)) := by
  cases hi with
  | refused e => exact h
  | rotated row overlapEnd graceEndsAt at' events hrow hid hlive hheld ha hfresh =>
    have hne : minted.id ≠ row.id := fun he ↦ hfresh (he ▸ List.mem_map_of_mem hrow)
    have hsub : minted.permissions ⊆ row.permissions := hm row hrow hid
    obtain ⟨hceiling, hgrants⟩ := h.contained row hrow hlive
    constructor
    · intro g hg
      rcases List.mem_cons.1 hg with rfl | hg
      · exact mem_ids_put.2 (.inr (mem_ids_put.2 (.inl rfl)))
      rcases List.mem_cons.1 hg with rfl | hg
      · exact mem_ids_put.2 (.inl rfl)
      · exact mem_ids_put.2 (.inr (mem_ids_put.2 (.inr (h.known g hg))))
    · intro r hr hl
      rcases CredentialStore.mem_put.1 hr with rfl | ⟨hr, hnr⟩
      · refine ⟨hceiling, fun held' hg ↦ ?_⟩
        rcases List.mem_cons.1 hg with hg | hg
        · exact absurd (Prod.mk.inj hg).1.symm hne
        rcases List.mem_cons.1 hg with hg | hg
        · obtain ⟨-, rfl⟩ := Prod.mk.inj hg
          exact hheld
        · exact hgrants held' hg
      · rcases CredentialStore.mem_put.1 hr with rfl | ⟨hr, hnm⟩
        · refine ⟨List.Subset.trans hsub hceiling, fun held' hg ↦ ?_⟩
          rcases List.mem_cons.1 hg with hg | hg
          · obtain ⟨-, rfl⟩ := Prod.mk.inj hg
            exact List.Subset.trans hsub hheld
          rcases List.mem_cons.1 hg with hg | hg
          · exact absurd (Prod.mk.inj hg).1 hne
          · exact absurd (h.known _ hg) hfresh
        · refine ⟨(h.contained r hr hl).1, fun held' hg ↦ ?_⟩
          rcases List.mem_cons.1 hg with hg | hg
          · exact absurd (Prod.mk.inj hg).1 hnm
          rcases List.mem_cons.1 hg with hg | hg
          · exact absurd (Prod.mk.inj hg).1 hnr
          · exact (h.contained r hr hl).2 held' hg

theorem step_inv {call : KeyCall} (h : KeyInv s) (hi : call.Inherits s.credentials)
    (hs : s.step call = some t) : KeyInv t := by
  obtain ⟨r, hr, rfl⟩ := Option.map_eq_some_iff.1 hs
  cases call with
  | issue found command answer at' =>
    obtain ⟨x, hx, rfl⟩ := Option.map_eq_some_iff.1 hr
    exact h.issued (Credentials.issueCredential_issued hx)
  | rotate found command minted at' =>
    obtain ⟨x, hx, rfl⟩ := Option.map_eq_some_iff.1 hr
    exact h.rotated (Credentials.rotateCredential_rotated hx) hi
  | issueWorkspace command answer at' =>
    obtain ⟨x, hx, rfl⟩ := Option.map_eq_some_iff.1 hr
    exact h.issued (Credentials.issueWithin_issued hx)
  | rotateWorkspace command minted at' =>
    obtain ⟨x, hx, rfl⟩ := Option.map_eq_some_iff.1 hr
    exact h.rotated (Credentials.rotateWorkspaceCredential_rotated hx) hi

/-- An issue that returns more than was asked for kills the credential. -/
theorem issued_killed {c : Credentials} {r : Except CredentialFailure CredentialSummary × Credentials}
    (hi : Issued c held asked r) {narrowed : List Permission} (ha : asked = some narrowed)
    {row : ApiKeyRow} (hr : row ∈ r.2.store.rows) (hfresh : row.id ∉ c.store.ids)
    (hs : ¬ row.permissions ⊆ narrowed) : (∃ e, r.1 = .error e) ∧ row.revokedAt.isSome = true := by
  cases hi with
  | refused e => exact absurd (List.mem_map_of_mem hr) hfresh
  | killed row' e at' _ =>
    refine ⟨⟨e, rfl⟩, ?_⟩
    rcases CredentialStore.mem_put.1 hr with rfl | ⟨hr, hne⟩
    · rfl
    · rcases CredentialStore.mem_put.1 hr with rfl | ⟨hr, -⟩
      · exact absurd rfl hne
      · exact absurd (List.mem_map_of_mem hr) hfresh
  | granted row' narrowed' event _ ha' hs' _ _ =>
    obtain rfl := Option.some.inj (ha.symm.trans ha')
    rcases CredentialStore.mem_put.1 hr with rfl | ⟨hr, -⟩
    · exact absurd hs' hs
    · exact absurd (List.mem_map_of_mem hr) hfresh

/-- A replacement that inherits carries no more than was asked for. -/
theorem rotated_within {c : Credentials} {credential : CredentialId} {minted : Minted}
    {r : Except CredentialFailure RotationOutcome × Credentials}
    (hi : Rotated c held asked credential minted r)
    (hm : ∀ row ∈ c.store.rows, row.id = credential → minted.permissions ⊆ row.permissions)
    {narrowed : List Permission} (ha : asked = some narrowed) {row : ApiKeyRow}
    (hr : row ∈ r.2.store.rows) (hfresh : row.id ∉ c.store.ids) : row.permissions ⊆ narrowed := by
  cases hi with
  | refused e => exact absurd (List.mem_map_of_mem hr) hfresh
  | rotated row' overlapEnd graceEndsAt at' events hrow hid _ _ ha' _ =>
    obtain rfl := Option.some.inj (ha.symm.trans ha')
    rcases CredentialStore.mem_put.1 hr with rfl | ⟨hr, -⟩
    · exact absurd (List.mem_map_of_mem hrow) hfresh
    · rcases CredentialStore.mem_put.1 hr with rfl | ⟨hr, -⟩
      · exact hm row' hrow hid
      · exact absurd (List.mem_map_of_mem hr) hfresh

theorem overGrantKilled {call : KeyCall} (hi : call.Inherits s.credentials) :
    s.OverGrantKilled call := by
  intro r hr asked ha row hrow hfresh hs
  cases call with
  | issue found command answer at' =>
    obtain ⟨x, hx, rfl⟩ := Option.map_eq_some_iff.1 hr
    obtain ⟨⟨e, he⟩, hrev⟩ := issued_killed (Credentials.issueCredential_issued hx) ha hrow hfresh hs
    exact ⟨⟨e, by rw [Prod.map_fst, he]; rfl⟩, hrev⟩
  | rotate found command minted at' =>
    obtain ⟨x, hx, rfl⟩ := Option.map_eq_some_iff.1 hr
    exact absurd (rotated_within (Credentials.rotateCredential_rotated hx) hi ha hrow hfresh) hs
  | issueWorkspace command answer at' =>
    obtain ⟨x, hx, rfl⟩ := Option.map_eq_some_iff.1 hr
    obtain ⟨⟨e, he⟩, hrev⟩ := issued_killed (Credentials.issueWithin_issued hx) ha hrow hfresh hs
    exact ⟨⟨e, by rw [Prod.map_fst, he]; rfl⟩, hrev⟩
  | rotateWorkspace command minted at' =>
    obtain ⟨x, hx, rfl⟩ := Option.map_eq_some_iff.1 hr
    exact absurd (rotated_within (Credentials.rotateWorkspaceCredential_rotated hx) hi ha hrow
      hfresh) hs

/-- No key carries more than its issuer held in a run whose rotations mint no more than the rotated
credential carries. -/
theorem never_escalates {store : CredentialStore} {calls : List KeyCall}
    (h0 : ∀ row ∈ store.rows, row.Live → row.permissions ⊆ row.kind.ceiling)
    (h : Along step (fun s call ↦ call.Inherits s.credentials) (initial store) calls) :
    Throughout step Contained (initial store) calls ∧
      Along step OverGrantKilled (initial store) calls :=
  ⟨(throughout_of_along (fun _ _ _ ↦ step_inv) (initial_inv h0) h).mono fun _ ↦ KeyInv.contained,
    h.imp (fun _ _ _ ↦ step_inv) (fun _ _ _ ↦ overGrantKilled) (initial_inv h0)⟩

def issueQueryKey : KeyCall := .issueWorkspace ⟨js "w", js "key", js "u", [.queriesRun], none, none⟩
  (.ok ⟨js "a", [.queriesRun]⟩) 1

/-- The replacement comes back with a permission that neither the key nor the caller has. -/
theorem rotation_escalates : ¬ ∀ calls : List KeyCall,
    Throughout step Contained (initial .empty) calls ∧
      Along step OverGrantKilled (initial .empty) calls := by
  intro h
  have hl := (h [issueQueryKey, .rotateWorkspace ⟨js "w", js "a", [.queriesRun], none⟩
    ⟨js "b", [.queriesRun, .billingRead]⟩ 2]).1.last rfl
  have hb := (hl _ (.tail _ (.head _)) ⟨rfl, rfl⟩).2 [.queriesRun] (.head _)
  exact absurd hb (by decide)

/-- A key is issued, and its holder rotates it. -/
theorem never_escalates_sample :
    Throughout step Contained (initial .empty) [issueQueryKey,
      .rotateWorkspace ⟨js "w", js "a", [.queriesRun], none⟩ ⟨js "b", [.queriesRun]⟩ 2] ∧
    Along step OverGrantKilled (initial .empty) [issueQueryKey,
      .rotateWorkspace ⟨js "w", js "a", [.queriesRun], none⟩ ⟨js "b", [.queriesRun]⟩ 2] := by
  refine never_escalates (fun row hr ↦ absurd hr List.not_mem_nil) ⟨trivial, fun s₁ h₁ ↦
    ⟨?_, fun _ _ ↦ trivial⟩⟩
  obtain rfl := Option.some.inj h₁
  intro row hr hid
  obtain rfl := List.mem_singleton.1 hr
  exact List.Subset.refl _

end KeySystem

end Counted.Projects
