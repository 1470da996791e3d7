import Counted.Foundations.Run
import Counted.Foundations.Concurrency
import Counted.Projects.Credentials

namespace Counted.Projects

open Foundations Tenancy
open Ingestion (ProjectId)

/-- The credentials, and the listings of one project that requests decide on. A listing is outdated
by the revocation of an ingest key. -/
structure RevocationSystem where
  credentials : Credentials
  copies : List (Copy (List CredentialSummary))

/-- A request lists the credentials in one step, and in another decides and revokes. -/
inductive RevocationAction
  | load
  | revoke (index : ℕ) (found : Option Project) (credential : CredentialId) (at' : Instant)

/-- The clock of a request reads a time between the start and the end. -/
def RevocationAction.Between (start finish : Instant) : RevocationAction → Prop
  | .load => True
  | .revoke _ _ _ at' => start ≤ at' ∧ at' ≤ finish

abbrev NoneExpires (start finish : Instant) (credentials : List CredentialSummary) : Prop :=
  ∀ c ∈ credentials, ∀ e ∈ c.expiresAt, e ≤ start ∨ finish < e

/-- What the last-key rule reads of a listing. -/
def ingestKeys (credentials : List CredentialSummary) (c : CredentialSummary) : Prop :=
  c ∈ credentials ∧ c.kind = .ingest

abbrev canReceive (credentials : List CredentialSummary) (at' : Instant) : Prop :=
  canIngest (credentials.map (·.toCredentialFacts)) at' = true

theorem canReceive_iff {l : List CredentialSummary} {at' : Instant} :
    canReceive l at' ↔ ∃ c, ingestKeys l c ∧ isUsable c.toCredentialFacts at' = true := by
  simp [canReceive, canIngest_iff, ingestKeys, and_assoc]

/-- A key that is usable somewhere in the window is usable at its end. -/
theorem NoneExpires.usable {start finish at' : Instant} {l : List CredentialSummary}
    {c : CredentialSummary} (h : NoneExpires start finish l) (hc : c ∈ l) (ha : start ≤ at')
    (hu : isUsable c.toCredentialFacts at' = true) :
    isUsable c.toCredentialFacts finish = true := by
  rw [isUsable_iff] at hu ⊢
  refine ⟨hu.1, fun e he ↦ ?_⟩
  have := hu.2 e he
  rcases h c hc e he with h | h
  · exact absurd (this.trans_le (h.trans ha)) (lt_irrefl at')
  · exact h

namespace CredentialStore

variable {s : CredentialStore} {row : ApiKeyRow} {at' : Instant} {scope : CredentialScope}
  {c : CredentialSummary}

theorem mem_list_revoke : c ∈ (s.put (row.revoke at')).list scope ↔
    (scope.includes row = true ∧ (row.revoke at').toCredentialSummary = c) ∨
      (c ∈ s.list scope ∧ c.id ≠ row.id) := by
  rw [mem_list, mem_list]
  constructor
  · rintro ⟨r, hr, hi, rfl⟩
    rcases mem_put.1 hr with rfl | ⟨hr, hne⟩
    · exact .inl ⟨by cases scope <;> exact hi, rfl⟩
    · exact .inr ⟨⟨r, hr, hi, rfl⟩, hne⟩
  · rintro (⟨hi, rfl⟩ | ⟨⟨r, hr, hi, rfl⟩, hne⟩)
    · exact ⟨_, mem_put.2 (.inl rfl), by cases scope <;> exact hi, rfl⟩
    · exact ⟨r, mem_put.2 (.inr ⟨hr, hne⟩), hi, rfl⟩

/-- Revoking a service key leaves the ingest keys alone. -/
theorem ingestKeys_revoke (hr : row ∈ s.rows) (hk : row.kind ≠ .ingest) :
    ingestKeys ((s.put (row.revoke at')).list scope) = ingestKeys (s.list scope) := by
  funext c
  simp only [ingestKeys, mem_list_revoke, eq_iff_iff]
  constructor
  · rintro ⟨⟨-, rfl⟩ | ⟨hc, -⟩, hi⟩
    · exact absurd hi hk
    · exact ⟨hc, hi⟩
  · rintro ⟨hc, hi⟩
    refine ⟨.inr ⟨hc, ?_⟩, hi⟩
    obtain ⟨r, hr', -, rfl⟩ := mem_list.1 hc
    intro he
    exact hk (eq_of_id hr' hr he ▸ hi)

theorem kind_revoke (hr : row ∈ s.rows) {r : ApiKeyRow} (h : r ∈ s.rows) :
    ∃ r' ∈ (s.put (row.revoke at')).rows, r'.id = r.id ∧ r'.kind = r.kind := by
  by_cases he : r.id = row.id
  · obtain rfl := eq_of_id h hr he
    exact ⟨r.revoke at', mem_put.2 (.inl rfl), rfl, rfl⟩
  · exact ⟨r, mem_put.2 (.inr ⟨h, he⟩), rfl, rfl⟩

/-- An ingest key other than the revoked one stays as it is. -/
theorem ingestKeys_ne (h : ingestKeys (s.list scope) c) (hne : c.id ≠ row.id) :
    ingestKeys ((s.put (row.revoke at')).list scope) c :=
  ⟨mem_list_revoke.2 (.inr ⟨h.1, hne⟩), h.2⟩

theorem noneExpires_revoke {start finish : Instant} (h : NoneExpires start finish (s.list scope))
    (hr : row ∈ s.rows) : NoneExpires start finish ((s.put (row.revoke at')).list scope) := by
  intro c hc e he
  rcases (mem_list_revoke).1 hc with ⟨hi, rfl⟩ | ⟨hc, -⟩
  · exact h row.toCredentialSummary (mem_list.2 ⟨row, hr, hi, rfl⟩) e he
  · exact h c hc e he

end CredentialStore

namespace Credentials

variable {s : Credentials} {found : Option Project} {existing : List CredentialSummary}
  {command : RevokeCredentialCommand} {at' : Instant}

/-- A revocation is refused and changes nothing, or the rule allowed it and the row is revoked. -/
theorem revokeCredential_cases (s : Credentials) (found : Option Project)
    (existing : List CredentialSummary) (command : RevokeCredentialCommand) (at' : Instant) :
    (∃ e, s.revokeCredential found existing command at' = (.error e, s)) ∨
      ∃ c row event, mayRevoke CredentialSummary.toCredentialFacts existing command.credential at' =
          .ok c ∧ row ∈ s.store.rows ∧ row.id = command.credential ∧
        s.revokeCredential found existing command at' = (.ok { c with revokedAt := some at' },
          ⟨s.store.put (row.revoke at'), s.outbox ++ [event]⟩) := by
  unfold revokeCredential
  cases found with
  | none => exact .inl ⟨_, rfl⟩
  | some project =>
    cases hm : mayRevoke CredentialSummary.toCredentialFacts existing command.credential at' with
    | error e => exact .inl ⟨_, rfl⟩
    | ok c =>
      cases hr : s.store.revoke command.credential at' with
      | error e => exact .inl ⟨_, rfl⟩
      | ok store =>
        obtain ⟨row, hrow, hid, rfl⟩ := CredentialStore.revoke_ok hr
        exact .inr ⟨c, row, _, rfl, hrow, hid, rfl⟩

end Credentials

namespace RevocationSystem

variable (p : ProjectId)

def initial (store : CredentialStore) : RevocationSystem := ⟨.initial store, []⟩

def listing (s : RevocationSystem) : List CredentialSummary :=
  s.credentials.store.list (.project p)

def settle (s : RevocationSystem) (index : ℕ)
    (answer : Except CredentialFailure CredentialSummary × Credentials) : RevocationSystem where
  credentials := answer.2
  copies := if answer.1.toOption.any (·.kind = .ingest) then
      (s.copies.eraseIdx index).map Copy.outdate
    else s.copies.eraseIdx index

def step (s : RevocationSystem) : RevocationAction → Option RevocationSystem
  | .load => some { s with copies := s.copies ++ [⟨s.listing p, false⟩] }
  | .revoke index found credential at' => s.copies[index]?.map fun copy ↦
      s.settle index (s.credentials.revokeCredential found copy.state ⟨p, credential⟩ at')

abbrev Receives (finish : Instant) (s : RevocationSystem) : Prop := canReceive (s.listing p) finish

/-- An ingest key is revoked on a listing read since the last ingest key was. -/
def ListedSince (s : RevocationSystem) : RevocationAction → Prop
  | .load => True
  | .revoke index _ credential _ => ∀ copy, s.copies[index]? = some copy → ∀ c ∈ copy.state,
      c.id = credential → c.kind = .ingest → copy.moved = false

structure RevocationInv (start finish : Instant) (s : RevocationSystem) : Prop where
  seen : Seen ingestKeys (s.listing p) s.copies
  kinds : ∀ copy ∈ s.copies, ∀ c ∈ copy.state, ∃ row ∈ s.credentials.store.rows,
    row.id = c.id ∧ row.kind = c.kind
  lasting : NoneExpires start finish (s.listing p)
  receives : s.Receives p finish

variable {p} {start finish : Instant} {s t : RevocationSystem} {a : RevocationAction}

theorem initial_inv {store : CredentialStore}
    (hl : NoneExpires start finish (store.list (.project p)))
    (h : canReceive (store.list (.project p)) start) :
    RevocationInv p start finish (initial store) := by
  refine ⟨seen_nil _, fun copy hc ↦ absurd hc List.not_mem_nil, hl, ?_⟩
  obtain ⟨c, hc, hu⟩ := canReceive_iff.1 h
  exact canReceive_iff.2 ⟨c, hc, hl.usable hc.1 le_rfl hu⟩

theorem mem_settle_copies {index : ℕ} {copy : Copy (List CredentialSummary)}
    {answer : Except CredentialFailure CredentialSummary × Credentials}
    (h : copy ∈ (s.settle index answer).copies) : ∃ d ∈ s.copies, d.state = copy.state := by
  rw [settle] at h
  split_ifs at h
  · obtain ⟨d, hd, rfl⟩ := List.mem_map.1 h
    exact ⟨d, List.mem_of_mem_eraseIdx hd, rfl⟩
  · exact ⟨copy, List.mem_of_mem_eraseIdx h, rfl⟩

theorem RevocationInv.load (h : RevocationInv p start finish s) :
    RevocationInv p start finish { s with copies := s.copies ++ [⟨s.listing p, false⟩] } := by
  refine ⟨h.seen.load, fun copy hc c hcs ↦ ?_, h.lasting, h.receives⟩
  rcases List.mem_append.1 hc with hc | hc
  · exact h.kinds copy hc c hcs
  · rw [List.mem_singleton.1 hc] at hcs
    obtain ⟨row, hr, -, rfl⟩ := CredentialStore.mem_list.1 hcs
    exact ⟨row, hr, rfl, rfl⟩

/-- A service key is revoked, or an ingest key on a listing that still holds. -/
theorem RevocationInv.revoke (h : RevocationInv p start finish s) {index : ℕ}
    {copy : Copy (List CredentialSummary)} (hc : s.copies[index]? = some copy)
    {c : CredentialSummary} {row : ApiKeyRow} {at' : Instant}
    (hm : mayRevoke CredentialSummary.toCredentialFacts copy.state row.id at' = .ok c)
    (hr : row ∈ s.credentials.store.rows) (ha : start ≤ at')
    (hf : c.kind = .ingest → copy.moved = false) (event : CredentialEvent) :
    RevocationInv p start finish (s.settle index (.ok { c with revokedAt := some at' },
      ⟨s.credentials.store.put (row.revoke at'), s.credentials.outbox ++ [event]⟩)) := by
  obtain ⟨hcs, hid, hother⟩ := mayRevoke_ok hm
  obtain ⟨r, hr', hrid, hrk⟩ := h.kinds copy (List.mem_of_getElem? hc) c hcs
  obtain rfl := CredentialStore.eq_of_id hr' hr (hrid.trans hid)
  refine ⟨?_, ?_, CredentialStore.noneExpires_revoke h.lasting hr, ?_⟩
  · by_cases hk : c.kind = .ingest
    · simp only [settle, Except.toOption, Option.any_some, hk, decide_true, if_true]
      exact seen_outdate _ _
    · simp only [settle, Except.toOption, Option.any_some, hk, decide_false, if_false]
      exact (h.seen.sublist (List.eraseIdx_sublist ..)).keep
        (CredentialStore.ingestKeys_revoke hr (hrk ▸ hk))
  · intro d hd e he
    obtain ⟨d', hd', hstate⟩ := mem_settle_copies hd
    obtain ⟨r', hr', hid', hk'⟩ := h.kinds d' hd' e (hstate ▸ he)
    obtain ⟨r'', hr'', hid'', hk''⟩ := CredentialStore.kind_revoke hr hr'
    exact ⟨r'', hr'', hid''.trans hid', hk''.trans hk'⟩
  · by_cases hk : c.kind = .ingest
    · -- The key the rule counted as cover is still what the listing says.
      obtain ⟨d, hd, hdk, hdu, hne⟩ := hother hk
      have hd' : ingestKeys (s.listing p) d := h.seen.at hc (hf hk) ▸ ⟨hd, hdk⟩
      exact canReceive_iff.2 ⟨d, CredentialStore.ingestKeys_ne hd' hne,
        h.lasting.usable hd'.1 ha hdu⟩
    · obtain ⟨d, hd, hdu⟩ := canReceive_iff.1 h.receives
      refine canReceive_iff.2 ⟨d, ?_, hdu⟩
      rw [listing, settle, CredentialStore.ingestKeys_revoke hr (hrk ▸ hk)]
      exact hd

/-- A refused revocation leaves the rows as they are. -/
theorem RevocationInv.refuse (h : RevocationInv p start finish s) (index : ℕ)
    (e : CredentialFailure) :
    RevocationInv p start finish (s.settle index (.error e, s.credentials)) :=
  ⟨h.seen.sublist (List.eraseIdx_sublist ..),
    fun copy hc ↦ h.kinds copy (List.mem_of_mem_eraseIdx hc), h.lasting, h.receives⟩

theorem step_inv (h : RevocationInv p start finish s) (ha : a.Between start finish)
    (hl : s.ListedSince a) (hs : s.step p a = some t) : RevocationInv p start finish t := by
  cases a with
  | load =>
    obtain rfl := Option.some.inj hs
    exact h.load
  | revoke index found credential at' =>
    obtain ⟨copy, hc, rfl⟩ := Option.map_eq_some_iff.1 hs
    rcases s.credentials.revokeCredential_cases found copy.state ⟨p, credential⟩ at' with
      ⟨e, he⟩ | ⟨c, row, event, hm, hr, hid, he⟩
    · rw [he]
      exact h.refuse index e
    · rw [he]
      obtain ⟨hcs, hcid, -⟩ := mayRevoke_ok hm
      refine h.revoke hc ?_ hr ha.1 (hl copy hc c hcs hcid) event
      rw [hid]
      exact hm

/-- What a revocation does that no other request comes between. -/
structure RevokesSafely (s : Credentials) (found : Option Project)
    (command : RevokeCredentialCommand) (at' : Instant) : Prop where
  allowed : ∀ c, mayRevoke CredentialSummary.toCredentialFacts
      (s.store.list (.project command.project)) command.credential at' = .ok c →
    canReceive (s.store.list (.project command.project)) at' ∨ c.kind = .ingest →
    canReceive ((s.revokeCredential found (s.store.list (.project command.project)) command
      at').2.store.list (.project command.project)) at'
  refused : ∀ e, mayRevoke CredentialSummary.toCredentialFacts
      (s.store.list (.project command.project)) command.credential at' = .error e →
    (s.revokeCredential found (s.store.list (.project command.project)) command at').2 = s

theorem revokesSafely (s : Credentials) (found : Option Project) (command : RevokeCredentialCommand)
    (at' : Instant) : RevokesSafely s found command at' := by
  rcases s.revokeCredential_cases found (s.store.list (.project command.project)) command at' with
    ⟨e, he⟩ | ⟨c, row, event, hm, hr, hid, he⟩
  · refine ⟨fun c hm hc ↦ ?_, fun _ _ ↦ by rw [he]⟩
    rw [he]
    refine hc.elim id fun hk ↦ ?_
    obtain ⟨d, hd, hdk, hdu, -⟩ := (mayRevoke_ok hm).2.2 hk
    exact canReceive_iff.2 ⟨d, ⟨hd, hdk⟩, hdu⟩
  · refine ⟨fun c' hm' hc ↦ ?_, fun e' hm' ↦ by cases hm.symm.trans hm'⟩
    obtain rfl := Except.ok.inj (hm.symm.trans hm')
    have hbefore : canReceive (s.store.list (.project command.project)) at' := by
      refine hc.elim id fun hk ↦ ?_
      obtain ⟨d, hd, hdk, hdu, -⟩ := (mayRevoke_ok hm).2.2 hk
      exact canReceive_iff.2 ⟨d, ⟨hd, hdk⟩, hdu⟩
    have hinv : RevocationInv command.project at' at' (initial s.store) :=
      initial_inv (fun d _ e _ ↦ le_or_gt e at') hbefore
    have hcopy : ([⟨s.store.list (.project command.project), false⟩] :
        List (Copy (List CredentialSummary)))[0]? = some ⟨_, false⟩ := rfl
    rw [← hid] at hm
    rw [he]
    exact (hinv.load.revoke hcopy hm hr le_rfl (fun _ ↦ rfl) event).receives

/-- A project keeps a usable ingest key in every run whose revocations of ingest keys decide on
listings read since the last of them, and no request alone takes its last one. -/
theorem keeps_usable_key (p : ProjectId) {store : CredentialStore} {start finish : Instant}
    {actions : List RevocationAction} (hl : NoneExpires start finish (store.list (.project p)))
    (h0 : canReceive (store.list (.project p)) start)
    (h : Along (step p) (fun s a ↦ a.Between start finish ∧ s.ListedSince a) (initial store)
      actions) :
    Throughout (step p) (Receives p finish) (initial store) actions ∧
      ∀ s found command at', RevokesSafely s found command at' :=
  ⟨(throughout_of_along (fun _ _ _ hi hc ↦ step_inv hi hc.1 hc.2) (initial_inv hl h0) h).mono
    fun _ ↦ RevocationInv.receives, revokesSafely⟩

def ingestKey (id : CredentialId) : ApiKeyRow where
  id := id
  kind := .ingest
  name := id
  expiresAt := none
  revokedAt := none
  workspace := js "w"
  project := some (js "p")
  permissions := ingestPermissions
  issuedBy := js "u"
  createdAt := 0
  enabled := true

def twoKeys : CredentialStore := ⟨[ingestKey (js "a"), ingestKey (js "b")], by decide⟩

def site : Project := ⟨js "p", js "Site", .claimed (js "w") 0, false⟩

/-- Two requests list the two keys, and then each revokes the one the other counts on. -/
theorem both_revoked : ¬ ∀ actions : List RevocationAction,
    NoneExpires 1 2 (twoKeys.list (.project (js "p"))) →
      canReceive (twoKeys.list (.project (js "p"))) 1 → (∀ a ∈ actions, a.Between 1 2) →
      Throughout (step (js "p")) (Receives (js "p") 2) (initial twoKeys) actions := by
  intro h
  have hl := (h [.load, .load, .revoke 0 (some site) (js "a") 1, .revoke 0 (some site) (js "b") 2]
    (by decide) (by decide) (by simp [RevocationAction.Between])).last rfl
  exact absurd hl (by decide)

/-- One of two keys is revoked, and then a request lists what is left. -/
theorem keeps_usable_key_sample : Throughout (step (js "p")) (Receives (js "p") 2) (initial twoKeys)
      [.load, .revoke 0 (some site) (js "a") 1, .load, .revoke 0 (some site) (js "b") 2] ∧
    ∀ s found command at', RevokesSafely s found command at' := by
  have h0 : canReceive (twoKeys.list (.project (js "p"))) 1 := by decide
  refine keeps_usable_key (js "p") ?_ h0 ⟨⟨trivial, trivial⟩, fun s₁ h₁ ↦
    ⟨⟨by simp [RevocationAction.Between], ?_⟩, fun s₂ h₂ ↦ ⟨⟨trivial, trivial⟩, fun s₃ h₃ ↦
      ⟨⟨by simp [RevocationAction.Between], ?_⟩, fun _ _ ↦ trivial⟩⟩⟩⟩
  · decide
  · obtain rfl := Option.some.inj h₁
    intro copy hc _ _ _ _
    exact Option.some.inj hc ▸ rfl
  · obtain rfl := Option.some.inj h₁
    obtain rfl := Option.some.inj h₂
    obtain rfl := Option.some.inj h₃
    intro copy hc _ _ _ _
    exact Option.some.inj hc ▸ rfl

end RevocationSystem

end Counted.Projects
