import Counted.Foundations.Run
import Counted.Projects.CredentialStore

namespace Counted.Projects

open Foundations

/-- The vendor's shape for a set of permissions. -/
abbrev PermissionStatements := List (PermissionResource × List PermissionAction)

def pushAction (grouped : PermissionStatements) (p : PermissionResource × PermissionAction) :
    PermissionStatements :=
  if grouped.any (fun s ↦ s.1 = p.1) then
    grouped.map (fun s ↦ if s.1 = p.1 then (s.1, s.2 ++ [p.2]) else s)
  else grouped ++ [(p.1, [p.2])]

/-- Groups permissions by resource. -/
def toStatements (permissions : List Permission) : PermissionStatements :=
  (allPermissions.filter (permissions.contains ·)).foldl
    (fun grouped p ↦ pushAction grouped (splitPermission p)) []

def states (statements : PermissionStatements) (p : PermissionResource × PermissionAction) : Bool :=
  statements.any (fun s ↦ s.1 = p.1 && s.2.contains p.2)

def fromStatements (statements : PermissionStatements) : List Permission :=
  allPermissions.filter (fun p ↦ states statements (splitPermission p))

theorem states_pushAction (grouped : PermissionStatements)
    (p q : PermissionResource × PermissionAction) :
    states (pushAction grouped p) q = true ↔ states grouped q = true ∨ q = p := by
  obtain ⟨r, a⟩ := p
  obtain ⟨r', a'⟩ := q
  simp only [states, pushAction]
  split_ifs with h
  · simp only [List.any_map, List.any_eq_true, Function.comp_apply, Prod.mk.injEq] at h ⊢
    constructor
    · rintro ⟨s, hs, hq⟩
      split_ifs at hq with hr
      · simp only [Bool.and_eq_true, decide_eq_true_eq, List.contains_iff_mem, List.mem_append,
          List.mem_singleton] at hq hr
        rcases hq.2 with ha | ha
        · exact .inl ⟨s, hs, by simp [hq.1, ha]⟩
        · exact .inr ⟨hq.1.symm.trans hr, ha⟩
      · exact .inl ⟨s, hs, hq⟩
    · rintro (⟨s, hs, hq⟩ | ⟨rfl, rfl⟩)
      · refine ⟨s, hs, ?_⟩
        split_ifs with hr
        · simp only [Bool.and_eq_true, decide_eq_true_eq, List.contains_iff_mem] at hq ⊢
          exact ⟨hq.1, List.mem_append_left _ hq.2⟩
        · exact hq
      · obtain ⟨s, hs, hr⟩ := h
        refine ⟨s, hs, ?_⟩
        rw [if_pos (of_decide_eq_true hr)]
        simpa using hr
  · rw [List.any_append, Bool.or_eq_true]
    apply or_congr Iff.rfl
    simp only [List.any_cons, List.any_nil, Bool.or_false, Bool.and_eq_true, decide_eq_true_eq,
      List.contains_iff_mem, List.mem_singleton, Prod.mk.injEq]
    exact and_congr eq_comm Iff.rfl

theorem mem_fromStatements_toStatements {permissions : List Permission} {p : Permission} :
    p ∈ fromStatements (toStatements permissions) ↔ p ∈ permissions := by
  have hf (l : List Permission) (grouped : PermissionStatements)
      (q : PermissionResource × PermissionAction) :
      states (l.foldl (fun grouped p ↦ pushAction grouped (splitPermission p)) grouped) q = true ↔
        states grouped q = true ∨ ∃ p ∈ l, q = splitPermission p := by
    induction l generalizing grouped with
    | nil => simp
    | cons p l ih => rw [List.foldl_cons, ih, states_pushAction, or_assoc, List.exists_mem_cons_iff]
  rw [fromStatements, List.mem_filter, toStatements, hf]
  have hn : states [] (splitPermission p) ≠ true := Bool.false_ne_true
  constructor
  · rintro ⟨-, h | ⟨q, hq, he⟩⟩
    · exact absurd h hn
    · rw [splitPermission_injective he]
      simpa using (List.mem_filter.1 hq).2
  · intro h
    exact ⟨mem_allPermissions p, .inr ⟨p, List.mem_filter.2 ⟨mem_allPermissions p, by simpa using h⟩,
      rfl⟩⟩

/-- A secret: the kind its prefix says, and the row its hash names. -/
structure Secret where
  kind : Option CredentialKind
  row : Option CredentialId

/-- `limited` is what the limiter answers. -/
def CredentialStore.verify (s : CredentialStore) (secret : Secret) (at' : Instant)
    (limited : Option Duration) : Except VerificationFailure VerifiedCredential :=
  match secret.kind, secret.row.bind s.find with
  | some kind, some row =>
    match row.check kind at', limited with
    | .error e, _ => .error e
    | .ok _, some retryAfter => .error (.rateLimited retryAfter)
    | .ok verified, none => .ok verified
  | _, _ => .error .unknown

/-- A call on the store, and what it finds elsewhere: whether the issuer may issue and what is
grantable, and the id of the vendor's new row. -/
inductive StoreCall
  | issue (request : IssueRequest) (grantable : Except IssueFailure (List Permission))
      (id : CredentialId) (at' : Instant)
  | verify (secret : Secret) (limited : Option Duration) (at' : Instant)
  | rotate (credential : CredentialId) (overlap : Duration) (id : CredentialId) (at' : Instant)
  | revoke (credential : CredentialId) (at' : Instant)

inductive StoreAnswer
  | issued (answer : Except IssueFailure CredentialSummary)
  | verified (credential : Option CredentialId)
      (answer : Except VerificationFailure VerifiedCredential)
  | rotated (credential : CredentialId) (answer : Except StoreFailure RotatedCredential)
  | revoked (credential : CredentialId) (answer : Except StoreFailure Unit)

def StoreCall.at' : StoreCall → Instant
  | .issue _ _ _ at' | .verify _ _ at' | .rotate _ _ _ at' | .revoke _ at' => at'

/-- A store, the time of the latest call, and the answers so far. -/
structure StoreRun where
  store : CredentialStore := .empty
  clock : Instant
  answers : List StoreAnswer := []

namespace StoreRun

variable (vendor : PermissionStatements → PermissionStatements)

/-- What is read back of permissions that the vendor was given as statements. -/
def stored (permissions : List Permission) : List Permission :=
  fromStatements (vendor (toStatements permissions))

/-- The permissions that a rotation passes on. -/
def inherited (store : CredentialStore) (credential : CredentialId) : List Permission :=
  ((store.find credential).map (fun row ↦ stored vendor row.permissions)).getD []

/-- What a call does to the store. `none` where the vendor's insert fails. -/
def call (store : CredentialStore) : StoreCall → Option (StoreAnswer × CredentialStore)
  | .issue _ (.error e) _ _ => some (.issued (.error e), store)
  | .issue request (.ok grantable) id at' =>
    let row := request.row ⟨id, stored vendor grantable⟩ at'
    (store.mint row).map (.issued (.ok row.toCredentialSummary), ·)
  | .verify secret limited at' =>
    some (.verified secret.row (store.verify secret at' limited), store)
  | .rotate credential overlap id at' =>
    (store.rotate credential overlap ⟨id, inherited vendor store credential⟩ at').map
      (fun r ↦ (.rotated credential r.1, r.2))
  | .revoke credential at' => some
    (match store.revoke credential at' with
      | .error e => (.revoked credential (.error e), store)
      | .ok store => (.revoked credential (.ok ()), store))

def step (s : StoreRun) (c : StoreCall) : Option StoreRun :=
  if c.at' < s.clock then none
  else (call vendor s.store c).map (fun r ↦ ⟨r.2, c.at', s.answers ++ [r.1]⟩)

end StoreRun

def ApiKeyRow.Expired (row : ApiKeyRow) (at' : Instant) : Prop :=
  ∃ expiresAt ∈ row.expiresAt, expiresAt ≤ at'

def NotLater (new old : Option Instant) : Prop :=
  ∀ expiresAt ∈ old, ∃ e ∈ new, e ≤ expiresAt

/-- What may become of a row. -/
structure ApiKeyRow.Ages (old new : ApiKeyRow) : Prop where
  id : new.id = old.id
  live : new.Live → old.Live
  expiresAt : NotLater new.expiresAt old.expiresAt

theorem ages_refl (row : ApiKeyRow) : row.Ages row :=
  ⟨rfl, fun h ↦ h, fun e he ↦ ⟨e, he, le_rfl⟩⟩

theorem ages_revoke (row : ApiKeyRow) (at' : Instant) : row.Ages (row.revoke at') :=
  ⟨rfl, fun h ↦ absurd h.2 Bool.false_ne_true, fun e he ↦ ⟨e, he, le_rfl⟩⟩

theorem ages_retire (row : ApiKeyRow) (overlapEnd : Instant) : row.Ages (row.retire overlapEnd) := by
  refine ⟨rfl, fun h ↦ h, fun e he ↦ ⟨min e overlapEnd, ?_, min_le_left _ _⟩⟩
  rw [ApiKeyRow.retire, Option.mem_def.1 he]
  rfl

theorem check_cases (row : ApiKeyRow) (kind : CredentialKind) (at' : Instant) :
    (row.check kind at' = .ok row.verified ∧ row.Live ∧ ¬ row.Expired at') ∨
      row.check kind at' = .error .unknown ∨
        (∃ r, row.check kind at' = .error (.revoked r) ∧ ¬ row.Live) ∨
          ∃ e, row.check kind at' = .error (.expired e) ∧ row.Expired at' := by
  rw [ApiKeyRow.check]
  by_cases hk : row.kind ≠ kind
  · exact .inr (.inl (if_pos hk))
  rw [if_neg hk]
  cases hr : row.revokedAt with
  | some r => exact .inr (.inr (.inl ⟨r, rfl, fun hl ↦ Option.some_ne_none r (hr.symm.trans hl.1)⟩))
  | none =>
    cases he : row.enabled with
    | false => exact .inr (.inr (.inl ⟨at', rfl, fun hl ↦ Bool.false_ne_true (he.symm.trans hl.2)⟩))
    | true =>
      have hn : ¬ (!true) = true := Bool.false_ne_true
      rw [if_neg hn]
      cases hx : row.expiresAt.filter (· ≤ at') with
      | some e =>
        obtain ⟨hx, hle⟩ := Option.filter_eq_some_iff.1 hx
        exact .inr (.inr (.inr ⟨e, rfl, e, hx, of_decide_eq_true hle⟩))
      | none =>
        refine .inl ⟨rfl, ⟨hr, he⟩, ?_⟩
        rintro ⟨e, hex, hle⟩
        rw [Option.filter_eq_none_iff] at hx
        exact hx e hex (decide_eq_true hle)

namespace CredentialStore

variable {s t : CredentialStore} {row new : ApiKeyRow} {id : CredentialId} {at' now : Instant}

/-- Every row is still there, and has only aged. -/
def Ages (s t : CredentialStore) : Prop := ∀ row ∈ s.rows, ∃ new ∈ t.rows, row.Ages new

def Killed (s : CredentialStore) (id : CredentialId) : Prop :=
  ∃ row ∈ s.rows, row.id = id ∧ ¬ row.Live

def Expired (s : CredentialStore) (id : CredentialId) (at' : Instant) : Prop :=
  ∃ row ∈ s.rows, row.id = id ∧ row.Expired at'

theorem Ages.refl (s : CredentialStore) : s.Ages s := fun row hr ↦ ⟨row, hr, ages_refl row⟩

theorem Ages.killed (h : s.Ages t) (hd : s.Killed id) : t.Killed id := by
  obtain ⟨row, hr, rfl, hd⟩ := hd
  obtain ⟨new, hnew, ha⟩ := h row hr
  exact ⟨new, hnew, ha.id, fun hl ↦ hd (ha.live hl)⟩

theorem Ages.expired (h : s.Ages t) (hd : s.Expired id at') (hn : at' ≤ now) :
    t.Expired id now := by
  obtain ⟨row, hr, rfl, e, he, hle⟩ := hd
  obtain ⟨new, hnew, ha⟩ := h row hr
  obtain ⟨e', he', hle'⟩ := ha.expiresAt e he
  exact ⟨new, hnew, ha.id, e', he', (hle'.trans hle).trans hn⟩

theorem ages_put (h : ∀ row ∈ s.rows, row.id = new.id → row.Ages new) : s.Ages (s.put new) := by
  intro row hr
  by_cases hid : row.id = new.id
  · exact ⟨new, mem_put.2 (.inl rfl), h row hr hid⟩
  · exact ⟨row, mem_put.2 (.inr ⟨hr, hid⟩), ages_refl row⟩

theorem ages_mint (h : s.mint new = some t) : s.Ages t := by
  obtain ⟨hf, rfl⟩ := mint_some h
  apply ages_put
  intro row hr hid
  exact absurd (List.mem_map.2 ⟨row, hr, hid⟩) hf

theorem ages_revoked (h : s.revoke id at' = .ok t) : s.Ages t := by
  obtain ⟨row, hr, -, rfl⟩ := revoke_ok h
  apply ages_put
  intro old ho hid
  rw [eq_of_id ho hr hid]
  exact ages_revoke row at'

/-- A rotation that succeeds adds the replacement and retires a live row. -/
theorem rotate_ok {overlap : Duration} {minted : Minted} {rotated : RotatedCredential}
    (h : s.rotate id overlap minted at' = some (.ok rotated, t)) : ∃ row ∈ s.rows, row.id = id ∧
      row.Live ∧ ∃ u, s.mint (row.replacement minted at') = some u ∧
        t = u.put (row.retire (at' + overlap)) ∧
          rotated = ⟨(row.replacement minted at').toCredentialSummary,
            (row.retire (at' + overlap)).toCredentialSummary⟩ := by
  rw [rotate] at h
  cases ha : s.acting id with
  | error e =>
    rw [ha] at h
    cases h
  | ok row =>
    rw [ha] at h
    obtain ⟨hr, hid, hl⟩ := acting_ok ha
    obtain ⟨u, hu, he⟩ := Option.map_eq_some_iff.1 h
    simp only [Prod.mk.injEq, Except.ok.injEq] at he
    exact ⟨row, hr, hid, hl, u, hu, he.2.symm, he.1.symm⟩

theorem rotate_error {overlap : Duration} {minted : Minted} {e : StoreFailure}
    (h : s.rotate id overlap minted at' = some (.error e, t)) : t = s := by
  rw [rotate] at h
  cases ha : s.acting id with
  | error e =>
    rw [ha] at h
    cases h
    rfl
  | ok row =>
    rw [ha] at h
    obtain ⟨u, -, he⟩ := Option.map_eq_some_iff.1 h
    cases he

theorem ages_rotated {overlap : Duration} {minted : Minted}
    {answer : Except StoreFailure RotatedCredential}
    (h : s.rotate id overlap minted at' = some (answer, t)) : s.Ages t := by
  cases answer with
  | error e =>
    rw [rotate_error h]
    exact .refl _
  | ok rotated =>
    obtain ⟨row, hr, -, -, u, hu, rfl, -⟩ := rotate_ok h
    intro old ho
    obtain ⟨new, hnew, ha⟩ := ages_mint hu old ho
    by_cases hid : new.id = row.id
    · refine ⟨_, mem_put.2 (.inl rfl), ?_⟩
      rw [eq_of_id ho hr (ha.id.symm.trans hid)]
      exact ages_retire row _
    · exact ⟨new, mem_put.2 (.inr ⟨hnew, hid⟩), ha⟩

/-- What the answer to the secret of a credential says of its row. -/
theorem verify_cases {secret : Secret} {limited : Option Duration}
    {answer : Except VerificationFailure VerifiedCredential} (hs : secret.row = some id)
    (h : s.verify secret at' limited = answer) :
    (∃ verified, answer = .ok verified ∧ ¬ s.Killed id ∧ ¬ s.Expired id at') ∨
      (∃ r, answer = .error (.revoked r) ∧ s.Killed id) ∨
        (∃ e, answer = .error (.expired e) ∧ s.Expired id at') ∨
          answer = .error .unknown ∨ ∃ d, answer = .error (.rateLimited d) := by
  rw [verify, hs, Option.bind_some] at h
  cases hk : secret.kind with
  | none =>
    rw [hk] at h
    exact .inr (.inr (.inr (.inl h.symm)))
  | some kind =>
    cases hf : s.find id with
    | none =>
      rw [hk, hf] at h
      exact .inr (.inr (.inr (.inl h.symm)))
    | some row =>
      obtain ⟨hr, hid⟩ := Keyed.lookup_eq_some hf
      have hone (r : ApiKeyRow) (hm : r ∈ s.rows) (hi : r.id = id) : r = row :=
        eq_of_id hm hr (hi.trans hid.symm)
      rw [hk, hf] at h
      dsimp only at h
      rcases check_cases row kind at' with ⟨hc, hl, hx⟩ | hc | ⟨r, hc, hd⟩ | ⟨e, hc, hd⟩
      · rw [hc] at h
        cases limited with
        | some d => exact .inr (.inr (.inr (.inr ⟨d, h.symm⟩)))
        | none =>
          refine .inl ⟨_, h.symm, ?_, ?_⟩
          · rintro ⟨r, hm, hi, hd⟩
            exact hd (hone r hm hi ▸ hl)
          · rintro ⟨r, hm, hi, hd⟩
            exact hx (hone r hm hi ▸ hd)
      · rw [hc] at h
        exact .inr (.inr (.inr (.inl h.symm)))
      · rw [hc] at h
        exact .inr (.inl ⟨r, h.symm, row, hr, hid, hd⟩)
      · rw [hc] at h
        exact .inr (.inr (.inl ⟨e, h.symm, row, hr, hid, hd⟩))

theorem Killed.not_rotated (h : s.Killed id) {overlap : Duration} {minted : Minted}
    {rotated : RotatedCredential} : s.rotate id overlap minted at' ≠ some (.ok rotated, t) := by
  intro hr
  obtain ⟨row, hrow, hid, hl, -⟩ := rotate_ok hr
  obtain ⟨row', hrow', hid', hl'⟩ := h
  exact hl' (eq_of_id hrow' hrow (hid'.trans hid.symm) ▸ hl)

/-- The check that the use cases make before they rotate refuses an expired credential. -/
theorem Expired.not_rotatable (h : s.Expired id at') (scope : CredentialScope)
    (expected : Option CredentialKind) (found : CredentialSummary) :
    mayRotate CredentialSummary.toCredentialFacts (s.list scope) id expected at' ≠ .ok found := by
  intro hm
  obtain ⟨c, hl, -⟩ := bind_ok hm
  obtain ⟨hc, hid, hu⟩ := live_ok hl
  obtain ⟨row, hr, -, rfl⟩ := mem_list.1 hc
  obtain ⟨row', hr', hid', e, he, hle⟩ := h
  obtain rfl := eq_of_id hr' hr (hid'.trans hid.symm)
  exact absurd ((isUsable_iff.1 hu).2 e he) (not_lt.2 hle)

end CredentialStore

namespace StoreAnswer

variable (answer : StoreAnswer) (id : CredentialId)

def FoundRevoked : Prop := ∃ r, answer = .verified (some id) (.error (.revoked r))

def FoundExpired : Prop := ∃ e, answer = .verified (some id) (.error (.expired e))

def Verified : Prop := ∃ verified, answer = .verified (some id) (.ok verified)

def Rotated : Prop := ∃ rotated, answer = .rotated id (.ok rotated)

end StoreAnswer

namespace StoreRun

structure Inv (s : StoreRun) : Prop where
  revoked : ∀ a ∈ s.answers, ∀ id, a.FoundRevoked id → s.store.Killed id
  expired : ∀ a ∈ s.answers, ∀ id, a.FoundExpired id → s.store.Expired id s.clock
  unverified : s.answers.Pairwise (fun a b ↦
    ∀ id, a.FoundRevoked id ∨ a.FoundExpired id → ¬ b.Verified id)
  unrotated : s.answers.Pairwise (fun a b ↦ ∀ id, a.FoundRevoked id → ¬ b.Rotated id)

/-- What a call finds and leaves. -/
structure Calls (store store' : CredentialStore) (at' : Instant) (answer : StoreAnswer) : Prop where
  ages : store.Ages store'
  revoked : ∀ id, answer.FoundRevoked id → store.Killed id
  expired : ∀ id, answer.FoundExpired id → store.Expired id at'
  verified : ∀ id, answer.Verified id → ¬ store.Killed id ∧ ¬ store.Expired id at'
  rotated : ∀ id, answer.Rotated id → ¬ store.Killed id

variable {vendor : PermissionStatements → PermissionStatements} {store store' : CredentialStore}
  {s t : StoreRun} {c : StoreCall} {answer : StoreAnswer}

theorem calls_issued {answer : Except IssueFailure CredentialSummary} {at' : Instant}
    (h : store.Ages store') : Calls store store' at' (.issued answer) := by
  refine ⟨h, ?_, ?_, ?_, ?_⟩ <;> rintro id ⟨_, ha⟩ <;> cases ha

theorem calls_revoked {id : CredentialId} {answer : Except StoreFailure Unit} {at' : Instant}
    (h : store.Ages store') : Calls store store' at' (.revoked id answer) := by
  refine ⟨h, ?_, ?_, ?_, ?_⟩ <;> rintro id ⟨_, ha⟩ <;> cases ha

theorem call_spec (h : call vendor store c = some (answer, store')) :
    Calls store store' c.at' answer := by
  cases c with
  | issue request grantable id at' =>
    cases grantable with
    | error e =>
      cases h
      exact calls_issued (.refl _)
    | ok grantable =>
      obtain ⟨u, hu, he⟩ := Option.map_eq_some_iff.1 h
      cases he
      exact calls_issued (CredentialStore.ages_mint hu)
  | verify secret limited at' =>
    cases h
    refine ⟨.refl _, ?_, ?_, ?_, ?_⟩
    · rintro id ⟨r, ha⟩
      obtain ⟨hs, ha⟩ := StoreAnswer.verified.inj ha
      rcases CredentialStore.verify_cases hs ha with ⟨_, h, -⟩ | ⟨_, -, h⟩ | ⟨_, h, -⟩ | h | ⟨_, h⟩
      · cases h
      · exact h
      all_goals cases h
    · rintro id ⟨r, ha⟩
      obtain ⟨hs, ha⟩ := StoreAnswer.verified.inj ha
      rcases CredentialStore.verify_cases hs ha with ⟨_, h, -⟩ | ⟨_, h, -⟩ | ⟨_, -, h⟩ | h | ⟨_, h⟩
      · cases h
      · cases h
      · exact h
      all_goals cases h
    · rintro id ⟨r, ha⟩
      obtain ⟨hs, ha⟩ := StoreAnswer.verified.inj ha
      rcases CredentialStore.verify_cases hs ha with ⟨_, -, h⟩ | ⟨_, h, -⟩ | ⟨_, h, -⟩ | h | ⟨_, h⟩
      · exact h
      all_goals cases h
    · rintro id ⟨_, ha⟩
      cases ha
  | rotate credential overlap id at' =>
    obtain ⟨⟨rotated, u⟩, hu, he⟩ := Option.map_eq_some_iff.1 h
    cases he
    refine ⟨CredentialStore.ages_rotated hu, ?_, ?_, ?_, ?_⟩
    · rintro id ⟨_, ha⟩
      cases ha
    · rintro id ⟨_, ha⟩
      cases ha
    · rintro id ⟨_, ha⟩
      cases ha
    · rintro id ⟨r, ha⟩ hk
      cases ha
      exact hk.not_rotated hu
  | revoke credential at' =>
    have h := Option.some.inj h
    cases hr : store.revoke credential at' with
    | error e =>
      rw [hr] at h
      cases h
      exact calls_revoked (.refl _)
    | ok u =>
      rw [hr] at h
      cases h
      exact calls_revoked (CredentialStore.ages_revoked hr)

theorem inv_initial (clock : Instant) : Inv { clock } :=
  ⟨fun _ ha ↦ absurd ha List.not_mem_nil, fun _ ha ↦ absurd ha List.not_mem_nil, .nil, .nil⟩

theorem step_spec (h : step vendor s c = some t) : s.clock ≤ t.clock ∧ t.clock = c.at' ∧
    ∃ answer, Calls s.store t.store c.at' answer ∧ t.answers = s.answers ++ [answer] := by
  rw [step] at h
  split_ifs at h with hn
  obtain ⟨r, hr, rfl⟩ := Option.map_eq_some_iff.1 h
  exact ⟨not_lt.1 hn, rfl, r.1, call_spec hr, rfl⟩

theorem inv_step (hs : s.Inv) (h : step vendor s c = some t) : t.Inv := by
  obtain ⟨hle, hat, answer, hc, ha⟩ := step_spec h
  have hmem {a : StoreAnswer} (hm : a ∈ t.answers) : a ∈ s.answers ∨ a = answer := by
    simpa [ha] using hm
  constructor
  · intro a hm id hf
    rcases hmem hm with hm | rfl
    · exact hc.ages.killed (hs.revoked a hm id hf)
    · exact hc.ages.killed (hc.revoked id hf)
  · intro a hm id hf
    rcases hmem hm with hm | rfl
    · exact hc.ages.expired (hs.expired a hm id hf) hle
    · exact hc.ages.expired (hc.expired id hf) hat.ge
  · rw [ha, List.pairwise_append]
    refine ⟨hs.unverified, List.pairwise_singleton _ _, fun a hm b hb id hf hv ↦ ?_⟩
    obtain rfl := List.mem_singleton.1 hb
    obtain ⟨hk, hx⟩ := hc.verified id hv
    rcases hf with hf | hf
    · exact hk (hs.revoked a hm id hf)
    · exact hx ((CredentialStore.Ages.refl _).expired (hs.expired a hm id hf) (hle.trans hat.le))
  · rw [ha, List.pairwise_append]
    refine ⟨hs.unrotated, List.pairwise_singleton _ _, fun a hm b hb id hf hv ↦ ?_⟩
    obtain rfl := List.mem_singleton.1 hb
    exact hc.rotated id hv (hs.revoked a hm id hf)

theorem mem_inherited (hv : ∀ statements, vendor statements = statements) {row : ApiKeyRow}
    (hr : row ∈ store.rows) {p : Permission} :
    p ∈ inherited vendor store row.id ↔ p ∈ row.permissions := by
  rw [inherited, CredentialStore.find, Keyed.lookup_of_mem store.unique hr, Option.map_some,
    Option.getD_some, stored, hv]
  exact mem_fromStatements_toStatements

/-- What a rotation leaves of the credential, and what it makes of it. -/
theorem rotation_contained (hv : ∀ statements, vendor statements = statements)
    {credential id : CredentialId} {overlap : Duration} {at' : Instant}
    (h : step vendor s (.rotate credential overlap id at') = some t) {row : ApiKeyRow}
    (hr : row ∈ s.store.rows) (hid : row.id = credential) :
    (∃ old ∈ t.store.rows, old.id = credential ∧ NotLater old.expiresAt row.expiresAt) ∧
      ∀ new ∈ t.store.rows, new.id ∉ s.store.rows.map (·.id) →
        new.permissions ⊆ row.permissions ∧ new.workspace = row.workspace ∧
          new.project = row.project := by
  rw [step] at h
  split_ifs at h with hn
  obtain ⟨r, hc, rfl⟩ := Option.map_eq_some_iff.1 h
  obtain ⟨⟨answer, u⟩, hu, rfl⟩ := Option.map_eq_some_iff.1 hc
  constructor
  · obtain ⟨old, ho, ha⟩ := CredentialStore.ages_rotated hu row hr
    exact ⟨old, ho, ha.id.trans hid, ha.expiresAt⟩
  intro new hnew hfresh
  have hold {r : ApiKeyRow} (hm : r ∈ s.store.rows) (hi : new.id = r.id) : False :=
    hfresh (List.mem_map.2 ⟨r, hm, hi.symm⟩)
  cases answer with
  | error e =>
    rw [CredentialStore.rotate_error hu] at hnew
    exact (hold hnew rfl).elim
  | ok rotated =>
    obtain ⟨found, hf, hfid, -, v, hm, rfl, -⟩ := CredentialStore.rotate_ok hu
    obtain rfl := CredentialStore.eq_of_id hf hr (hfid.trans hid.symm)
    rcases CredentialStore.mem_put.1 hnew with rfl | ⟨hnew, -⟩
    · exact (hold hf rfl).elim
    obtain ⟨-, rfl⟩ := CredentialStore.mint_some hm
    rcases CredentialStore.mem_put.1 hnew with rfl | ⟨hnew, -⟩
    · refine ⟨fun p hp ↦ ?_, rfl, rfl⟩
      subst hid
      exact (mem_inherited hv hf).1 hp
    · exact (hold hnew rfl).elim

/-- A credential that was found dead stays dead: its secret never verifies again, a revoked one is
never rotated, and the check made before a rotation refuses an expired one from then on. A rotation
never lets the credential live longer and never gives its replacement more. -/
theorem dead_stays (vendor : PermissionStatements → PermissionStatements)
    (hv : ∀ statements, vendor statements = statements) {calls : List StoreCall} {clock : Instant}
    {s : StoreRun} (h : run (step vendor) { clock } calls = some s) :
    s.answers.Pairwise (fun a b ↦
      ∀ id, a.FoundRevoked id ∨ a.FoundExpired id → ¬ b.Verified id) ∧
    s.answers.Pairwise (fun a b ↦ ∀ id, a.FoundRevoked id → ¬ b.Rotated id) ∧
    (∀ a ∈ s.answers, ∀ id, a.FoundExpired id → ∀ scope expected found, ∀ at' ≥ s.clock,
      mayRotate CredentialSummary.toCredentialFacts (s.store.list scope) id expected at' ≠
        .ok found) ∧
    ∀ credential overlap id at' t, step vendor s (.rotate credential overlap id at') = some t →
      ∀ row ∈ s.store.rows, row.id = credential →
        (∃ old ∈ t.store.rows, old.id = credential ∧ NotLater old.expiresAt row.expiresAt) ∧
          ∀ new ∈ t.store.rows, new.id ∉ s.store.rows.map (·.id) →
            new.permissions ⊆ row.permissions ∧ new.workspace = row.workspace ∧
              new.project = row.project := by
  have hi : s.Inv := run_invariant (fun _ _ _ ↦ inv_step) (inv_initial clock) h
  refine ⟨hi.unverified, hi.unrotated, ?_, ?_⟩
  · intro a ha id hx scope expected found at' hle
    have hx := (CredentialStore.Ages.refl _).expired (hi.expired a ha id hx) hle
    exact hx.not_rotatable scope expected found
  · intro credential overlap id at' t ht row hr hid
    exact rotation_contained hv ht hr hid

/-- A service key that lives for a minute. -/
def minuteKey : IssueRequest := ⟨.service, js "reporting", js "w", some (js "pr_1"), js "ac_1", some 60000⟩

/-- Its secret expires, the store rotates it all the same, and the replacement is presented. -/
def rotatedLate : List StoreCall :=
  [.issue minuteKey (.ok [.queriesRun]) (js "k1") 0,
    .verify ⟨some .service, some (js "k1")⟩ none 60000,
    .rotate (js "k1") 0 (js "k2") 60000,
    .verify ⟨some .service, some (js "k2")⟩ none 60000]

theorem dead_stays_sample : ∃ s, run (step id) { clock := 0 } rotatedLate = some s ∧
    s.answers.Pairwise (fun a b ↦
      ∀ id, a.FoundRevoked id ∨ a.FoundExpired id → ¬ b.Verified id) := by
  have hr : (run (step id) { clock := 0 } rotatedLate).isSome = true := rfl
  obtain ⟨s, hs⟩ := Option.isSome_iff_exists.1 hr
  exact ⟨s, hs, (dead_stays id (fun _ ↦ rfl) hs).1⟩

/-- The replacement of an expired credential verifies. -/
theorem expired_replaced : ∃ s, run (step id) { clock := 0 } rotatedLate = some s ∧
    ∃ issued a b c, s.answers = [issued, a, b, c] ∧ a.FoundExpired (js "k1") ∧
      (∃ rotated, b = .rotated (js "k1") (.ok rotated) ∧ rotated.issued.id = js "k2") ∧
        c.Verified (js "k2") := by
  refine ⟨_, rfl, _, _, _, _, rfl, ⟨60000, rfl⟩, ⟨_, rfl, rfl⟩, ⟨_, rfl⟩⟩

end StoreRun

end Counted.Projects
