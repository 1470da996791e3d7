import Counted.Foundations.Grouping
import Counted.Ingestion.Batch
import Counted.Kernel.Authz

namespace Counted.Identity

open Foundations
open Ingestion (WorkspaceId)

abbrev AccountId := JsString

/-- A row of the table `member`, the time as it reads: `none` where it cannot be read. -/
structure MemberRow where
  id : JsString
  userId : AccountId
  organizationId : WorkspaceId
  role : Option JsString
  createdAt : Option Instant
  deriving DecidableEq

structure Membership where
  account : AccountId
  role : Role
  since : Instant
  deriving DecidableEq

def Role.text : Role → JsString
  | .owner => js "owner"
  | .admin => js "admin"
  | .member => js "member"

def roleNamed (name : JsString) : Option Role :=
  [Role.owner, .admin, .member].find? (fun role ↦ Role.text role = name)

/-- The stronger of two roles, and the first of two that are the same. -/
def strongest (a b : Role) : Role := if b.rank ≤ a.rank then a else b

/-- The strongest role that a list of names, separated by commas, has in it. -/
def roleFrom : Option JsString → Option Role
  | none => none
  | some raw => (raw.splitOn 44).foldl (fun best part ↦
      match roleNamed (JsString.trim part), best with
      | none, best => best
      | some candidate, none => some candidate
      | some candidate, some best => some (strongest best candidate)) none

def roleTo (role : Role) : JsString := Role.text role

def MemberRow.reads (row : MemberRow) : Option Role := roleFrom row.role

def MemberRow.start (row : MemberRow) : Instant := row.createdAt.getD 0

/-- A row added to what the rows before it come to: the strongest role and the earliest start of
those that name a role. -/
def fold (held : Option (Role × Instant)) (row : MemberRow) : Option (Role × Instant) :=
  match row.reads, held with
  | none, held => held
  | some found, none => some (found, row.start)
  | some found, some (role, since) => some (strongest role found, min since row.start)

structure Standing where
  rows : List MemberRow
  role : Role
  since : Instant

/-- One account's rows, read as the member list reads them. -/
def standingOf (rows : List MemberRow) (account : AccountId) : Option Standing :=
  let mine := rows.filter (fun row ↦ row.userId = account)
  (mine.foldl fold none).map (fun held ↦ ⟨mine, held.1, held.2⟩)

/-- Accounts, not rows. -/
def ownersAmong (rows : List MemberRow) : ℕ :=
  (distinctKeys (·.userId) (rows.filter (fun row ↦ row.reads = some .owner))).length

section

variable (table : List MemberRow) (workspace : WorkspaceId)

def rowsOf : List MemberRow := table.filter (fun row ↦ row.organizationId = workspace)

/-- `findOne` answers the first row there is. -/
def roleOf (account : AccountId) : Option Role :=
  (table.find? (fun row ↦ row.userId = account ∧ row.organizationId = workspace)).bind
    MemberRow.reads

def membersOf : List Membership :=
  (groupBy (·.userId) none fold
    ((rowsOf table workspace).filter (fun row ↦ row.reads.isSome))).filterMap
      (fun g ↦ g.2.map (fun held ↦ ⟨g.1, held.1, held.2⟩))

/-- The owner that the organization directory names: by the text of the role, and of an account
that is there. -/
def directoryOwner (users : List AccountId) : Option AccountId :=
  ((((rowsOf table workspace).filter
    (fun row ↦ row.role = some (js "owner") ∧ row.userId ∈ users)).insertionSort
      (fun a b ↦ a.start < b.start ∨ a.start = b.start ∧ JsString.le a.userId b.userId)).head?).map
        (·.userId)

end

theorem roleNamed_text (role : Role) : roleNamed (Role.text role) = some role := by
  cases role <;> decide

@[simp] theorem roleFrom_roleTo (role : Role) : roleFrom (some (roleTo role)) = some role := by
  cases role <;> decide

theorem le_strongest (a b : Role) : a.rank ≤ (strongest a b).rank ∧ b.rank ≤ (strongest a b).rank := by
  cases a <;> cases b <;> decide

theorem strongest_mem (a b : Role) : strongest a b = a ∨ strongest a b = b := by
  rw [strongest]
  split_ifs
  · exact .inl rfl
  · exact .inr rfl

theorem rank_injective : Function.Injective Role.rank := by
  intro a b h
  cases a <;> cases b <;> first | rfl | cases h

/-- What rows come to: the strongest role any of them names, and the earliest start of those that
name one. -/
structure ComesTo (rows : List MemberRow) (role : Role) (since : Instant) : Prop where
  named : ∃ row ∈ rows, row.reads = some role
  strongest : ∀ row ∈ rows, ∀ r, row.reads = some r → r.rank ≤ role.rank
  started : ∃ row ∈ rows, row.reads.isSome ∧ row.start = since
  earliest : ∀ row ∈ rows, row.reads.isSome → since ≤ row.start

theorem fold_spec (rows : List MemberRow) :
    (rows.foldl fold none = none ∧ ∀ row ∈ rows, row.reads = none) ∨
      ∃ role since, rows.foldl fold none = some (role, since) ∧ ComesTo rows role since := by
  induction rows using List.reverseRecOn with
  | nil => exact .inl ⟨rfl, List.forall_mem_nil _⟩
  | append_singleton rows row ih =>
    rw [List.foldl_append, List.foldl_cons, List.foldl_nil]
    cases hr : row.reads with
    | none =>
      have hsame (held : Option (Role × Instant)) : fold held row = held := by simp only [fold, hr]
      have hfresh {r : Role} (he : row.reads = some r) : False := by
        rw [hr] at he
        cases he
      rw [hsame]
      rcases ih with ⟨he, hall⟩ | ⟨role, since, he, hc⟩
      · refine .inl ⟨he, fun r hm ↦ ?_⟩
        rcases List.mem_append.1 hm with hm | hm
        · exact hall r hm
        · rw [List.mem_singleton.1 hm, hr]
      · obtain ⟨⟨n, hn, hnamed⟩, hstrong, ⟨m, hm, hstart⟩, hearly⟩ := hc
        refine .inr ⟨role, since, he, ⟨n, List.mem_append_left _ hn, hnamed⟩, fun r hm ↦ ?_,
          ⟨m, List.mem_append_left _ hm, hstart⟩, fun r hm hs ↦ ?_⟩
        · rcases List.mem_append.1 hm with hm | hm
          · exact hstrong r hm
          · rw [List.mem_singleton.1 hm]
            exact fun _ he ↦ (hfresh he).elim
        · rcases List.mem_append.1 hm with hm | hm
          · exact hearly r hm hs
          · rw [List.mem_singleton.1 hm, hr] at hs
            cases hs
    | some found =>
      have hself : row ∈ rows ++ [row] := List.mem_append_right _ (List.mem_singleton_self _)
      have hsome : row.reads.isSome := by rw [hr]; rfl
      right
      rcases ih with ⟨he, hall⟩ | ⟨role, since, he, hc⟩
      · rw [he]
        refine ⟨found, row.start, by simp only [fold, hr], ⟨row, hself, hr⟩, fun r hm s hs ↦ ?_,
          ⟨row, hself, hsome, rfl⟩, fun r hm hs ↦ ?_⟩
        · rcases List.mem_append.1 hm with hm | hm
          · rw [hall r hm] at hs
            cases hs
          · rw [List.mem_singleton.1 hm, hr] at hs
            exact Option.some.inj hs ▸ le_rfl
        · rcases List.mem_append.1 hm with hm | hm
          · rw [hall r hm] at hs
            cases hs
          · rw [List.mem_singleton.1 hm]
      · obtain ⟨⟨n, hn, hnamed⟩, hstrong, ⟨m, hm, hstart⟩, hearly⟩ := hc
        rw [he]
        refine ⟨Identity.strongest role found, min since row.start, by simp only [fold, hr], ?_, ?_, ?_, ?_⟩
        · rcases strongest_mem role found with hs | hs
          · exact ⟨n, List.mem_append_left _ hn, by rw [hs, hnamed]⟩
          · exact ⟨row, hself, by rw [hs, hr]⟩
        · intro r hm s hs
          rcases List.mem_append.1 hm with hm | hm
          · exact (hstrong r hm s hs).trans (le_strongest role found).1
          · rw [List.mem_singleton.1 hm, hr] at hs
            exact Option.some.inj hs ▸ (le_strongest role found).2
        · rcases min_choice since row.start with hs | hs
          · exact ⟨m, List.mem_append_left _ hm, hstart.1, hstart.2.trans hs.symm⟩
          · exact ⟨row, hself, hsome, hs.symm⟩
        · intro r hm hs
          rcases List.mem_append.1 hm with hm | hm
          · exact (min_le_left _ _).trans (hearly r hm hs)
          · rw [List.mem_singleton.1 hm]
            exact min_le_right _ _

theorem fold_iff {rows : List MemberRow} {role : Role} {since : Instant} :
    rows.foldl fold none = some (role, since) ↔ ComesTo rows role since := by
  constructor
  · intro h
    rcases fold_spec rows with ⟨he, -⟩ | ⟨role', since', he, hc⟩
    · rw [he] at h
      cases h
    · rw [he] at h
      obtain ⟨rfl, rfl⟩ := Prod.mk.inj (Option.some.inj h)
      exact hc
  · intro h
    rcases fold_spec rows with ⟨-, hall⟩ | ⟨role', since', he, hc⟩
    · obtain ⟨row, hm, hr⟩ := h.named
      rw [hall row hm] at hr
      cases hr
    · rw [he]
      obtain ⟨n, hn, hnamed⟩ := h.named
      obtain ⟨n', hn', hnamed'⟩ := hc.named
      obtain ⟨m, hm, hs, rfl⟩ := h.started
      obtain ⟨m', hm', hs', rfl⟩ := hc.started
      rw [rank_injective (le_antisymm (h.strongest n' hn' _ hnamed') (hc.strongest n hn _ hnamed)),
        le_antisymm (hc.earliest m hm hs) (h.earliest m' hm' hs')]

theorem fold_none {rows : List MemberRow} :
    rows.foldl fold none = none ↔ ∀ row ∈ rows, row.reads = none := by
  constructor
  · intro h
    rcases fold_spec rows with ⟨-, hall⟩ | ⟨role, since, he, -⟩
    · exact hall
    · rw [he] at h
      cases h
  · intro h
    rcases fold_spec rows with ⟨he, -⟩ | ⟨role, since, -, hc⟩
    · exact he
    · obtain ⟨row, hm, hr⟩ := hc.named
      rw [h row hm] at hr
      cases hr

/-- Rows that name no role come to nothing. -/
theorem fold_filter (rows : List MemberRow) (held : Option (Role × Instant)) :
    (rows.filter (fun row ↦ row.reads.isSome)).foldl fold held = rows.foldl fold held := by
  induction rows generalizing held with
  | nil => rfl
  | cons row rows ih =>
    cases hr : row.reads with
    | none =>
      rw [List.filter_cons_of_neg (by rw [hr]; exact Bool.false_ne_true), ih, List.foldl_cons]
      simp only [fold, hr]
    | some found =>
      rw [List.filter_cons_of_pos (by rw [hr]; rfl), List.foldl_cons, ih, List.foldl_cons]

/-- What an account's rows in a list come to. -/
def heldBy (rows : List MemberRow) (account : AccountId) : Option (Role × Instant) :=
  (rows.filter (fun row ↦ row.userId = account)).foldl fold none

theorem standingOf_eq (rows : List MemberRow) (account : AccountId) :
    standingOf rows account = (heldBy rows account).map
      (fun held ↦ ⟨rows.filter (fun row ↦ row.userId = account), held.1, held.2⟩) := rfl

/-- The member list is of each account what its rows come to. -/
theorem mem_membersOf {table : List MemberRow} {workspace : WorkspaceId} {m : Membership} :
    m ∈ membersOf table workspace ↔
      heldBy (rowsOf table workspace) m.account = some (m.role, m.since) := by
  have hheld (account : AccountId) : (((rowsOf table workspace).filter
      (fun row ↦ row.reads.isSome)).filter (fun row ↦ row.userId = account)).foldl fold none =
        heldBy (rowsOf table workspace) account := by
    rw [heldBy, ← fold_filter ((rowsOf table workspace).filter _), List.filter_filter,
      List.filter_filter]
    exact congrArg (List.foldl fold none) (List.filter_congr fun _ _ ↦ Bool.and_comm _ _)
  rw [membersOf, groupBy_eq, List.filterMap_map, List.mem_filterMap]
  simp only [Function.comp_apply, hheld]
  constructor
  · rintro ⟨account, -, hm⟩
    obtain ⟨held, hheld, rfl⟩ := Option.map_eq_some_iff.1 hm
    exact hheld
  · intro hm
    refine ⟨m.account, ?_, by rw [hm]; rfl⟩
    obtain ⟨row, hrow, hr⟩ := (fold_iff.1 hm).named
    rw [List.mem_filter, decide_eq_true_eq] at hrow
    refine mem_distinctKeys.2 ⟨row, List.mem_filter.2 ⟨hrow.1, ?_⟩, hrow.2⟩
    rw [hr]
    rfl

/-- Every reader gives an account in a workspace the same role. -/
def RolesAgree (table : List MemberRow) (workspace : WorkspaceId) (account : AccountId) : Prop :=
  (∀ role, roleOf table workspace account = some role ↔
    ∃ since, ⟨account, role, since⟩ ∈ membersOf table workspace) ∧
  roleOf table workspace account = (standingOf (rowsOf table workspace) account).map (·.role)

/-- The directory names an owner exactly when the member list has one, and one that it has. -/
def OwnersAgree (users : List AccountId) (table : List MemberRow) (workspace : WorkspaceId) : Prop :=
  ((directoryOwner table workspace users).isSome ↔
    ∃ m ∈ membersOf table workspace, m.role = .owner) ∧
  ∀ account, directoryOwner table workspace users = some account →
    ∃ since, ⟨account, .owner, since⟩ ∈ membersOf table workspace

/-- The authority of a row, none at all where it names no role. -/
def MemberRow.authority (row : MemberRow) : ℕ := (row.reads.map Role.rank).getD 0

/-- No row of an account in a workspace names a stronger role than the first of them. -/
def FirstStrongest (table : List MemberRow) : Prop :=
  ∀ row ∈ table, ∀ first, table.find? (fun r ↦ r.userId = row.userId ∧
    r.organizationId = row.organizationId) = some first → row.authority ≤ first.authority

/-- Where a row reads as owner, one of the workspace has that word for its role and an account
that is there. -/
def OwnersPlain (users : List AccountId) (table : List MemberRow) : Prop :=
  ∀ row ∈ table, row.reads = some .owner → ∃ r ∈ table, r.organizationId = row.organizationId ∧
    r.role = some (js "owner") ∧ r.userId ∈ users

section

variable {table rows : List MemberRow} {users : List AccountId} {workspace : WorkspaceId}
  {account : AccountId}

theorem rank_pos (role : Role) : 0 < role.rank := by cases role <;> decide

theorem authority_some {row : MemberRow} {role : Role} (h : row.reads = some role) :
    row.authority = role.rank := by
  rw [MemberRow.authority, h]
  rfl

theorem authority_none {row : MemberRow} (h : row.reads = none) : row.authority = 0 := by
  rw [MemberRow.authority, h]
  rfl

/-- The first row says what all the rows come to if none of them says more. -/
theorem head_agrees_iff : rows.head?.bind MemberRow.reads = (rows.foldl fold none).map (·.1) ↔
    ∀ first, rows.head? = some first → ∀ row ∈ rows, row.authority ≤ first.authority := by
  constructor
  · intro h first hf row hm
    rw [hf, Option.bind_some] at h
    cases hr : row.reads with
    | none =>
      rw [authority_none hr]
      exact Nat.zero_le _
    | some r =>
      rcases fold_spec rows with ⟨-, hall⟩ | ⟨role, since, he, hc⟩
      · rw [hall row hm] at hr
        cases hr
      · rw [he] at h
        rw [authority_some hr, authority_some h]
        exact hc.strongest row hm r hr
  · intro h
    cases hf : rows.head? with
    | none =>
      rw [List.head?_eq_none_iff] at hf
      rw [hf]
      rfl
    | some first =>
      have hfirst := List.mem_of_head? hf
      rw [Option.bind_some]
      rcases fold_spec rows with ⟨he, hall⟩ | ⟨role, since, he, hc⟩
      · rw [he, hall first hfirst]
        rfl
      · obtain ⟨row, hm, hr⟩ := hc.named
        have hle := h first hf row hm
        rw [authority_some hr] at hle
        cases hfr : first.reads with
        | none =>
          rw [authority_none hfr] at hle
          exact absurd hle (not_le.2 (rank_pos role))
        | some r =>
          rw [authority_some hfr] at hle
          rw [he, rank_injective (le_antisymm (hc.strongest first hfirst r hfr) hle)]
          rfl

theorem find_eq : table.find? (fun r ↦ r.userId = account ∧ r.organizationId = workspace) =
    ((rowsOf table workspace).filter (fun row ↦ row.userId = account)).head? := by
  rw [rowsOf, List.filter_filter, List.head?_filter]
  simp only [Bool.decide_and]

theorem rolesAgree_iff : RolesAgree table workspace account ↔ ∀ first,
    table.find? (fun r ↦ r.userId = account ∧ r.organizationId = workspace) = some first →
      ∀ row ∈ table, row.userId = account → row.organizationId = workspace →
        row.authority ≤ first.authority := by
  have hroles : RolesAgree table workspace account ↔ roleOf table workspace account =
      (heldBy (rowsOf table workspace) account).map (·.1) := by
    have hstanding : (standingOf (rowsOf table workspace) account).map (·.role) =
        (heldBy (rowsOf table workspace) account).map (·.1) := by
      rw [standingOf_eq, Option.map_map]
      rfl
    rw [RolesAgree, hstanding]
    refine and_iff_right_of_imp fun h role ↦ ?_
    rw [h, Option.map_eq_some_iff]
    constructor
    · rintro ⟨⟨role, since⟩, he, rfl⟩
      exact ⟨since, mem_membersOf.2 he⟩
    · rintro ⟨since, hm⟩
      exact ⟨(role, since), mem_membersOf.1 hm, rfl⟩
  rw [hroles, roleOf, find_eq, heldBy, head_agrees_iff]
  refine forall_congr' fun first ↦ imp_congr_right fun _ ↦ ?_
  constructor
  · intro h row hm hu ho
    exact h row (List.mem_filter.2 ⟨List.mem_filter.2 ⟨hm, decide_eq_true ho⟩, decide_eq_true hu⟩)
  · intro h row hm
    obtain ⟨hm, hu⟩ := List.mem_filter.1 hm
    obtain ⟨hm, ho⟩ := List.mem_filter.1 hm
    exact h row hm (of_decide_eq_true hu) (of_decide_eq_true ho)

theorem firstStrongest_iff :
    (∀ workspace account, RolesAgree table workspace account) ↔ FirstStrongest table := by
  simp only [rolesAgree_iff]
  constructor
  · exact fun h row hm first hf ↦ h row.organizationId row.userId first hf row hm rfl rfl
  · rintro h workspace account first hf row hm rfl rfl
    exact h row hm first hf

theorem owner_of_row {row : MemberRow} (hm : row ∈ table) (ho : row.organizationId = workspace)
    (hr : row.reads = some .owner) :
    ∃ since, ⟨row.userId, .owner, since⟩ ∈ membersOf table workspace := by
  have hmine : row ∈ (rowsOf table workspace).filter (fun r ↦ r.userId = row.userId) :=
    List.mem_filter.2 ⟨List.mem_filter.2 ⟨hm, decide_eq_true ho⟩, decide_eq_true rfl⟩
  rcases fold_spec ((rowsOf table workspace).filter (fun r ↦ r.userId = row.userId)) with
    ⟨-, hall⟩ | ⟨role, since, he, hc⟩
  · rw [hall row hmine] at hr
    cases hr
  · have hrole : role = .owner := by
      have hle := hc.strongest row hmine .owner hr
      cases role with
      | owner => rfl
      | admin | member => exact absurd hle (by decide)
    exact ⟨since, mem_membersOf.2 (hrole ▸ he)⟩

theorem row_of_owner {m : Membership} (hm : m ∈ membersOf table workspace) (ho : m.role = .owner) :
    ∃ row ∈ table, row.organizationId = workspace ∧ row.reads = some .owner := by
  obtain ⟨row, hrow, hr⟩ := (fold_iff.1 (mem_membersOf.1 hm)).named
  obtain ⟨hrow, -⟩ := List.mem_filter.1 hrow
  obtain ⟨hrow, hw⟩ := List.mem_filter.1 hrow
  exact ⟨row, hrow, of_decide_eq_true hw, ho ▸ hr⟩

theorem directoryOwner_some {account : AccountId}
    (h : directoryOwner table workspace users = some account) :
    ∃ row ∈ table, row.organizationId = workspace ∧ row.role = some (js "owner") ∧
      row.userId = account ∧ row.userId ∈ users := by
  obtain ⟨row, hrow, rfl⟩ := Option.map_eq_some_iff.1 h
  have hmem := (List.mem_insertionSort _).1 (List.mem_of_head? hrow)
  obtain ⟨hmem, hr⟩ := List.mem_filter.1 hmem
  obtain ⟨hmem, hw⟩ := List.mem_filter.1 hmem
  obtain ⟨hr, hu⟩ := of_decide_eq_true hr
  exact ⟨row, hmem, of_decide_eq_true hw, hr, rfl, hu⟩

theorem directoryOwner_isSome : (directoryOwner table workspace users).isSome ↔
    ∃ row ∈ table, row.organizationId = workspace ∧ row.role = some (js "owner") ∧
      row.userId ∈ users := by
  constructor
  · intro h
    obtain ⟨account, ha⟩ := Option.isSome_iff_exists.1 h
    obtain ⟨row, hm, hw, hr, -, hu⟩ := directoryOwner_some ha
    exact ⟨row, hm, hw, hr, hu⟩
  · rintro ⟨row, hm, hw, hr, hu⟩
    rw [directoryOwner, Option.isSome_map, List.isSome_head?]
    refine @List.ne_nil_of_mem _ row _ ((List.mem_insertionSort _).2 ?_)
    exact List.mem_filter.2 ⟨List.mem_filter.2 ⟨hm, decide_eq_true hw⟩, decide_eq_true ⟨hr, hu⟩⟩

theorem reads_owner {row : MemberRow} (h : row.role = some (js "owner")) : row.reads = some .owner := by
  rw [MemberRow.reads, h]
  exact roleFrom_roleTo .owner

theorem ownersPlain_iff : (∀ workspace, OwnersAgree users table workspace) ↔
    OwnersPlain users table := by
  constructor
  · intro h row hm hr
    obtain ⟨since, hs⟩ := owner_of_row hm rfl hr
    obtain ⟨r, hrm, hw, hro, hu⟩ :=
      directoryOwner_isSome.1 ((h row.organizationId).1.2 ⟨_, hs, rfl⟩)
    exact ⟨r, hrm, hw, hro, hu⟩
  · intro h workspace
    constructor
    · rw [directoryOwner_isSome]
      constructor
      · rintro ⟨row, hm, hw, hr, -⟩
        obtain ⟨since, hs⟩ := owner_of_row hm hw (reads_owner hr)
        exact ⟨_, hs, rfl⟩
      · rintro ⟨m, hm, ho⟩
        obtain ⟨row, hrow, hw, hr⟩ := row_of_owner hm ho
        obtain ⟨r, hrm, hrw, hro, hu⟩ := h row hrow hr
        exact ⟨r, hrm, hrw.trans hw, hro, hu⟩
    · intro account ha
      obtain ⟨row, hm, hw, hr, rfl, -⟩ := directoryOwner_some ha
      exact owner_of_row hm hw (reads_owner hr)

/-- Two rows of one account, the weaker one first. -/
def importedTwice : List MemberRow :=
  [⟨js "m1", js "u1", js "w1", some (js "member"), some 10⟩,
    ⟨js "m2", js "u1", js "w1", some (js "admin,owner"), some 20⟩]

end

end Counted.Identity
