import Counted.Foundations.Concurrency
import Counted.Foundations.Run
import Counted.Identity.Membership

namespace Counted.Identity

open Foundations
open Ingestion (WorkspaceId)

/-- The table `member` under its primary key. -/
structure MemberTable where
  rows : List MemberRow
  ids : (rows.map (·.id)).Nodup

inductive MemberCall
  | changeRole (account : AccountId) (role : Role)
  | remove (account : AccountId)

def MemberCall.account : MemberCall → AccountId
  | .changeRole account _ => account
  | .remove account => account

inductive MemberFailure
  | notAMember (account : AccountId)
  | roleUnchanged (account : AccountId) (role : Role)
  | lastOwner (account : AccountId)
  deriving DecidableEq

/-- `UPDATE` of one row, and `DELETE` of the rows of an account. -/
inductive MemberWrite
  | role (id : JsString) (role : JsString)
  | remove (account : AccountId)

def MemberRow.isOf (row : MemberRow) (workspace : WorkspaceId) (account : AccountId) : Bool :=
  row.organizationId = workspace && row.userId = account

def MemberTable.write (workspace : WorkspaceId) (table : MemberTable) : MemberWrite → MemberTable
  | .role id role =>
    { rows := table.rows.map (fun row ↦ if row.id = id then { row with role := some role } else row)
      ids := by
        rw [List.map_map]
        convert table.ids using 2
        funext row
        simp only [Function.comp_apply]
        split_ifs <;> rfl }
  | .remove account =>
    { rows := table.rows.filter (fun row ↦ !row.isOf workspace account)
      ids := table.ids.sublist (List.filter_sublist.map _) }

/-- What a call makes of the rows it reads: a refusal, or what it answers and what it writes. -/
def MemberCall.plan (rows : List MemberRow) :
    MemberCall → Except MemberFailure (Membership × List MemberWrite)
  | .changeRole account role =>
    match standingOf rows account with
    | none => .error (.notAMember account)
    | some standing =>
      if standing.role = role then .error (.roleUnchanged account role)
      else if standing.role = .owner ∧ ownersAmong rows ≤ 1 then .error (.lastOwner account)
      else .ok (⟨account, role, standing.since⟩,
        standing.rows.map (fun row ↦ .role row.id (roleTo role)))
  | .remove account =>
    match standingOf rows account with
    | none => .error (.notAMember account)
    | some standing =>
      if standing.role = .owner ∧ ownersAmong rows ≤ 1 then .error (.lastOwner account)
      else .ok (⟨account, standing.role, standing.since⟩, [.remove account])

/-- The next statement of a call in its transaction. -/
inductive WriterProcess
  | locking (c : MemberCall)
  | reading (c : MemberCall)
  | writing (c : MemberCall) (done todo : List MemberWrite) (m : Membership)
  | committing (c : MemberCall) (writes : List MemberWrite) (result : Except MemberFailure Membership)
  | ended (result : Option (Except MemberFailure Membership))

/-- `elsewhere` is what is written to the rows of other workspaces. -/
inductive WriterAction
  | start (i : ℕ) (c : MemberCall)
  | proceed (i : ℕ)
  | fail (i : ℕ)
  | elsewhere (table : MemberTable)

/-- Calls in one workspace, whose row of `organization` is the lock. -/
abbrev WriterSystem := Guarded ℕ WriterProcess MemberTable

namespace WriterSystem

def initial (table : MemberTable) : WriterSystem := ⟨table, none, fun _ ↦ none⟩

section

variable (workspace : WorkspaceId) (s : WriterSystem)

def proceed (i : ℕ) : WriterProcess → Option WriterSystem
  | .locking c => if s.holder = none then some (s.move i (.reading c) s.shared (some i)) else none
  | .reading c =>
    match c.plan (rowsOf s.shared.rows workspace) with
    | .error e => some (s.move i (.committing c [] (.error e)) s.shared s.holder)
    | .ok (m, writes) => some (s.move i (.writing c [] writes m) s.shared s.holder)
  | .writing c done [] m => some (s.move i (.committing c done (.ok m)) s.shared s.holder)
  | .writing c done (write :: todo) m =>
    some (s.move i (.writing c (done ++ [write]) todo m) s.shared s.holder)
  | .committing _ writes result =>
    some (s.move i (.ended (some result)) (writes.foldl (MemberTable.write workspace) s.shared) none)
  | .ended _ => none

/-- A statement that fails rolls back all that its transaction wrote and throws. -/
def step : WriterAction → Option WriterSystem
  | .start i c =>
    match s.process i with
    | none => some (s.move i (.locking c) s.shared s.holder)
    | some _ => none
  | .proceed i => (s.process i).bind (proceed workspace s i)
  | .fail i => (s.process i).map fun _ ↦
      s.move i (.ended none) s.shared (if s.holder = some i then none else s.holder)
  | .elsewhere table =>
    if rowsOf table.rows workspace = rowsOf s.shared.rows workspace then
      some ⟨table, s.holder, s.process⟩
    else none

/-- The call that an action commits, and what it answers. -/
def committed : WriterAction → Option (MemberCall × Except MemberFailure Membership)
  | .proceed i =>
    match s.process i with
    | some (.committing c _ result) => some (c, result)
    | _ => none
  | _ => none

end

def HasOwner (workspace : WorkspaceId) (table : MemberTable) : Prop :=
  ∃ m ∈ membersOf table.rows workspace, m.role = .owner

/-- What a call that succeeds leaves behind. -/
structure Done (workspace : WorkspaceId) (before after : MemberTable) (c : MemberCall) : Prop where
  others : after.rows.filter (fun row ↦ !row.isOf workspace c.account) =
    before.rows.filter (fun row ↦ !row.isOf workspace c.account)
  changed : ∀ account role, c = .changeRole account role → ∃ old since,
    ⟨account, old, since⟩ ∈ membersOf before.rows workspace ∧
      ⟨account, role, since⟩ ∈ membersOf after.rows workspace
  removed : ∀ account, c = .remove account → ∀ row ∈ after.rows, row.isOf workspace account = false

/-- A step keeps an owner, does what it answers, and otherwise changes nothing. -/
structure Lawful (workspace : WorkspaceId) (s : WriterSystem) (a : WriterAction)
    (t : WriterSystem) : Prop where
  owner : HasOwner workspace s.shared → HasOwner workspace t.shared
  done : ∀ c m, committed s a = some (c, .ok m) → Done workspace s.shared t.shared c
  unchanged : (∀ c m, committed s a ≠ some (c, .ok m)) → (∀ table, a ≠ .elsewhere table) →
    t.shared = s.shared

/-- A role is changed of an account whose rows without a role started no earlier than all those
that have one. -/
def StartsKnown (workspace : WorkspaceId) (s : WriterSystem) (a : WriterAction) : Prop :=
  ∀ account role m, committed s a = some (.changeRole account role, .ok m) →
    ∀ row ∈ s.shared.rows, row.isOf workspace account = true → row.reads = none →
      ∃ known ∈ s.shared.rows, known.isOf workspace account = true ∧ known.reads.isSome ∧
        known.start ≤ row.start

def Past : WriterProcess → Prop
  | .reading _ | .writing .. | .committing .. => True
  | .locking _ | .ended _ => False

/-- What a call has planned is what it would plan of the rows that are there. -/
def Stands (workspace : WorkspaceId) (table : MemberTable) : WriterProcess → Prop
  | .writing c done todo m => c.plan (rowsOf table.rows workspace) = .ok (m, done ++ todo)
  | .committing c writes (.ok m) => c.plan (rowsOf table.rows workspace) = .ok (m, writes)
  | .committing _ writes (.error _) => writes = []
  | .locking _ | .reading _ | .ended _ => True

def Inv (workspace : WorkspaceId) (s : WriterSystem) : Prop :=
  Guarded.Inv Past (fun _ ↦ True) (Stands workspace) s

end WriterSystem

section

variable {table : MemberTable} {rows : List MemberRow} {workspace : WorkspaceId} {account : AccountId}
  {role : Role} {m : Membership} {writes : List MemberWrite}

theorem mem_isOf {row : MemberRow} : row ∈ (rowsOf rows workspace).filter (fun r ↦ r.userId = account) ↔
    row ∈ rows ∧ row.isOf workspace account = true := by
  rw [rowsOf, List.filter_filter, List.mem_filter, MemberRow.isOf, Bool.and_comm]

theorem standing_held {rows : List MemberRow} {standing : Standing}
    (h : standingOf rows account = some standing) :
    standing.rows = rows.filter (fun row ↦ row.userId = account) ∧
      ComesTo standing.rows standing.role standing.since := by
  rw [standingOf_eq, Option.map_eq_some_iff] at h
  obtain ⟨⟨role, since⟩, he, rfl⟩ := h
  exact ⟨rfl, fold_iff.1 he⟩

/-- A call that goes ahead has read the account's standing, and is not about the last owner. -/
theorem plan_ok {c : MemberCall} (h : c.plan rows = .ok (m, writes)) : ∃ standing,
    standingOf rows c.account = some standing ∧
      (standing.role = .owner → 1 < ownersAmong rows) ∧
      (∀ account role, c = .changeRole account role →
        writes = standing.rows.map (fun row ↦ .role row.id (roleTo role))) ∧
      (∀ account, c = .remove account → writes = [.remove account]) := by
  cases c with
  | changeRole account role =>
    rw [MemberCall.plan] at h
    cases hs : standingOf rows account with
    | none =>
      rw [hs] at h
      cases h
    | some standing =>
      rw [hs] at h
      dsimp only at h
      split_ifs at h with hsame hlast
      obtain ⟨rfl, rfl⟩ := Prod.mk.inj (Except.ok.inj h)
      refine ⟨standing, hs, fun ho ↦ not_le.1 fun hle ↦ hlast ⟨ho, hle⟩, fun a r he ↦ ?_, nofun⟩
      cases he
      rfl
  | remove account =>
    rw [MemberCall.plan] at h
    cases hs : standingOf rows account with
    | none =>
      rw [hs] at h
      cases h
    | some standing =>
      rw [hs] at h
      dsimp only at h
      split_ifs at h with hlast
      obtain ⟨rfl, rfl⟩ := Prod.mk.inj (Except.ok.inj h)
      refine ⟨standing, hs, fun ho ↦ not_le.1 fun hle ↦ hlast ⟨ho, hle⟩, nofun, fun a he ↦ ?_⟩
      cases he
      rfl

/-- Of several accounts that hold `owner`, one is another. -/
theorem other_owner (h : 1 < ownersAmong rows) (account : AccountId) :
    ∃ row ∈ rows, row.reads = some .owner ∧ row.userId ≠ account := by
  by_contra hn
  have hsub : distinctKeys (·.userId) (rows.filter (fun row ↦ row.reads = some .owner)) ⊆
      [account] := by
    intro a ha
    obtain ⟨row, hm, rfl⟩ := mem_distinctKeys.1 ha
    obtain ⟨hm, hr⟩ := List.mem_filter.1 hm
    by_contra hne
    exact hn ⟨row, hm, of_decide_eq_true hr, fun he ↦ hne (List.mem_singleton.2 he)⟩
  have hle := ((distinctKeys_nodup _).subperm hsub).length_le
  exact absurd h (not_lt.2 hle)

/-- A call that goes ahead leaves somebody else who is an owner. -/
theorem plan_other_owner {c : MemberCall} (h : c.plan rows = .ok (m, writes))
    (ho : ∃ row ∈ rows, row.reads = some .owner) :
    ∃ row ∈ rows, row.reads = some .owner ∧ row.userId ≠ c.account := by
  obtain ⟨standing, hs, hmany, -⟩ := plan_ok h
  by_cases hrole : standing.role = .owner
  · exact other_owner (hmany hrole) c.account
  · obtain ⟨row, hm, hr⟩ := ho
    refine ⟨row, hm, hr, fun hu ↦ hrole ?_⟩
    obtain ⟨hrows, hc⟩ := standing_held hs
    have hmine : row ∈ standing.rows := by
      rw [hrows]
      exact List.mem_filter.2 ⟨hm, decide_eq_true hu⟩
    have hle := hc.strongest row hmine .owner hr
    cases hsr : standing.role with
    | owner => rfl
    | admin | member =>
      rw [hsr] at hle
      exact absurd hle (by decide)

theorem write_roles (ids : List JsString) (text : JsString) (table : MemberTable) :
    ((ids.map (fun id ↦ MemberWrite.role id text)).foldl (MemberTable.write workspace) table).rows =
      table.rows.map (fun row ↦ if row.id ∈ ids then { row with role := some text } else row) := by
  induction ids generalizing table with
  | nil => simp
  | cons id ids ih =>
    rw [List.map_cons, List.foldl_cons, ih, MemberTable.write, List.map_map]
    refine List.map_congr_left fun row _ ↦ ?_
    simp only [Function.comp_apply, List.mem_cons]
    by_cases hid : row.id = id
    · simp [hid]
    · simp [hid]

/-- All the rows of the account, and no others, have the new role. -/
theorem changed_rows (h : (MemberCall.changeRole account role).plan (rowsOf table.rows workspace) =
    .ok (m, writes)) : (writes.foldl (MemberTable.write workspace) table).rows =
      table.rows.map (fun row ↦ if row.isOf workspace account = true then
        { row with role := some (roleTo role) } else row) := by
  obtain ⟨standing, hs, -, hw, -⟩ := plan_ok h
  obtain ⟨hrows, -⟩ := standing_held hs
  have hids : standing.rows.map (fun row ↦ MemberWrite.role row.id (roleTo role)) =
      (standing.rows.map (·.id)).map (fun id ↦ MemberWrite.role id (roleTo role)) := by
    rw [List.map_map]
    rfl
  rw [hw account role rfl, hids, write_roles]
  refine List.map_congr_left fun row hm ↦ ?_
  have hiff : row.id ∈ standing.rows.map (·.id) ↔ row.isOf workspace account = true := by
    rw [hrows, List.mem_map]
    constructor
    · rintro ⟨r, hr, hid⟩
      obtain ⟨hr, ho⟩ := mem_isOf.1 hr
      exact List.inj_on_of_nodup_map table.ids hr hm hid ▸ ho
    · exact fun ho ↦ ⟨row, mem_isOf.2 ⟨hm, ho⟩, rfl⟩
  simp only [hiff]

theorem removed_rows (h : (MemberCall.remove account).plan (rowsOf table.rows workspace) =
    .ok (m, writes)) : (writes.foldl (MemberTable.write workspace) table).rows =
      table.rows.filter (fun row ↦ !row.isOf workspace account) := by
  obtain ⟨standing, -, -, -, hw⟩ := plan_ok h
  rw [hw account rfl]
  rfl

/-- What a call writes is in the rows of its account. -/
theorem written_others {c : MemberCall} (h : c.plan (rowsOf table.rows workspace) = .ok (m, writes)) :
    (writes.foldl (MemberTable.write workspace) table).rows.filter
        (fun row ↦ !row.isOf workspace c.account) =
      table.rows.filter (fun row ↦ !row.isOf workspace c.account) := by
  cases c with
  | changeRole account role =>
    rw [changed_rows h, List.filter_map]
    have hof : ((fun row ↦ !MemberRow.isOf row workspace account) ∘ fun row ↦
        if row.isOf workspace account = true then { row with role := some (roleTo role) } else row) =
          fun row ↦ !row.isOf workspace account := by
      funext row
      simp only [Function.comp_apply]
      split_ifs <;> rfl
    rw [MemberCall.account, hof]
    refine (List.map_congr_left fun row hm ↦ ?_).trans (List.map_id _)
    have hnot := (List.mem_filter.1 hm).2
    rw [Bool.not_eq_true'] at hnot
    rw [hnot]
    rfl
  | remove account =>
    rw [removed_rows h, MemberCall.account, List.filter_filter]
    simp only [Bool.and_self]

theorem hasOwner_iff : WriterSystem.HasOwner workspace table ↔
    ∃ row ∈ rowsOf table.rows workspace, row.reads = some .owner := by
  constructor
  · rintro ⟨m, hm, ho⟩
    obtain ⟨row, hrow, hw, hr⟩ := row_of_owner hm ho
    exact ⟨row, List.mem_filter.2 ⟨hrow, decide_eq_true hw⟩, hr⟩
  · rintro ⟨row, hrow, hr⟩
    obtain ⟨hrow, hw⟩ := List.mem_filter.1 hrow
    obtain ⟨since, hs⟩ := owner_of_row hrow (of_decide_eq_true hw) hr
    exact ⟨_, hs, rfl⟩

theorem written_owner {c : MemberCall} (h : c.plan (rowsOf table.rows workspace) = .ok (m, writes))
    (ho : WriterSystem.HasOwner workspace table) :
    WriterSystem.HasOwner workspace (writes.foldl (MemberTable.write workspace) table) := by
  obtain ⟨row, hrow, hr, hne⟩ := plan_other_owner h (hasOwner_iff.1 ho)
  obtain ⟨hrow, hw⟩ := List.mem_filter.1 hrow
  have hother : row.isOf workspace c.account = false := by
    rw [MemberRow.isOf, decide_eq_false hne, Bool.and_false]
  have hkept : row ∈ (writes.foldl (MemberTable.write workspace) table).rows.filter
      (fun row ↦ !row.isOf workspace c.account) := by
    rw [written_others h]
    exact List.mem_filter.2 ⟨hrow, by rw [hother]; rfl⟩
  exact hasOwner_iff.2 ⟨row, List.mem_filter.2 ⟨(List.mem_filter.1 hkept).1, hw⟩, hr⟩

/-- The account's rows after its role is changed. -/
theorem changed_mine {row : MemberRow}
    (h : (MemberCall.changeRole account role).plan (rowsOf table.rows workspace) = .ok (m, writes)) :
    row ∈ (rowsOf (writes.foldl (MemberTable.write workspace) table).rows workspace).filter
        (fun r ↦ r.userId = account) ↔
      ∃ old ∈ table.rows, old.isOf workspace account = true ∧
        row = { old with role := some (roleTo role) } := by
  rw [mem_isOf, changed_rows h, List.mem_map]
  constructor
  · rintro ⟨⟨old, hold, rfl⟩, ho⟩
    split_ifs at ho ⊢ with hof
    · exact ⟨old, hold, hof, rfl⟩
    · exact absurd ho hof
  · rintro ⟨old, hold, hof, rfl⟩
    exact ⟨⟨old, hold, if_pos hof⟩, hof⟩

/-- The account reads as the role it was given, since the start it had, exactly if none of its
rows without a role started before all those that have one. -/
theorem changed_iff
    (h : (MemberCall.changeRole account role).plan (rowsOf table.rows workspace) = .ok (m, writes)) :
    (∃ old since, ⟨account, old, since⟩ ∈ membersOf table.rows workspace ∧
      ⟨account, role, since⟩ ∈
        membersOf (writes.foldl (MemberTable.write workspace) table).rows workspace) ↔
    ∀ row ∈ table.rows, row.isOf workspace account = true → row.reads = none →
      ∃ known ∈ table.rows, known.isOf workspace account = true ∧ known.reads.isSome ∧
        known.start ≤ row.start := by
  have hreads (row : MemberRow) :
      ({ row with role := some (roleTo role) } : MemberRow).reads = some role :=
    roleFrom_roleTo role
  constructor
  · rintro ⟨old, since, hbefore, hafter⟩ row hm hof -
    obtain ⟨known, hk, hks, rfl⟩ := (fold_iff.1 (mem_membersOf.1 hbefore)).started
    obtain ⟨hk, hkof⟩ := mem_isOf.1 hk
    refine ⟨known, hk, hkof, hks, ?_⟩
    exact (fold_iff.1 (mem_membersOf.1 hafter)).earliest { row with role := some (roleTo role) }
      ((changed_mine h).2 ⟨row, hm, hof, rfl⟩) (by rw [hreads]; rfl)
  · intro hstart
    obtain ⟨standing, hs, -⟩ := plan_ok h
    obtain ⟨hrows, hc⟩ := standing_held hs
    rw [hrows] at hc
    refine ⟨standing.role, standing.since, mem_membersOf.2 (fold_iff.2 hc), ?_⟩
    obtain ⟨known, hk, hks, hstarted⟩ := hc.started
    obtain ⟨hk, hkof⟩ := mem_isOf.1 hk
    have hknown := (changed_mine h).2 ⟨known, hk, hkof, rfl⟩
    refine mem_membersOf.2 (fold_iff.2 ⟨⟨_, hknown, hreads known⟩, ?_,
      ⟨_, hknown, by rw [hreads]; rfl, hstarted⟩, ?_⟩)
    · intro row hm r hr
      obtain ⟨old, -, -, rfl⟩ := (changed_mine h).1 hm
      rw [hreads] at hr
      exact Option.some.inj hr ▸ le_rfl
    · intro row hm _
      obtain ⟨old, hold, hof, rfl⟩ := (changed_mine h).1 hm
      cases hr : old.reads with
      | none =>
        obtain ⟨known, hk, hkof, hks, hle⟩ := hstart old hold hof hr
        exact (hc.earliest known (mem_isOf.2 ⟨hk, hkof⟩) hks).trans hle
      | some r => exact hc.earliest old (mem_isOf.2 ⟨hold, hof⟩) (by rw [hr]; rfl)

end

namespace WriterSystem

variable {workspace : WorkspaceId} {s t : WriterSystem} {a : WriterAction} {i : ℕ}

theorem inv_initial (workspace : WorkspaceId) (table : MemberTable) :
    Inv workspace (initial table) :=
  ⟨fun _ _ h ↦ (Option.some_ne_none _ h.symm).elim, trivial,
    fun _ _ h ↦ (Option.some_ne_none _ h.symm).elim⟩

/-- What a process relies on are the rows of its workspace. -/
theorem stands_congr {table table' : MemberTable} (h : rowsOf table'.rows workspace =
    rowsOf table.rows workspace) {p : WriterProcess} (hp : Stands workspace table p) :
    Stands workspace table' p := by
  cases p with
  | writing c done todo m =>
    rw [Stands, h]
    exact hp
  | committing c writes result =>
    cases result with
    | error e => exact hp
    | ok m =>
      rw [Stands, h]
      exact hp
  | locking | reading | ended => trivial

theorem stands_outside {table table' : MemberTable} {p : WriterProcess} (h : ¬ Past p) :
    Stands workspace table p → Stands workspace table' p := by
  cases p with
  | locking | ended => exact fun _ ↦ trivial
  | reading | writing | committing => exact absurd trivial h

theorem inv_step (hs : Inv workspace s) (h : step workspace s a = some t) : Inv workspace t := by
  cases a with
  | start i c =>
    rw [step] at h
    split at h
    · obtain rfl := Option.some.inj h
      exact Guarded.Inv.keep hs False.elim trivial
    · cases h
  | fail i =>
    obtain ⟨p, hp, rfl⟩ := Option.map_eq_some_iff.1 h
    exact Guarded.Inv.leave hs id trivial
  | elsewhere table =>
    rw [step] at h
    split_ifs at h with hrows
    obtain rfl := Option.some.inj h
    exact Guarded.Inv.change hs trivial (fun q hq ↦ stands_congr hrows hq)
  | proceed i =>
    obtain ⟨p, hp, h⟩ := Option.bind_eq_some_iff.1 h
    have hst := hs.process i p hp
    have hheld := hs.held i p hp
    cases p with
    | locking c =>
      rw [proceed] at h
      split_ifs at h with hf
      obtain rfl := Option.some.inj h
      exact Guarded.Inv.acquire hs hf trivial
    | reading c =>
      rw [proceed] at h
      cases hplan : c.plan (rowsOf s.shared.rows workspace) with
      | error e =>
        rw [hplan] at h
        obtain rfl := Option.some.inj h
        exact Guarded.Inv.keep hs (fun _ ↦ hheld trivial) rfl
      | ok r =>
        rw [hplan] at h
        obtain rfl := Option.some.inj h
        exact Guarded.Inv.keep hs (fun _ ↦ hheld trivial) hplan
    | writing c done todo m =>
      cases todo with
      | nil =>
        obtain rfl := Option.some.inj h
        refine Guarded.Inv.keep hs (fun _ ↦ hheld trivial) ?_
        rw [Stands, List.append_nil] at hst
        exact hst
      | cons write todo =>
        obtain rfl := Option.some.inj h
        refine Guarded.Inv.keep hs (fun _ ↦ hheld trivial) ?_
        rw [Stands, List.append_assoc]
        exact hst
    | committing c writes result =>
      obtain rfl := Option.some.inj h
      exact Guarded.Inv.release hs (hheld trivial) id trivial trivial
        (fun q hq hst ↦ stands_outside hq hst)
    | ended => cases h

/-- What is committed is what was planned of the rows that are there. -/
theorem committed_ok (hs : Inv workspace s) (h : step workspace s a = some t) {c : MemberCall}
    {m : Membership} (hc : committed s a = some (c, .ok m)) : ∃ writes,
      c.plan (rowsOf s.shared.rows workspace) = .ok (m, writes) ∧
        t.shared = writes.foldl (MemberTable.write workspace) s.shared := by
  cases a with
  | start | fail | elsewhere => cases hc
  | proceed i =>
    obtain ⟨p, hp, h⟩ := Option.bind_eq_some_iff.1 h
    rw [committed, hp] at hc
    cases p with
    | committing c' writes result =>
      obtain ⟨rfl, rfl⟩ := Prod.mk.inj (Option.some.inj hc)
      obtain rfl := Option.some.inj h
      exact ⟨writes, hs.process i _ hp, rfl⟩
    | locking | reading | writing | ended => cases hc

theorem shared_unchanged (hs : Inv workspace s) (h : step workspace s a = some t)
    (hc : ∀ c m, committed s a ≠ some (c, .ok m)) (he : ∀ table, a ≠ .elsewhere table) :
    t.shared = s.shared := by
  cases a with
  | start i c =>
    rw [step] at h
    split at h
    · exact Option.some.inj h ▸ rfl
    · cases h
  | fail i =>
    obtain ⟨p, hp, rfl⟩ := Option.map_eq_some_iff.1 h
    rfl
  | elsewhere table => exact absurd rfl (he table)
  | proceed i =>
    obtain ⟨p, hp, h⟩ := Option.bind_eq_some_iff.1 h
    have hst := hs.process i p hp
    cases p with
    | locking c =>
      rw [proceed] at h
      split_ifs at h
      exact Option.some.inj h ▸ rfl
    | reading c =>
      rw [proceed] at h
      split at h
      · exact Option.some.inj h ▸ rfl
      · exact Option.some.inj h ▸ rfl
    | writing c done todo m => cases todo <;> exact Option.some.inj h ▸ rfl
    | committing c writes result =>
      cases result with
      | ok m => exact absurd (by rw [committed, hp]) (hc c m)
      | error e =>
        obtain rfl : writes = [] := hst
        exact Option.some.inj h ▸ rfl
    | ended => cases h

theorem owner_kept (hs : Inv workspace s) (h : step workspace s a = some t)
    (ho : HasOwner workspace s.shared) : HasOwner workspace t.shared := by
  by_cases he : ∃ table, a = .elsewhere table
  · obtain ⟨table, rfl⟩ := he
    rw [step] at h
    split_ifs at h with hrows
    obtain rfl := Option.some.inj h
    rw [hasOwner_iff] at ho ⊢
    exact hrows ▸ ho
  · rw [not_exists] at he
    by_cases hc : ∃ c m, committed s a = some (c, .ok m)
    · obtain ⟨c, m, hc⟩ := hc
      obtain ⟨writes, hplan, ht⟩ := committed_ok hs h hc
      rw [ht]
      exact written_owner hplan ho
    · rw [shared_unchanged hs h (fun c m hm ↦ hc ⟨c, m, hm⟩) he]
      exact ho

theorem lawful_iff (hs : Inv workspace s) (h : step workspace s a = some t) :
    Lawful workspace s a t ↔ StartsKnown workspace s a := by
  constructor
  · intro hl account role m hc
    obtain ⟨writes, hplan, ht⟩ := committed_ok hs h hc
    have hchanged := (hl.done _ m hc).changed account role rfl
    rw [ht] at hchanged
    exact (changed_iff hplan).1 hchanged
  · intro hk
    refine ⟨owner_kept hs h, fun c m hc ↦ ?_, shared_unchanged hs h⟩
    obtain ⟨writes, hplan, ht⟩ := committed_ok hs h hc
    rw [ht]
    refine ⟨written_others hplan, ?_, ?_⟩
    · rintro account role rfl
      exact (changed_iff hplan).2 (hk account role m hc)
    · rintro account rfl row hm
      rw [removed_rows hplan] at hm
      exact Bool.not_eq_true' _ ▸ (List.mem_filter.1 hm).2

/-- Every step of a run is lawful exactly if every change of a role that is committed finds the
start of the membership on a row with a role. -/
theorem calls_lawful_iff (workspace : WorkspaceId) (table : MemberTable)
    (actions : List WriterAction) :
    Along (step workspace)
        (fun s a ↦ ∀ t, step workspace s a = some t → Lawful workspace s a t) (initial table) actions ↔
      Along (step workspace)
        (fun s a ↦ ∀ t, step workspace s a = some t → StartsKnown workspace s a) (initial table)
          actions := by
  constructor
  · exact Along.imp (fun _ _ _ hs _ h ↦ inv_step hs h)
      (fun _ _ hs hl t h ↦ (lawful_iff hs h).1 (hl t h)) (inv_initial workspace table)
  · exact Along.imp (fun _ _ _ hs _ h ↦ inv_step hs h)
      (fun _ _ hs hk t h ↦ (lawful_iff hs h).2 (hk t h)) (inv_initial workspace table)

/-- An account with two rows, of which the older names no role. -/
def strangerTable : MemberTable where
  rows := [⟨js "m1", js "u1", js "w1", some (js "owner"), some 0⟩,
    ⟨js "m2", js "u2", js "w1", some (js "billing-viewer"), some 5⟩,
    ⟨js "m3", js "u2", js "w1", some (js "member"), some 10⟩]
  ids := by decide

/-- One call, from its lock to its commit. -/
def promotion : List WriterAction :=
  .start 0 (.changeRole (js "u2") .admin) :: List.replicate 6 (.proceed 0)

/-- The membership that began at 10 is answered as it was, and reads as begun at 5. -/
theorem start_moved :
    (run (step (js "w1")) (initial strangerTable) promotion).map
        (fun s ↦ (s.holder, membersOf s.shared.rows (js "w1"))) =
          some (none, [⟨js "u1", .owner, 0⟩, ⟨js "u2", .admin, 5⟩]) ∧
      ¬ Along (step (js "w1")) (fun s a ↦ ∀ t, step (js "w1") s a = some t →
        Lawful (js "w1") s a t) (initial strangerTable) promotion := by
  have hfirst : (run (step (js "w1")) (initial strangerTable) (promotion.take 6)).isSome := rfl
  refine ⟨rfl, fun h ↦ ?_⟩
  obtain ⟨s, hs⟩ := Option.isSome_iff_exists.1 hfirst
  have hlast : Along (step (js "w1")) (fun s a ↦ ∀ t, step (js "w1") s a = some t →
      Lawful (js "w1") s a t) (initial strangerTable) (promotion.take 6 ++ [.proceed 0]) := h
  have hlaw := hlast.after hs
  obtain rfl := Option.some.inj hs
  obtain ⟨old, since, hbefore, hafter⟩ := (hlaw _ rfl).done _ _ rfl |>.changed _ _ rfl
  have hb : (⟨js "u2", old, since⟩ : Membership) ∈
      [⟨js "u1", .owner, 0⟩, ⟨js "u2", .member, 10⟩] := hbefore
  have ha : (⟨js "u2", .admin, since⟩ : Membership) ∈
      [⟨js "u1", .owner, 0⟩, ⟨js "u2", .admin, 5⟩] := hafter
  have hten : since = 10 := by
    simp only [List.mem_cons, List.not_mem_nil, or_false, Membership.mk.injEq] at hb
    rcases hb with ⟨hid, -⟩ | ⟨-, -, hsince⟩
    · exact absurd hid (by decide)
    · exact hsince
  simp only [List.mem_cons, List.not_mem_nil, or_false, Membership.mk.injEq] at ha
  rcases ha with ⟨hid, -⟩ | ⟨-, -, hsince⟩
  · exact absurd hid (by decide)
  · exact absurd (hten.symm.trans hsince) (by decide)

end WriterSystem

end Counted.Identity
