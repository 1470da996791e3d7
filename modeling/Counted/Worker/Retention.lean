import Counted.Foundations.Paging
import Counted.Projects.Claiming

namespace Counted.Worker

open Foundations Projects Tenancy
open Ingestion (ProjectId)

/-- A claimed project and the plan behind it, as they are stored. -/
structure RetentionRow where
  id : ProjectId
  workspaceId : WorkspaceId
  retentionDays : Option ℤ
  plan : JsString
  paymentState : JsString

structure RetentionTarget where
  project : ProjectId
  workspace : WorkspaceId
  plan : PlanId
  payment : PaymentState
  policy : RetentionPolicy

structure PurgeRequest where
  project : ProjectId
  before : Instant

inductive PurgeOutcome
  | deleted (rows : ℕ)
  | refused (reason : JsString)
  | thrown (detail : JsString)

/-- `cursor` comes off the rows that were read, readable or not. -/
structure RetentionPage where
  targets : List RetentionTarget
  examined : ℕ
  cursor : Option ProjectId
  readable : targets.length ≤ examined

/-- The configuration admits positive integers only. -/
structure RetentionLimits where
  pageSize : ℕ
  maxProjects : ℕ
  pageSize_pos : 0 < pageSize
  maxProjects_pos : 0 < maxProjects

/-- The order of the ids in the database. -/
structure Collation where
  before : ProjectId → ProjectId → Bool
  asymm : ∀ a b, before a b = true → before b a = false

structure ProjectTable (c : Collation) where
  rows : List RetentionRow
  increasing : Increasing (·.id) c.before rows

def planOf (raw : JsString) : Option PlanId :=
  if raw = js "free" then some .free else if raw = js "pro" then some .pro else none

def paymentStateOf (raw : JsString) : Option PaymentState :=
  if raw = js "none" then some .none
  else if raw = js "active" then some .active
  else if raw = js "past_due" then some .pastDue
  else if raw = js "canceled" then some .canceled
  else none

def maxRetentionDays : ℤ := 3650

/-- Whole positive days only. -/
def retentionPolicy (days : ℤ) : Option RetentionPolicy :=
  if days < 1 ∨ days > maxRetentionDays then none else some (.days days.toNat)

/-- A row that cannot be read is skipped, never defaulted. -/
def RetentionRow.toTarget (row : RetentionRow) : Option RetentionTarget :=
  match planOf row.plan, paymentStateOf row.paymentState with
  | some plan, some payment =>
    match row.retentionDays with
    | none => some ⟨row.id, row.workspaceId, plan, payment, .inherit⟩
    | some days => (retentionPolicy days).map (⟨row.id, row.workspaceId, plan, payment, ·⟩)
  | _, _ => none

def daysLong (days : ℕ) : Duration := days * 86400000

/-- The days in force. A project's own number wins outright under a plan without a limit. -/
def effectiveRetentionDays : RetentionPolicy → Option ℕ → Option ℕ
  | .inherit, planDays => planDays
  | .days days, none => some days
  | .days days, some planDays => some (min days planDays)

/-- `none` means keep, never delete now. -/
def projectCutoff (policy : RetentionPolicy) (planDays : Option ℕ) (now : Instant) :
    Option Instant :=
  (effectiveRetentionDays policy planDays).map fun days ↦ now - daysLong days

def planCutoff (entitlement : Entitlement) (now : Instant) : Option Instant :=
  entitlement.limits.retentionDays.map fun days ↦ now - daysLong days

def purgeFor (target : RetentionTarget) (now : Instant) : Option PurgeRequest :=
  let entitlement := Entitlement.resolve target.plan target.payment
  if planCutoff entitlement now = none ∧ target.policy = .inherit then none
  else (projectCutoff target.policy entitlement.limits.retentionDays now).map (⟨target.project, ·⟩)

namespace ProjectTable

variable {c : Collation} (table : ProjectTable c)

def page (after : Option ProjectId) (limit : ℕ) : RetentionPage :=
  let rows := pageAfter (·.id) c.before after limit table.rows
  ⟨rows.filterMap (·.toTarget), rows.length,
    if rows.length < limit then none else rows.getLast?.map (·.id), List.length_filterMap_le _ _⟩

end ProjectTable

/-- A sweep under way, and the purges it has asked for. -/
structure RetentionSweep where
  scanned : ℕ := 0
  unreadable : ℕ := 0
  due : ℕ := 0
  purged : ℕ := 0
  rowsDeleted : ℕ := 0
  failures : ℕ := 0
  after : Option ProjectId := none
  requests : List PurgeRequest := []

inductive RetentionSweepReport
  | unavailable (missing : JsString)
  | swept (s : RetentionSweep)

namespace RetentionSweep

variable (page : Option ProjectId → ℕ → RetentionPage) (purge : PurgeRequest → PurgeOutcome)
  (limits : RetentionLimits) (now : Instant)

def record (s : RetentionSweep) : PurgeOutcome → RetentionSweep
  | .deleted rows => { s with purged := s.purged + 1, rowsDeleted := s.rowsDeleted + rows }
  | .refused _ | .thrown _ => { s with failures := s.failures + 1 }

def visit (s : RetentionSweep) (target : RetentionTarget) : RetentionSweep :=
  match purgeFor target now with
  | none => { s with scanned := s.scanned + 1 }
  | some request =>
    { s with
      scanned := s.scanned + 1
      due := s.due + 1
      requests := s.requests ++ [request] }.record (purge request)

def visitPage (s : RetentionSweep) (p : RetentionPage) : RetentionSweep :=
  p.targets.foldl (visit purge now)
    { s with unreadable := s.unreadable + (p.examined - p.targets.length) }

def limit (s : RetentionSweep) : ℕ :=
  min limits.pageSize (limits.maxProjects - s.scanned - s.unreadable)

/-- The pages of a sweep. Each of them but the last is full, so that `maxProjects` of them are
enough. -/
def walk : ℕ → RetentionSweep → RetentionSweep
  | 0, s => s
  | n + 1, s =>
    if s.scanned + s.unreadable < limits.maxProjects then
      let p := page s.after (s.limit limits)
      match p.cursor with
      | none => s.visitPage purge now p
      | some cursor => walk n { s.visitPage purge now p with after := some cursor }
    else s

end RetentionSweep

/-- `purge` is `none` where no implementation is wired. -/
def enforceRetention (page : Option ProjectId → ℕ → RetentionPage)
    (purge : Option (PurgeRequest → PurgeOutcome)) (limits : RetentionLimits) (now : Instant) :
    RetentionSweepReport :=
  match purge with
  | none => .unavailable (js "EventRetention — deleting a project's rows out of the analytics store is @counted/analytics-adapter-litics' to implement")
  | some purge => .swept (RetentionSweep.walk page purge limits now limits.maxProjects {})

/-- What a sweep asks to purge of some rows. -/
def requestsOf (now : Instant) (rows : List RetentionRow) : List PurgeRequest :=
  (rows.filterMap (·.toTarget)).filterMap (purgeFor · now)

theorem requestsOf_append (now : Instant) (l m : List RetentionRow) :
    requestsOf now (l ++ m) = requestsOf now l ++ requestsOf now m := by
  rw [requestsOf, List.filterMap_append, List.filterMap_append]
  rfl

namespace RetentionSweep

variable {c : Collation} {table : ProjectTable c} {purge : PurgeRequest → PurgeOutcome}
  {limits : RetentionLimits} {now : Instant} {s : RetentionSweep} {k : ℕ}

theorem visit_spec (purge : PurgeRequest → PurgeOutcome) (now : Instant) (s : RetentionSweep)
    (target : RetentionTarget) :
    (s.visit purge now target).scanned = s.scanned + 1 ∧
      (s.visit purge now target).unreadable = s.unreadable ∧
        (s.visit purge now target).requests = s.requests ++ (purgeFor target now).toList := by
  rw [visit]
  cases purgeFor target now with
  | none => exact ⟨rfl, rfl, (List.append_nil _).symm⟩
  | some request =>
    dsimp only
    cases purge request <;> exact ⟨rfl, rfl, rfl⟩

theorem foldl_visit_spec (purge : PurgeRequest → PurgeOutcome) (now : Instant) (s : RetentionSweep)
    (targets : List RetentionTarget) :
    (targets.foldl (visit purge now) s).scanned = s.scanned + targets.length ∧
      (targets.foldl (visit purge now) s).unreadable = s.unreadable ∧
        (targets.foldl (visit purge now) s).requests =
          s.requests ++ targets.filterMap (purgeFor · now) := by
  induction targets generalizing s with
  | nil => exact ⟨rfl, rfl, (List.append_nil _).symm⟩
  | cons target targets ih =>
    obtain ⟨h₁, h₂, h₃⟩ := ih (s.visit purge now target)
    obtain ⟨v₁, v₂, v₃⟩ := visit_spec purge now s target
    refine ⟨?_, h₂.trans v₂, ?_⟩
    · rw [List.foldl_cons, h₁, v₁, List.length_cons]
      omega
    · rw [List.foldl_cons, h₃, v₃, List.append_assoc]
      cases hp : purgeFor target now with
      | none =>
        rw [List.filterMap_cons, hp]
        rfl
      | some request =>
        rw [List.filterMap_cons, hp]
        rfl

/-- The sweep has been through the first `k` rows of the table. -/
structure Walked (table : ProjectTable c) (now : Instant) (k : ℕ) (s : RetentionSweep) : Prop where
  examined : s.scanned + s.unreadable = k
  after : s.after = (table.rows.take k).getLast?.map (·.id)
  requests : s.requests = requestsOf now (table.rows.take k)

theorem walked_initial : Walked table now 0 {} := ⟨rfl, rfl, rfl⟩

theorem limit_pos (h : s.scanned + s.unreadable < limits.maxProjects) : 0 < s.limit limits := by
  have hp := limits.pageSize_pos
  rw [limit]
  omega

theorem limit_le (limits : RetentionLimits) (s : RetentionSweep) : s.limit limits ≤ limits.maxProjects - s.scanned - s.unreadable :=
  min_le_right _ _

/-- A page is the last one, and then the ceiling is past the end of the table, or full. -/
theorem walked_page (purge : PurgeRequest → PurgeOutcome) (h : Walked table now k s) (hk : k < limits.maxProjects) :
    let p := table.page s.after (s.limit limits)
    p.cursor = none ∧ (s.visitPage purge now p).requests =
        requestsOf now (table.rows.take limits.maxProjects) ∨
      ∃ cursor, p.cursor = some cursor ∧ ∃ k', k < k' ∧ k' ≤ limits.maxProjects ∧
        Walked table now k' { s.visitPage purge now p with after := some cursor } := by
  intro p
  have hpos := limit_pos (h.examined.trans_lt hk)
  have hle := limit_le limits s
  have hex := h.examined
  set rows := (table.rows.drop k).take (s.limit limits) with hrows
  have hpage : pageAfter (·.id) c.before s.after (s.limit limits) table.rows = rows := by
    rw [h.after, pageAfter_eq c.asymm table.increasing]
  have hcursor : p.cursor =
      if rows.length < s.limit limits then none else rows.getLast?.map (·.id) := by
    rw [← hpage]
    rfl
  have htargets : p.targets = rows.filterMap (·.toTarget) := by
    rw [← hpage]
    rfl
  have hexamined : p.examined = rows.length := by
    rw [← hpage]
    rfl
  obtain ⟨hs, hu, hr⟩ := foldl_visit_spec purge now
    { s with unreadable := s.unreadable + (p.examined - p.targets.length) } p.targets
  have htake : table.rows.take (k + rows.length) = table.rows.take k ++ rows := by
    rw [List.take_add]
    congr 1
    exact (List.prefix_iff_eq_take.1 (List.take_prefix _ _)).symm
  have hreq : (s.visitPage purge now p).requests =
      requestsOf now (table.rows.take (k + rows.length)) := by
    rw [htake, requestsOf_append, ← h.requests, visitPage, hr, htargets]
    rfl
  have hlen : rows.length = min (s.limit limits) (table.rows.length - k) := by
    rw [hrows, List.length_take, List.length_drop]
  by_cases hshort : rows.length < s.limit limits
  · left
    refine ⟨hcursor.trans (if_pos hshort), ?_⟩
    rw [hreq, List.take_of_length_le (by omega), List.take_of_length_le (by omega)]
  · right
    have hne : rows ≠ [] := by
      intro he
      rw [he, List.length_nil] at hshort
      omega
    rw [if_neg hshort, List.getLast?_eq_some_getLast hne] at hcursor
    refine ⟨_, hcursor, k + rows.length, by omega, by omega, ?_, ?_, hreq⟩
    · have hread := p.readable
      change (s.visitPage purge now p).scanned + (s.visitPage purge now p).unreadable = _
      rw [visitPage, hs, hu, ← hexamined]
      dsimp only
      omega
    · rw [htake, List.getLast?_append, List.getLast?_eq_some_getLast hne]
      rfl

theorem walk_requests (n : ℕ) (h : Walked table now k s) (hk : k ≤ limits.maxProjects)
    (hn : limits.maxProjects ≤ k + n) : (walk table.page purge limits now n s).requests =
      requestsOf now (table.rows.take limits.maxProjects) := by
  induction n generalizing s k with
  | zero =>
    obtain rfl : k = limits.maxProjects := by omega
    exact h.requests
  | succ n ih =>
    rw [walk]
    have hex := h.examined
    split_ifs with hlt
    · rcases walked_page purge h (hex ▸ hlt) with ⟨hc, hr⟩ | ⟨cursor, hc, k', hk', hle, hw⟩
      · dsimp only
        rw [hc]
        exact hr
      · dsimp only
        rw [hc]
        exact ih hw hle (by omega)
    · obtain rfl : k = limits.maxProjects := by omega
      exact h.requests

/-- More turns than `maxProjects` change nothing: the loop has ended by then. -/
theorem walk_enough (n : ℕ) (h : Walked table now k s) (hn : limits.maxProjects ≤ k + n) (m : ℕ) :
    walk table.page purge limits now (n + m) s = walk table.page purge limits now n s := by
  induction n generalizing s k with
  | zero =>
    have hex := h.examined
    cases m with
    | zero => rfl
    | succ m =>
      have hlt : ¬ s.scanned + s.unreadable < limits.maxProjects := by omega
      simp only [walk, if_neg hlt]
  | succ n ih =>
    rw [Nat.succ_add, walk, walk]
    have hex := h.examined
    split_ifs with hlt
    · rcases walked_page purge h (hex ▸ hlt) with ⟨hc, -⟩ | ⟨cursor, hc, k', hk', -, hw⟩
      · dsimp only
        rw [hc]
      · dsimp only
        rw [hc]
        exact ih hw (by omega)
    · rfl

end RetentionSweep

/-- The smaller of what the plan and the project grant. `none` keeps everything. -/
def RetentionTarget.keeps (target : RetentionTarget) : Option ℕ :=
  match (Entitlement.resolve target.plan target.payment).limits.retentionDays,
    target.policy.pinned with
  | none, own => own
  | some days, none => some days
  | some days, some own => some (min days own)

def RetentionRow.keeps (row : RetentionRow) : Option ℕ := row.toTarget.bind (·.keeps)

theorem purgeFor_eq (target : RetentionTarget) (now : Instant) : purgeFor target now =
    target.keeps.map (fun days ↦ ⟨target.project, now - daysLong days⟩) := by
  rw [purgeFor, planCutoff, projectCutoff, RetentionTarget.keeps]
  cases (Entitlement.resolve target.plan target.payment).limits.retentionDays with
  | none =>
    cases target.policy with
    | inherit => rfl
    | days own => rfl
  | some days =>
    cases target.policy with
    | inherit => rfl
    | days own =>
      rw [if_neg (by simp)]
      simp only [effectiveRetentionDays, RetentionPolicy.pinned, min_comm own days]
      rfl

theorem toTarget_project {row : RetentionRow} {target : RetentionTarget}
    (h : row.toTarget = some target) : target.project = row.id := by
  rw [RetentionRow.toTarget] at h
  cases hp : planOf row.plan with
  | none =>
    rw [hp] at h
    cases h
  | some plan =>
    cases hs : paymentStateOf row.paymentState with
    | none =>
      rw [hp, hs] at h
      cases h
    | some payment =>
      rw [hp, hs] at h
      cases hd : row.retentionDays with
      | none =>
        rw [hd] at h
        exact Option.some.inj h ▸ rfl
      | some days =>
        rw [hd] at h
        obtain ⟨policy, -, rfl⟩ := Option.map_eq_some_iff.1 h
        rfl

theorem requestsOf_cons (now : Instant) (row : RetentionRow) (rows : List RetentionRow) :
    requestsOf now (row :: rows) =
      (row.keeps.map (fun days ↦ (⟨row.id, now - daysLong days⟩ : PurgeRequest))).toList ++
        requestsOf now rows := by
  rw [requestsOf, List.filterMap_cons, RetentionRow.keeps]
  cases ht : row.toTarget with
  | none => rfl
  | some target =>
    dsimp only
    rw [List.filterMap_cons, purgeFor_eq, Option.bind_some, toTarget_project ht]
    cases target.keeps <;> rfl

theorem mem_requestsOf {now : Instant} {rows : List RetentionRow} {r : PurgeRequest} :
    r ∈ requestsOf now rows ↔
      ∃ row ∈ rows, ∃ days ∈ row.keeps, r = ⟨row.id, now - daysLong days⟩ := by
  induction rows with
  | nil => simp [requestsOf]
  | cons row rows ih =>
    rw [requestsOf_cons, List.mem_append, ih, List.exists_mem_cons_iff, Option.mem_toList,
      Option.map_eq_some_iff]
    simp only [eq_comm, Option.mem_def]

theorem requestsOf_sublist (now : Instant) (rows : List RetentionRow) :
    ((requestsOf now rows).map (·.project)).Sublist (rows.map (·.id)) := by
  induction rows with
  | nil => exact .slnil
  | cons row rows ih =>
    rw [requestsOf_cons, List.map_append, List.map_cons]
    cases row.keeps with
    | none => exact ih.cons _
    | some days => exact ih.cons_cons _

def RetentionSweepReport.requests : RetentionSweepReport → List PurgeRequest
  | .unavailable _ => []
  | .swept s => s.requests

section Sweeps

variable {c : Collation} (table : ProjectTable c) (limits : RetentionLimits) (now : ℕ → Instant)
  (purge : ℕ → PurgeRequest → PurgeOutcome)

/-- What the `n`th sweep asks to purge. -/
def requestsAt (n : ℕ) : List PurgeRequest :=
  (enforceRetention table.page (some (purge n)) limits (now n)).requests

/-- Every sweep ends; one of them reaches each project that has a cutoff; none attempts a project
twice, or deletes what the plan or the project itself still keeps. -/
structure RetentionEnforced : Prop where
  returns : ∀ n m, RetentionSweep.walk table.page (purge n) limits (now n) (limits.maxProjects + m) {} =
    RetentionSweep.walk table.page (purge n) limits (now n) limits.maxProjects {}
  reached : ∀ row ∈ table.rows, row.keeps.isSome = true →
    ∃ n, ∃ r ∈ requestsAt table limits now purge n, r.project = row.id
  once : ∀ n, ((requestsAt table limits now purge n).map (·.project)).Nodup
  cutoff : ∀ n, ∀ r ∈ requestsAt table limits now purge n, ∃ row ∈ table.rows,
    row.id = r.project ∧ ∃ days ∈ row.keeps, r.before ≤ now n - daysLong days

theorem requestsAt_eq (n : ℕ) : requestsAt table limits now purge n =
    requestsOf (now n) (table.rows.take limits.maxProjects) :=
  RetentionSweep.walk_requests limits.maxProjects RetentionSweep.walked_initial (Nat.zero_le _)
    (Nat.zero_add _).ge

variable {table}

theorem attempted_iff {row : RetentionRow} (hr : row ∈ table.rows) (n : ℕ) :
    (∃ r ∈ requestsAt table limits now purge n, r.project = row.id) ↔
      row ∈ table.rows.take limits.maxProjects ∧ row.keeps.isSome = true := by
  rw [requestsAt_eq]
  constructor
  · rintro ⟨r, hm, hid⟩
    obtain ⟨row', hrow', days, hd, rfl⟩ := mem_requestsOf.1 hm
    obtain rfl := List.inj_on_of_nodup_map (table.increasing.nodup c.asymm)
      (List.mem_of_mem_take hrow') hr hid
    exact ⟨hrow', Option.isSome_iff_exists.2 ⟨days, hd⟩⟩
  · rintro ⟨hm, hk⟩
    obtain ⟨days, hd⟩ := Option.isSome_iff_exists.1 hk
    exact ⟨_, mem_requestsOf.2 ⟨row, hm, days, hd, rfl⟩, rfl⟩

variable (table)

/-- Retention is enforced exactly where fewer than `maxProjects` claimed projects, readable or not,
precede each project that has a cutoff. -/
theorem retention_enforced_iff : RetentionEnforced table limits now purge ↔
    ∀ row ∈ table.rows, row.keeps.isSome = true →
      (table.rows.filter (fun r ↦ c.before r.id row.id)).length < limits.maxProjects := by
  constructor
  · intro h row hr hk
    obtain ⟨n, hn⟩ := h.reached row hr hk
    exact (table.increasing.mem_take_iff c.asymm hr).1 ((attempted_iff limits now purge hr n).1 hn).1
  · intro h
    constructor
    · intro n m
      exact RetentionSweep.walk_enough limits.maxProjects RetentionSweep.walked_initial
        (Nat.zero_add _).ge m
    · intro row hr hk
      exact ⟨0, (attempted_iff limits now purge hr 0).2
        ⟨(table.increasing.mem_take_iff c.asymm hr).2 (h row hr hk), hk⟩⟩
    · intro n
      rw [requestsAt_eq]
      exact (table.increasing.nodup c.asymm).sublist ((requestsOf_sublist _ _).trans
        ((List.take_sublist _ _).map _))
    · intro n r hr
      rw [requestsAt_eq] at hr
      obtain ⟨row, hrow, days, hd, rfl⟩ := mem_requestsOf.1 hr
      exact ⟨row, List.mem_of_mem_take hrow, rfl, days, hd, le_rfl⟩

end Sweeps

/-- Ids in the order of their code units. -/
def codeUnits : Collation where
  before := fun a b ↦ decide (a < b)
  asymm := by
    intro a b h
    rw [decide_eq_true_eq] at h
    exact decide_eq_false (List.lt_asymm h)

def freeRow (id : ProjectId) : RetentionRow := ⟨id, js "w", none, js "free", js "none"⟩

def twoProjects : ProjectTable codeUnits where
  rows := [freeRow (js "pr_1"), freeRow (js "pr_2")]
  increasing := by
    simp [Increasing, codeUnits]
    decide

/-- With a ceiling of one project a sweep never gets to the second. -/
theorem second_never_reached :
    (∀ now purge n, requestsAt twoProjects ⟨1, 1, Nat.one_pos, Nat.one_pos⟩ now purge n =
      [⟨js "pr_1", now n - daysLong 180⟩]) ∧
    ¬ RetentionEnforced twoProjects ⟨1, 1, Nat.one_pos, Nat.one_pos⟩ (fun _ ↦ 0)
      (fun _ _ ↦ .deleted 0) := by
  have hr (now : ℕ → Instant) (purge : ℕ → PurgeRequest → PurgeOutcome) (n : ℕ) :
      requestsAt twoProjects ⟨1, 1, Nat.one_pos, Nat.one_pos⟩ now purge n =
        [⟨js "pr_1", now n - daysLong 180⟩] := by
    rw [requestsAt_eq]
    rfl
  refine ⟨hr, fun h ↦ ?_⟩
  obtain ⟨n, r, hm, hid⟩ := h.reached (freeRow (js "pr_2"))
    (List.mem_cons_of_mem _ List.mem_cons_self) rfl
  rw [hr, List.mem_singleton] at hm
  subst hm
  revert hid
  decide

end Counted.Worker
