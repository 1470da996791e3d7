import Counted.Tenancy.Billing
import Counted.Tenancy.WorkspaceRuns

namespace Counted.Worker

open Foundations Tenancy

/-- The columns of a row of `workspaces`. -/
structure WorkspaceRow where
  name : JsString
  plan : PlanId
  payment : PaymentState
  deriving DecidableEq

/-- The committed rows of one organization. -/
structure OrgRows where
  workspace : Option WorkspaceRow
  subscription : Option Subscription
  deriving DecidableEq

def snapshot (w : Workspace) : WorkspaceRow := ⟨w.name, w.plan, w.payment⟩

/-- The register of projects is not among the columns, and nothing here reads it. -/
def WorkspaceRow.rehydrate (row : WorkspaceRow) (id : WorkspaceId) : Workspace :=
  ⟨id, row.name, row.plan, row.payment, []⟩

/-- The subscription an event is about, where it is that of the workspace. -/
def OrgRows.locate (rows : OrgRows) (id : WorkspaceId) (d : Delivery) (event : BillingEvent) :
    Option Subscription :=
  (rows.subscription.filter (fun s ↦ s.subscription = some event.subscription)).or
    ((rows.subscription.filter (fun s ↦ event.customer.any (fun c ↦ s.customer = some c))).or
      (if d.workspace = some id then
        some (rows.subscription.getD (Subscription.none id d.at'))
      else none))

/-- An organization as the reconciler reads it, and whether it is to repair. -/
structure RepairRequest where
  name : JsString
  owner : Option AccountId
  repair : Bool
  now : Instant

/-- The next statement of a reconcile run or of a billing delivery, with what it has read and saved.
`seen` counts the commits there had been when the run found no workspace. -/
inductive OrgProcess
  | look (r : RepairRequest)
  | find (r : RepairRequest) (owner : AccountId)
  | present
  | saveWorkspace (w : WorkspaceRow) (now : Instant) (seen : ℕ)
  | saveSubscription (w : WorkspaceRow) (now : Instant) (seen : ℕ)
  | commitRepair (w : WorkspaceRow) (now : Instant) (seen : ℕ)
  | locate (d : Delivery)
  | findLocked (d : Delivery) (event : BillingEvent) (current : Subscription)
  | charge (c : Subscription) (w : WorkspaceRow)
  | adopt (c : Subscription) (w : WorkspaceRow)
  | commitBilling (c : Subscription) (w : WorkspaceRow)
  | ended

/-- The sign-up that makes the organization. Its two saves are not in a transaction, and the
organization is seen by others once it commits. -/
inductive SignUpPoint
  | unstarted
  | saveWorkspace (w : WorkspaceRow) (at' : Instant)
  | saveSubscription (at' : Instant) (seen : ℕ)
  | commit
  | settled

structure OrgSystem where
  rows : OrgRows := ⟨none, none⟩
  visible : Bool
  signUp : SignUpPoint := .unstarted
  workspaceLock : Option ℕ := none
  subscriptionLock : Option ℕ := none
  process : ℕ → Option OrgProcess := fun _ ↦ none
  -- the commits that wrote either row, and what those that provision found in place of theirs
  commits : ℕ := 0
  workspacesFound : List (Option WorkspaceRow) := []
  subscriptionsFound : List (Option Subscription) := []

inductive OrgAction
  | reconcile (i : ℕ) (r : RepairRequest)
  | deliver (i : ℕ) (d : Delivery)
  | proceed (i : ℕ)
  | fail (i : ℕ)
  | signUp (name : JsString) (founder : AccountId) (at' : Instant)
  | signUpProceeds
  | signUpFails

namespace OrgSystem

variable (id : WorkspaceId) (s : OrgSystem) (i : ℕ)

def set (p : OrgProcess) : OrgSystem := { s with process := Function.update s.process i (some p) }

def release (lock : Option ℕ) : Option ℕ := if lock = some i then none else lock

/-- The end of a transaction: its locks go. -/
def finish : OrgSystem :=
  { s with
    workspaceLock := release i s.workspaceLock
    subscriptionLock := release i s.subscriptionLock }.set i .ended

/-- A row is locked by one transaction at a time. -/
def free (lock : Option ℕ) : Bool := lock = none ∨ lock = some i

def lockWorkspace (p : OrgProcess) : Option OrgSystem :=
  if free i s.workspaceLock then some ({ s with workspaceLock := some i }.set i p) else none

def lockSubscription (p : OrgProcess) : Option OrgSystem :=
  if free i s.subscriptionLock then some ({ s with subscriptionLock := some i }.set i p) else none

/-- The statement a process stands at. A lock that is taken makes it wait. -/
def proceed : OrgProcess → Option OrgSystem
  | .look r =>
    if s.rows.workspace.isSome then some (s.finish i)
    else
      match r.repair, r.owner with
      | true, some owner => some (s.set i (.find r owner))
      | _, _ => some (s.finish i)
  | .find r owner =>
    match s.rows.workspace with
    | some _ => s.lockWorkspace i .present
    | none =>
      -- FOR UPDATE locks nothing where there is no row
      match openWorkspace id r.name owner r.now with
      | .error _ => some (s.finish i)
      | .ok (w, _) => some (s.set i (.saveWorkspace (snapshot w) r.now s.commits))
  | .present => some (s.finish i)
  | .saveWorkspace w now seen => s.lockWorkspace i (.saveSubscription w now seen)
  | .saveSubscription w now seen => s.lockSubscription i (.commitRepair w now seen)
  | .commitRepair w now _ => some ({ s with
      rows := ⟨some w, some (Subscription.none id now)⟩
      commits := s.commits + 1
      workspacesFound := s.workspacesFound ++ [s.rows.workspace]
      subscriptionsFound := s.subscriptionsFound ++ [s.rows.subscription] }.finish i)
  | .locate d =>
    match d.event with
    | none => some (s.finish i)
    | some event =>
      match s.rows.locate id d event with
      | none => some (s.finish i)
      | some current => some (s.set i (.findLocked d event current))
  | .findLocked d event current =>
    match s.rows.workspace with
    | none => some (s.finish i)
    | some w =>
      let next := (applyBillingEvent current event d.at').subscription
      s.lockWorkspace i (.charge next (snapshot
        ((w.rehydrate id).applyStanding next.plan next.payment d.seats d.at').workspace))
  | .charge c w => s.lockSubscription i (.adopt c w)
  | .adopt c w => s.lockWorkspace i (.commitBilling c w)
  | .commitBilling c w => some ({ s with
      rows := ⟨some w, some c⟩
      commits := s.commits + 1 }.finish i)
  | .ended => none

def signUpProceeds : Option OrgSystem :=
  match s.signUp with
  | .saveWorkspace w at' =>
    if s.workspaceLock = none then
      some { s with
        rows := { s.rows with workspace := some w }
        commits := s.commits + 1
        workspacesFound := s.workspacesFound ++ [s.rows.workspace]
        signUp := .saveSubscription at' (s.commits + 1) }
    else none
  | .saveSubscription at' _ =>
    if s.subscriptionLock = none then
      some { s with
        rows := { s.rows with subscription := some (Subscription.none id at') }
        commits := s.commits + 1
        subscriptionsFound := s.subscriptionsFound ++ [s.rows.subscription]
        signUp := .commit }
    else none
  | .commit => some { s with signUp := .settled, visible := true }
  | .unstarted | .settled => none

def step : OrgAction → Option OrgSystem
  | .reconcile i r =>
    if s.visible && (s.process i).isNone then some (s.set i (.look r)) else none
  | .deliver i d => if (s.process i).isNone then some (s.set i (.locate d)) else none
  | .proceed i => (s.process i).bind (s.proceed id i)
  | .fail i => if (s.process i).isSome then some (s.finish i) else none
  | .signUp name founder at' =>
    match s.visible, s.signUp with
    | false, .unstarted =>
      match openWorkspace id name founder at' with
      | .error _ => some { s with signUp := .settled }
      | .ok (w, _) => some { s with signUp := .saveWorkspace (snapshot w) at' }
    | _, _ => none
  | .signUpProceeds => s.signUpProceeds id
  | .signUpFails => some { s with signUp := .settled }

/-- The workspace and its subscription are created at most once, and what creates them overwrites
nothing, a subscription that has been paid for included. -/
structure ProvisionedOnce (s : OrgSystem) : Prop where
  workspaces : s.workspacesFound.length ≤ 1
  subscriptions : s.subscriptionsFound.length ≤ 1
  newWorkspace : ∀ w ∈ s.workspacesFound, w = none
  newSubscription : ∀ c ∈ s.subscriptionsFound, c = none

/-- The commits that a run had seen when it looked, where the action commits what it provisions.
The id of a sign-up has just been minted. -/
def lastSeen : OrgAction → Option ℕ
  | .proceed i =>
    match s.process i with
    | some (.commitRepair _ _ seen) => some seen
    | _ => none
  | .signUpProceeds =>
    match s.signUp with
    | .saveWorkspace _ _ => some 0
    | .saveSubscription _ seen => some seen
    | _ => none
  | _ => none

/-- What is provisioned is committed only if nothing else has been since the run looked. -/
def Undisturbed (a : OrgAction) : Prop :=
  ∀ seen t, s.lastSeen a = some seen → s.step id a = some t → s.commits = seen

/-- What a process knows of the commits: a run past its check has seen none, and a billing delivery
past its own has seen some. -/
def Stands (commits : ℕ) : OrgProcess → Prop
  | .saveWorkspace _ _ seen | .saveSubscription _ _ seen | .commitRepair _ _ seen => seen = 0
  | .charge .. | .adopt .. | .commitBilling .. => commits ≠ 0
  | .look _ | .find .. | .present | .locate _ | .findLocked .. | .ended => True

structure Inv (s : OrgSystem) : Prop where
  absent : s.commits = 0 → s.rows = ⟨none, none⟩
  present : s.commits ≠ 0 → s.rows.workspace.isSome = true
  workspaces : s.workspacesFound ≠ [] → s.commits ≠ 0
  subscriptions : s.subscriptionsFound ≠ [] → s.rows.subscription.isSome = true
  process : ∀ i p, s.process i = some p → Stands s.commits p
  signUp : ∀ at' seen, s.signUp = .saveSubscription at' seen → 0 < seen ∧ seen ≤ s.commits ∧
    (s.commits ≠ seen → s.rows.subscription.isSome = true) ∧
      ((∀ w ∈ s.workspacesFound, w = none) → s.commits = seen → s.rows.subscription = none)

variable {id s i} {t : OrgSystem} {p : OrgProcess}

theorem Stands.mono {m n : ℕ} (h : Stands m p) (hmn : m ≤ n) : Stands n p := by
  cases p <;> first | exact h | exact fun hn ↦ h (by omega)

/-- A step that commits nothing. -/
structure Quiet (s t : OrgSystem) : Prop where
  rows : t.rows = s.rows
  commits : t.commits = s.commits
  workspaces : t.workspacesFound = s.workspacesFound
  subscriptions : t.subscriptionsFound = s.subscriptionsFound
  signUp : t.signUp = s.signUp

theorem quiet_refl (s : OrgSystem) : Quiet s s := ⟨rfl, rfl, rfl, rfl, rfl⟩

theorem lockWorkspace_some (h : s.lockWorkspace i p = some t) :
    Quiet s t ∧ t.process = Function.update s.process i (some p) := by
  rw [lockWorkspace] at h
  split_ifs at h
  exact Option.some.inj h ▸ ⟨⟨rfl, rfl, rfl, rfl, rfl⟩, rfl⟩

theorem lockSubscription_some (h : s.lockSubscription i p = some t) :
    Quiet s t ∧ t.process = Function.update s.process i (some p) := by
  rw [lockSubscription] at h
  split_ifs at h
  exact Option.some.inj h ▸ ⟨⟨rfl, rfl, rfl, rfl, rfl⟩, rfl⟩

def repairs : OrgProcess → Bool
  | .commitRepair .. => true
  | _ => false

/-- What a statement of a process can do: go on without a commit, or commit. -/
inductive Proceeds (id : WorkspaceId) (s : OrgSystem) (i : ℕ) (t : OrgSystem) : OrgProcess → Prop
  | quiet {p : OrgProcess} (q : OrgProcess) : Quiet s t →
    t.process = Function.update s.process i (some q) → Stands s.commits q → repairs p = false →
      Proceeds id s i t p
  | repaired (w : WorkspaceRow) (now : Instant) (seen : ℕ) : t = { s with
      rows := ⟨some w, some (Subscription.none id now)⟩
      commits := s.commits + 1
      workspacesFound := s.workspacesFound ++ [s.rows.workspace]
      subscriptionsFound := s.subscriptionsFound ++ [s.rows.subscription] }.finish i →
    Proceeds id s i t (.commitRepair w now seen)
  | billed (c : Subscription) (w : WorkspaceRow) :
    t = { s with rows := ⟨some w, some c⟩, commits := s.commits + 1 }.finish i →
      Proceeds id s i t (.commitBilling c w)

theorem proceeds_set {q : OrgProcess} (h : t = s.set i q) (hq : Stands s.commits q)
    (hp : repairs p = false) : Proceeds id s i t p :=
  .quiet q (h ▸ ⟨rfl, rfl, rfl, rfl, rfl⟩) (h ▸ rfl) hq hp

theorem proceeds_finish (h : t = s.finish i) (hp : repairs p = false) : Proceeds id s i t p :=
  .quiet .ended (h ▸ ⟨rfl, rfl, rfl, rfl, rfl⟩) (h ▸ rfl) trivial hp

theorem proceeds_of (hs : s.Inv) (hp : s.process i = some p) (h : s.proceed id i p = some t) :
    Proceeds id s i t p := by
  have hst := hs.process i p hp
  cases p with
  | look r =>
    rw [proceed] at h
    split_ifs at h
    · exact proceeds_finish (Option.some.inj h).symm rfl
    · cases hr : r.repair with
      | false =>
        rw [hr] at h
        exact proceeds_finish (Option.some.inj h).symm rfl
      | true =>
        cases ho : r.owner with
        | none =>
          rw [hr, ho] at h
          exact proceeds_finish (Option.some.inj h).symm rfl
        | some owner =>
          rw [hr, ho] at h
          exact proceeds_set (Option.some.inj h).symm trivial rfl
  | find r owner =>
    rw [proceed] at h
    cases hw : s.rows.workspace with
    | some w =>
      rw [hw] at h
      obtain ⟨hq, ht⟩ := lockWorkspace_some h
      exact .quiet .present hq ht trivial rfl
    | none =>
      rw [hw] at h
      dsimp only at h
      cases ho : openWorkspace id r.name owner r.now with
      | error e =>
        rw [ho] at h
        exact proceeds_finish (Option.some.inj h).symm rfl
      | ok opened =>
        rw [ho] at h
        -- no row, so that nothing has been committed
        have hz : s.commits = 0 := by
          by_contra hn
          have hsome := hs.present hn
          rw [hw] at hsome
          cases hsome
        exact proceeds_set (Option.some.inj h).symm hz rfl
  | present => exact proceeds_finish (Option.some.inj h).symm rfl
  | saveWorkspace w now seen =>
    obtain ⟨hq, ht⟩ := lockWorkspace_some h
    exact .quiet _ hq ht hst rfl
  | saveSubscription w now seen =>
    obtain ⟨hq, ht⟩ := lockSubscription_some h
    exact .quiet _ hq ht hst rfl
  | commitRepair w now seen => exact .repaired w now seen (Option.some.inj h).symm
  | locate d =>
    rw [proceed] at h
    cases he : d.event with
    | none =>
      rw [he] at h
      exact proceeds_finish (Option.some.inj h).symm rfl
    | some event =>
      rw [he] at h
      dsimp only at h
      cases hl : s.rows.locate id d event with
      | none =>
        rw [hl] at h
        exact proceeds_finish (Option.some.inj h).symm rfl
      | some current =>
        rw [hl] at h
        exact proceeds_set (Option.some.inj h).symm trivial rfl
  | findLocked d event current =>
    rw [proceed] at h
    cases hw : s.rows.workspace with
    | none =>
      rw [hw] at h
      exact proceeds_finish (Option.some.inj h).symm rfl
    | some w =>
      rw [hw] at h
      obtain ⟨hq, ht⟩ := lockWorkspace_some h
      refine .quiet _ hq ht (fun hz ↦ ?_) rfl
      rw [hs.absent hz] at hw
      cases hw
  | charge c w =>
    obtain ⟨hq, ht⟩ := lockSubscription_some h
    exact .quiet _ hq ht hst rfl
  | adopt c w =>
    obtain ⟨hq, ht⟩ := lockWorkspace_some h
    exact .quiet _ hq ht hst rfl
  | commitBilling c w => exact .billed c w (Option.some.inj h).symm
  | ended => cases h

theorem stands_update (hs : s.Inv) {q : OrgProcess} {n : ℕ} (hn : s.commits ≤ n) (hq : Stands n q) :
    ∀ j p, Function.update s.process i (some q) j = some p → Stands n p := by
  intro j p hp
  by_cases hj : j = i
  · rw [hj, Function.update_self] at hp
    exact Option.some.inj hp ▸ hq
  · rw [Function.update_of_ne hj] at hp
    exact (hs.process j p hp).mono hn

theorem Inv.quiet (hs : s.Inv) (hq : Quiet s t)
    (hp : ∀ j p, t.process j = some p → Stands s.commits p) : t.Inv := by
  constructor
  · rw [hq.commits, hq.rows]
    exact hs.absent
  · rw [hq.commits, hq.rows]
    exact hs.present
  · rw [hq.commits, hq.workspaces]
    exact hs.workspaces
  · rw [hq.subscriptions, hq.rows]
    exact hs.subscriptions
  · rw [hq.commits]
    exact hp
  · rw [hq.signUp, hq.commits, hq.rows, hq.workspaces]
    exact hs.signUp

/-- A transaction that writes both rows. -/
theorem Inv.commit (hs : s.Inv) {w : WorkspaceRow} {c : Subscription}
    (hr : t.rows = ⟨some w, some c⟩) (hc : t.commits = s.commits + 1)
    (hp : t.process = Function.update s.process i (some .ended)) (hu : t.signUp = s.signUp) :
    t.Inv := by
  constructor
  · intro hz
    omega
  · intro _
    rw [hr]
    rfl
  · intro _
    omega
  · intro _
    rw [hr]
    rfl
  · rw [hp, hc]
    exact stands_update hs (Nat.le_succ _) trivial
  · intro at' seen h
    obtain ⟨hpos, hle, -⟩ := hs.signUp at' seen (hu ▸ h)
    refine ⟨hpos, by omega, fun _ ↦ by rw [hr]; rfl, fun _ he ↦ by omega⟩

theorem Inv.signUpProceeds (hs : s.Inv) (h : s.signUpProceeds id = some t) : t.Inv := by
  rw [OrgSystem.signUpProceeds] at h
  cases hu : s.signUp with
  | unstarted =>
    rw [hu] at h
    cases h
  | settled =>
    rw [hu] at h
    cases h
  | commit =>
    rw [hu] at h
    obtain rfl := Option.some.inj h
    exact ⟨hs.absent, hs.present, hs.workspaces, hs.subscriptions, hs.process,
      fun at' seen he ↦ by cases he⟩
  | saveWorkspace w at' =>
    rw [hu] at h
    dsimp only at h
    split_ifs at h
    obtain rfl := Option.some.inj h
    refine ⟨fun hz ↦ absurd hz (Nat.succ_ne_zero _), fun _ ↦ rfl, fun _ ↦ Nat.succ_ne_zero _,
      hs.subscriptions, fun i p hp ↦ (hs.process i p hp).mono (Nat.le_succ _), ?_⟩
    intro at'' seen he
    obtain ⟨-, rfl⟩ := SignUpPoint.saveSubscription.inj he
    refine ⟨Nat.succ_pos _, le_rfl, fun hn ↦ absurd rfl hn, fun hall _ ↦ ?_⟩
    -- where the row was new, nothing had been committed
    have hw : s.rows.workspace = none := hall _ (List.mem_append_right _ (List.mem_singleton.2 rfl))
    have hz : s.commits = 0 := by
      by_contra hn
      have hsome := hs.present hn
      rw [hw] at hsome
      cases hsome
    exact congrArg OrgRows.subscription (hs.absent hz)
  | saveSubscription at' seen =>
    rw [hu] at h
    dsimp only at h
    split_ifs at h
    obtain rfl := Option.some.inj h
    refine ⟨fun hz ↦ absurd hz (Nat.succ_ne_zero _), fun _ ↦ ?_, fun _ ↦ Nat.succ_ne_zero _,
      fun _ ↦ rfl, fun i p hp ↦ (hs.process i p hp).mono (Nat.le_succ _),
      fun at'' seen he ↦ by cases he⟩
    obtain ⟨hpos, hle, -⟩ := hs.signUp at' seen hu
    exact hs.present (by omega)

theorem inv_initial (orphan : Bool) : Inv { visible := orphan } := by
  refine ⟨fun _ ↦ rfl, fun h ↦ absurd rfl h, fun h ↦ absurd rfl h, fun h ↦ absurd rfl h, ?_, ?_⟩
  · intro i p h
    cases h
  · intro at' seen h
    cases h

theorem step_inv {a : OrgAction} (hs : s.Inv) (h : s.step id a = some t) : t.Inv := by
  cases a with
  | reconcile i r =>
    rw [step] at h
    split_ifs at h
    obtain rfl := Option.some.inj h
    exact hs.quiet ⟨rfl, rfl, rfl, rfl, rfl⟩ (stands_update hs le_rfl trivial)
  | deliver i d =>
    rw [step] at h
    split_ifs at h
    obtain rfl := Option.some.inj h
    exact hs.quiet ⟨rfl, rfl, rfl, rfl, rfl⟩ (stands_update hs le_rfl trivial)
  | proceed i =>
    obtain ⟨p, hp, h⟩ := Option.bind_eq_some_iff.1 h
    cases proceeds_of hs hp h with
    | quiet q hq ht hst hr => exact hs.quiet hq (ht ▸ stands_update hs le_rfl hst)
    | repaired w now seen ht =>
      subst ht
      exact hs.commit rfl rfl rfl rfl
    | billed c w ht =>
      subst ht
      exact hs.commit rfl rfl rfl rfl
  | fail i =>
    rw [step] at h
    split_ifs at h
    obtain rfl := Option.some.inj h
    exact hs.quiet ⟨rfl, rfl, rfl, rfl, rfl⟩ (stands_update hs le_rfl trivial)
  | signUp name founder at' =>
    rw [step] at h
    cases hv : s.visible with
    | true =>
      rw [hv] at h
      cases h
    | false =>
      cases hu : s.signUp with
      | saveWorkspace | saveSubscription | commit | settled =>
        rw [hv, hu] at h
        cases h
      | unstarted =>
        rw [hv, hu] at h
        dsimp only at h
        cases ho : openWorkspace id name founder at' with
        | error e =>
          rw [ho] at h
          obtain rfl := Option.some.inj h
          exact ⟨hs.absent, hs.present, hs.workspaces, hs.subscriptions, hs.process,
            fun at'' seen he ↦ by cases he⟩
        | ok opened =>
          rw [ho] at h
          obtain rfl := Option.some.inj h
          exact ⟨hs.absent, hs.present, hs.workspaces, hs.subscriptions, hs.process,
            fun at'' seen he ↦ by cases he⟩
  | signUpProceeds => exact hs.signUpProceeds h
  | signUpFails =>
    obtain rfl := Option.some.inj h
    exact ⟨hs.absent, hs.present, hs.workspaces, hs.subscriptions, hs.process,
      fun at'' seen he ↦ by cases he⟩

/-- Only what provisions adds to what was found. -/
theorem found_of_unseen {a : OrgAction} (hs : s.Inv) (h : s.step id a = some t)
    (hn : s.lastSeen a = none) :
    t.workspacesFound = s.workspacesFound ∧ t.subscriptionsFound = s.subscriptionsFound := by
  cases a with
  | reconcile i r =>
    rw [step] at h
    split_ifs at h
    exact Option.some.inj h ▸ ⟨rfl, rfl⟩
  | deliver i d =>
    rw [step] at h
    split_ifs at h
    exact Option.some.inj h ▸ ⟨rfl, rfl⟩
  | proceed i =>
    obtain ⟨p, hp, h⟩ := Option.bind_eq_some_iff.1 h
    cases proceeds_of hs hp h with
    | quiet q hq ht hst hr => exact ⟨hq.workspaces, hq.subscriptions⟩
    | repaired w now seen ht =>
      simp only [lastSeen, hp] at hn
      cases hn
    | billed c w ht =>
      subst ht
      exact ⟨rfl, rfl⟩
  | fail i =>
    rw [step] at h
    split_ifs at h
    exact Option.some.inj h ▸ ⟨rfl, rfl⟩
  | signUp name founder at' =>
    rw [step] at h
    split at h
    · split at h <;> exact Option.some.inj h ▸ ⟨rfl, rfl⟩
    · cases h
  | signUpProceeds =>
    rw [step, OrgSystem.signUpProceeds] at h
    cases hu : s.signUp with
    | unstarted | settled =>
      rw [hu] at h
      cases h
    | commit =>
      rw [hu] at h
      exact Option.some.inj h ▸ ⟨rfl, rfl⟩
    | saveWorkspace | saveSubscription =>
      simp only [lastSeen, hu] at hn
      cases hn
  | signUpFails => exact Option.some.inj h ▸ ⟨rfl, rfl⟩

theorem ProvisionedOnce.same (hp : s.ProvisionedOnce)
    (h : t.workspacesFound = s.workspacesFound ∧ t.subscriptionsFound = s.subscriptionsFound) :
    t.ProvisionedOnce := by
  obtain ⟨hw, hc⟩ := h
  constructor
  · rw [hw]
    exact hp.workspaces
  · rw [hc]
    exact hp.subscriptions
  · rw [hw]
    exact hp.newWorkspace
  · rw [hc]
    exact hp.newSubscription

/-- Where nothing has been committed nothing has been provisioned. -/
theorem Inv.nothing_found (hs : s.Inv) (hz : s.commits = 0) : s.rows = ⟨none, none⟩ ∧
    s.workspacesFound = [] ∧ s.subscriptionsFound = [] := by
  have hr := hs.absent hz
  refine ⟨hr, ?_, ?_⟩
  · by_contra hn
    exact hs.workspaces hn hz
  · by_contra hn
    have h := hs.subscriptions hn
    rw [hr] at h
    cases h

theorem Inv.commits_zero (hs : s.Inv) (hw : s.rows.workspace = none) : s.commits = 0 := by
  by_contra hn
  have h := hs.present hn
  rw [hw] at h
  cases h

theorem provisioned_iff {a : OrgAction} (hs : s.Inv) (hp : s.ProvisionedOnce)
    (h : s.step id a = some t) : t.ProvisionedOnce ↔ s.Undisturbed id a := by
  cases hl : s.lastSeen a with
  | none =>
    refine iff_of_true (hp.same (found_of_unseen hs h hl)) ?_
    intro seen u hseen _
    rw [hl] at hseen
    cases hseen
  | some seen =>
    have hiff : s.Undisturbed id a ↔ s.commits = seen := by
      constructor
      · intro hu
        exact hu seen t hl h
      · intro he seen' u hseen' _
        rw [hl] at hseen'
        exact Option.some.inj hseen' ▸ he
    rw [hiff]
    cases a with
    | reconcile | deliver | fail | signUp | signUpFails => cases hl
    | proceed i =>
      obtain ⟨p, hpi, h⟩ := Option.bind_eq_some_iff.1 h
      have hst := hs.process i p hpi
      cases proceeds_of hs hpi h with
      | quiet q hq ht hst' hr =>
        cases p <;> simp only [lastSeen, hpi] at hl <;> cases hl
        cases hr
      | billed c w ht =>
        simp only [lastSeen, hpi] at hl
        cases hl
      | repaired w now seen' ht =>
        simp only [lastSeen, hpi] at hl
        obtain rfl := Option.some.inj hl
        obtain rfl : seen' = 0 := hst
        subst ht
        constructor
        · intro hp'
          exact hs.commits_zero
            (hp'.newWorkspace _ (List.mem_append_right _ (List.mem_singleton.2 rfl)))
        · intro hz
          obtain ⟨hr, hw, hc⟩ := hs.nothing_found hz
          have hw' : s.workspacesFound ++ [s.rows.workspace] = [none] := by rw [hw, hr]; rfl
          have hc' : s.subscriptionsFound ++ [s.rows.subscription] = [none] := by rw [hc, hr]; rfl
          constructor
          · exact (congrArg List.length hw').le
          · exact (congrArg List.length hc').le
          · exact fun w hw ↦ List.mem_singleton.1 (hw' ▸ hw)
          · exact fun c hc ↦ List.mem_singleton.1 (hc' ▸ hc)
    | signUpProceeds =>
      rw [step, OrgSystem.signUpProceeds] at h
      cases hu : s.signUp with
      | unstarted | settled | commit =>
        simp only [lastSeen, hu] at hl
        cases hl
      | saveWorkspace w at' =>
        simp only [lastSeen, hu] at hl
        obtain rfl := Option.some.inj hl
        rw [hu] at h
        dsimp only at h
        split_ifs at h
        obtain rfl := Option.some.inj h
        constructor
        · intro hp'
          exact hs.commits_zero
            (hp'.newWorkspace _ (List.mem_append_right _ (List.mem_singleton.2 rfl)))
        · intro hz
          obtain ⟨hr, hw, -⟩ := hs.nothing_found hz
          have hw' : s.workspacesFound ++ [s.rows.workspace] = [none] := by rw [hw, hr]; rfl
          exact ⟨(congrArg List.length hw').le, hp.subscriptions,
            fun w hw ↦ List.mem_singleton.1 (hw' ▸ hw), hp.newSubscription⟩
      | saveSubscription at' seen' =>
        simp only [lastSeen, hu] at hl
        obtain rfl := Option.some.inj hl
        rw [hu] at h
        dsimp only at h
        split_ifs at h
        obtain rfl := Option.some.inj h
        obtain ⟨-, -, hsome, hnone⟩ := hs.signUp at' seen' hu
        constructor
        · intro hp'
          by_contra hn
          have hc := hsome hn
          rw [hp'.newSubscription _ (List.mem_append_right _ (List.mem_singleton.2 rfl))] at hc
          cases hc
        · intro he
          have hr := hnone hp.newWorkspace he
          have hc : s.subscriptionsFound = [] := by
            by_contra hn
            have h := hs.subscriptions hn
            rw [hr] at h
            cases h
          have hc' : s.subscriptionsFound ++ [s.rows.subscription] = [none] := by rw [hc, hr]; rfl
          exact ⟨hp.workspaces, (congrArg List.length hc').le, hp.newWorkspace,
            fun c hc ↦ List.mem_singleton.1 (hc' ▸ hc)⟩

/-- An organization is provisioned once throughout a run exactly if whatever is provisioned in it is
committed with nothing committed since the run looked. -/
theorem provisioned_once_iff (id : WorkspaceId) (orphan : Bool) (actions : List OrgAction) :
    Throughout (step id) ProvisionedOnce { visible := orphan } actions ↔
      Along (step id) (Undisturbed id) { visible := orphan } actions := by
  refine throughout_iff_along (fun _ _ _ hs h ↦ step_inv hs h)
    (fun _ _ _ hs hp h ↦ provisioned_iff hs hp h) ?_ (inv_initial orphan) ?_
  · intro s a h seen t _ ht
    rw [h] at ht
    cases ht
  · exact ⟨Nat.zero_le _, Nat.zero_le _, fun w hw ↦ absurd hw List.not_mem_nil,
      fun c hc ↦ absurd hc List.not_mem_nil⟩

def sampleRequest : RepairRequest := ⟨js "Acme", some (js "ac_1"), true, 0⟩

def sampleCheckout : Delivery where
  id := js "evt_1"
  workspace := some (js "ws_1")
  event := some (.checkoutCompleted .pro (js "cus_1") (js "sub_1") none)
  seats := 1
  at' := 1

/-- Two runs find no workspace; one of them repairs, the customer pays, and then the other one
saves what it had decided to. -/
def paidReset : List OrgAction :=
  [.reconcile 0 sampleRequest, .reconcile 1 sampleRequest, .proceed 0, .proceed 1, .proceed 0,
    .proceed 1] ++ List.replicate 3 (.proceed 0) ++ .deliver 2 sampleCheckout ::
      List.replicate 5 (.proceed 2) ++ List.replicate 3 (.proceed 1)

theorem paid_is_reset :
    (run (step (js "ws_1")) { visible := true } (paidReset.take 15)).map
        (fun s ↦ s.rows.subscription.map (fun c ↦ (c.plan, c.payment))) =
          some (some (.pro, .active)) ∧
      (run (step (js "ws_1")) { visible := true } paidReset).map
        (fun s ↦ (s.rows.subscription.map (fun c ↦ (c.plan, c.payment)), s.workspacesFound.length)) =
          some (some (.free, .none), 2) ∧
      ¬ Throughout (step (js "ws_1")) ProvisionedOnce { visible := true } paidReset := by
  have hrun : (run (step (js "ws_1")) { visible := true } paidReset).map
      (fun s ↦ (s.rows.subscription.map (fun c ↦ (c.plan, c.payment)), s.workspacesFound.length)) =
        some (some (.free, .none), 2) := rfl
  refine ⟨rfl, hrun, fun h ↦ ?_⟩
  obtain ⟨s, hs, he⟩ := Option.map_eq_some_iff.1 hrun
  have hle := (h.last hs).workspaces
  rw [(Prod.mk.inj he).2] at hle
  omega

end OrgSystem

end Counted.Worker
