import Counted.Foundations.Run
import Counted.Tenancy.Subscription

namespace Counted.Tenancy

open Foundations Foundations.Keyed

/-- A verified webhook with the seats the workspace has taken and the clock when it arrives. -/
structure Delivery where
  id : JsString
  workspace : Option WorkspaceId
  event : Option BillingEvent
  seats : ℕ
  at' : Instant

inductive IgnoredReason | notActionable | unknownWorkspace

/-- `failed` is a save that throws. -/
inductive BillingOutcome
  | applied (transition : Transition)
  | duplicate (event : JsString)
  | ignored (reason : IgnoredReason) (event : JsString)
  | failed

/-- The rows of the workspaces and of their subscriptions. -/
structure BillingTables where
  workspaces : List Workspace
  subscriptions : Subscriptions
  ids : (workspaces.map Workspace.id).Nodup

namespace BillingTables

variable (s : BillingTables)

def find (workspace : WorkspaceId) : Option Workspace :=
  lookup Workspace.id workspace s.workspaces

def saveWorkspace (w : Workspace) : BillingTables :=
  { s with workspaces := upsert Workspace.id w s.workspaces, ids := nodup_upsert s.ids }

/-- The subscription an event is about, by its reference, its customer and its workspace. -/
def locate (workspace : Option WorkspaceId) (event : BillingEvent) (at' : Instant) :
    Option Subscription :=
  (s.subscriptions.findBySubscriptionRef event.subscription).or
    ((event.customer.bind s.subscriptions.findByCustomer).or
      (workspace.map (fun w ↦ (s.subscriptions.find w).getD (Subscription.none w at'))))

/-- Applies an event to the subscription it was located at, and adopts its standing. -/
def applyTo (current : Subscription) (event : BillingEvent) (seats : ℕ) (at' : Instant) :
    Option (Transition × BillingTables) :=
  (s.find current.workspace).bind (fun w ↦
    let transition := applyBillingEvent current event at'
    (s.subscriptions.save transition.subscription).map (fun subscriptions ↦
      (transition, { s with subscriptions }.saveWorkspace
        (w.applyStanding transition.subscription.plan transition.subscription.payment seats
          at').workspace)))

/-- What follows the location of the subscription. -/
def handle (d : Delivery) (event : BillingEvent) :
    Option Subscription → BillingTables × BillingOutcome
  | none => (s, .ignored .unknownWorkspace d.id)
  | some current =>
    if (s.find current.workspace).isNone then (s, .ignored .unknownWorkspace d.id)
    else
      match s.applyTo current event d.seats d.at' with
      | none => (s, .failed)
      | some (transition, t) => (t, .applied transition)

/-- A delivery whose id is claimed. -/
def process (d : Delivery) : BillingTables × BillingOutcome :=
  match d.event with
  | none => (s, .ignored .notActionable d.id)
  | some event => s.handle d event (s.locate d.workspace event d.at')

end BillingTables

/-- The tables with the ids of the webhooks that were claimed. -/
structure BillingStore extends BillingTables where
  receipts : List JsString

namespace BillingStore

/-- `recordBillingEvent`, of a webhook that verifies. -/
def record (s : BillingStore) (d : Delivery) : BillingStore × BillingOutcome :=
  if d.id ∈ s.receipts then (s, .duplicate d.id)
  else
    let r := s.process d
    (⟨r.1, d.id :: s.receipts⟩, r.2)

def step (s : BillingStore) (d : Delivery) : Option BillingStore := some (s.record d).1

end BillingStore

namespace BillingTables

/-- What a workspace has of its plan, its payment and its subscription. -/
def standing (s : BillingTables) (workspace : WorkspaceId) :
    Option Subscription × Option (PlanId × PaymentState) :=
  (s.subscriptions.find workspace, (s.find workspace).map (fun w ↦ (w.plan, w.payment)))

/-- Every workspace has the plan and the payment of its subscription. -/
def Consistent (s : BillingTables) : Prop :=
  ∀ c w, s.subscriptions.find c.workspace = some c → s.find c.workspace = some w →
    w.plan = c.plan ∧ w.payment = c.payment

variable {s t : BillingTables} {current : Subscription} {event : BillingEvent} {seats : ℕ}
  {at' : Instant} {tr : Transition} {d : Delivery} {workspace : WorkspaceId}

theorem next_workspace (current : Subscription) (event : BillingEvent) (at' : Instant) :
    (event.next current at').workspace = current.workspace := by
  cases event <;> rfl

/-- An event that is applied writes the subscription it was located at and that workspace. -/
theorem applyTo_eq (h : s.applyTo current event seats at' = some (tr, t)) :
    ∃ w, s.find current.workspace = some w ∧
      s.subscriptions.save (event.next current at') = some t.subscriptions ∧
      t.workspaces = upsert Workspace.id { w with
        plan := (event.next current at').plan
        payment := (event.next current at').payment } s.workspaces := by
  obtain ⟨w, hw, h⟩ := Option.bind_eq_some_iff.1 h
  obtain ⟨subscriptions, hs, h⟩ := Option.map_eq_some_iff.1 h
  obtain ⟨-, rfl⟩ := Prod.mk.inj h
  exact ⟨w, hw, hs, rfl⟩

theorem applyTo_find (h : s.applyTo current event seats at' = some (tr, t)) :
    t.subscriptions.find workspace =
      if current.workspace = workspace then some (event.next current at')
      else s.subscriptions.find workspace := by
  obtain ⟨w, -, hs, -⟩ := applyTo_eq h
  rw [Subscriptions.find_save hs, next_workspace]

theorem applyTo_findWorkspace (workspace : WorkspaceId)
    (h : s.applyTo current event seats at' = some (tr, t)) :
    ∃ w, s.find current.workspace = some w ∧
      t.find workspace = if current.workspace = workspace then some { w with
        plan := (event.next current at').plan
        payment := (event.next current at').payment } else s.find workspace := by
  obtain ⟨w, hw, -, ht⟩ := applyTo_eq h
  refine ⟨w, hw, ?_⟩
  rw [find, ht, lookup_upsert, (lookup_eq_some hw).2]
  rfl

/-- The standing an applied event leaves. -/
theorem applyTo_standing (workspace : WorkspaceId)
    (h : s.applyTo current event seats at' = some (tr, t)) :
    t.standing workspace = if current.workspace = workspace then
      (some (event.next current at'),
        some ((event.next current at').plan, (event.next current at').payment))
      else s.standing workspace := by
  obtain ⟨w, -, ht⟩ := applyTo_findWorkspace workspace h
  rw [standing, applyTo_find h, ht]
  split_ifs <;> rfl

/-- An event either leaves the tables as they are or is applied where it was located. -/
theorem handle_cases (d : Delivery) (event : BillingEvent) (located : Option Subscription) :
    (s.handle d event located).1 = s ∨ ∃ current tr, located = some current ∧
      s.applyTo current event d.seats d.at' = some (tr, (s.handle d event located).1) := by
  cases located with
  | none => exact .inl rfl
  | some current =>
    rw [handle]
    split_ifs
    · exact .inl rfl
    · cases h : s.applyTo current event d.seats d.at' with
      | none => exact .inl rfl
      | some r => exact .inr ⟨current, r.1, rfl, h⟩

theorem applyTo_consistent (hc : s.Consistent)
    (h : s.applyTo current event seats at' = some (tr, t)) : t.Consistent := by
  intro c w hcur hw
  have hst : t.standing c.workspace = (some c, some (w.plan, w.payment)) := by
    rw [standing, hcur, hw]
    rfl
  rw [applyTo_standing _ h] at hst
  split_ifs at hst with hcw
  · simp only [Prod.mk.injEq, Option.some.injEq] at hst
    obtain ⟨rfl, hp, hpay⟩ := hst
    exact ⟨hp.symm, hpay.symm⟩
  · rw [standing, Prod.mk.injEq, Option.map_eq_some_iff] at hst
    obtain ⟨hs, v, hv, hvw⟩ := hst
    obtain ⟨hp, hpay⟩ := Prod.mk.inj hvw
    obtain ⟨h₁, h₂⟩ := hc c v hs hv
    exact ⟨hp.symm.trans h₁, hpay.symm.trans h₂⟩

theorem handle_consistent (hc : s.Consistent) (d : Delivery) (event : BillingEvent)
    (located : Option Subscription) : (s.handle d event located).1.Consistent := by
  rcases handle_cases d event located with h | ⟨current, tr, -, h⟩
  · rwa [h]
  · exact applyTo_consistent hc h

theorem process_consistent (hc : s.Consistent) (d : Delivery) : (s.process d).1.Consistent := by
  rw [process]
  cases d.event with
  | none => exact hc
  | some event => exact handle_consistent hc d event _

end BillingTables

end Counted.Tenancy
