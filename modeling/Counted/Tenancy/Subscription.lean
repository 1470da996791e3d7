import Counted.Foundations.Keyed
import Counted.Tenancy.Workspace

namespace Counted.Tenancy

open Foundations.Keyed

abbrev CustomerRef := JsString

abbrev SubscriptionRef := JsString

def PlanId.isPaid (id : PlanId) : Bool := id ≠ .free

namespace Entitlement

def isPaid (e : Entitlement) : Bool := e.plan.isPaid

def equal (a b : Entitlement) : Bool := a.plan = b.plan && a.inGrace = b.inGrace

end Entitlement

/-- A row of `subscriptions`. -/
structure Subscription where
  workspace : WorkspaceId
  plan : PlanId
  payment : PaymentState
  customer : Option CustomerRef
  subscription : Option SubscriptionRef
  renewsAt : Option Instant
  updatedAt : Instant
  deriving DecidableEq

namespace Subscription

/-- What every workspace starts as. -/
def none (workspace : WorkspaceId) (at' : Instant) : Subscription :=
  ⟨workspace, .free, .none, .none, .none, .none, at'⟩

def entitlementOf (s : Subscription) : Entitlement := Entitlement.resolve s.plan s.payment

end Subscription

/-- What a payment provider can say happened to a subscription. -/
inductive BillingEvent
  | checkoutCompleted (plan : PlanId) (customer : CustomerRef) (subscription : SubscriptionRef)
      (renewsAt : Option Instant)
  | subscriptionUpdated (plan : PlanId) (subscription : SubscriptionRef)
      (renewsAt : Option Instant) (active : Bool)
  | paymentFailed (subscription : SubscriptionRef)
  | paymentRecovered (subscription : SubscriptionRef)
  | subscriptionCanceled (subscription : SubscriptionRef)
  deriving DecidableEq

namespace BillingEvent

def subscription : BillingEvent → SubscriptionRef
  | .checkoutCompleted _ _ ref _ | .subscriptionUpdated _ ref _ _ | .paymentFailed ref
  | .paymentRecovered ref | .subscriptionCanceled ref => ref

/-- Only a completed checkout names the customer. -/
def customer : BillingEvent → Option CustomerRef
  | .checkoutCompleted _ customer _ _ => some customer
  | .subscriptionUpdated .. | .paymentFailed _ | .paymentRecovered _ | .subscriptionCanceled _ =>
    none

def isCheckout (event : BillingEvent) : Bool := event.customer.isSome

/-- The transition, from any standing. -/
def next (current : Subscription) (at' : Instant) : BillingEvent → Subscription
  | .checkoutCompleted plan customer subscription renewsAt =>
    { current with
      plan, payment := .active, customer := some customer, subscription := some subscription,
      renewsAt, updatedAt := at' }
  | .subscriptionUpdated plan subscription renewsAt active =>
    { current with
      plan, payment := if active then .active else .canceled, subscription := some subscription,
      renewsAt, updatedAt := at' }
  | .paymentFailed _ => { current with payment := .pastDue, updatedAt := at' }
  | .paymentRecovered _ => { current with payment := .active, updatedAt := at' }
  | .subscriptionCanceled _ =>
    { current with payment := .canceled, renewsAt := none, updatedAt := at' }

end BillingEvent

/-- What is worth telling the customer. -/
inductive Notable | upgraded | downgraded | paymentFailed | recovered
  deriving DecidableEq

def notabilityOf (event : BillingEvent) (before after : Entitlement) : Option Notable :=
  if event matches .paymentFailed _ then some .paymentFailed
  else if event matches .paymentRecovered _ && before.inGrace then some .recovered
  else if after.isPaid && !before.isPaid then some .upgraded
  else if before.isPaid && !after.isPaid then some .downgraded
  else none

structure Transition where
  subscription : Subscription
  entitlementChanged : Bool
  notable : Option Notable

/-- Applies an event. Always gives a subscription. -/
def applyBillingEvent (current : Subscription) (event : BillingEvent) (at' : Instant) :
    Transition :=
  let next := event.next current at'
  ⟨next, !Entitlement.equal current.entitlementOf next.entitlementOf,
    notabilityOf event current.entitlementOf next.entitlementOf⟩

/-- The table of subscriptions under its primary key and its two UNIQUE columns. -/
structure Subscriptions where
  rows : List Subscription
  workspaces : (rows.map Subscription.workspace).Nodup
  customers : (rows.filterMap Subscription.customer).Nodup
  refs : (rows.filterMap Subscription.subscription).Nodup

namespace Subscriptions

variable (t : Subscriptions)

def find (workspace : WorkspaceId) : Option Subscription :=
  lookup Subscription.workspace workspace t.rows

def findByCustomer (customer : CustomerRef) : Option Subscription :=
  t.rows.find? (fun s ↦ s.customer = some customer)

def findBySubscriptionRef (subscription : SubscriptionRef) : Option Subscription :=
  t.rows.find? (fun s ↦ s.subscription = some subscription)

/-- An upsert by workspace. It throws where it would break a UNIQUE column. -/
def save (s : Subscription) : Option Subscriptions :=
  let rows := upsert Subscription.workspace s t.rows
  if h : (rows.filterMap Subscription.customer).Nodup ∧
      (rows.filterMap Subscription.subscription).Nodup then
    some ⟨rows, nodup_upsert t.workspaces, h.1, h.2⟩
  else none

variable {t} {u : Subscriptions} {s : Subscription} {workspace : WorkspaceId}
  {ref : SubscriptionRef}

theorem find_workspace (h : t.find workspace = some s) : s ∈ t.rows ∧ s.workspace = workspace :=
  lookup_eq_some h

theorem find_of_mem (h : s ∈ t.rows) : t.find s.workspace = some s :=
  lookup_of_mem t.workspaces h

theorem findBySubscriptionRef_eq (h : t.findBySubscriptionRef ref = some s) :
    s ∈ t.rows ∧ s.subscription = some ref :=
  ⟨List.mem_of_find?_eq_some h, by simpa using List.find?_some h⟩

theorem findByCustomer_eq {customer : CustomerRef} (h : t.findByCustomer customer = some s) :
    s ∈ t.rows ∧ s.customer = some customer :=
  ⟨List.mem_of_find?_eq_some h, by simpa using List.find?_some h⟩

theorem findBySubscriptionRef_none (h : t.findBySubscriptionRef ref = none) :
    ∀ s ∈ t.rows, s.subscription ≠ some ref := by
  simpa [findBySubscriptionRef] using h

theorem save_rows (h : t.save s = some u) : u.rows = upsert Subscription.workspace s t.rows := by
  rw [save] at h
  split_ifs at h
  exact Option.some.inj h ▸ rfl

theorem find_save (h : t.save s = some u) (workspace : WorkspaceId) :
    u.find workspace = if s.workspace = workspace then some s else t.find workspace := by
  rw [find, save_rows h, lookup_upsert, find]

/-- No other workspace's row has the customer or the reference of a subscription. -/
def Free (t : Subscriptions) (s : Subscription) : Prop :=
  ∀ z ∈ t.rows, z.workspace ≠ s.workspace →
    (∀ k, s.customer = some k → z.customer ≠ some k) ∧
      ∀ r, s.subscription = some r → z.subscription ≠ some r

theorem save_of_free (h : t.Free s) : ∃ u, t.save s = some u := by
  rw [save]
  exact ⟨_, dif_pos ⟨nodup_filterMap_upsert t.workspaces t.customers fun z hz hne ↦ (h z hz hne).1,
    nodup_filterMap_upsert t.workspaces t.refs fun z hz hne ↦ (h z hz hne).2⟩⟩

theorem findBySubscriptionRef_of_mem (h : s ∈ t.rows) (hr : s.subscription = some ref) :
    t.findBySubscriptionRef ref = some s := by
  obtain ⟨c, hc⟩ : ∃ c, t.findBySubscriptionRef ref = some c := by
    rw [← Option.isSome_iff_exists, findBySubscriptionRef, List.find?_isSome]
    exact ⟨s, h, by simpa using hr⟩
  obtain ⟨hm, hcr⟩ := findBySubscriptionRef_eq hc
  rw [hc, eq_of_nodup_filterMap t.refs hm h hcr hr]

end Subscriptions

end Counted.Tenancy
