import Counted.Tenancy.Billing

namespace Counted.Tenancy

open Foundations

variable {s t : BillingTables} {d : Delivery} {event : BillingEvent} {current c : Subscription}

namespace BillingTables

/-- How the subscription of an event other than a checkout is found. -/
theorem locate_cases {workspace : Option WorkspaceId} {at' : Instant}
    (hk : event.isCheckout = false) (h : s.locate workspace event at' = some current) :
    s.subscriptions.findBySubscriptionRef event.subscription = some current ∨
      s.subscriptions.findBySubscriptionRef event.subscription = none ∧
        ∃ w, workspace = some w ∧
          current = (s.subscriptions.find w).getD (Subscription.none w at') := by
  have hcust : event.customer = none := by simpa [BillingEvent.isCheckout] using hk
  rw [locate, hcust] at h
  cases hr : s.subscriptions.findBySubscriptionRef event.subscription with
  | some c =>
    rw [hr] at h
    exact .inl h
  | none =>
    rw [hr] at h
    obtain ⟨w, hw, rfl⟩ := Option.map_eq_some_iff.1 h
    exact .inr ⟨rfl, w, hw, rfl⟩

theorem located_workspace (w : WorkspaceId) (at' : Instant) :
    ((s.subscriptions.find w).getD (Subscription.none w at')).workspace = w := by
  cases h : s.subscriptions.find w with
  | none => rfl
  | some c => exact (Subscriptions.find_workspace h).2

/-- Processing a delivery leaves the tables as they are or applies its event where it is located. -/
theorem process_cases (d : Delivery) : (s.process d).1 = s ∨ ∃ event current tr,
    d.event = some event ∧ s.locate d.workspace event d.at' = some current ∧
      s.applyTo current event d.seats d.at' = some (tr, (s.process d).1) := by
  rw [process]
  cases he : d.event with
  | none => exact .inl rfl
  | some event =>
    rcases handle_cases d event _ with hs | ⟨current, tr, hl, ha⟩
    · exact .inl hs
    · exact .inr ⟨event, current, tr, rfl, hl, ha⟩

end BillingTables

namespace BillingStore

theorem step_tables {s t : BillingStore} (h : s.step d = some t) :
    t.toBillingTables = s.toBillingTables ∨ t.toBillingTables = (s.process d).1 := by
  obtain rfl := Option.some.inj h
  rw [record]
  split_ifs
  · exact .inl rfl
  · exact .inr rfl

/-- What a step does to the tables. -/
theorem step_cases {s t : BillingStore} (h : s.step d = some t) :
    t.toBillingTables = s.toBillingTables ∨ ∃ event current tr, d.event = some event ∧
      s.locate d.workspace event d.at' = some current ∧
        s.applyTo current event d.seats d.at' = some (tr, t.toBillingTables) := by
  rcases step_tables h with ht | ht
  · exact .inl ht
  · rw [ht]
    exact BillingTables.process_cases d

/-- Neither the standing nor the subscription of a workspace that has a subscription in force is
changed by an event of another one. -/
def CurrentOnly (s : BillingStore) (d : Delivery) : Prop :=
  ∀ event, d.event = some event → event.isCheckout = false → ∀ c ref,
    s.subscriptions.find c.workspace = some c → c.subscription = some ref →
      c.payment ≠ .canceled → event.subscription ≠ ref → ∀ t, s.step d = some t →
        t.standing c.workspace = s.standing c.workspace

/-- An event of a subscription that no workspace has names no workspace with one in force. -/
def NamesNoOther (s : BillingStore) (d : Delivery) : Prop :=
  ∀ event, d.event = some event → event.isCheckout = false →
    s.subscriptions.findBySubscriptionRef event.subscription = none →
      ∀ w c, d.workspace = some w → s.subscriptions.find w = some c →
        c.subscription = none ∨ c.payment = .canceled

theorem namesNoOther_current {s : BillingStore} (h : s.NamesNoOther d) : s.CurrentOnly d := by
  intro event he hk c ref hc hr hp hne t ht
  rcases step_cases ht with hs | ⟨e, current, tr, he', hl, ha⟩
  · rw [hs]
  · obtain rfl := Option.some.inj (he.symm.trans he')
    rw [BillingTables.applyTo_standing _ ha, if_neg]
    intro hw
    rcases BillingTables.locate_cases hk hl with hl | ⟨hnone, w, hdw, hcur⟩
    · obtain ⟨hm, hcr⟩ := Subscriptions.findBySubscriptionRef_eq hl
      have hcc : current = c := Option.some.inj ((Subscriptions.find_of_mem hm).symm.trans (hw ▸ hc))
      rw [hcc, hr] at hcr
      exact hne (Option.some.inj hcr).symm
    · obtain rfl : c.workspace = w := by
        rw [← hw, hcur, BillingTables.located_workspace]
      rcases h event he hk hnone c.workspace c hdw hc with hn | hn
      · rw [hr] at hn
        cases hn
      · exact hp hn

/-- Only its current subscription changes a workspace's standing, in every run whose late events
name no workspace with another subscription. -/
theorem current_subscription_only {s : BillingStore} {deliveries : List Delivery}
    (h : Along step NamesNoOther s deliveries) : Along step CurrentOnly s deliveries :=
  h.imp (fun _ _ _ _ _ _ ↦ trivial) (fun _ _ _ ↦ namesNoOther_current) trivial

def workspaceW : Workspace := ⟨js "w", js "Acme", .free, .none, []⟩

/-- A workspace that has never been to checkout. -/
def freeStore : BillingStore where
  workspaces := [workspaceW]
  subscriptions := ⟨[Subscription.none (js "w") 0], by decide, by decide, by decide⟩
  ids := by decide
  receipts := []

def delivery (id : JsString) (workspace : Option WorkspaceId) (event : BillingEvent) : Delivery :=
  ⟨id, workspace, some event, 1, 10⟩

def checkout (id ref : JsString) : Delivery :=
  delivery id (some (js "w")) (.checkoutCompleted .pro (js "c") ref none)

/-- The workspace subscribes, and subscribes again. -/
def resubscribed : List Delivery := [checkout (js "1") (js "S"), checkout (js "2") (js "R")]

/-- The late cancellation of the first subscription cancels the second. -/
theorem late_cancellation : ¬ ∀ deliveries : List Delivery,
    Along step CurrentOnly freeStore deliveries := by
  intro h
  have hs := (h (resubscribed ++ [delivery (js "3") (some (js "w"))
    (.subscriptionCanceled (js "S"))])).after (l := resubscribed) rfl
  have hst := hs _ rfl rfl ⟨js "w", .pro, .active, some (js "c"), some (js "R"), none, 10⟩ (js "R")
    (by decide) rfl (by decide) (by decide) _ rfl
  exact absurd (congrArg (·.2) hst) (by decide)

theorem current_subscription_only_sample : Along step CurrentOnly freeStore
    [checkout (js "1") (js "S"), delivery (js "2") none (.subscriptionCanceled (js "R"))] := by
  refine current_subscription_only ⟨?_, fun t ht ↦ ⟨?_, fun _ _ ↦ trivial⟩⟩
  · intro event he hk
    obtain rfl := Option.some.inj he
    cases hk
  · intro event he hk hn w c hw
    cases hw

end BillingStore

/-- The store with the events that were applied, and to which workspace, the latest first. -/
structure BillingLog where
  store : BillingStore
  applied : List (WorkspaceId × BillingEvent)

namespace BillingLog

def entry (event : Option BillingEvent) : BillingOutcome → Option (WorkspaceId × BillingEvent)
  | .applied transition => event.map (transition.subscription.workspace, ·)
  | .duplicate _ | .ignored .. | .failed => none

def step (s : BillingLog) (d : Delivery) : Option BillingLog :=
  let r := s.store.record d
  some ⟨r.1, (entry d.event r.2).toList ++ s.applied⟩

/-- A workspace whose subscription is canceled, and which is entitled to nothing that is paid. -/
def Canceled (s : BillingLog) (w : WorkspaceId) : Prop :=
  ∃ c, s.store.subscriptions.find w = some c ∧ c.payment = .canceled ∧
    ∀ row, s.store.find w = some row → (Entitlement.resolve row.plan row.payment).isPaid = false

/-- A workspace on which a cancellation was applied is not brought back by an event of the canceled
subscription. -/
def StaysCanceled (s : BillingLog) (d : Delivery) : Prop :=
  ∀ event, d.event = some event → event.isCheckout = false → ∀ w,
    (w, .subscriptionCanceled event.subscription) ∈ s.applied → s.Canceled w →
      ∀ t, s.step d = some t → t.Canceled w

/-- Nothing but a checkout or a cancellation is applied to a canceled subscription. -/
def LeavesCanceled (s : BillingLog) (d : Delivery) : Prop :=
  ∀ event, d.event = some event → event.isCheckout = false →
    (∀ ref, event ≠ .subscriptionCanceled ref) →
      ∀ c, s.store.locate d.workspace event d.at' = some c → c.payment ≠ .canceled

theorem canceled_of_standing {s t : BillingLog} {w : WorkspaceId} (h : s.Canceled w)
    (hst : t.store.standing w = s.store.standing w) : t.Canceled w := by
  obtain ⟨c, hc, hp, hrow⟩ := h
  obtain ⟨hfind, hmap⟩ := Prod.mk.inj hst
  refine ⟨c, hfind.trans hc, hp, fun row hr ↦ ?_⟩
  rw [hr, Option.map_some, eq_comm, Option.map_eq_some_iff] at hmap
  obtain ⟨old, hold, heq⟩ := hmap
  obtain ⟨hplan, hpay⟩ := Prod.mk.inj heq
  rw [← hplan, ← hpay]
  exact hrow old hold

theorem canceled_next {s : BillingLog} {w : WorkspaceId} {c : Subscription}
    (hst : s.store.standing w = (some c, some (c.plan, c.payment))) (hp : c.payment = .canceled) :
    s.Canceled w := by
  obtain ⟨hfind, hmap⟩ := Prod.mk.inj hst
  refine ⟨c, hfind, hp, fun row hr ↦ ?_⟩
  rw [hr, Option.map_some, Option.some.injEq, Prod.mk.injEq] at hmap
  rw [hmap.2, hp]
  rfl

theorem leavesCanceled_stays {s : BillingLog} (h : s.LeavesCanceled d) : s.StaysCanceled d := by
  intro event he hk w _ hw t ht
  have hs : s.store.step d = some t.store := by
    obtain rfl := Option.some.inj ht
    rfl
  rcases BillingStore.step_cases hs with hs | ⟨e, current, tr, he', hl, ha⟩
  · exact canceled_of_standing hw (by rw [hs])
  · obtain rfl := Option.some.inj (he.symm.trans he')
    have hst := BillingTables.applyTo_standing w ha
    split_ifs at hst with hcw
    · refine canceled_next hst ?_
      obtain ⟨c, hc, hp, -⟩ := hw
      have hcur : current.payment = .canceled := by
        rcases BillingTables.locate_cases hk hl with hl' | ⟨-, v, -, hcur⟩
        · have hm := (Subscriptions.findBySubscriptionRef_eq hl').1
          rw [Option.some.inj ((Subscriptions.find_of_mem hm).symm.trans (hcw ▸ hc)), hp]
        · have hv : v = w := by rw [← hcw, hcur, BillingTables.located_workspace]
          rw [hcur, hv, hc, Option.getD_some, hp]
      cases event with
      | subscriptionCanceled ref => rfl
      | checkoutCompleted => cases hk
      | subscriptionUpdated | paymentFailed | paymentRecovered =>
        exact absurd hcur (h _ he hk (by rintro ref ⟨⟩) current hl)
    · exact canceled_of_standing hw hst

def freeLog : BillingLog := ⟨BillingStore.freeStore, []⟩

/-- The workspace subscribes and cancels. -/
def canceledPlan : List Delivery := [BillingStore.checkout (js "1") (js "S"),
  BillingStore.delivery (js "2") none (.subscriptionCanceled (js "S"))]

end BillingLog

end Counted.Tenancy
