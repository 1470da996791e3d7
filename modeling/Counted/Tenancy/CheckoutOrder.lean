import Counted.Tenancy.BillingOrder

namespace Counted.Tenancy

open Foundations.Keyed

namespace Subscriptions

variable {t u : Subscriptions} {x y z : Subscription}

/-- A row leaves its own customer and reference to its workspace. -/
theorem free_of_mem (h : y ∈ t.rows) (hw : x.workspace = y.workspace)
    (hc : x.customer = y.customer) (hr : x.subscription = y.subscription) : t.Free x := by
  intro z hz hne
  rw [hw] at hne
  rw [hc, hr]
  refine ⟨fun k hk hzk ↦ hne ?_, fun r hy hzr ↦ hne ?_⟩
  · rw [eq_of_nodup_filterMap t.customers hz h hzk hk]
  · rw [eq_of_nodup_filterMap t.refs hz h hzr hy]

/-- What is free stays free when the workspace's own row is saved. -/
theorem Free.save (h : t.Free x) (hs : t.save y = some u) (hw : y.workspace = x.workspace) :
    u.Free x := by
  intro z hz hne
  rw [save_rows hs, mem_upsert] at hz
  rcases hz with rfl | ⟨hz, -⟩
  · exact absurd hw hne
  · exact h z hz hne

theorem mem_save (hs : t.save y = some u) : y ∈ u.rows := by
  rw [save_rows hs, mem_upsert]
  exact .inl rfl

end Subscriptions

namespace BillingTables

/-- What is recorded of a workspace's subscription. -/
def recorded (s : BillingTables) (w : WorkspaceId) :
    Option (Option SubscriptionRef × PlanId × PaymentState × Option Instant) :=
  (s.subscriptions.find w).map (fun c ↦ (c.subscription, c.plan, c.payment, c.renewsAt))

variable {s : BillingTables} {x : Subscription} {event : BillingEvent} {at' : Instant}

theorem applyTo_of_free (seats : ℕ) (hw : (s.find x.workspace).isSome)
    (hf : s.subscriptions.Free (event.next x at')) :
    ∃ r, s.applyTo x event seats at' = some r := by
  obtain ⟨w, hw⟩ := Option.isSome_iff_exists.1 hw
  obtain ⟨u, hu⟩ := Subscriptions.save_of_free hf
  simp only [applyTo, hw, Option.bind_some, applyBillingEvent, hu, Option.map_some]
  exact ⟨_, rfl⟩

end BillingTables

namespace BillingStore

variable {s : BillingStore} {c u d : Delivery} {x y : Subscription} {event : BillingEvent}

/-- A delivery that is located where there is a workspace and no conflict. -/
structure Applies (s : BillingStore) (d : Delivery) (event : BillingEvent) (x : Subscription) :
    Prop where
  fresh : d.id ∉ s.receipts
  carried : d.event = some event
  located : s.locate d.workspace event d.at' = some x
  workspace : (s.find x.workspace).isSome
  free : s.subscriptions.Free (event.next x d.at')

theorem Applies.applyTo (h : Applies s d event x) : ∃ tr,
    s.applyTo x event d.seats d.at' = some (tr, (s.record d).1.toBillingTables) := by
  obtain ⟨r, hr⟩ := BillingTables.applyTo_of_free d.seats h.workspace h.free
  have hsome : ¬ (s.find x.workspace).isNone := by
    rw [← Option.not_isSome, Bool.not_eq_true', Bool.not_eq_false]
    exact h.workspace
  refine ⟨r.1, ?_⟩
  simp only [record, if_neg h.fresh, BillingTables.process, h.carried, h.located,
    BillingTables.handle, if_neg hsome, hr]

theorem Applies.recorded (h : Applies s d event x) :
    (s.record d).1.recorded x.workspace = some ((event.next x d.at').subscription,
      (event.next x d.at').plan, (event.next x d.at').payment, (event.next x d.at').renewsAt) := by
  obtain ⟨tr, hr⟩ := h.applyTo
  rw [BillingTables.recorded, BillingTables.applyTo_find hr, if_pos rfl]
  rfl

theorem Applies.standing (h : Applies s d event x) :
    ((s.record d).1.standing x.workspace).2 =
      some ((event.next x d.at').plan, (event.next x d.at').payment) := by
  obtain ⟨tr, hr⟩ := h.applyTo
  rw [BillingTables.applyTo_standing _ hr, if_pos rfl]

theorem Applies.save (h : Applies s d event x) :
    s.subscriptions.save (event.next x d.at') = some (s.record d).1.subscriptions := by
  obtain ⟨tr, hr⟩ := h.applyTo
  obtain ⟨w, -, hs, -⟩ := BillingTables.applyTo_eq hr
  exact hs

theorem Applies.find (h : Applies s d event x) :
    ((s.record d).1.find x.workspace).isSome := by
  obtain ⟨tr, hr⟩ := h.applyTo
  obtain ⟨w, -, hw⟩ := BillingTables.applyTo_findWorkspace x.workspace hr
  rw [hw, if_pos rfl]
  rfl

theorem record_receipts (h : d.id ∉ s.receipts) : (s.record d).1.receipts = d.id :: s.receipts := by
  rw [record, if_neg h]

/-- The next event of the subscription is located at what the first has saved. -/
theorem Applies.then {next : BillingEvent} (h : Applies s d event x)
    (hr : (event.next x d.at').subscription = some next.subscription) (hid : u.id ≠ d.id)
    (hu : u.id ∉ s.receipts) (he : u.event = some next)
    (hf : (s.record d).1.subscriptions.Free (next.next (event.next x d.at') u.at')) :
    Applies (s.record d).1 u next (event.next x d.at') where
  fresh := by
    rw [record_receipts h.fresh, List.mem_cons]
    exact not_or.2 ⟨hid, hu⟩
  carried := he
  located := by
    rw [BillingTables.locate,
      Subscriptions.findBySubscriptionRef_of_mem (Subscriptions.mem_save h.save) hr]
    rfl
  workspace := by
    rw [BillingTables.next_workspace]
    exact h.find
  free := hf

/-- Whether the order of two deliveries leaves no trace on a workspace. -/
def SameInEitherOrder (s : BillingStore) (w : WorkspaceId) (c u : Delivery) : Prop :=
  ((s.record c).1.record u).1.recorded w = ((s.record u).1.record c).1.recorded w ∧
    (((s.record c).1.record u).1.standing w).2 = (((s.record u).1.record c).1.standing w).2

/-- The checkout and an update of one new subscription, the checkout located at `x`, and nothing
said by the update of another workspace. -/
structure NewSubscription (s : BillingStore) (c u : Delivery) (x : Subscription) (plan : PlanId)
    (customer : CustomerRef) (ref : SubscriptionRef) (renewsAt renewsAt' : Option Instant)
    (active : Bool) : Prop where
  checkout : c.event = some (.checkoutCompleted plan customer ref renewsAt)
  update : u.event = some (.subscriptionUpdated plan ref renewsAt' active)
  ids : c.id ≠ u.id ∧ c.id ∉ s.receipts ∧ u.id ∉ s.receipts
  unrecorded : s.subscriptions.findBySubscriptionRef ref = none
  located : s.locate c.workspace (.checkoutCompleted plan customer ref renewsAt) c.at' = some x
  workspace : (s.find x.workspace).isSome
  about : ∀ w, u.workspace = some w → w = x.workspace

variable {plan : PlanId} {customer : CustomerRef} {ref : SubscriptionRef}
  {renewsAt renewsAt' : Option Instant} {active : Bool}

/-- Where the checkout is located, no other workspace has its customer. -/
theorem NewSubscription.free
    (h : NewSubscription s c u x plan customer ref renewsAt renewsAt' active)
    (hw : y.workspace = x.workspace) (hk : y.customer = some customer)
    (hr : y.subscription = some ref) : s.subscriptions.Free y := by
  have hl := h.located
  rw [BillingTables.locate, BillingEvent.subscription, h.unrecorded, Option.none_or] at hl
  intro z hz hne
  rw [hw] at hne
  rw [hk, hr]
  refine ⟨fun k hkk hzk ↦ hne ?_, fun r hrr hzr ↦ ?_⟩
  · obtain rfl := Option.some.inj hkk
    cases hc : s.subscriptions.findByCustomer customer with
    | none =>
      have hnone : ∀ z ∈ s.subscriptions.rows, z.customer ≠ some customer := by
        simpa [Subscriptions.findByCustomer] using hc
      exact absurd hzk (hnone z hz)
    | some v =>
      simp only [BillingEvent.customer, Option.bind_some, hc, Option.some_or] at hl
      obtain rfl := Option.some.inj hl
      obtain ⟨hv, hvk⟩ := Subscriptions.findByCustomer_eq hc
      rw [eq_of_nodup_filterMap s.subscriptions.customers hz hv hzk hvk]
  · exact Subscriptions.findBySubscriptionRef_none h.unrecorded z hz (hzr.trans hrr.symm)

theorem NewSubscription.checkoutFirst
    (h : NewSubscription s c u x plan customer ref renewsAt renewsAt' active) :
    Applies s c (.checkoutCompleted plan customer ref renewsAt) x where
  fresh := h.ids.2.1
  carried := h.checkout
  located := h.located
  workspace := h.workspace
  free := h.free rfl rfl rfl

theorem NewSubscription.updateSecond
    (h : NewSubscription s c u x plan customer ref renewsAt renewsAt' active) :
    Applies (s.record c).1 u (.subscriptionUpdated plan ref renewsAt' active)
      ((BillingEvent.checkoutCompleted plan customer ref renewsAt).next x c.at') :=
  h.checkoutFirst.then rfl h.ids.1.symm h.ids.2.2 h.update
    (Subscriptions.free_of_mem (Subscriptions.mem_save h.checkoutFirst.save) rfl rfl rfl)

/-- An update that names the workspace is located at its subscription. -/
theorem NewSubscription.updateFirst
    (h : NewSubscription s c u x plan customer ref renewsAt renewsAt' active)
    (hw : u.workspace = some x.workspace) :
    Applies s u (.subscriptionUpdated plan ref renewsAt' active)
      ((s.subscriptions.find x.workspace).getD (Subscription.none x.workspace u.at')) where
  fresh := h.ids.2.2
  carried := h.update
  located := by
    simp only [BillingTables.locate, BillingEvent.subscription, h.unrecorded, hw]
    rfl
  workspace := by
    rw [BillingTables.located_workspace]
    exact h.workspace
  free := by
    intro z hz hne
    rw [BillingTables.next_workspace, BillingTables.located_workspace] at hne
    refine ⟨fun k hk hzk ↦ hne ?_, fun r hr hzr ↦ ?_⟩
    · cases hf : s.subscriptions.find x.workspace with
      | none =>
        rw [hf] at hk
        cases hk
      | some v =>
        rw [hf] at hk
        obtain ⟨hv, hvw⟩ := Subscriptions.find_workspace hf
        rw [← hvw, eq_of_nodup_filterMap s.subscriptions.customers hz hv hzk hk]
    · obtain rfl := Option.some.inj hr
      exact Subscriptions.findBySubscriptionRef_none h.unrecorded z hz hzr

theorem NewSubscription.checkoutSecond
    (h : NewSubscription s c u x plan customer ref renewsAt renewsAt' active)
    (hw : u.workspace = some x.workspace) :
    Applies (s.record u).1 c (.checkoutCompleted plan customer ref renewsAt)
      ((BillingEvent.subscriptionUpdated plan ref renewsAt' active).next
        ((s.subscriptions.find x.workspace).getD (Subscription.none x.workspace u.at')) u.at') := by
  have hfirst := h.updateFirst hw
  refine hfirst.then rfl h.ids.1 h.ids.2.1 h.checkout ?_
  refine Subscriptions.Free.save (h.free ?_ rfl rfl) hfirst.save rfl
  rw [BillingTables.next_workspace, BillingTables.next_workspace, BillingTables.located_workspace]

/-- An update that names no workspace is not located before the checkout. -/
theorem NewSubscription.updateIgnored
    (h : NewSubscription s c u x plan customer ref renewsAt renewsAt' active)
    (hw : u.workspace = none) : (s.record u).1 = { s with receipts := u.id :: s.receipts } := by
  have hl : s.locate u.workspace (.subscriptionUpdated plan ref renewsAt' active) u.at' = none := by
    simp only [BillingTables.locate, BillingEvent.subscription, h.unrecorded, hw]
    rfl
  simp only [record, if_neg h.ids.2.2, BillingTables.process, h.update, hl, BillingTables.handle]

/-- What the checkout leaves when it comes second. -/
theorem NewSubscription.updateThenCheckout
    (h : NewSubscription s c u x plan customer ref renewsAt renewsAt' active) :
    ((s.record u).1.record c).1.recorded x.workspace = some (some ref, plan, .active, renewsAt) ∧
      (((s.record u).1.record c).1.standing x.workspace).2 = some (plan, .active) := by
  cases hw : u.workspace with
  | none =>
    have hc : Applies { s with receipts := u.id :: s.receipts } c
        (.checkoutCompleted plan customer ref renewsAt) x := by
      have hfirst := h.checkoutFirst
      refine ⟨?_, hfirst.carried, hfirst.located, hfirst.workspace, hfirst.free⟩
      rw [List.mem_cons]
      exact not_or.2 ⟨h.ids.1, h.ids.2.1⟩
    rw [h.updateIgnored hw]
    exact ⟨hc.recorded, hc.standing⟩
  | some w =>
    obtain rfl := h.about w hw
    have hsecond := h.checkoutSecond hw
    have hrec := hsecond.recorded
    have hst := hsecond.standing
    rw [BillingTables.next_workspace, BillingTables.located_workspace] at hrec hst
    exact ⟨hrec, hst⟩

/-- The order of a checkout and an update does not matter exactly where both have one renewal date
and the update is active. -/
theorem checkout_update_order
    (h : NewSubscription s c u x plan customer ref renewsAt renewsAt' active) :
    s.SameInEitherOrder x.workspace c u ↔ renewsAt' = renewsAt ∧ active = true := by
  have hrec := h.updateSecond.recorded
  have hst := h.updateSecond.standing
  rw [BillingTables.next_workspace] at hrec hst
  rw [SameInEitherOrder, hrec, hst, h.updateThenCheckout.1, h.updateThenCheckout.2]
  cases active <;> simp [BillingEvent.next]

def NoLiveSubscription (s : BillingStore) (w : WorkspaceId) : Prop :=
  ∀ y, s.subscriptions.find w = some y → y.payment = .none ∨ y.payment = .canceled

def subscribed : Delivery := checkout (js "1") (js "S")

/-- The update of the same checkout, with the renewal date that only it has. -/
def renewal (renewsAt : Option Instant) : Delivery :=
  delivery (js "2") (some (js "w")) (.subscriptionUpdated .pro (js "S") renewsAt true)

theorem newSubscription_sample (renewsAt : Option Instant) :
    NewSubscription freeStore subscribed (renewal renewsAt) (Subscription.none (js "w") 0) .pro
      (js "c") (js "S") none renewsAt true where
  checkout := rfl
  update := rfl
  ids := ⟨(by decide : js "1" ≠ js "2"), List.not_mem_nil, List.not_mem_nil⟩
  unrecorded := rfl
  located := rfl
  workspace := by decide
  about := by
    intro w hw
    exact (Option.some.inj hw).symm

/-- Delivered second, the checkout takes the renewal date away. -/
theorem renewal_lost : ¬ ∀ (s : BillingStore) (c u : Delivery) (x : Subscription) (plan : PlanId)
    (customer : CustomerRef) (ref : SubscriptionRef) (renewsAt renewsAt' : Option Instant),
    s.NoLiveSubscription x.workspace →
      NewSubscription s c u x plan customer ref renewsAt renewsAt' true →
        s.SameInEitherOrder x.workspace c u := by
  intro h
  have hfree : freeStore.NoLiveSubscription (js "w") := by
    intro y hy
    obtain rfl := Option.some.inj hy
    exact .inl rfl
  have hs := (h _ _ _ _ _ _ _ _ _ hfree (newSubscription_sample (some 20))).1
  exact absurd hs (by decide)

theorem checkout_update_order_sample :
    freeStore.SameInEitherOrder (js "w") subscribed (renewal none) :=
  (checkout_update_order (newSubscription_sample none)).2 ⟨rfl, rfl⟩

end BillingStore

end Counted.Tenancy
