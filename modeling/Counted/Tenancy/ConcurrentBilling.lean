import Counted.Foundations.Concurrency
import Counted.Tenancy.CheckoutOrder

namespace Counted.Tenancy

open Foundations

namespace BillingTables

/-- What a run does once it holds the workspace's lock, having read the tables before that. -/
def finish (s : BillingTables) (d : Delivery) (read : BillingTables) :
    BillingTables × BillingOutcome :=
  match d.event with
  | none => (s, .ignored .notActionable d.id)
  | some event => s.handle d event (read.locate d.workspace event d.at')

/-- The tables after the same deliveries one at a time. -/
def replay (s : BillingTables) (order : List Delivery) : BillingTables :=
  order.foldl (fun s d ↦ (s.process d).1) s

theorem finish_self (s : BillingTables) (d : Delivery) : s.finish d s = s.process d := rfl

theorem replay_concat (s : BillingTables) (order : List Delivery) (d : Delivery) :
    s.replay (order ++ [d]) = ((s.replay order).process d).1 := by
  rw [replay, List.foldl_append, replay]
  rfl

theorem finish_consistent {s : BillingTables} (hc : s.Consistent) (d : Delivery)
    (read : BillingTables) : (s.finish d read).1.Consistent := by
  rw [finish]
  cases d.event with
  | none => exact hc
  | some event => exact handle_consistent hc d event _

end BillingTables

def BillingOutcome.isApplied : BillingOutcome → Bool
  | .applied _ => true
  | .duplicate _ | .ignored .. | .failed => false

/-- Only an event that is applied changes the tables. -/
theorem BillingTables.finish_unapplied {s read : BillingTables} {d : Delivery}
    (h : (s.finish d read).2.isApplied = false) : (s.finish d read).1 = s := by
  rw [finish] at h ⊢
  cases he : d.event with
  | none => rfl
  | some event =>
    simp only [he] at h ⊢
    cases hl : read.locate d.workspace event d.at' with
    | none => rfl
    | some current =>
      rw [hl, handle] at h
      rw [handle]
      split_ifs at h ⊢ with hw
      · rfl
      · cases ha : s.applyTo current event d.seats d.at' with
        | none => rfl
        | some r =>
          rw [ha] at h
          cases h

/-- A delivery whose id is claimed, with the tables as its run has read them. -/
structure BillingRun where
  delivery : Delivery
  read : Copy BillingTables

/-- The committed tables, the transactions that are open, and the deliveries in the order of their
commits. -/
structure BillingSystem where
  tables : BillingTables
  running : List BillingRun
  committed : List Delivery

/-- A run reads where its subscription is, and then locks the workspace, saves and commits. The
next one waits for that lock. -/
inductive BillingAction
  | start (d : Delivery)
  | commit (index : ℕ)

namespace BillingSystem

def initial (t : BillingTables) : BillingSystem := ⟨t, [], []⟩

def outdate (r : BillingRun) : BillingRun := { r with read := r.read.outdate }

def commit (s : BillingSystem) (index : ℕ) (r : BillingRun) : BillingSystem :=
  let x := s.tables.finish r.delivery r.read.state
  let rest := s.running.eraseIdx index
  ⟨x.1, if x.2.isApplied then rest.map outdate else rest, s.committed ++ [r.delivery]⟩

def step (s : BillingSystem) : BillingAction → Option BillingSystem
  | .start d => some { s with running := s.running ++ [⟨d, s.tables, false⟩] }
  | .commit index => s.running[index]?.map (s.commit index)

/-- The committed deliveries have been applied in some serial order, and every workspace has the
standing of its subscription. -/
def Serialized (t : BillingTables) (s : BillingSystem) : Prop :=
  (∃ order : List Delivery, order.Perm s.committed ∧
    ∀ w, (t.replay order).standing w = s.tables.standing w) ∧ s.tables.Consistent

/-- A run commits on what it has read only if no event has been applied since. -/
def ReadLatest (s : BillingSystem) : BillingAction → Prop
  | .start _ => True
  | .commit index => ∀ r, s.running[index]? = some r → r.read.moved = false

structure SerialInv (t : BillingTables) (s : BillingSystem) : Prop where
  seen : Seen id s.tables (s.running.map BillingRun.read)
  serial : s.tables = t.replay s.committed
  consistent : s.tables.Consistent

variable {t : BillingTables} {s u : BillingSystem}

theorem SerialInv.serialized (h : SerialInv t s) : Serialized t s :=
  ⟨⟨s.committed, .refl _, fun w ↦ by rw [h.serial]⟩, h.consistent⟩

theorem SerialInv.commit (h : SerialInv t s) {index : ℕ} {r : BillingRun}
    (hr : s.running[index]? = some r) (hm : r.read.moved = false) :
    SerialInv t (s.commit index r) := by
  have hread : r.read.state = s.tables :=
    h.seen r.read (List.mem_map_of_mem (List.mem_of_getElem? hr)) hm
  have hrest : Seen id s.tables ((s.running.eraseIdx index).map BillingRun.read) :=
    h.seen.sublist ((List.eraseIdx_sublist ..).map _)
  refine ⟨?_, ?_, BillingTables.finish_consistent h.consistent _ _⟩
  · cases ha : (s.tables.finish r.delivery r.read.state).2.isApplied with
    | true =>
      rw [BillingSystem.commit, ha]
      have hmap : (((s.running.eraseIdx index).map outdate).map BillingRun.read) =
          ((s.running.eraseIdx index).map BillingRun.read).map Copy.outdate := by
        rw [List.map_map, List.map_map]
        rfl
      exact hmap ▸ seen_outdate _ _
    | false =>
      rw [BillingSystem.commit, ha]
      exact hrest.keep (BillingTables.finish_unapplied ha)
  · change (s.tables.finish r.delivery r.read.state).1 = t.replay (s.committed ++ [r.delivery])
    rw [BillingTables.replay_concat, ← h.serial, hread, BillingTables.finish_self]

theorem step_serialInv {a : BillingAction} (h : SerialInv t s) (hl : s.ReadLatest a)
    (hs : s.step a = some u) : SerialInv t u := by
  cases a with
  | start d =>
    obtain rfl := Option.some.inj hs
    refine ⟨?_, h.serial, h.consistent⟩
    rw [List.map_append]
    exact h.seen.load
  | commit index =>
    obtain ⟨r, hr, rfl⟩ := Option.map_eq_some_iff.1 hs
    exact h.commit hr (hl r hr)

/-- Billing events are applied one at a time in every run whose transactions commit on what they
have read. -/
theorem billing_serialized {actions : List BillingAction} (hc : t.Consistent)
    (h : Along step ReadLatest (initial t) actions) :
    Throughout step (Serialized t) (initial t) actions :=
  (throughout_of_along (fun _ _ _ ↦ step_serialInv) ⟨seen_nil t, rfl, hc⟩ h).mono
    fun _ ↦ SerialInv.serialized

/-- A workspace on a paid plan that renews at 10. -/
def paidTables : BillingTables where
  workspaces := [⟨js "w", js "Acme", .pro, .active, []⟩]
  subscriptions := ⟨[⟨js "w", .pro, .active, some (js "c"), some (js "S"), some 10, 0⟩], by decide,
    by decide, by decide⟩
  ids := by decide

theorem paid_consistent : paidTables.Consistent := by
  intro c w hc hw
  obtain rfl := List.mem_singleton.1 (Subscriptions.find_workspace hc).1
  obtain rfl := Option.some.inj hw
  exact ⟨rfl, rfl⟩

def failure : Delivery := BillingStore.delivery (js "1") none (.paymentFailed (js "S"))

def update : Delivery := BillingStore.renewal (some 20)

/-- A payment fails on the subscription read before its renewal was committed, and takes the new
renewal date back. -/
theorem renewal_undone : ¬ ∀ actions : List BillingAction,
    Throughout step (Serialized paidTables) (initial paidTables) actions := by
  intro h
  obtain ⟨⟨order, hperm, hst⟩, -⟩ :=
    (h [.start failure, .start update, .commit 1, .commit 0]).last rfl
  have hw := congrArg (fun r ↦ r.1.map (fun c ↦ (c.payment, c.renewsAt))) (hst (js "w"))
  rcases List.perm_pair.1 hperm with rfl | rfl
  · exact absurd hw (by decide)
  · exact absurd hw (by decide)

theorem billing_serialized_sample : Throughout step (Serialized paidTables) (initial paidTables)
    [.start failure, .commit 0, .start update, .commit 0] := by
  refine billing_serialized paid_consistent ⟨trivial, fun s₁ h₁ ↦ ⟨?_, fun s₂ h₂ ↦ ⟨trivial,
    fun s₃ h₃ ↦ ⟨?_, fun _ _ ↦ trivial⟩⟩⟩⟩
  · obtain rfl := Option.some.inj h₁
    intro r hr
    exact Option.some.inj hr ▸ rfl
  · obtain rfl := Option.some.inj h₁
    obtain rfl := Option.some.inj h₂
    obtain rfl := Option.some.inj h₃
    intro r hr
    exact Option.some.inj hr ▸ rfl

end BillingSystem

end Counted.Tenancy
