import Counted.Dashboarding.Delivery
import Counted.Foundations.Keyed
import Counted.Foundations.Concurrency
import Counted.Foundations.Run

namespace Counted.Dashboarding

open Foundations Foundations.Keyed Ingestion

/-- The table with every lease its claims have granted, the newest first. Workers keep their leases
as long as they like. -/
structure DeliverySystem where
  table : Deliveries
  leases : List MonitorDelivery

inductive DeliveryAction (A : Type)
  | save (monitor : Monitor A) (events : List MonitorEvent) (now : Instant)
  | claim (limit : ℕ) (at' : Instant) (locked : List JsString)
  | complete (delivery : MonitorDelivery) (at' : Instant)
  | fail (delivery : MonitorDelivery) (error : JsString) (at' : Instant)

namespace DeliverySystem

variable {A : Type} (collate : JsString → JsString → Bool)

def empty : DeliverySystem := ⟨[], []⟩

/-- A worker reports on a lease it was granted, at a time that is not before the claim's. -/
def reports (s : DeliverySystem) (delivery : MonitorDelivery) (at' : Instant) : Prop :=
  delivery ∈ s.leases ∧ delivery.claimedAt ≤ at'

instance (s : DeliverySystem) (delivery : MonitorDelivery) (at' : Instant) :
    Decidable (s.reports delivery at') := inferInstanceAs (Decidable (_ ∧ _))

def step (s : DeliverySystem) : DeliveryAction A → Option DeliverySystem
  | .save monitor events now => some { s with table := saveDeliveries monitor events now s.table }
  | .claim limit at' locked =>
    let claimed := claimDeliveries collate limit at' locked s.table
    some ⟨claimed.1, claimed.2 ++ s.leases⟩
  | .complete delivery at' =>
    if s.reports delivery at' then some { s with table := completeDelivery delivery at' s.table }
    else none
  | .fail delivery error at' =>
    if s.reports delivery at' then some { s with table := failDelivery delivery error at' s.table }
    else none

def granted (s : DeliverySystem) (id : JsString) : List MonitorDelivery :=
  s.leases.filter (fun d ↦ d.alert.id = id)

/-- The lease of an open row that no later claim has taken over and no report has ended. -/
def Current (s : DeliverySystem) (delivery : MonitorDelivery) : Prop :=
  (s.granted delivery.alert.id).head? = some delivery ∧
    ∃ row ∈ s.table, row.id = delivery.alert.id ∧ row.isOpen ∧
      row.claimedAt = some delivery.claimedAt

def deliveredTime (s : DeliverySystem) (id : JsString) : Option Instant :=
  (lookup DeliveryRow.id id s.table).bind DeliveryRow.deliveredAt

/-- What an action does to deliveries that stay in order. -/
structure Orderly (s : DeliverySystem) (a : DeliveryAction A) : Prop where
  claimedInOrder : ∀ limit at' locked, a = .claim limit at' locked →
    ∀ d ∈ (claimDeliveries collate limit at' locked s.table).2, ∀ prior ∈ s.table,
      sameRecipient prior.alert d.alert → earlier collate prior.alert d.alert →
        prior.deliveredAt.isSome ∨ prior.canceledAt.isSome
  heldByOne : ∀ d at' error, a = .complete d at' ∨ a = .fail d error at' → ¬ s.Current d →
    ∀ t, step collate s a = some t → t.table = s.table
  deliveredOnce : ∀ t, step collate s a = some t → ∀ id at', s.deliveredTime id = some at' →
    t.deliveredTime id = some at'

/-- What every step keeps of the claims. -/
structure Fenced (s : DeliverySystem) : Prop where
  ids : (s.table.map DeliveryRow.id).Nodup
  known : ∀ d ∈ s.leases, d.alert.id ∈ s.table.map DeliveryRow.id
  leased : ∀ row ∈ s.table, row.isOpen →
    Leased MonitorDelivery.claimedAt row.claimedAt row.nextAttemptAt (s.granted row.id)

variable {collate} {s t : DeliverySystem}

theorem empty_fenced : Fenced empty where
  ids := .nil
  known := by rintro d ⟨⟩
  leased := by rintro row ⟨⟩

theorem map_id {f : DeliveryRow → DeliveryRow} (hf : ∀ row, (f row).id = row.id)
    (table : Deliveries) : (table.map f).map DeliveryRow.id = table.map DeliveryRow.id := by
  rw [List.map_map]
  exact List.map_congr_left fun row _ ↦ hf row

/-- An update of the rows that leaves the leases as they are. -/
theorem Fenced.map (h : Fenced s) {f : DeliveryRow → DeliveryRow} (hf : ∀ row, (f row).id = row.id)
    (hl : ∀ row ∈ s.table, (f row).isOpen →
      Leased MonitorDelivery.claimedAt (f row).claimedAt (f row).nextAttemptAt (s.granted row.id)) :
    Fenced { s with table := s.table.map f } where
  ids := by rw [map_id hf]; exact h.ids
  known := by rw [map_id hf]; exact h.known
  leased := by
    intro row hrow hopen
    obtain ⟨old, hold, rfl⟩ := List.mem_map.1 hrow
    rw [hf]
    exact hl old hold hopen

theorem Fenced.enqueue (h : Fenced s) (alert : MonitorAlert) :
    Fenced { s with table := enqueue s.table alert } := by
  rw [Dashboarding.enqueue]
  split_ifs with ha
  · exact h
  · refine ⟨?_, ?_, ?_⟩
    · rw [List.map_append, List.nodup_append]
      refine ⟨h.ids, List.nodup_singleton _, ?_⟩
      intro id hid other hother he
      rw [List.map_singleton, List.mem_singleton] at hother
      rw [he, hother] at hid
      exact ha hid
    · intro d hd
      rw [List.map_append]
      exact List.mem_append_left _ (h.known d hd)
    · intro row hrow hopen
      rcases List.mem_append.1 hrow with hrow | hrow
      · exact h.leased row hrow hopen
      · obtain rfl := List.mem_singleton.1 hrow
        have hnone : ({ s with table := s.table ++ [enqueued alert] } : DeliverySystem).granted
            (enqueued alert).id = [] := by
          refine List.filter_eq_nil_iff.2 fun d hd hid ↦ ha ?_
          have := h.known d hd
          rw [of_decide_eq_true hid] at this
          exact this
        rw [hnone]
        exact leased_nil _

theorem Fenced.enqueueAll (h : Fenced s) (alerts : List MonitorAlert) :
    Fenced { s with table := alerts.foldl Dashboarding.enqueue s.table } := by
  induction alerts generalizing s with
  | nil => exact h
  | cons alert alerts ih => exact ih (h.enqueue alert)

theorem Fenced.save (h : Fenced s) (monitor : Monitor A) (events : List MonitorEvent)
    (now : Instant) : Fenced { s with table := saveDeliveries monitor events now s.table } := by
  refine (h.map (f := fun row ↦ if canceledBy monitor events row then row.cancel now else row)
    ?_ ?_).enqueueAll _
  · intro row
    split_ifs <;> rfl
  · intro row hrow hopen
    split_ifs at hopen ⊢ with hc
    · simp [DeliveryRow.isOpen, DeliveryRow.cancel] at hopen
    · exact h.leased row hrow hopen

/-- The row a report is accepted on belongs to the newest lease. -/
theorem Fenced.current (h : Fenced s) {delivery : MonitorDelivery} (hd : delivery ∈ s.leases)
    {row : DeliveryRow} (hrow : row ∈ s.table) (hh : delivery.holds row) : s.Current delivery := by
  rw [MonitorDelivery.holds, Bool.and_eq_true, Bool.and_eq_true, beq_iff_eq, beq_iff_eq] at hh
  obtain ⟨⟨hid, hclaim⟩, hopen⟩ := hh
  have hl := h.leased row hrow hopen
  rw [hclaim, hid] at hl
  exact ⟨hl.newest (List.mem_filter.2 ⟨hd, decide_eq_true rfl⟩) rfl, row, hrow, hid, hopen, hclaim⟩

theorem Fenced.complete (h : Fenced s) (delivery : MonitorDelivery) (at' : Instant) :
    Fenced { s with table := completeDelivery delivery at' s.table } := by
  refine h.map (fun row ↦ ?_) fun row hrow hopen ↦ ?_
  · split_ifs <;> rfl
  · split_ifs at hopen ⊢ with hh
    · simp [DeliveryRow.isOpen, DeliveryRow.complete] at hopen
    · exact h.leased row hrow hopen

theorem Fenced.fail (h : Fenced s) {delivery : MonitorDelivery} {at' : Instant}
    (hr : s.reports delivery at') (error : JsString) :
    Fenced { s with table := failDelivery delivery error at' s.table } := by
  refine h.map (fun row ↦ ?_) fun row hrow hopen ↦ ?_
  · split_ifs <;> rfl
  · split_ifs at hopen ⊢ with hh
    · rw [MonitorDelivery.holds, Bool.and_eq_true, Bool.and_eq_true, beq_iff_eq, beq_iff_eq] at hh
      have hl := h.leased row hrow hh.2
      rw [hh.1.2] at hl
      refine hl.release ?_
      have hpos := backoffMs_pos delivery.attempts
      have hle := hr.2
      simp only [DeliveryRow.fail, Instant, Duration] at *
      omega
    · exact h.leased row hrow hopen

/-- The rows a claim takes are due, each the only one of its id. -/
theorem Fenced.isDue (h : Fenced s) {limit : ℕ} {at' : Instant} {locked : List JsString}
    {row : DeliveryRow} (hrow : row ∈ s.table)
    (hid : row.id ∈ due collate limit at' locked s.table) :
    isDue collate s.table at' row = true := by
  obtain ⟨found, hfound, he⟩ := List.mem_map.1 hid
  have hmem := List.mem_mergeSort.1 (List.mem_of_mem_take hfound)
  rw [List.mem_filter, Bool.and_eq_true] at hmem
  obtain rfl := List.inj_on_of_nodup_map h.ids hmem.1 hrow he
  exact hmem.2.1

theorem filter_claimed (hn : (s.table.map DeliveryRow.id).Nodup) {row : DeliveryRow}
    (hrow : row ∈ s.table) (ids : List JsString) (at' : Instant) :
    ((s.table.filter (fun r ↦ r.id ∈ ids)).map (DeliveryRow.delivery at')).filter
        (fun d ↦ d.alert.id = row.id) =
      if row.id ∈ ids then [row.delivery at'] else [] := by
  have hswap : (s.table.filter (fun r ↦ r.id ∈ ids)).filter (fun r ↦ r.id = row.id) =
      [row].filter (fun r ↦ r.id ∈ ids) := by
    rw [List.filter_comm, filter_key hn hrow]
  rw [List.filter_map]
  change List.map _ ((s.table.filter (fun r ↦ r.id ∈ ids)).filter (fun r ↦ r.id = row.id)) = _
  rw [hswap]
  split_ifs with hid
  · simp [hid]
  · simp [hid]

theorem Fenced.claim (h : Fenced s) (limit : ℕ) (at' : Instant) (locked : List JsString) :
    Fenced ⟨(claimDeliveries collate limit at' locked s.table).1,
      (claimDeliveries collate limit at' locked s.table).2 ++ s.leases⟩ := by
  have hid (row : DeliveryRow) : (if row.id ∈ due collate limit at' locked s.table
      then row.claim at' else row).id = row.id := by
    split_ifs <;> rfl
  refine ⟨?_, ?_, ?_⟩
  · rw [claimDeliveries, map_id hid]
    exact h.ids
  · intro d hd
    rw [claimDeliveries, map_id hid]
    rcases List.mem_append.1 hd with hd | hd
    · obtain ⟨row, hrow, rfl⟩ := List.mem_map.1 hd
      exact List.mem_map_of_mem (List.mem_filter.1 hrow).1
    · exact h.known d hd
  · intro row hrow hopen
    obtain ⟨old, hold, rfl⟩ := List.mem_map.1 hrow
    rw [hid]
    have hgranted : (⟨(claimDeliveries collate limit at' locked s.table).1,
        (claimDeliveries collate limit at' locked s.table).2 ++ s.leases⟩ : DeliverySystem).granted
          old.id = (if old.id ∈ due collate limit at' locked s.table then [old.delivery at'] else [])
            ++ s.granted old.id := by
      rw [granted, List.filter_append]
      exact congrArg (· ++ s.granted old.id) (filter_claimed h.ids hold _ at')
    rw [hgranted]
    split_ifs at hopen ⊢ with hdue
    · have hd := h.isDue hold hdue
      simp only [Dashboarding.isDue, Bool.and_eq_true, decide_eq_true_eq, Option.all_eq_true] at hd
      refine (h.leased old hold hopen).grant (g := old.delivery at') (fun _ ↦ hd.1.1.2) ?_
      intro u hu
      have hle := hd.1.2 u hu
      simp only [DeliveryRow.delivery, deliveryLease, Instant, Duration] at hle ⊢
      omega
    · exact h.leased old hold hopen

theorem step_fenced {a : DeliveryAction A} (h : Fenced s) (hs : step collate s a = some t) :
    Fenced t := by
  cases a with
  | save monitor events now => exact Option.some.inj hs ▸ h.save monitor events now
  | claim limit at' locked => exact Option.some.inj hs ▸ h.claim limit at' locked
  | complete delivery at' =>
    rw [step] at hs
    split_ifs at hs
    exact Option.some.inj hs ▸ h.complete delivery at'
  | fail delivery error at' =>
    rw [step] at hs
    split_ifs at hs with hr
    exact Option.some.inj hs ▸ h.fail hr error

theorem Fenced.claimedInOrder (h : Fenced s) {limit : ℕ} {at' : Instant} {locked : List JsString}
    {d : MonitorDelivery} (hd : d ∈ (claimDeliveries collate limit at' locked s.table).2)
    {prior : DeliveryRow} (hp : prior ∈ s.table) (hr : sameRecipient prior.alert d.alert)
    (he : earlier collate prior.alert d.alert) :
    prior.deliveredAt.isSome ∨ prior.canceledAt.isSome := by
  obtain ⟨row, hrow, rfl⟩ := List.mem_map.1 hd
  have hmem := List.mem_filter.1 hrow
  have hdue := h.isDue hmem.1 (of_decide_eq_true hmem.2)
  rw [Dashboarding.isDue, Bool.and_eq_true, Bool.not_eq_true', List.any_eq_false] at hdue
  have hclosed := hdue.2 prior hp
  simp only [DeliveryRow.delivery] at hr he
  simp only [hr, he, Bool.true_and, Bool.and_true, DeliveryRow.isOpen, Bool.and_eq_true,
    Option.isNone_iff_eq_none, not_and_or, ← ne_eq, Option.ne_none_iff_isSome] at hclosed
  exact hclosed

theorem complete_of_not_holds {d : MonitorDelivery} {table : Deliveries}
    (h : ∀ row ∈ table, d.holds row = false) (at' : Instant) :
    completeDelivery d at' table = table := by
  refine (List.map_congr_left fun row hrow ↦ ?_).trans (List.map_id table)
  rw [h row hrow]
  rfl

theorem fail_of_not_holds {d : MonitorDelivery} {table : Deliveries}
    (h : ∀ row ∈ table, d.holds row = false) (error : JsString) (at' : Instant) :
    failDelivery d error at' table = table := by
  refine (List.map_congr_left fun row hrow ↦ ?_).trans (List.map_id table)
  rw [h row hrow]
  rfl

theorem Fenced.heldByOne (h : Fenced s) {d : MonitorDelivery} {at' : Instant} {error : JsString}
    {a : DeliveryAction A} (ha : a = .complete d at' ∨ a = .fail d error at')
    (hc : ¬ s.Current d) (hs : step collate s a = some t) : t.table = s.table := by
  have hnot : s.reports d at' → ∀ row ∈ s.table, d.holds row = false := fun hr row hrow ↦
    Bool.eq_false_iff.2 fun hh ↦ hc (h.current hr.1 hrow hh)
  rcases ha with rfl | rfl
  · rw [step] at hs
    split_ifs at hs with hr
    exact Option.some.inj hs ▸ complete_of_not_holds (hnot hr) at'
  · rw [step] at hs
    split_ifs at hs with hr
    exact Option.some.inj hs ▸ fail_of_not_holds (hnot hr) error at'

/-- A row that is closed already is matched by no update. -/
theorem delivered_retained {f : DeliveryRow → DeliveryRow} {table : Deliveries}
    (hf : ∀ row, (f row).id = row.id ∧ (row.isOpen = false → (f row).deliveredAt = row.deliveredAt))
    {row : DeliveryRow} (hrow : row ∈ table) {time : Instant} (ht : row.deliveredAt = some time) :
    ∃ r ∈ table.map f, r.id = row.id ∧ r.deliveredAt = some time := by
  have hclosed : row.isOpen = false := by rw [DeliveryRow.isOpen, ht]; rfl
  exact ⟨f row, List.mem_map_of_mem hrow, (hf row).1, ((hf row).2 hclosed).trans ht⟩

theorem mem_enqueueAll {row : DeliveryRow} {alerts : List MonitorAlert} {table : Deliveries}
    (h : row ∈ table) : row ∈ alerts.foldl Dashboarding.enqueue table := by
  induction alerts generalizing table with
  | nil => exact h
  | cons alert alerts ih =>
    refine ih ?_
    rw [Dashboarding.enqueue]
    split_ifs
    · exact h
    · exact List.mem_append_left _ h

theorem report_retained {d : MonitorDelivery} {g : DeliveryRow → DeliveryRow}
    (hg : ∀ row, (g row).id = row.id) (row : DeliveryRow) :
    (if d.holds row then g row else row).id = row.id ∧ (row.isOpen = false →
      (if d.holds row then g row else row).deliveredAt = row.deliveredAt) := by
  split_ifs with hh
  · rw [MonitorDelivery.holds, Bool.and_eq_true] at hh
    exact ⟨hg row, fun hclosed ↦ absurd (hh.2.symm.trans hclosed) (by decide)⟩
  · exact ⟨rfl, fun _ ↦ rfl⟩

theorem step_retained {a : DeliveryAction A} (hs : step collate s a = some t) {row : DeliveryRow}
    (hrow : row ∈ s.table) {time : Instant} (ht : row.deliveredAt = some time) :
    ∃ r ∈ t.table, r.id = row.id ∧ r.deliveredAt = some time := by
  cases a with
  | save monitor events now =>
    obtain rfl := Option.some.inj hs
    have hf (row : DeliveryRow) : (if canceledBy monitor events row then row.cancel now else row).id =
        row.id ∧ (row.isOpen = false →
          (if canceledBy monitor events row then row.cancel now else row).deliveredAt =
            row.deliveredAt) := by
      split_ifs <;> exact ⟨rfl, fun _ ↦ rfl⟩
    obtain ⟨r, hr, hid, hd⟩ := delivered_retained hf hrow ht
    exact ⟨r, mem_enqueueAll hr, hid, hd⟩
  | claim limit at' locked =>
    obtain rfl := Option.some.inj hs
    refine delivered_retained (fun row ↦ ⟨?_, fun _ ↦ ?_⟩) hrow ht
    · split_ifs <;> rfl
    · split_ifs <;> rfl
  | complete delivery at' =>
    rw [step] at hs
    split_ifs at hs
    obtain rfl := Option.some.inj hs
    exact delivered_retained (report_retained (g := DeliveryRow.complete at') fun _ ↦ rfl) hrow ht
  | fail delivery error at' =>
    rw [step] at hs
    split_ifs at hs
    obtain rfl := Option.some.inj hs
    exact delivered_retained (report_retained
      (g := DeliveryRow.fail error (at' + backoffMs delivery.attempts)) fun _ ↦ rfl) hrow ht

theorem Fenced.deliveredOnce (h : Fenced s) {a : DeliveryAction A}
    (hs : step collate s a = some t) {id : JsString} {time : Instant}
    (ht : s.deliveredTime id = some time) : t.deliveredTime id = some time := by
  obtain ⟨row, hl, hd⟩ := Option.bind_eq_some_iff.1 ht
  obtain ⟨hrow, rfl⟩ := lookup_eq_some hl
  obtain ⟨r, hr, hid, hrd⟩ := step_retained hs hrow hd
  rw [deliveredTime, ← hid, lookup_of_mem (step_fenced h hs).ids hr]
  exact hrd

theorem Fenced.orderly (h : Fenced s) (a : DeliveryAction A) : Orderly collate s a where
  claimedInOrder _ _ _ _ _ hd _ hp hr he := h.claimedInOrder hd hp hr he
  heldByOne _ _ _ ha hc _ hs := h.heldByOne ha hc hs
  deliveredOnce _ hs _ _ ht := h.deliveredOnce hs ht

/-- The deliveries of monitor alerts stay in order, whatever is saved, claimed and reported, by
however many workers and at whatever times. -/
theorem deliveries_in_order (collate : JsString → JsString → Bool)
    (actions : List (DeliveryAction A)) : Along (step collate) (Orderly collate) empty actions :=
  along_of_invariant (fun _ _ _ ↦ step_fenced) (fun _ a h ↦ h.orderly a) empty_fenced actions

end DeliverySystem

end Counted.Dashboarding
