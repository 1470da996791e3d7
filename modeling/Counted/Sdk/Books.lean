import Counted.Foundations.Run
import Counted.Sdk.Client

namespace Counted.Sdk

open Foundations

namespace Session

variable (s : Session)

/-- Where the events a client has been given can be. -/
def places : List QueuedEvent :=
  s.queue.events ++ s.inFlight.getD [] ++ s.acknowledged ++ s.beaconed ++ s.refused.flatten ++ s.lost

/-- The events reported as dropped or discarded. -/
def reportedLosses : ℕ := (s.diagnostics.map Diagnostic.losses).sum

/-- The batches reported as refused. -/
def reportedRefusals : ℕ := s.diagnostics.countP Diagnostic.isRefusal

/-- All that is lost has been reported. -/
def Reported : Prop := s.lost.length = s.reportedLosses

/-- Every event tracked is in exactly one place, in order where it is still held, and nothing is
changed on its way out. -/
structure Placed : Prop where
  placed : s.tracked.Perm s.places
  ordered : (s.inFlight.getD [] ++ s.queue.events).Sublist s.tracked
  unchanged : ∀ batch ∈ s.sent, batch.Sublist s.tracked
  refusals : s.refused.length = s.reportedRefusals

/-- The books of a client are in balance. -/
structure Balanced : Prop extends Placed s where
  reported : s.Reported

/-- An event is put into a queue of some capacity, and a failed batch into one with room for it. -/
def HasRoom : ClientAction → Prop
  | .track .. => s.closed = false → s.disabled = false → 0 ≤ s.queue.capacity
  | .reply reply _ _ => ∀ batch, s.inFlight = some batch →
    (∃ status wait detail, outcomeOf batch reply = .retry status wait detail) →
      (batch.length + s.queue.size : ℤ) ≤ s.queue.capacity
  | .flush _ | .timer _ | .hidden _ | .shutdown _ => True

structure Inv : Prop extends Placed s where
  fits : (s.queue.size : ℤ) ≤ max s.queue.capacity 0
  sending : s.inFlight ≠ some []

variable {s}

theorem Balanced.total (h : s.Balanced) : s.tracked.length =
    s.queue.size + (s.inFlight.getD []).length + s.acknowledged.length + s.beaconed.length +
      s.refused.flatten.length + s.reportedLosses := by
  rw [h.placed.length_eq, places, ← h.reported]
  simp only [List.length_append, EventQueue.size]

theorem placed_iff : s.tracked.Perm s.places ↔ ∀ e, s.tracked.count e =
    s.queue.events.count e + (s.inFlight.getD []).count e + s.acknowledged.count e +
      s.beaconed.count e + s.refused.flatten.count e + s.lost.count e := by
  rw [List.perm_iff_count]
  simp only [places, List.count_append]

theorem count_take_drop (l : List QueuedEvent) (n : ℕ) (e : QueuedEvent) :
    (l.take n).count e + (l.drop n).count e = l.count e := by
  rw [← List.count_append, List.take_append_drop]

theorem count_spilled_trim (q : EventQueue) (e : QueuedEvent) :
    q.spilled.count e + q.trim.events.count e = q.events.count e := by
  rw [← List.count_append, EventQueue.spilled_append_trim]

theorem trim_suffix (q : EventQueue) : q.trim.events.Sublist q.events := by
  rw [EventQueue.trim_eq]
  exact List.drop_sublist _ _

theorem initial_inv (o : CountedOptions) : Inv (initial o) where
  placed := .refl _
  ordered := .refl _
  unchanged := nofun
  refusals := rfl
  fits := le_max_right _ _
  sending := nofun

theorem Inv.report (h : Inv s) {d : Diagnostic} (hd : d.isRefusal = false) : Inv (s.report d) where
  placed := h.placed
  ordered := h.ordered
  unchanged := h.unchanged
  refusals := by
    have hr := h.refusals
    simp only [reportedRefusals] at hr
    simp only [Session.report, reportedRefusals, List.countP_append, List.countP_singleton, hd,
      Bool.false_eq_true, if_false, Nat.add_zero]
    exact hr
  fits := h.fits
  sending := h.sending

theorem Inv.drain (h : Inv s) (hn : s.inFlight = none) (o : CountedOptions) (now : JsNumber) :
    Inv (s.drain o now) := by
  have hqueue : s.queue.events.Sublist s.tracked := by
    have := h.ordered
    rwa [hn] at this
  have hfits := h.fits
  rw [Session.drain]
  dsimp only
  split_ifs with _ _ hnil
  · exact h
  · exact h
  · have hz : s.queue.events.take o.batchSize.toNat = [] := hnil
    have hdrop : s.queue.events.drop o.batchSize.toNat = s.queue.events := by
      have := List.take_append_drop o.batchSize.toNat s.queue.events
      rwa [hz, List.nil_append] at this
    have htake : (s.queue.take o.batchSize).2 = s.queue := by
      rw [EventQueue.take, hdrop]
    rw [htake]
    exact h
  · refine ⟨⟨?_, ?_, ?_, h.refusals⟩, ?_, ?_⟩
    · rw [placed_iff]
      intro e
      have hp := placed_iff.1 h.placed e
      have hc := count_take_drop s.queue.events o.batchSize.toNat e
      simp only [hn, Option.getD_none, List.count_nil] at hp
      simp only [EventQueue.take, Option.getD_some]
      omega
    · simp only [EventQueue.take, Option.getD_some, List.take_append_drop]
      exact hqueue
    · intro batch hb
      rcases List.mem_append.1 hb with hb | hb
      · exact h.unchanged batch hb
      · rw [List.mem_singleton.1 hb]
        exact (List.take_sublist _ _).trans hqueue
    · simp only [EventQueue.take, EventQueue.size, List.length_drop] at hfits ⊢
      omega
    · exact fun he ↦ hnil (Option.some.inj he)

theorem Inv.flush (h : Inv s) (o : CountedOptions) (now : JsNumber) : Inv (s.flush o now) := by
  rw [Session.flush]
  split_ifs with hs
  · exact h
  · apply h.drain
    simpa using hs

theorem Inv.pushed (h : Inv s) (event : QueuedEvent) : Inv (s.pushed event) where
  placed := by
    rw [placed_iff]
    intro e
    have hp := placed_iff.1 h.placed e
    have hc := count_spilled_trim (s.queue.append event) e
    simp only [EventQueue.append, List.count_append] at hc
    simp only [Session.pushed, EventQueue.push, EventQueue.append, List.count_append]
    omega
  ordered := by
    have ht := trim_suffix (s.queue.append event)
    have ho := h.ordered.append (List.Sublist.refl [event])
    rw [List.append_assoc] at ho
    exact ((List.Sublist.refl _).append ht).trans ho
  unchanged batch hb := (h.unchanged batch hb).trans (List.sublist_append_left _ _)
  refusals := h.refusals
  fits := by
    have ht := EventQueue.size_trim_le (s.queue.append event)
    simp only [Session.pushed, EventQueue.push]
    rw [EventQueue.trim_eq] at ht ⊢
    exact ht
  sending := h.sending

theorem Inv.track (h : Inv s) (o : CountedOptions) (event : QueuedEvent) (now : JsNumber) :
    Inv (s.track o event now) := by
  have hp := h.pushed event
  rw [Session.track]
  dsimp only
  split_ifs
  · exact h
  · exact Inv.flush (hp.report rfl) o now
  · exact hp.report rfl
  · exact hp.flush o now
  · exact hp

theorem Inv.receipt (h : Inv s) (receipt : IngestReceipt) : Inv (s.reportReceipt receipt) := by
  have hr : Inv (s.reportRejected receipt) := by
    rw [reportRejected]
    split_ifs
    · exact h.report rfl
    · exact h
  rw [reportReceipt]
  cases receipt.quota with
  | none => exact hr
  | some quota =>
    rw [reportQuota]
    split_ifs
    · exact hr.report rfl
    · exact hr

section Settle

variable {batch : List QueuedEvent}

theorem Inv.count (h : Inv s) (hb : s.inFlight = some batch) (e : QueuedEvent) :
    s.tracked.count e = s.queue.events.count e + batch.count e + s.acknowledged.count e +
      s.beaconed.count e + s.refused.flatten.count e + s.lost.count e := by
  have hp := placed_iff.1 h.placed e
  rwa [hb, Option.getD_some] at hp

theorem Inv.queued (h : Inv s) : s.queue.events.Sublist s.tracked :=
  (List.sublist_append_right _ _).trans h.ordered

theorem Inv.acknowledge (h : Inv s) (hb : s.inFlight = some batch) :
    Inv { s with inFlight := none, attempt := 0, acknowledged := s.acknowledged ++ batch } where
  placed := by
    rw [placed_iff]
    intro e
    have hp := h.count hb e
    simp only [Option.getD_none, List.count_nil, List.count_append]
    omega
  ordered := h.queued
  unchanged := h.unchanged
  refusals := h.refusals
  fits := h.fits
  sending := nofun

theorem Inv.refuse (h : Inv s) (hb : s.inFlight = some batch) (status : ℕ) (detail : JsString) :
    Inv ({ s with inFlight := none, refused := s.refused ++ [batch] }.report
      (.refused status detail)) where
  placed := by
    rw [placed_iff]
    intro e
    have hp := h.count hb e
    simp only [Session.report, Option.getD_none, List.count_nil, List.flatten_append,
      List.flatten_singleton, List.count_append]
    omega
  ordered := h.queued
  unchanged := h.unchanged
  refusals := by
    have hr := h.refusals
    simp only [reportedRefusals] at hr
    simp only [Session.report, reportedRefusals, List.length_append, List.countP_append, hr]
    rfl
  fits := h.fits
  sending := nofun

theorem take_size (q : EventQueue) : q.take q.size = (q.events, { q with events := [] }) := by
  rw [EventQueue.take, EventQueue.size, Int.toNat_natCast, List.take_length, List.drop_length]

theorem Inv.disable (h : Inv s) (hb : s.inFlight = some batch) (status : ℕ) (detail : JsString) :
    Inv ({ s with inFlight := none, refused := s.refused ++ [batch] }.disable status detail) where
  placed := by
    rw [placed_iff]
    intro e
    have hp := h.count hb e
    simp only [Session.disable, Session.report, take_size, Option.getD_none, List.count_nil,
      List.flatten_append, List.flatten_singleton, List.count_append]
    omega
  ordered := by
    simp only [Session.disable, Session.report, take_size]
    exact List.nil_sublist _
  unchanged := h.unchanged
  refusals := by
    have hr := h.refusals
    simp only [reportedRefusals] at hr
    simp only [Session.disable, Session.report, reportedRefusals, List.length_append,
      List.countP_append, hr]
    rfl
  fits := by
    simp only [Session.disable, Session.report, take_size]
    exact le_max_right _ _
  sending := nofun

/-- A batch that goes back to the head of the queue it came from. -/
theorem Inv.requeue (h : Inv s) (hb : s.inFlight = some batch) :
    Inv ({ s with inFlight := none }.requeued batch) where
  placed := by
    rw [placed_iff]
    intro e
    have hp := h.count hb e
    have hc := count_spilled_trim (s.queue.prepend batch) e
    simp only [EventQueue.prepend, List.count_append] at hc
    simp only [Session.requeued, EventQueue.requeue, EventQueue.prepend, Option.getD_none,
      List.count_nil, List.count_append]
    omega
  ordered := by
    have ho := h.ordered
    rw [hb] at ho
    exact (trim_suffix _).trans ho
  unchanged := h.unchanged
  refusals := h.refusals
  fits := by
    have ht := EventQueue.size_trim_le (s.queue.prepend batch)
    simp only [Session.requeued, EventQueue.requeue]
    rw [EventQueue.trim_eq] at ht ⊢
    exact ht
  sending := nofun

theorem Inv.handle (h : Inv s) (hb : s.inFlight = some batch) (ar : Arithmetic)
    (now random : JsNumber) (outcome : SendOutcome) :
    Inv ({ s with inFlight := none }.handle ar batch now random outcome) := by
  cases outcome with
  | accepted receipt => exact (h.acknowledge hb).receipt receipt
  | refused status detail =>
    rw [Session.handle]
    dsimp only
    split_ifs
    · exact h.disable hb status detail
    · exact h.refuse hb status detail
  | retry status wait detail =>
    have hr := h.requeue hb
    rw [Session.handle]
    cases wait with
    | some wait => exact ⟨⟨hr.placed, hr.ordered, hr.unchanged, hr.refusals⟩, hr.fits, hr.sending⟩
    | none => exact ⟨⟨hr.placed, hr.ordered, hr.unchanged, hr.refusals⟩, hr.fits, hr.sending⟩

end Settle

/-- What was taken and goes straight back fits where it was. -/
theorem Inv.put_back (h : Inv s) (n : ℤ) (hne : (s.queue.take n).1 ≠ []) :
    (s.queue.take n).2.requeue (s.queue.take n).1 = s.queue ∧
      ((s.queue.take n).2.prepend (s.queue.take n).1).spilled = [] := by
  have hq : (s.queue.take n).2.prepend (s.queue.take n).1 = s.queue := by
    simp only [EventQueue.take, EventQueue.prepend, List.take_append_drop]
  have hfits : (s.queue.size : ℤ) ≤ s.queue.capacity := by
    have hpos : 0 < s.queue.size := by
      apply List.length_pos_of_ne_nil
      intro hnil
      apply hne
      rw [EventQueue.take, hnil, List.take_nil]
    have := h.fits
    omega
  have hz : s.queue.excess.toNat = 0 := by
    rw [EventQueue.excess]
    omega
  constructor
  · rw [EventQueue.requeue, hq, EventQueue.trim_of_fits hfits]
  · rw [hq, EventQueue.spilled, hz, List.take_zero]

theorem Inv.hidden (h : Inv s) (o : CountedOptions) (sent : Bool) : Inv (s.hidden o sent) := by
  have hqueue := h.queued
  have hfits := h.fits
  rw [Session.hidden]
  dsimp only
  split_ifs with hnil hs
  · have hz : s.queue.events.take o.batchSize.toNat = [] := hnil
    have hdrop : s.queue.events.drop o.batchSize.toNat = s.queue.events := by
      have := List.take_append_drop o.batchSize.toNat s.queue.events
      rwa [hz, List.nil_append] at this
    have htake : (s.queue.take o.batchSize).2 = s.queue := by
      rw [EventQueue.take, hdrop]
    rw [htake]
    exact h
  · refine ⟨⟨?_, ?_, ?_, h.refusals⟩, ?_, h.sending⟩
    · rw [placed_iff]
      intro e
      have hp := placed_iff.1 h.placed e
      have hc := count_take_drop s.queue.events o.batchSize.toNat e
      simp only [EventQueue.take, List.count_append]
      omega
    · exact ((List.Sublist.refl _).append (List.drop_sublist _ _)).trans h.ordered
    · intro batch hb
      rcases List.mem_append.1 hb with hb | hb
      · exact h.unchanged batch hb
      · rw [List.mem_singleton.1 hb]
        exact (List.take_sublist _ _).trans hqueue
    · simp only [EventQueue.take, EventQueue.size, List.length_drop] at hfits ⊢
      omega
  · obtain ⟨hq, hsp⟩ := h.put_back o.batchSize hnil
    simp only [Session.requeued, hq, hsp, List.append_nil]
    refine ⟨⟨h.placed, h.ordered, ?_, h.refusals⟩, h.fits, h.sending⟩
    intro batch hb
    rcases List.mem_append.1 hb with hb | hb
    · exact h.unchanged batch hb
    · rw [List.mem_singleton.1 hb]
      exact (List.take_sublist _ _).trans hqueue

theorem Inv.shutdown (h : Inv s) (o : CountedOptions) (now : JsNumber) :
    Inv (s.shutdown o now) := by
  apply Inv.flush
  exact ⟨⟨h.placed, h.ordered, h.unchanged, h.refusals⟩, h.fits, h.sending⟩

theorem step_inv {ar : Arithmetic} {o : CountedOptions} {a : ClientAction} {t : Session}
    (h : Inv s) (hs : s.step ar o a = some t) : Inv t := by
  cases a with
  | track event now => exact Option.some.inj hs ▸ h.track o event now
  | flush now => exact Option.some.inj hs ▸ h.flush o now
  | timer now =>
    rw [Session.step] at hs
    split_ifs at hs
    exact Option.some.inj hs ▸ h.flush o now
  | hidden sent =>
    rw [Session.step] at hs
    split_ifs at hs
    exact Option.some.inj hs ▸ h.hidden o sent
  | shutdown now => exact Option.some.inj hs ▸ h.shutdown o now
  | reply reply now random =>
    obtain ⟨batch, hb, rfl⟩ := Option.map_eq_some_iff.1 hs
    exact h.handle hb ar now random _

theorem reportedLosses_report (s : Session) (d : Diagnostic) :
    (s.report d).reportedLosses = s.reportedLosses + d.losses := by
  simp [Session.report, reportedLosses]

/-- Sending what is queued loses nothing and reports nothing. -/
theorem flush_reported {o : CountedOptions} {now : JsNumber} :
    (s.flush o now).Reported ↔ s.Reported := by
  have hl : (s.flush o now).lost = s.lost ∧ (s.flush o now).diagnostics = s.diagnostics := by
    rw [Session.flush, drain]
    dsimp only
    split_ifs <;> exact ⟨rfl, rfl⟩
  rw [Reported, Reported, reportedLosses, hl.1, hl.2, reportedLosses]

theorem receipt_reported {receipt : IngestReceipt} :
    (s.reportReceipt receipt).Reported ↔ s.Reported := by
  have hr : (s.reportRejected receipt).Reported ↔ s.Reported := by
    rw [reportRejected]
    split_ifs
    · rw [Reported, reportedLosses_report]
      rfl
    · rfl
  rw [reportReceipt]
  cases receipt.quota with
  | none => exact hr
  | some quota =>
    rw [reportQuota]
    split_ifs
    · rw [Reported, reportedLosses_report]
      exact hr
    · exact hr

theorem pushed_dropped (s : Session) (event : QueuedEvent) :
    (s.queue.push event).dropped - s.queue.dropped = (s.queue.append event).excess.toNat := by
  rw [EventQueue.push, EventQueue.trim_eq]
  exact Nat.add_sub_cancel_left _ _

theorem track_reported {o : CountedOptions} {event : QueuedEvent} {now : JsNumber}
    (hr : s.Reported) : (s.track o event now).Reported ↔ s.HasRoom (.track event now) := by
  have hlen := EventQueue.length_spilled (s.queue.append event)
  have hsize : (s.queue.append event).size = s.queue.size + 1 := List.length_append
  have hexcess : (s.queue.append event).excess = s.queue.size + 1 - s.queue.capacity := by
    rw [EventQueue.excess, hsize]
    rfl
  -- what is counted as dropped is what was there to drop, unless the capacity is negative
  have hroom : (s.queue.append event).spilled.length = (s.queue.append event).excess.toNat ↔
      0 ≤ s.queue.capacity := by
    rw [hlen, hsize, hexcess]
    omega
  rw [Reported] at hr
  by_cases hc : (s.closed || s.disabled) = true
  · rw [Session.track, if_pos hc]
    refine iff_of_true hr (fun h h' ↦ ?_)
    rw [h, h'] at hc
    cases hc
  · have hopen : s.closed = false ∧ s.disabled = false := by simpa using hc
    have hpushed : (if 0 < (s.queue.push event).dropped - s.queue.dropped then
        (s.pushed event).report (.dropped ((s.queue.push event).dropped - s.queue.dropped))
        else s.pushed event).Reported ↔ 0 ≤ s.queue.capacity := by
      rw [← hroom, pushed_dropped]
      have hl : (s.pushed event).lost.length =
          s.lost.length + (s.queue.append event).spilled.length := List.length_append
      have hd : (s.pushed event).reportedLosses = s.reportedLosses := rfl
      split_ifs with h
      · rw [Reported, reportedLosses_report, hd]
        have hlost : ((s.pushed event).report
          (.dropped (s.queue.append event).excess.toNat)).lost = (s.pushed event).lost := rfl
        rw [hlost, hl, Diagnostic.losses]
        omega
      · rw [Reported, hl, hd]
        omega
    rw [Session.track, if_neg hc]
    dsimp only
    have hgoal : s.HasRoom (.track event now) ↔ 0 ≤ s.queue.capacity :=
      ⟨fun h ↦ h hopen.1 hopen.2, fun h _ _ ↦ h⟩
    rw [hgoal]
    split_ifs at hpushed ⊢
    · rw [flush_reported]
      exact hpushed
    · exact hpushed
    · rw [flush_reported]
      exact hpushed
    · exact hpushed

theorem hidden_reported (h : Inv s) (o : CountedOptions) (sent : Bool) :
    (s.hidden o sent).Reported ↔ s.Reported := by
  rw [Session.hidden]
  dsimp only
  split_ifs with hnil
  · rfl
  · rfl
  · obtain ⟨-, hsp⟩ := h.put_back o.batchSize hnil
    simp only [Reported, Session.requeued, hsp, List.append_nil]
    rfl

theorem requeued_reported {batch : List QueuedEvent} (hr : s.Reported) (hne : batch ≠ []) :
    (s.requeued batch).Reported ↔ (batch.length + s.queue.size : ℤ) ≤ s.queue.capacity := by
  have hlen := EventQueue.length_spilled (s.queue.prepend batch)
  have hsize : (s.queue.prepend batch).size = batch.length + s.queue.size := List.length_append
  have hexcess : (s.queue.prepend batch).excess =
      batch.length + s.queue.size - s.queue.capacity := by
    rw [EventQueue.excess, hsize]
    push_cast
    rfl
  have hpos := List.length_pos_of_ne_nil hne
  have hl : (s.requeued batch).lost.length =
      s.lost.length + (s.queue.prepend batch).spilled.length := List.length_append
  have hd : (s.requeued batch).reportedLosses = s.reportedLosses := rfl
  rw [Reported] at hr
  rw [Reported, hl, hd, hlen, hsize, hexcess]
  omega

theorem handle_reported {batch : List QueuedEvent} (h : Inv s) (hb : s.inFlight = some batch)
    (hr : s.Reported) (ar : Arithmetic) (now random : JsNumber) (outcome : SendOutcome) :
    ({ s with inFlight := none }.handle ar batch now random outcome).Reported ↔
      ((∃ status wait detail, outcome = .retry status wait detail) →
        (batch.length + s.queue.size : ℤ) ≤ s.queue.capacity) := by
  cases outcome with
  | accepted receipt =>
    refine iff_of_true (receipt_reported.2 hr) ?_
    rintro ⟨_, _, _, ⟨⟩⟩
  | refused status detail =>
    refine iff_of_true ?_ (by rintro ⟨_, _, _, ⟨⟩⟩)
    rw [Reported] at hr
    rw [Session.handle]
    dsimp only
    split_ifs
    · rw [Session.disable, Reported, reportedLosses_report, take_size]
      simp only [Session.report, List.length_append]
      rw [hr]
      rfl
    · rw [Reported, reportedLosses_report]
      exact hr
  | retry status wait detail =>
    have hne : batch ≠ [] := by
      intro hnil
      exact h.sending (hnil ▸ hb)
    have hretry : (∃ status' wait' detail', SendOutcome.retry status wait detail =
        .retry status' wait' detail') := ⟨_, _, _, rfl⟩
    have hiff := @requeued_reported ({ s with inFlight := none }.backedOff ar wait now random) batch
    have hback : ({ s with inFlight := none }.backedOff ar wait now random).Reported ∧
        ({ s with inFlight := none }.backedOff ar wait now random).queue = s.queue := by
      cases wait with
      | some wait => exact ⟨hr, rfl⟩
      | none => exact ⟨hr, rfl⟩
    rw [hback.2] at hiff
    rw [Session.handle, hiff hback.1 hne]
    exact ⟨fun hle _ ↦ hle, fun hle ↦ hle hretry⟩

/-- A step keeps all losses reported exactly if it has room for what it puts into the queue. -/
theorem step_reported {ar : Arithmetic} {o : CountedOptions} {a : ClientAction} {t : Session}
    (h : Inv s) (hr : s.Reported) (hs : s.step ar o a = some t) : t.Reported ↔ s.HasRoom a := by
  cases a with
  | track event now => exact Option.some.inj hs ▸ track_reported hr
  | flush now => exact iff_of_true (Option.some.inj hs ▸ flush_reported.2 hr) trivial
  | timer now =>
    rw [Session.step] at hs
    split_ifs at hs
    exact iff_of_true (Option.some.inj hs ▸ flush_reported.2 hr) trivial
  | hidden sent =>
    rw [Session.step] at hs
    split_ifs at hs
    exact iff_of_true (Option.some.inj hs ▸ (hidden_reported h o sent).2 hr) trivial
  | shutdown now =>
    have hclosed : { s with closed := true, timer := false }.Reported := hr
    exact iff_of_true (Option.some.inj hs ▸ flush_reported.2 hclosed) trivial
  | reply reply now random =>
    obtain ⟨batch, hb, rfl⟩ := Option.map_eq_some_iff.1 hs
    rw [handle_reported h hb hr]
    refine ⟨fun hle batch' hb' ↦ ?_, fun hle ↦ hle batch hb⟩
    obtain rfl := Option.some.inj (hb.symm.trans hb')
    exact hle

/-- The books of a client stay in balance throughout a run exactly if each of its steps has room. -/
theorem books_balance (ar : Arithmetic) (o : CountedOptions) (actions : List ClientAction) :
    Throughout (fun s a ↦ step ar o s a) Balanced (initial o) actions ↔
      Along (fun s a ↦ step ar o s a) HasRoom (initial o) actions := by
  have hb (s : Session) (hi : Inv s) : s.Balanced ↔ s.Reported :=
    ⟨fun h ↦ h.reported, fun h ↦ ⟨hi.toPlaced, h⟩⟩
  refine throughout_iff_along (fun _ _ _ ↦ step_inv) (fun s a t hi hp hs ↦ ?_) (fun s a hs ↦ ?_)
    (initial_inv o) ((hb _ (initial_inv o)).2 rfl)
  · rw [hb t (step_inv hi hs)]
    exact step_reported hi hp.reported hs
  · cases a with
    | reply reply now random =>
      intro batch hbatch
      rw [step, hbatch] at hs
      cases hs
    | track event now => cases hs
    | flush | timer | hidden | shutdown => trivial

def sampleEvent (key : JsString) : QueuedEvent :=
  ⟨js "page_viewed", js "v", none, js "2026-08-01T00:00:00.000Z", key, none, none⟩

/-- A batch fails after the queue behind it has filled up. -/
def fullBehind : List ClientAction :=
  [.track (sampleEvent (js "a")) (0 : ℤ), .track (sampleEvent (js "b")) (0 : ℤ),
    .reply (.failed (js "network error")) (0 : ℤ) (0 : ℤ)]

/-- The oldest event is pushed out by its own return, and nobody is told. -/
theorem requeue_unreported :
    (run (fun s a ↦ step Analytics.nodeArithmetic ⟨0, 1, 1⟩ s a) (initial ⟨0, 1, 1⟩) fullBehind).map
        (fun t ↦ (t.lost.length, t.reportedLosses)) = some (1, 0) ∧
      ¬ Throughout (fun s a ↦ step Analytics.nodeArithmetic ⟨0, 1, 1⟩ s a) Balanced
        (initial ⟨0, 1, 1⟩) fullBehind := by
  have hrun : (run (fun s a ↦ step Analytics.nodeArithmetic ⟨0, 1, 1⟩ s a) (initial ⟨0, 1, 1⟩)
      fullBehind).map (fun t ↦ (t.lost.length, t.reportedLosses)) = some (1, 0) := rfl
  refine ⟨hrun, fun h ↦ ?_⟩
  obtain ⟨t, ht, hlosses⟩ := Option.map_eq_some_iff.1 hrun
  have hreported := (h.last ht).reported
  rw [Reported, (Prod.mk.inj hlosses).1, (Prod.mk.inj hlosses).2] at hreported
  cases hreported

end Session

end Counted.Sdk
