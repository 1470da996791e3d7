import Counted.Dashboarding.MonitorRows
import Counted.Dashboarding.Observe

namespace Counted.Dashboarding

open Analytics Foundations Ingestion

structure MonitorSweepReport where
  considered : ℕ
  evaluated : ℕ
  fired : ℕ
  recovered : ℕ
  silent : ℕ
  unobservable : ℕ
  notified : ℕ
  notifyFailures : ℕ
  errors : ℕ
  deriving DecidableEq

/-- Everything a run meets that its database does not decide: the text order of ids, its clock,
and what each observation, save and delivery comes to, by the turn it belongs to. -/
structure SweepWorld where
  collate : JsString → JsString → Bool
  clock : ℕ → Instant
  observe : ℕ → Monitor Analysis → Instant → Except JsString Observation
  saveFails : ℕ → Option JsString
  healthSaveFails : ℕ → Bool
  deliveryClock : ℕ → Instant
  reportClock : ℕ → Instant
  deliveryFails : ℕ → MonitorAlert → Option JsString

/-- A run between two turns: what it has evaluated and reports, and the database it leaves. -/
structure SweepState where
  database : MonitorDatabase
  attempted : List MonitorId
  report : MonitorSweepReport

inductive SweepResult
  | returned (s : SweepState)
  | rejected (s : SweepState) (error : DecodeError)

namespace SweepState

variable (world : SweepWorld) (turn : ℕ) (at' : Instant) (m : Monitor Analysis)

def save (s : SweepState) (applied : MonitorApplied Analysis) : SweepState :=
  { s with database := s.database.save applied at' }

def count (s : SweepState) (f : MonitorSweepReport → MonitorSweepReport) : SweepState :=
  { s with report := f s.report }

/-- The `catch` of a turn. -/
def failed (s : SweepState) (cause : JsString) : SweepState :=
  (if world.healthSaveFails turn then s
    else s.save at' ⟨m.measurementUnavailable cause at', []⟩).count
      (fun r ↦ { r with errors := r.errors + 1 })

/-- A save inside the `try` of a turn, and what is counted after it. -/
def trySave (s : SweepState) (applied : MonitorApplied Analysis)
    (f : MonitorSweepReport → MonitorSweepReport) : SweepState :=
  match world.saveFails turn with
  | some cause => s.failed world turn at' m cause
  | none => (s.save at' applied).count f

def countDecision : MonitorDecision → MonitorSweepReport → MonitorSweepReport
  | .fire .., r => { r with evaluated := r.evaluated + 1, fired := r.fired + 1 }
  | .recover _, r => { r with evaluated := r.evaluated + 1, recovered := r.recovered + 1 }
  | .silent .., r => { r with evaluated := r.evaluated + 1, silent := r.silent + 1 }

def evaluated (s : SweepState) : Except JsString Observation → SweepState
  | .error cause => s.failed world turn at' m cause
  | .ok (.unobservable detail _) =>
    s.trySave world turn at' m ⟨m.measurementUnavailable detail at', []⟩
      (fun r ↦ { r with unobservable := r.unobservable + 1 })
  | .ok .noData =>
    s.trySave world turn at' m
      ⟨m.measurementUnavailable (js "No data in the observation window.") at', []⟩ id
  | .ok (.observed value _) =>
    s.trySave world turn at' m (m.evaluate value at') (countDecision (m.decide value at'))

/-- A turn of the sweep, once it has claimed a monitor. -/
def attempt (s : SweepState) : SweepState :=
  ({ s with attempted := s.attempted ++ [m.id] }.count
    (fun r ↦ { r with considered := r.considered + 1 })).evaluated world turn at' m
      (world.observe turn m at')

def deliver (now : Instant) : ℕ → ℕ → SweepState → SweepState
  | 0, _, s => s
  | n + 1, index, s =>
    let attemptAt := max now (world.deliveryClock index)
    let reportAt := max attemptAt (world.reportClock index)
    let claimed := claimDeliveries world.collate 1 attemptAt [] s.database.deliveries
    match claimed.2 with
    | [] => s
    | delivery :: _ =>
      match world.deliveryFails index delivery.alert with
      | none => deliver now n (index + 1) {
          s with
          database := { s.database with
            deliveries := completeDelivery delivery reportAt claimed.1 }
          report := { s.report with notified := s.report.notified + 1 } }
      | some cause => deliver now n (index + 1) {
          s with
          database := { s.database with
            deliveries := failDelivery delivery cause reportAt claimed.1 }
          report := { s.report with notifyFailures := s.report.notifyFailures + 1 } }

/-- The turns of the sweep. A claim that throws is outside their `try`. -/
def turns (now : Instant) : ℕ → ℕ → SweepState → SweepResult
  | 0, _, s => .returned s
  | n + 1, index, s =>
    let attemptAt := max now (world.clock index)
    let claimed := claimEnabled world.collate 1 attemptAt s.attempted s.database.monitors
    let leased := { s with database := { s.database with monitors := claimed.1 } }
    match claimed.2 with
    | .error e => .rejected leased e
    | .ok [] => .returned leased
    | .ok (m :: _) => turns now n (index + 1) (leased.attempt world index attemptAt m)

end SweepState

def emptyReport : MonitorSweepReport := ⟨0, 0, 0, 0, 0, 0, 0, 0, 0⟩

def sweepMonitors (world : SweepWorld) (batch : ℕ) (now : Instant) (db : MonitorDatabase) :
    SweepResult :=
  match SweepState.turns world now batch 0 ⟨db, [], emptyReport⟩ with
  | .rejected s e => .rejected s e
  | .returned s => .returned (SweepState.deliver world now batch 0 s)

def MonitorColumns.decodes (row : MonitorColumns) : Bool := (rehydrate row).isOk

/-- The rows the claims of a run take, one after the other. -/
def claimOrder (world : SweepWorld) (now : Instant) (table : List MonitorColumns) :
    ℕ → ℕ → List MonitorId → List MonitorColumns
  | 0, _, _ => []
  | n + 1, index, exclude =>
    match (MonitorColumns.due world.collate 1 (max now (world.clock index)) exclude table).head? with
    | none => []
    | some row => row :: claimOrder world now table n (index + 1) (exclude ++ [row.id])

/-- A run that no row stops: the rows its claims take have their turn where they decode and are
counted as errors where they do not, no claimable row is passed over unless the batch is full, and
the queued alerts are delivered unless that batch is full. -/
structure SweepCompletes (world : SweepWorld) (batch : ℕ) (now : Instant) (db : MonitorDatabase)
    (s : SweepState) : Prop where
  attempted : ∀ row ∈ claimOrder world now db.monitors batch 0 [], row.decodes →
    row.id ∈ s.attempted
  covered : ∀ row ∈ db.monitors, row.claimable now → row.decodes → row.id ∈ s.attempted ∨
    (claimOrder world now db.monitors batch 0 []).length = batch
  counted : ((claimOrder world now db.monitors batch 0 []).filter (fun row ↦ !row.decodes)).length ≤
    s.report.errors
  delivered : s.report.notified + s.report.notifyFailures = batch ∨
    ∀ row ∈ s.database.deliveries, isDue world.collate s.database.deliveries now row = false

section

variable {world : SweepWorld} {now at' : Instant} {exclude : List MonitorId}
  {table : List MonitorColumns} {row : MonitorColumns} {m : Monitor Analysis}

/-- An update of rows that are excluded anyway. -/
theorem filter_map_others {f : MonitorColumns → MonitorColumns}
    (hf : ∀ row, f row = row ∨ row.id ∈ exclude ∧ (f row).id ∈ exclude)
    (table : List MonitorColumns) :
    (table.map f).filter (fun row ↦ row.id ∉ exclude) =
      table.filter (fun row ↦ row.id ∉ exclude) := by
  induction table with
  | nil => rfl
  | cons row table ih =>
    rw [List.map_cons]
    rcases hf row with he | ⟨hrow, hnew⟩
    · rw [he, List.filter_cons, List.filter_cons, ih]
    · rw [List.filter_cons_of_neg (by simpa using hnew), List.filter_cons_of_neg (by simpa using hrow),
        ih]

theorem save_others {db : MonitorDatabase} {applied : MonitorApplied Analysis}
    (h : applied.monitor.id ∈ exclude) :
    (db.save applied now).monitors.filter (fun row ↦ row.id ∉ exclude) =
      db.monitors.filter (fun row ↦ row.id ∉ exclude) := by
  rw [MonitorDatabase.save]
  split_ifs
  · refine filter_map_others (fun row ↦ ?_) _
    split_ifs with ha
    · rw [MonitorColumns.accepts, Bool.and_eq_true, beq_iff_eq] at ha
      exact .inr ⟨ha.1.symm ▸ h, h⟩
    · exact .inl rfl
  · rfl

theorem evaluate_id (m : Monitor Analysis) (observed : JsNumber) (at' : Instant) :
    (m.evaluate observed at').monitor.id = m.id := by
  rw [Monitor.evaluate]
  cases m.decide observed at' <;> rfl

theorem unavailable_id (m : Monitor Analysis) (detail : JsString) (at' : Instant) :
    (m.measurementUnavailable detail at').id = m.id := rfl

theorem rehydrate_id (h : rehydrate row = .ok m) : m.id = row.id := by
  obtain ⟨_, -, h⟩ := bind_ok h
  obtain ⟨_, -, h⟩ := bind_ok h
  obtain ⟨_, -, h⟩ := bind_ok h
  obtain ⟨_, -, h⟩ := bind_ok h
  obtain ⟨_, -, h⟩ := bind_ok h
  exact (Except.ok.inj h) ▸ rfl

namespace SweepState

/-- What a turn for the monitor `m` leaves as it was. -/
structure Beside (m : Monitor Analysis) (s t : SweepState) : Prop where
  attempted : t.attempted = s.attempted
  notified : t.report.notified = s.report.notified
  notifyFailures : t.report.notifyFailures = s.report.notifyFailures
  monitors : ∀ exclude : List MonitorId, m.id ∈ exclude →
    t.database.monitors.filter (fun row ↦ row.id ∉ exclude) =
      s.database.monitors.filter (fun row ↦ row.id ∉ exclude)

variable {s t : SweepState} {turn : ℕ}

theorem save_beside (applied : MonitorApplied Analysis) (h : applied.monitor.id = m.id)
    (s : SweepState) : Beside m s (s.save at' applied) :=
  ⟨rfl, rfl, rfl, fun _ hm ↦ save_others (h ▸ hm)⟩

theorem Beside.count (h : Beside m s t) {f : MonitorSweepReport → MonitorSweepReport}
    (hf : ∀ r, (f r).notified = r.notified ∧ (f r).notifyFailures = r.notifyFailures) :
    Beside m s (t.count f) :=
  ⟨h.attempted, (hf _).1.trans h.notified, (hf _).2.trans h.notifyFailures, h.monitors⟩

theorem failed_beside (s : SweepState) (cause : JsString) :
    Beside m s (s.failed world turn at' m cause) := by
  refine Beside.count ?_ (fun _ ↦ ⟨rfl, rfl⟩)
  split_ifs
  · exact ⟨rfl, rfl, rfl, fun _ _ ↦ rfl⟩
  · exact save_beside _ (unavailable_id m cause at') s

theorem trySave_beside (applied : MonitorApplied Analysis) (h : applied.monitor.id = m.id)
    {f : MonitorSweepReport → MonitorSweepReport}
    (hf : ∀ r, (f r).notified = r.notified ∧ (f r).notifyFailures = r.notifyFailures)
    (s : SweepState) : Beside m s (s.trySave world turn at' m applied f) := by
  rw [trySave]
  cases world.saveFails turn with
  | none => exact (save_beside applied h s).count hf
  | some cause => exact failed_beside s cause

theorem evaluated_beside (s : SweepState) (outcome : Except JsString Observation) :
    Beside m s (s.evaluated world turn at' m outcome) := by
  cases outcome with
  | error cause => exact failed_beside s cause
  | ok observation =>
    cases observation with
    | observed value computedAt =>
      refine trySave_beside _ (evaluate_id m value at') (fun r ↦ ?_) s
      cases m.decide value at' <;> exact ⟨rfl, rfl⟩
    | noData =>
      exact trySave_beside _ (unavailable_id m _ at') (fun _ ↦ ⟨rfl, rfl⟩) s
    | unobservable detail retriable =>
      refine trySave_beside _ (unavailable_id m detail at') ?_ s
      exact fun _ ↦ ⟨rfl, rfl⟩

theorem attempt_beside (s : SweepState) :
    Beside m { s with attempted := s.attempted ++ [m.id] } (s.attempt world turn at' m) := by
  have h := @evaluated_beside world at' m turn ({ s with attempted := s.attempted ++ [m.id] }.count
    (fun r ↦ { r with considered := r.considered + 1 })) (world.observe turn m at')
  exact ⟨h.attempted, h.notified, h.notifyFailures, h.monitors⟩

end SweepState

/-- A claim of one row takes none or one. -/
theorem due_one (collate : JsString → JsString → Bool) (at' : Instant) (exclude : List MonitorId)
    (table : List MonitorColumns) : MonitorColumns.due collate 1 at' exclude table = [] ∨
      ∃ row, MonitorColumns.due collate 1 at' exclude table = [row] := by
  have hlen : (MonitorColumns.due collate 1 at' exclude table).length ≤ 1 :=
    (List.length_take_le ..)
  cases hd : MonitorColumns.due collate 1 at' exclude table with
  | nil => exact .inl rfl
  | cons row rest =>
    rw [hd, List.length_cons] at hlen
    have hrest : rest = [] := List.length_eq_zero_iff.1 (by omega)
    exact .inr ⟨row, by rw [hrest]⟩

theorem claimed_ok (h : row.decodes = true) (at' : Instant) :
    ∃ m, [row].mapM (claimedMonitor at') = .ok [m] ∧ m.id = row.id := by
  rw [MonitorColumns.decodes] at h
  rw [List.mapM_cons, List.mapM_nil, claimedMonitor]
  cases hr : rehydrate row with
  | error e =>
    rw [hr] at h
    cases h
  | ok m =>
    have hid := rehydrate_id hr
    exact ⟨_, rfl, hid⟩

theorem claimed_error (h : row.decodes = false) (at' : Instant) :
    ∃ e, [row].mapM (claimedMonitor at') = .error e := by
  rw [MonitorColumns.decodes] at h
  rw [List.mapM_cons, claimedMonitor]
  cases hr : rehydrate row with
  | error e => exact ⟨e, rfl⟩
  | ok m =>
    rw [hr] at h
    cases h

theorem claimOrder_none {n index : ℕ}
    (h : MonitorColumns.due world.collate 1 (max now (world.clock index)) exclude table = []) :
    claimOrder world now table (n + 1) index exclude = [] := by
  rw [claimOrder, h]
  rfl

theorem claimOrder_some {n index : ℕ}
    (h : MonitorColumns.due world.collate 1 (max now (world.clock index)) exclude table = [row]) :
    claimOrder world now table (n + 1) index exclude =
      row :: claimOrder world now table n (index + 1) (exclude ++ [row.id]) := by
  rw [claimOrder, h]
  rfl

/-- The rows that are not excluded decide what is claimed. -/
theorem due_congr {collate : JsString → JsString → Bool} {limit : ℕ} {s t : List MonitorColumns}
    (h : s.filter (fun row ↦ row.id ∉ exclude) = t.filter (fun row ↦ row.id ∉ exclude)) :
    MonitorColumns.due collate limit at' exclude s =
      MonitorColumns.due collate limit at' exclude t := by
  rw [MonitorColumns.due, h, MonitorColumns.due]

namespace SweepState

variable {s : SweepState} {n index : ℕ}

/-- What is left after the turns of rows that all decode. -/
structure Swept (order : List MonitorColumns) (s t : SweepState) : Prop where
  attempted : t.attempted = s.attempted ++ order.map (·.id)
  notified : t.report.notified = s.report.notified
  notifyFailures : t.report.notifyFailures = s.report.notifyFailures

theorem turns_none (now : Instant)
    (h : MonitorColumns.due world.collate 1 (max now (world.clock index)) s.attempted
      s.database.monitors = []) :
    ∃ t, turns world now (n + 1) index s = .returned t ∧ Swept [] s t := by
  rw [turns, claimEnabled, h]
  exact ⟨_, rfl, (List.append_nil _).symm, rfl, rfl⟩

theorem turns_bad (now : Instant)
    (h : MonitorColumns.due world.collate 1 (max now (world.clock index)) s.attempted
      s.database.monitors = [row]) (hb : row.decodes = false) :
    ∃ t e, turns world now (n + 1) index s = .rejected t e := by
  obtain ⟨e, he⟩ := claimed_error hb (max now (world.clock index))
  simp only [turns, claimEnabled, h, he]
  exact ⟨_, e, rfl⟩

theorem filter_exclude {s t : List MonitorColumns}
    (h : s.filter (fun r ↦ r.id ∉ exclude) = t.filter (fun r ↦ r.id ∉ exclude))
    (more : List MonitorId) :
    s.filter (fun r ↦ r.id ∉ exclude ++ more) = t.filter (fun r ↦ r.id ∉ exclude ++ more) := by
  have hsplit (l : List MonitorColumns) : l.filter (fun r ↦ r.id ∉ exclude ++ more) =
      (l.filter (fun r ↦ r.id ∉ exclude)).filter (fun r ↦ r.id ∉ more) := by
    rw [List.filter_filter]
    refine List.filter_congr fun r _ ↦ ?_
    simp [Bool.and_comm]
  rw [hsplit, hsplit, h]

/-- The rows that still wait for their turn are those of the table. -/
def Waiting (table : List MonitorColumns) (s : SweepState) : Prop :=
  s.database.monitors.filter (fun r ↦ r.id ∉ s.attempted) =
    table.filter (fun r ↦ r.id ∉ s.attempted)

/-- A turn for a row that decodes leaves the rows that still wait as they were. -/
theorem turns_good (now : Instant) (hw : Waiting table s)
    (h : MonitorColumns.due world.collate 1 (max now (world.clock index)) s.attempted table = [row])
    (hg : row.decodes = true) :
    ∃ t, turns world now (n + 1) index s = turns world now n (index + 1) t ∧ Swept [row] s t ∧
      Waiting table t := by
  obtain ⟨m, hm, hid⟩ := claimed_ok hg (max now (world.clock index))
  simp only [turns, claimEnabled, due_congr hw, h, hm]
  refine ⟨_, rfl, ?_⟩
  generalize hl : SweepState.mk _ _ _ = leased
  have hb := @attempt_beside world (max now (world.clock index)) m index leased
  subst hl
  refine ⟨⟨?_, hb.notified, hb.notifyFailures⟩, ?_⟩
  · rw [hb.attempted, hid]
    rfl
  · rw [Waiting, hb.attempted, hb.monitors _ (List.mem_append_right _ (List.mem_singleton_self _)),
      ← filter_exclude hw]
    refine filter_map_others (fun r ↦ ?_) _
    split_ifs with hr
    · rw [List.map_singleton, List.mem_singleton] at hr
      have hin : r.id ∈ s.attempted ++ [m.id] :=
        List.mem_append_right _ (List.mem_singleton.2 (hr.trans hid.symm))
      exact .inr ⟨hin, hin⟩
    · exact .inl rfl

/-- The turns go through when every row the claims take decodes. -/
theorem turns_returned (now : Instant) (hw : Waiting table s)
    (hd : ∀ row ∈ claimOrder world now table n index s.attempted, row.decodes) :
    ∃ t, turns world now n index s = .returned t ∧
      Swept (claimOrder world now table n index s.attempted) s t := by
  induction n generalizing index s with
  | zero => exact ⟨s, rfl, (List.append_nil _).symm, rfl, rfl⟩
  | succ n ih =>
    rcases due_one world.collate (max now (world.clock index)) s.attempted table with h | ⟨row, h⟩
    · rw [claimOrder_none h]
      exact turns_none now ((due_congr hw).trans h)
    · rw [claimOrder_some h] at hd ⊢
      rw [List.forall_mem_cons] at hd
      obtain ⟨u, hu, hs, hwu⟩ := turns_good (n := n) now hw h hd.1
      have hatt : u.attempted = s.attempted ++ [row.id] := hs.attempted
      rw [← hatt] at hd ⊢
      obtain ⟨t, ht, hst⟩ := ih hwu hd.2
      refine ⟨t, hu.trans ht, ?_, hst.notified.trans hs.notified,
        hst.notifyFailures.trans hs.notifyFailures⟩
      rw [hst.attempted, hatt, List.map_cons, List.append_assoc, List.singleton_append]

/-- A row that does not decode ends the run. -/
theorem turns_rejected (now : Instant) (hw : Waiting table s)
    (hd : ∃ row ∈ claimOrder world now table n index s.attempted, row.decodes = false) :
    ∃ t e, turns world now n index s = .rejected t e := by
  induction n generalizing index s with
  | zero =>
    obtain ⟨row, hrow, -⟩ := hd
    cases hrow
  | succ n ih =>
    rcases due_one world.collate (max now (world.clock index)) s.attempted table with h | ⟨row, h⟩
    · rw [claimOrder_none h] at hd
      obtain ⟨row, hrow, -⟩ := hd
      cases hrow
    · rw [claimOrder_some h] at hd
      cases hg : row.decodes with
      | false => exact turns_bad now ((due_congr hw).trans h) hg
      | true =>
        obtain ⟨u, hu, hs, hwu⟩ := turns_good (n := n) now hw h hg
        have hatt : u.attempted = s.attempted ++ [row.id] := hs.attempted
        obtain ⟨bad, hbad, hb⟩ := hd
        have hin : bad ∈ claimOrder world now table n (index + 1) u.attempted := by
          rcases List.mem_cons.1 hbad with rfl | hbad
          · rw [hg] at hb
            cases hb
          · rw [hatt]
            exact hbad
        obtain ⟨t, e, ht⟩ := ih hwu ⟨bad, hin, hb⟩
        exact ⟨t, e, hu.trans ht⟩

theorem deliver_attempted (now : Instant) (n index : ℕ) (s : SweepState) :
    (deliver world now n index s).attempted = s.attempted := by
  induction n generalizing index s with
  | zero => rfl
  | succ n ih =>
    simp only [deliver]
    split
    · rfl
    · split
      · rw [ih]
      · rw [ih]

theorem deliver_delivers (world : SweepWorld) (now : Instant) (n index : ℕ) (s : SweepState) :
    (deliver world now n index s).report.notified +
        (deliver world now n index s).report.notifyFailures =
      s.report.notified + s.report.notifyFailures + n ∨
    ∀ row ∈ (deliver world now n index s).database.deliveries,
      isDue world.collate (deliver world now n index s).database.deliveries now row = false := by
  induction n generalizing index s with
  | zero => exact .inl rfl
  | succ n ih =>
    simp only [deliver]
    split
    · rename_i hnone
      refine .inr fun row hrow ↦ Bool.eq_false_iff.2 fun hd ↦ ?_
      have hlater := isDue_mono (le_max_left now (world.deliveryClock index)) hd
      rw [not_due_of_nothing_claimed hnone row hrow] at hlater
      cases hlater
    · split
      · refine (ih _ _).imp_left fun h ↦ h.trans ?_
        dsimp only
        omega
      · refine (ih _ _).imp_left fun h ↦ h.trans ?_
        dsimp only
        omega

end SweepState

theorem claimable_mono {s t : Instant} (h : s ≤ t) (hc : row.claimable s = true) :
    row.claimable t = true := by
  simp only [MonitorColumns.claimable, Bool.and_eq_true, Option.all_eq_true, decide_eq_true_eq]
    at hc ⊢
  exact ⟨hc.1, fun until' hu ↦ (hc.2 until' hu).trans h⟩

/-- No row that could have been claimed all along is passed over. -/
theorem claimOrder_covers {n index : ℕ} (hrow : row ∈ table) (hc : row.claimable now)
    (hx : row.id ∉ exclude) :
    row.id ∈ (claimOrder world now table n index exclude).map (·.id) ∨
      (claimOrder world now table n index exclude).length = n := by
  induction n generalizing index exclude with
  | zero => exact .inr rfl
  | succ n ih =>
    rcases due_one world.collate (max now (world.clock index)) exclude table with h | ⟨first, h⟩
    · have hin : row ∈ (table.filter (fun r ↦ r.id ∉ exclude)).filter
          (MonitorColumns.claimable (max now (world.clock index))) :=
        List.mem_filter.2 ⟨List.mem_filter.2 ⟨hrow, decide_eq_true hx⟩,
          claimable_mono (le_max_left ..) hc⟩
      rw [MonitorColumns.due, List.take_eq_nil_iff] at h
      have hnil := h.resolve_left one_ne_zero
      have hmem : row ∈ ((table.filter (fun r ↦ r.id ∉ exclude)).filter (MonitorColumns.claimable
          (max now (world.clock index)))).mergeSort (MonitorColumns.attemptedFirst world.collate) :=
        List.mem_mergeSort.2 hin
      rw [hnil] at hmem
      cases hmem
    · rw [claimOrder_some h, List.map_cons, List.length_cons]
      by_cases he : row.id = first.id
      · exact .inl (he ▸ List.mem_cons_self ..)
      · have hx' : row.id ∉ exclude ++ [first.id] := by simp [hx, he]
        exact (ih hx').imp (List.mem_cons_of_mem _) (congrArg (· + 1))

/-- A run completes exactly when every row its claims take decodes. -/
theorem sweep_completes_iff (world : SweepWorld) (batch : ℕ) (now : Instant)
    (db : MonitorDatabase) :
    (∃ s, sweepMonitors world batch now db = .returned s ∧ SweepCompletes world batch now db s) ↔
      ∀ row ∈ claimOrder world now db.monitors batch 0 [], row.decodes := by
  have hw : SweepState.Waiting db.monitors ⟨db, [], emptyReport⟩ := rfl
  constructor
  · rintro ⟨s, hs, -⟩ row hrow
    by_contra hbad
    obtain ⟨t, e, ht⟩ := SweepState.turns_rejected now hw ⟨row, hrow, Bool.eq_false_iff.2 hbad⟩
    rw [sweepMonitors, ht] at hs
    cases hs
  · intro hd
    obtain ⟨t, ht, hst⟩ := SweepState.turns_returned now hw hd
    refine ⟨_, by rw [sweepMonitors, ht], ?_⟩
    have hatt := @SweepState.deliver_attempted world now batch 0 t
    refine ⟨?_, ?_, ?_, ?_⟩
    · intro row hrow _
      rw [hatt, hst.attempted]
      exact List.mem_append_right _ (List.mem_map_of_mem hrow)
    · intro row hrow hc _
      rw [hatt, hst.attempted]
      exact (claimOrder_covers hrow hc (List.not_mem_nil)).imp_left (List.mem_append_right _)
    · rw [List.filter_eq_nil_iff.2]
      · exact Nat.zero_le _
      · intro row hrow
        simp [hd row hrow]
    · refine (SweepState.deliver_delivers world now batch 0 t).imp_left fun h ↦ h.trans ?_
      rw [hst.notified, hst.notifyFailures]
      exact Nat.zero_add _

end

def sampleColumns (id : JsString) (channels : List Json) : MonitorColumns where
  id := id
  workspaceId := js "w"
  projectId := js "p"
  name := js "Signups"
  analysis := Process.worker.column (signups (.relative (7 : ℤ) .day))
  thresholdComparison := js "above"
  thresholdValue := (10 : ℤ)
  cooldownMs := 3600000
  channels := .arr channels
  enabled := true
  state := js "ok"
  lastNotifiedAt := none
  lastValue := none
  lastAttemptAt := none
  lastMeasuredAt := none
  evaluationError := none
  evaluationClaimedUntil := none

def sampleWorld : SweepWorld where
  collate s t := JsString.le s t && s != t
  clock _ := 1000
  observe _ _ _ := .ok .noData
  saveFails _ := none
  healthSaveFails _ := false
  deliveryClock _ := 1000
  reportClock _ := 1000
  deliveryFails _ _ := none

/-- A webhook channel without its url. -/
def badRow : MonitorColumns := sampleColumns (js "a") [.obj [(js "kind", .str (js "webhook"))]]

def goodRow : MonitorColumns := sampleColumns (js "b") []

/-- The row that does not decode ends the run before the other monitor has had its turn. -/
theorem unreadable_row_stops : goodRow.decodes = true ∧ goodRow.claimable 1000 = true ∧
    ¬ ∃ s, sweepMonitors sampleWorld 50 1000 ⟨[badRow, goodRow], []⟩ = .returned s ∧
      SweepCompletes sampleWorld 50 1000 ⟨[badRow, goodRow], []⟩ s := by
  refine ⟨by decide, by decide, ?_⟩
  rintro ⟨s, hs, -⟩
  have hdue : MonitorColumns.due sampleWorld.collate 1 (max 1000 (sampleWorld.clock 0)) []
      [badRow, goodRow] = [badRow] := by
    rw [MonitorColumns.due, List.mergeSort_of_pairwise]
    · rfl
    · decide
  obtain ⟨t, e, ht⟩ := @SweepState.turns_bad sampleWorld badRow
    ⟨⟨[badRow, goodRow], []⟩, [], emptyReport⟩ 49 0 1000 hdue (by decide)
  rw [sweepMonitors, ht] at hs
  cases hs

end Counted.Dashboarding
