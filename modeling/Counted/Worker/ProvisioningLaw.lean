import Counted.Projects.ProvisioningLaw
import Counted.Worker.Provisioning

namespace Counted.Worker

open Authorization Foundations Attempt Identity Projects Tenancy
open Ingestion (ProjectId)

section Window

variable {s : ProvisioningStores} {since : Instant} {limit : ℕ} {record : ProjectRecord}
  {row : ProjectRow}

theorem recordOf_some (h : recordOf row = some record) :
    record.project = row.id ∧ row.archived = false ∧ row.workspace ≠ none := by
  rw [recordOf] at h
  split_ifs at h with ha
  obtain ⟨w, hw, rfl⟩ := Option.map_eq_some_iff.1 h
  exact ⟨rfl, Bool.not_eq_true _ ▸ ha, by simp [hw]⟩

/-- A project is in the window once. -/
theorem nodup_createdSince (s : ProvisioningStores) (since : Instant) (limit : ℕ) :
    ((createdSince s since limit).map (·.project)).Nodup := by
  have hrecords : ((s.projects.filterMap recordOf).map (·.project)).Nodup := by
    rw [List.Nodup, List.pairwise_map, List.pairwise_filterMap]
    refine (List.pairwise_map.1 s.unique).imp fun hne b hb c hc he ↦ hne ?_
    rw [← (recordOf_some hb).1, ← (recordOf_some hc).1, he]
  have hsorted := (List.mergeSort_perm ((s.projects.filterMap recordOf).filter
    (fun record ↦ since ≤ record.createdAt)) (fun a b ↦ a.createdAt ≤ b.createdAt)).map (·.project)
  refine ((List.take_sublist limit _).map _).nodup (hsorted.nodup_iff.2 ?_)
  exact (List.filter_sublist.map _).nodup hrecords

/-- What is in the window belongs to a workspace and is not archived. -/
theorem placed_of_mem (h : record ∈ createdSince s since limit) :
    (s.holdings record.project).Placed := by
  have hrecord := (List.mem_filter.1 (List.mem_mergeSort.1 (List.mem_of_mem_take h))).1
  obtain ⟨row, hrow, hr⟩ := List.mem_filterMap.1 hrecord
  obtain ⟨hid, ha, hw⟩ := recordOf_some hr
  refine ⟨row, ?_, ha, hw⟩
  change s.find record.project = some row
  rw [hid]
  exact Keyed.lookup_of_mem s.unique hrow

end Window

variable {deps : ProvisioningDeps} {identity : ProvisioningIdentity} {record : ProjectRecord}
  {s t : ProvisioningStores}

/-- What is done for a project without a credential is logged, and a repair gives it a key. -/
theorem attend_ends (deps : ProvisioningDeps) (identity : ProvisioningIdentity)
    (record : ProjectRecord) (s : ProvisioningStores) :
    (attend deps identity record).Ends s
      (fun outcome t ↦ OnlyOf record.project s t ∧
        ((s.holdings record.project).Placed → (s.holdings record.project).keys = [] →
          outcome.logged = true) ∧
        (outcome.isRepaired = true → ∀ now, (t.holdings record.project).CanIngest now))
      (OnlyOf record.project s) := by
  rw [attend]
  split_ifs with hrepair
  · exact ⟨.refl _ s, fun _ _ ↦ rfl, by rintro ⟨⟩⟩
  · dsimp only
    rw [ends_bind, ends_read]
    refine ⟨fun _ ↦ .refl _ s, fun _ ↦ ?_⟩
    cases mostSenior ((identity.calls record.project).members.getD []) with
    | none => exact ⟨.refl _ s, fun _ _ ↦ rfl, by rintro ⟨⟩⟩
    | some issuer =>
      dsimp only
      rw [ends_bind]
      refine (repair_ends _ _ s).mono (fun r t hr ↦ ?_) (fun _ h ↦ h)
      obtain ⟨hof, hkey, hneeds⟩ := hr
      cases r with
      | error e => exact ⟨hof, fun _ _ ↦ rfl, by rintro ⟨⟩⟩
      | ok repair =>
        cases repair with
        | repaired c => exact ⟨hof, fun _ _ ↦ rfl, fun _ ↦ hkey c rfl⟩
        | lapsed => exact ⟨hof, fun hp hk ↦ absurd rfl (hneeds hp hk).1, by rintro ⟨⟩⟩
        | alreadyProvisioned => exact ⟨hof, fun hp hk ↦ absurd rfl (hneeds hp hk).2, by rintro ⟨⟩⟩

/-- How a turn can take what there is of its project. -/
inductive Turned (listThrows : Bool) (record : ProjectRecord) (v : Holdings) :
    ProvisioningLine → Holdings → Prop
  | unread : listThrows = true → Turned listThrows record v ⟨record, .failed false⟩ v
  | skipped : listThrows = false → v.keys ≠ [] → Turned listThrows record v ⟨record, .skipped⟩ v
  | attended (outcome : ProvisioningOutcome) (v' : Holdings) : listThrows = false → v.keys = [] →
    (v.Placed → outcome.logged = true) →
    (outcome.isRepaired = true → ∀ now, v'.CanIngest now) →
    Turned listThrows record v ⟨record, outcome⟩ v'

namespace Turned

variable {listThrows : Bool} {v v' : Holdings} {line : ProvisioningLine}

theorem record_eq (h : Turned listThrows record v line v') : line.record = record := by
  cases h <;> rfl

/-- A project that has any credential is left as it is. -/
theorem kept (h : Turned listThrows record v line v') (hk : v.keys ≠ []) : v' = v := by
  cases h with
  | unread => rfl
  | skipped => rfl
  | attended _ _ _ hnil => exact absurd hnil hk

theorem logged (h : Turned listThrows record v line v') (hp : v.Placed)
    (hk : v.keys = [] ∨ listThrows = true) : line.outcome.logged = true := by
  cases h with
  | unread => rfl
  | skipped hlisted hkeys => exact (hk.elim hkeys fun ht ↦ by simp [ht] at hlisted).elim
  | attended _ _ _ _ hlogged => exact hlogged hp

theorem not_logged (h : Turned listThrows record v line v') (hk : v.keys ≠ [])
    (hlisted : listThrows = false) : line.outcome.logged = false := by
  cases h with
  | unread hthrows => simp [hthrows] at hlisted
  | skipped => rfl
  | attended _ _ _ hnil => exact absurd hnil hk

theorem gives (h : Turned listThrows record v line v') (hr : line.outcome.isRepaired = true)
    (now : Instant) : v'.CanIngest now := by
  cases h with
  | unread => cases hr
  | skipped => cases hr
  | attended _ _ _ _ _ hgives => exact hgives hr now

end Turned

theorem turn_ends (deps : ProvisioningDeps) (identity : ProvisioningIdentity)
    (record : ProjectRecord) (s : ProvisioningStores) :
    (turn deps identity record).Ends s
      (fun line t ↦ Turned (identity.calls record.project).listThrows record
          (s.holdings record.project) line (t.holdings record.project) ∧
        ∀ k ≠ record.project, t.holdings k = s.holdings k)
      (fun _ ↦ False) := by
  rw [turn, ends_bind, ends_rescue, ends_bind, ends_read]
  refine ⟨fun hthrows ↦ ⟨.unread hthrows, fun _ _ ↦ rfl⟩, fun hlisted ↦ ?_⟩
  split_ifs with hkeys
  · exact ⟨.skipped hlisted (List.ne_nil_of_length_pos hkeys), fun _ _ ↦ rfl⟩
  · have hnil : (s.holdings record.project).keys = [] := by
      simpa [ProvisioningStores.holdings] using hkeys
    rw [ends_rescue]
    refine (attend_ends deps identity record s).mono (fun outcome t h ↦ ?_) (fun t h ↦ ?_)
    · exact ⟨.attended outcome _ hlisted hnil (fun hp ↦ h.2.1 hp hnil) h.2.2, h.1.2⟩
    · exact ⟨.attended (.failed true) _ hlisted hnil (fun _ ↦ rfl) (by rintro ⟨⟩), h.2⟩

/-- Each project of the window that can receive events is left as it is. Each that cannot has a
line in the log, and where that tells of a repair it now can. -/
def RepairsKeyless (now : Instant) (s : ProvisioningStores) (window : List ProjectRecord)
    (log : List ProvisioningLine) (t : ProvisioningStores) : Prop :=
  ∀ record ∈ window,
    ((s.holdings record.project).CanIngest now →
      t.holdings record.project = s.holdings record.project) ∧
    (¬ (s.holdings record.project).CanIngest now →
      (∃ line ∈ log, line.record = record) ∧
        ∀ line ∈ log, line.record = record → line.outcome.isRepaired = true →
          ∀ later, (t.holdings record.project).CanIngest later)

/-- The turns of a window, each of which starts from what there is of its project at first. -/
theorem turns_end (deps : ProvisioningDeps) (identity : ProvisioningIdentity)
    (s : ProvisioningStores) (since : Instant) (limit : ℕ) :
    (each (turn deps identity) (createdSince s since limit)).Ends s
      (fun lines t ↦ (createdSince s since limit).Forall₂ (fun record line ↦
        Turned (identity.calls record.project).listThrows record (s.holdings record.project) line
          (t.holdings record.project)) lines)
      (fun _ ↦ False) :=
  (ends_each ProjectRecord.project (fun k s ↦ s.holdings k)
    (P := fun record v line v' ↦ Turned (identity.calls record.project).listThrows record v line v')
    (turn_ends deps identity) (nodup_createdSince s since limit) s).mono (fun _ _ h ↦ h.1)
      (fun _ h ↦ h)

/-- A pass repairs or reports every project without a usable key exactly if those that have a
credential at all, and can be listed, have a usable one. -/
theorem repairs_keyless_iff (deps : ProvisioningDeps) (identity : ProvisioningIdentity)
    (now : Instant) (s : ProvisioningStores) :
    (reconcileProvisioning { deps with identity := some identity } now).Ends s
        (fun r t ↦ RepairsKeyless now s (createdSince s (now - deps.lookback) deps.batch) r.2 t)
        (fun t ↦ t = s) ↔
      (deps.windowThrows = false →
        ∀ record ∈ createdSince s (now - deps.lookback) deps.batch,
          (s.holdings record.project).CanIngest now ∨ (s.holdings record.project).keys = [] ∨
            (identity.calls record.project).listThrows = true) := by
  set window := createdSince s (now - deps.lookback) deps.batch with hwindow
  have hturns := turns_end { deps with identity := some identity } identity s (now - deps.lookback)
    deps.batch
  rw [reconcileProvisioning]
  dsimp only
  rw [ends_bind, ends_read, and_iff_right fun _ ↦ rfl]
  refine forall_congr' fun _ ↦ ?_
  rw [ends_bind]
  constructor
  · intro h record hr
    by_contra hbad
    rw [not_or, not_or, Bool.not_eq_true] at hbad
    obtain ⟨hkey, hkeys, hlisted⟩ := hbad
    obtain ⟨lines, t, hrun, hpairs⟩ := hturns.run
    rw [Ends, hrun] at h
    obtain ⟨⟨line, hline, rfl⟩, -⟩ := (h record hr).2 hkey
    obtain ⟨hline, hlogged⟩ := List.mem_filter.1 hline
    obtain ⟨record, -, hturned⟩ := (exists_of_forall₂ hpairs).2 line hline
    obtain rfl := hturned.record_eq
    rw [hturned.not_logged hkeys hlisted] at hlogged
    cases hlogged
  · intro h
    refine hturns.mono (fun lines t hpairs record hr ↦ ?_) (fun _ h ↦ h.elim)
    obtain ⟨line, hline, hturned⟩ := (exists_of_forall₂ hpairs).1 record hr
    constructor
    · intro hkey
      refine hturned.kept fun hnil ↦ ?_
      simp [Holdings.CanIngest, canIngest_iff, hnil] at hkey
    · intro hkey
      refine ⟨⟨line, List.mem_filter.2 ⟨hline, ?_⟩, hturned.record_eq⟩,
        fun other ho he hrepaired ↦ ?_⟩
      · exact hturned.logged (placed_of_mem hr) ((h record hr).resolve_left hkey)
      · obtain ⟨r, -, hother⟩ := (exists_of_forall₂ hpairs).2 other (List.mem_filter.1 ho).1
        obtain rfl : r = record := hother.record_eq.symm.trans he
        exact hother.gives hrepaired

section ExpiredKey

def web : ProjectRow where
  id := js "p"
  name := js "Web"
  ownership := .claimed (js "w") 0
  archived := false
  retention := .inherit
  createdAt := 0

def expiredKey : ApiKeyRow where
  id := js "k"
  kind := .ingest
  name := js "default"
  expiresAt := some 5
  revokedAt := none
  workspace := js "w"
  project := some (js "p")
  permissions := [.eventsWrite]
  issuedBy := js "acc"
  createdAt := 0
  enabled := true

def expiredOnly : ProvisioningStores where
  projects := [web]
  unique := List.nodup_singleton _
  outbox := []
  keys := ⟨[expiredKey], List.nodup_singleton _⟩

/-- Every call is answered, the workspace has an owner, and the store would issue a key. -/
def wired : ProvisioningIdentity where
  can := fun _ _ _ ↦ true
  calls := fun _ ↦ ⟨false, some [⟨js "acc", .owner, 0⟩],
    ⟨10, false, false, .minted ⟨js "k2", [.eventsWrite]⟩, false, false⟩⟩

def everyHour : ProvisioningDeps where
  identity := some wired
  windowThrows := false
  lookback := 100
  batch := 10
  repair := true

/-- A project whose only key has expired is in the window, and the pass neither repairs nor reports
it. -/
theorem expired_key_hides_project :
    reconcileProvisioning everyHour 10 expiredOnly = (some (.checked 1 0 0 0 0, []), expiredOnly) ∧
      createdSince expiredOnly (10 - 100) 10 = [⟨js "p", js "w", js "Web", 0⟩] ∧
      ¬ (expiredOnly.holdings (js "p")).CanIngest 10 := by
  have hwindow : createdSince expiredOnly (10 - 100) 10 = [⟨js "p", js "w", js "Web", 0⟩] := by
    rw [createdSince]
    exact congrArg (List.take 10) (List.mergeSort_singleton _)
  have hrun : reconcileProvisioning everyHour 10 expiredOnly =
      (each (turn everyHour wired) (createdSince expiredOnly (10 - 100) 10) >>= fun lines ↦
        pure (reportOf (createdSince expiredOnly (10 - 100) 10) lines,
          lines.filter (·.outcome.logged))) expiredOnly := rfl
  refine ⟨?_, hwindow, fun h ↦ by cases h⟩
  rw [hrun, hwindow]
  rfl

end ExpiredKey

end Counted.Worker
