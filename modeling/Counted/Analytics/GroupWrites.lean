import Counted.Analytics.Storable
import Counted.Analytics.ExactlyOnce
import Counted.Ingestion.Fate

namespace Counted.Analytics

open Foundations Ingestion

variable {digest : ProjectId → DedupKey → Digest} {refusal : Cause} {db : Db} {project : ProjectId}
  {events : List AdmittedEvent}

theorem mem_of_mem_pending {f : DedupKey → Digest} {fresh : List Digest} {index : ℕ}
    {p : AdmittedEvent × ℕ} (h : p ∈ pending f fresh index events) : p.1 ∈ events := by
  induction events generalizing fresh index with
  | nil => cases h
  | cons event events ih =>
    rw [pending] at h
    split at h
    · rcases List.mem_cons.1 h with rfl | h
      · exact List.mem_cons_self
      · exact List.mem_cons_of_mem _ (ih h)
    · split_ifs at h
      · rcases List.mem_cons.1 h with rfl | h
        · exact List.mem_cons_self
        · exact List.mem_cons_of_mem _ (ih h)
      · exact List.mem_cons_of_mem _ (ih h)

theorem pending_keyless {f : DedupKey → Digest} {fresh : List Digest} {index : ℕ}
    (h : ∀ e ∈ events, e.dedupKey = none) :
    (pending f fresh index events).map (·.1) = events := by
  induction events generalizing index with
  | nil => rfl
  | cons event events ih =>
    rw [List.forall_mem_cons] at h
    rw [pending, h.1, Option.map_none]
    simp only [List.map_cons, ih h.2]

theorem written_keyless (h : ∀ e ∈ events, e.dedupKey = none) :
    (written digest db ⟨project, events, {}⟩).map (·.1) = events := pending_keyless h

/-- Nothing but a refused parameter fails an attempt. -/
theorem attempt_ok
    (h : taken project ((written digest db ⟨project, events, {}⟩).map (·.1)) = true) :
    ∃ receipt, (writeBatch digest db (attempt digest refusal db project events)).2 =
      .ok receipt := by
  have hf : attempt digest refusal db project events = ⟨project, events, {}⟩ := by
    simp [attempt, h]
  rw [hf, writeBatch]
  split_ifs
  · exact ⟨_, rfl⟩
  · simp only [transaction, throwing, bind, Except.bind, Option.getD_none, ne_eq, not_true_eq_false,
      if_false, ite_self]
    exact ⟨_, rfl⟩

theorem attempt_refused (h0 : written digest db ⟨project, events, {}⟩ ≠ [])
    (h : taken project ((written digest db ⟨project, events, {}⟩).map (·.1)) = false) :
    writeBatch digest db (attempt digest refusal db project events) =
      (db, .error (failureFor refusal)) := by
  have hf : attempt digest refusal db project events =
      ⟨project, events, { insert := some refusal }⟩ := by simp [attempt, h]
  have hw : written digest db ⟨project, events, { insert := some refusal }⟩ =
    written digest db ⟨project, events, {}⟩ := rfl
  have hlen : events.length ≠ 0 := by
    intro hn
    obtain rfl := List.eq_nil_of_length_eq_zero hn
    exact h0 rfl
  rw [hf, writeBatch, if_neg hlen]
  simp only [transaction, throwing, bind, Except.bind, hw, if_pos h0, ite_self]

/-- The requests of a group brought every event in it. -/
theorem read_from {deps : GroupCommitDeps} {s : State} {actions : List Action} {g : Group}
    (h : run (State.step deps) .initial actions = some s)
    (hg : g ∈ s.groups ∨ g ∈ s.commits.map (·.group)) {e : AdmittedEvent} (he : e ∈ g.events) :
    ∃ batch ∈ s.submits, ∃ index raw, batch.events[index]? = some raw ∧
      admitEvent deps.runtime deps.admission batch raw index = .ok e := by
  have hs := reached_inv h
  obtain ⟨ps, ha, hj⟩ := hs.grouped g hg
  rw [ha.events] at he
  obtain ⟨p, hp, hep⟩ := List.mem_flatMap.1 ((collapse_sublist (f := AdmittedEvent.dedupKey) _ _).subset he)
  obtain ⟨hsub, hadm⟩ := hs.known p (.inr (hj.subset hp))
  obtain ⟨-, -, hc⟩ := admit_cases hadm
  have hpassed : e ∈ (admitEvents deps.runtime deps.admission p.batch 0 p.batch.events).1 := by
    apply (collapse_sublist (f := AdmittedEvent.dedupKey) _ _).subset
    rw [collapseDuplicates] at hc
    rw [hc]
    exact hep
  obtain ⟨index, raw, hi, hok⟩ := mem_admitEvents.1 hpassed
  exact ⟨p.batch, List.mem_of_getElem? hsub, index, raw, hi, by simpa using hok⟩

/-- A group is one the sink can store, whatever the ledger already holds, exactly when the texts
of its events are. -/
theorem group_storable_iff (deps : GroupCommitDeps) (digest : ProjectId → DedupKey → Digest)
    (refusal : Cause) {actions : List Action} {s : State}
    (h : run (State.step deps) .initial actions = some s)
    (hp : ∀ batch ∈ s.submits, batch.Parsed) {g : Group}
    (hg : g ∈ s.groups ∨ g ∈ s.commits.map (·.group)) :
    (taken g.project g.events = true ∧ ∀ db, ∃ receipt,
      (writeBatch digest db (attempt digest refusal db g.project g.events)).2 = .ok receipt) ↔
    ∀ batch ∈ s.submits, ∀ index fields e, batch.events[index]? = some (.obj fields) →
      admitEvent deps.runtime deps.admission batch (.obj fields) index = .ok e → e ∈ g.events →
      storable g.project = true ∧ Usable deps.runtime batch index fields := by
  have hfits {batch : IngestBatch} {index : ℕ} {fields : List (JsString × Json)}
      {e : AdmittedEvent} (hb : batch ∈ s.submits) (hi : batch.events[index]? = some (.obj fields))
      (hok : admitEvent deps.runtime deps.admission batch (.obj fields) index = .ok e) :
      Usable deps.runtime batch index fields ↔ Fits e := by
    obtain ⟨fields', hf, hfrom⟩ := admitEvent_ok hok
    cases hf
    exact usable_iff hfrom (fun entries ↦ hp batch hb fields entries (List.mem_of_getElem? hi))
  constructor
  · rintro ⟨ht, -⟩ batch hb index fields e hi hok he
    obtain ⟨hproject, hf⟩ := (taken_iff _ _).1 ht e he
    exact ⟨hproject, (hfits hb hi hok).2 hf⟩
  · intro hall
    have hevents : ∀ e ∈ g.events, storable g.project = true ∧ Fits e := by
      intro e he
      obtain ⟨batch, hb, index, raw, hi, hok⟩ := read_from h hg he
      obtain ⟨fields, rfl, -⟩ := admitEvent_ok hok
      obtain ⟨hproject, hu⟩ := hall batch hb index fields e hi hok he
      exact ⟨hproject, (hfits hb hi hok).1 hu⟩
    refine ⟨(taken_iff _ _).2 hevents, fun db ↦ attempt_ok ((taken_iff _ _).2 ?_)⟩
    intro e he
    obtain ⟨p, hpm, rfl⟩ := List.mem_map.1 he
    exact hevents p.1 (mem_of_mem_pending hpm)

/-- Two requests, of one event each, that the same timer flushes. -/
def sharedRun (visit : JsString) : List Action :=
  [.submit (sampleBatch [sampleEvent visit]), .quotaAnswer 0 .allowed 0 0,
    .submit (sampleBatch [sampleEvent (js "w")]), .quotaAnswer 1 .allowed 0 0, .tick 20]

def admittedAs (visit : JsString) : AdmittedEvent where
  name := js "open"
  visit := visit
  person := none
  occurredAt := (0 : ℤ)
  receivedAt := 0
  dedupKey := none
  properties := []
  system := normaliseSystemProperties none none

theorem admittedAs_fits {visit : JsString} (h : storable visit = true) : Fits (admittedAs visit) where
  date := (by decide : (Calendar.timeClip (0 : ℤ)).isSome = true)
  name := (by decide : storable (js "open") = true)
  visit := h
  person := by simp [admittedAs]
  properties := by simp [admittedAs]
  osName := by
    simp [admittedAs, normaliseSystemProperties, canonicalOsName, asBoundedString, JsObject.get]
  dims := by simp [admittedAs, normaliseSystemProperties, asBoundedString, JsObject.get]

theorem sharedRun_group (visit : JsString)
    (h : (run (State.step sampleDeps) .initial (sharedRun visit)).map
      (fun s ↦ s.commits.map (fun c ↦ (c.group.project, c.group.submits, c.group.events))) =
      some [(js "p", [0, 1], [admittedAs visit, admittedAs (js "w")])]) :
    ∃ s g, run (State.step sampleDeps) .initial (sharedRun visit) = some s ∧
      g ∈ s.commits.map (·.group) ∧ g.project = js "p" ∧ g.submits = [0, 1] ∧
      g.events = [admittedAs visit, admittedAs (js "w")] := by
  obtain ⟨s, hs, hc⟩ := Option.map_eq_some_iff.1 h
  obtain ⟨c, cs, hcs, hcg, -⟩ := List.map_eq_cons_iff.1 hc
  simp only [Prod.mk.injEq] at hcg
  exact ⟨s, c.group, hs, by simp [hcs], hcg⟩

theorem sampleBatch_parsed (visit : JsString) : (sampleBatch [sampleEvent visit]).Parsed := by
  intro fields entries hf hp
  cases List.mem_singleton.1 hf
  simp [JsObject.get, (by decide : js "name" ≠ js "properties"),
    (by decide : js "visitId" ≠ js "properties")] at hp

theorem group_storable_iff_sample :
    ∃ s g, run (State.step sampleDeps) .initial (sharedRun (js "v")) = some s ∧
      g ∈ s.commits.map (·.group) ∧ g.submits = [0, 1] ∧
      ∀ batch ∈ s.submits, ∀ index fields e, batch.events[index]? = some (.obj fields) →
        admitEvent sampleDeps.runtime sampleDeps.admission batch (.obj fields) index = .ok e →
        e ∈ g.events → storable g.project = true ∧ Usable sampleDeps.runtime batch index fields := by
  obtain ⟨s, g, hs, hg, hproject, hsubmits, hevents⟩ := sharedRun_group (js "v") (by decide)
  have hsub : (run (State.step sampleDeps) .initial (sharedRun (js "v"))).map State.submits =
      some [sampleBatch [sampleEvent (js "v")], sampleBatch [sampleEvent (js "w")]] := rfl
  rw [hs, Option.map_some, Option.some.injEq] at hsub
  have hp : ∀ batch ∈ s.submits, batch.Parsed := by
    rw [hsub]
    simp [sampleBatch_parsed]
  have ht : taken g.project g.events = true := by
    rw [hproject, hevents, taken_iff]
    simp only [List.forall_mem_cons]
    exact ⟨⟨by decide, admittedAs_fits (by decide)⟩, ⟨by decide, admittedAs_fits (by decide)⟩, by simp⟩
  have hk : ∀ e ∈ g.events, e.dedupKey = none := by
    rw [hevents]
    simp [admittedAs]
  refine ⟨s, g, hs, hg, hsubmits, (group_storable_iff sampleDeps (fun _ k ↦ k) ⟨[], []⟩ hs hp
    (.inr hg)).1 ⟨ht, fun db ↦ attempt_ok ?_⟩⟩
  rwa [written_keyless hk]

/-- One visit id with U+0000 in it, and no request of its group is ever stored; without it, the
other request is. -/
theorem nul_blocks_group :
    ∃ s g, run (State.step sampleDeps) .initial (sharedRun [118, 0]) = some s ∧
      g ∈ s.commits.map (·.group) ∧ g.submits = [0, 1] ∧
      ∀ digest refusal db, writeBatch digest db (attempt digest refusal db g.project g.events) =
          (db, .error (failureFor refusal)) ∧
        ∃ receipt, (writeBatch digest db
          (attempt digest refusal db g.project (g.events.drop 1))).2 = .ok receipt := by
  obtain ⟨s, g, hs, hg, hproject, hsubmits, hevents⟩ := sharedRun_group [118, 0] (by decide)
  have hk : ∀ e ∈ g.events, e.dedupKey = none := by
    rw [hevents]
    simp [admittedAs]
  refine ⟨s, g, hs, hg, hsubmits, fun digest refusal db ↦ ⟨?_, ?_⟩⟩
  · apply attempt_refused
    · intro hn
      have hw : (written digest db ⟨g.project, g.events, {}⟩).map (·.1) = g.events :=
        written_keyless hk
      rw [hn, hevents] at hw
      cases hw
    · rw [written_keyless hk, hevents, ← Bool.not_eq_true, taken_iff]
      intro hall
      exact absurd (hall _ List.mem_cons_self).2.visit (by decide)
  · apply attempt_ok
    rw [written_keyless (fun e he ↦ hk e (List.mem_of_mem_drop he)), hproject, hevents, taken_iff]
    simp only [List.drop_succ_cons, List.drop_zero, List.forall_mem_cons]
    exact ⟨⟨by decide, admittedAs_fits (by decide)⟩, by simp⟩

end Counted.Analytics
