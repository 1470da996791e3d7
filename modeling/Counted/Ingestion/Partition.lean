import Counted.Ingestion.Admission
import Counted.Analytics.Measure

namespace Counted.Ingestion

open Foundations

/-- What admission makes sure of, whatever the client sent. -/
structure WithinPolicy (policy : AdmissionPolicy) (batch : IngestBatch) (e : AdmittedEvent) :
    Prop where
  notAhead : e.occurredAt.toRat - batch.receivedAt ≤ policy.maxFutureSkew
  notOld : batch.receivedAt - e.occurredAt.toRat ≤ policy.maxAge
  named : 0 < e.name.length ∧ e.name.length ≤ maxEventNameLength ∧
    ∀ u ∈ e.name, unusableInAName u = false
  properties : e.properties.length ≤ policy.maxProperties
  keys : ∀ f ∈ e.properties, 0 < f.1.length ∧ f.1.length ≤ policy.maxPropertyKeyLength
  values : ∀ f ∈ e.properties, ∀ s, f.2 = .str s → s.length ≤ policy.maxPropertyValueLength
  receivedAt : e.receivedAt = batch.receivedAt
  country : e.system.country = batch.country

section

variable (rt : Runtime) (policy : AdmissionPolicy) (batch : IngestBatch)

/-- The valid events of a batch, each with the index it was sent at. -/
def validEvents (index : ℕ) (events : List Json) : List (ℕ × AdmittedEvent) :=
  (events.zipIdx index).filterMap (fun p ↦
    (admitEvent rt policy batch p.1 p.2).toOption.map (fun e ↦ (p.2, e)))

/-- The first occurrence of an event. One without a key repeats nothing. -/
def IsFirst (valid : List (ℕ × AdmittedEvent)) (p : ℕ × AdmittedEvent) : Prop :=
  p.2.dedupKey = none ∨ ∀ q ∈ valid, q.1 < p.1 → q.2.dedupKey ≠ p.2.dedupKey

instance (valid : List (ℕ × AdmittedEvent)) : DecidablePred (IsFirst valid) :=
  fun _ ↦ inferInstanceAs (Decidable (_ ∨ _))

end

section

variable {rt : Runtime} {policy : AdmissionPolicy} {batch : IngestBatch} {index : ℕ}
  {events : List Json}

theorem toOption_some {ε α : Type} {r : Except ε α} {a : α} (h : r.toOption = some a) :
    r = .ok a := by
  cases r with
  | error e => cases h
  | ok b => exact congrArg _ (Option.some.inj h)

theorem validEvents_cons (raw : Json) : validEvents rt policy batch index (raw :: events) =
    ((admitEvent rt policy batch raw index).toOption.map (fun e ↦ (index, e))).toList ++
      validEvents rt policy batch (index + 1) events := by
  rw [validEvents, List.zipIdx_cons, List.filterMap_cons]
  cases admitEvent rt policy batch raw index <;> rfl

theorem validEvents_events : (validEvents rt policy batch index events).map (·.2) =
    (admitEvents rt policy batch index events).1 := by
  induction events generalizing index with
  | nil => rfl
  | cons raw events ih =>
    rw [validEvents_cons, List.map_append, ih, admitEvents]
    cases admitEvent rt policy batch raw index <;> rfl

theorem validEvents_le : ∀ p ∈ validEvents rt policy batch index events, index ≤ p.1 := by
  intro p hp
  obtain ⟨⟨raw, i⟩, hi, he⟩ := List.mem_filterMap.1 hp
  obtain ⟨e, -, rfl⟩ := Option.map_eq_some_iff.1 he
  exact (List.mem_zipIdx hi).1

theorem validEvents_increasing :
    ((validEvents rt policy batch index events).map (·.1)).Pairwise (· < ·) := by
  induction events generalizing index with
  | nil => exact .nil
  | cons raw events ih =>
    rw [validEvents_cons]
    cases admitEvent rt policy batch raw index with
    | error e => exact ih
    | ok e =>
      refine List.pairwise_cons.2 ⟨fun i hi ↦ ?_, ih⟩
      obtain ⟨p, hp, rfl⟩ := List.mem_map.1 hi
      exact validEvents_le p hp

/-- Every index is that of a valid event or that of a rejection. -/
theorem indices_perm : ((validEvents rt policy batch index events).map (·.1) ++
    (admitEvents rt policy batch index events).2.map (·.index)).Perm
      (List.range' index events.length) := by
  induction events generalizing index with
  | nil => exact .nil
  | cons raw events ih =>
    rw [validEvents_cons, admitEvents, List.length_cons, List.range'_succ]
    cases admitEvent rt policy batch raw index with
    | ok e => exact ih.cons index
    | error e => exact List.perm_middle.trans (ih.cons index)

theorem checkSkew_none {occurredAt : Decimal} {receivedAt : Instant}
    (h : checkSkew policy occurredAt receivedAt = none) :
    occurredAt.toRat - receivedAt ≤ policy.maxFutureSkew ∧
      receivedAt - occurredAt.toRat ≤ policy.maxAge := by
  rw [checkSkew] at h
  split_ifs at h with hahead hold
  rw [Decimal.lt_iff, Decimal.sub_toRat, Decimal.intCast_toRat, Decimal.intCast_toRat] at hahead hold
  push_cast at hold
  constructor <;> linarith

theorem checkEventName_none {name : JsString} (h : checkEventName name index = none) :
    0 < name.length ∧ name.length ≤ maxEventNameLength ∧
      ∀ u ∈ name, unusableInAName u = false := by
  rw [checkEventName] at h
  split_ifs at h with hempty hlong hany
  refine ⟨by omega, by omega, fun u hu ↦ ?_⟩
  rw [List.any_eq_true] at hany
  exact Bool.eq_false_iff.2 (fun hb ↦ hany ⟨u, hu, hb⟩)

theorem set_length_le (properties : Properties) (key : JsString) (v : PropertyValue) :
    (JsObject.set properties key v).length ≤ properties.length + 1 := by
  rw [JsObject.set]
  split_ifs
  · omega
  · rw [List.length_map]
    omega
  · rw [List.length_append, List.length_singleton]

theorem mem_set {properties : Properties} {key : JsString} {v : PropertyValue}
    {f : JsString × PropertyValue} (h : f ∈ JsObject.set properties key v) :
    f ∈ properties ∨ f = (key, v) := by
  rw [JsObject.set] at h
  split_ifs at h with hproto hany
  · exact .inl h
  · obtain ⟨g, hg, rfl⟩ := List.mem_map.1 h
    split_ifs with hk
    · exact .inr rfl
    · exact .inl hg
  · simpa using h

theorem admitProperty_str {key s : JsString} {value : Json}
    (h : admitProperty policy index key value = .ok (.str s)) :
    s.length ≤ policy.maxPropertyValueLength := by
  cases value with
  | str t =>
    rw [admitProperty] at h
    split_ifs at h with hlong
    cases h
    exact not_lt.1 hlong
  | num n => cases n <;> cases h
  | null | bool | arr | obj => cases h

theorem admitEntries_bounds {properties out : Properties} {entries : List (JsString × Json)}
    (h : admitEntries policy index properties entries = .ok out)
    (hin : ∀ f ∈ properties, (0 < f.1.length ∧ f.1.length ≤ policy.maxPropertyKeyLength) ∧
      ∀ s, f.2 = .str s → s.length ≤ policy.maxPropertyValueLength) :
    out.length ≤ properties.length + entries.length ∧
      ∀ f ∈ out, (0 < f.1.length ∧ f.1.length ≤ policy.maxPropertyKeyLength) ∧
        ∀ s, f.2 = .str s → s.length ≤ policy.maxPropertyValueLength := by
  induction entries generalizing properties with
  | nil =>
    cases h
    exact ⟨le_rfl, hin⟩
  | cons entry entries ih =>
    obtain ⟨key, value⟩ := entry
    rw [admitEntries] at h
    split_ifs at h with hkey
    cases hv : admitProperty policy index key value with
    | error e => simp [hv] at h
    | ok v =>
      simp only [hv] at h
      have hlen := set_length_le properties key v
      obtain ⟨hout, hall⟩ := ih h (fun f hf ↦ by
        rcases mem_set hf with hf | rfl
        · exact hin f hf
        · refine ⟨by dsimp only; omega, fun s hs ↦ ?_⟩
          dsimp only at hs
          exact admitProperty_str (hs ▸ hv))
      rw [List.length_cons]
      exact ⟨by omega, hall⟩

theorem admitEvent_within {raw : Json} {e : AdmittedEvent}
    (h : admitEvent rt policy batch raw index = .ok e) : WithinPolicy policy batch e := by
  obtain ⟨fields, -, hfrom⟩ := admitEvent_ok h
  obtain ⟨hahead, hold⟩ := checkSkew_none hfrom.skew
  have hprops : e.properties.length ≤ policy.maxProperties ∧ ∀ f ∈ e.properties,
      (0 < f.1.length ∧ f.1.length ≤ policy.maxPropertyKeyLength) ∧
        ∀ s, f.2 = .str s → s.length ≤ policy.maxPropertyValueLength := by
    have hp := hfrom.properties
    unfold admitProperties at hp
    split at hp
    · rw [← Except.ok.inj hp]
      exact ⟨Nat.zero_le _, by simp⟩
    · rw [← Except.ok.inj hp]
      exact ⟨Nat.zero_le _, by simp⟩
    · split_ifs at hp with hmany
      obtain ⟨hlen, hall⟩ := admitEntries_bounds hp (by simp)
      rw [List.length_nil] at hlen
      exact ⟨by omega, hall⟩
    · cases hp
  exact ⟨hahead, hold, checkEventName_none hfrom.named, hprops.1, fun f hf ↦ (hprops.2 f hf).1,
    fun f hf ↦ (hprops.2 f hf).2, hfrom.receivedAt, by rw [hfrom.system]; rfl⟩

theorem admitEvents_error {r : RejectedEvent}
    (h : r ∈ (admitEvents rt policy batch index events).2) :
    ∃ i raw, r.index = index + i ∧ events[i]? = some raw ∧
      admitEvent rt policy batch raw r.index = .error r.error := by
  induction events generalizing index with
  | nil => simp [admitEvents] at h
  | cons raw events ih =>
    have hrest (hr : r ∈ (admitEvents rt policy batch (index + 1) events).2) :
        ∃ i raw', r.index = index + i ∧ (raw :: events)[i]? = some raw' ∧
          admitEvent rt policy batch raw' r.index = .error r.error := by
      obtain ⟨i, raw', hi, hget, he⟩ := ih hr
      exact ⟨i + 1, raw', by omega, hget, he⟩
    rw [admitEvents] at h
    cases ha : admitEvent rt policy batch raw index with
    | ok e =>
      simp only [ha] at h
      exact hrest h
    | error e =>
      simp only [ha, List.mem_cons] at h
      rcases h with rfl | h
      · exact ⟨0, raw, rfl, rfl, ha⟩
      · exact hrest h

/-- What is kept of a batch are the first occurrences. -/
theorem collapse_valid (valid : List (ℕ × AdmittedEvent))
    (hv : (valid.map (·.1)).Pairwise (· < ·)) :
    (collapseDuplicates (valid.map (·.2)) []).unique = (valid.filter (IsFirst valid)).map (·.2) ∧
      (collapseDuplicates (valid.map (·.2)) []).duplicates =
        (valid.filter (¬ IsFirst valid ·)).length := by
  have hfirst := @collapse_eq_filter _ _ _ (fun p : ℕ × AdmittedEvent ↦ p.2.dedupKey) Prod.fst [] _ hv
  have hlen := collapse_length (f := fun p : ℕ × AdmittedEvent ↦ p.2.dedupKey) [] valid
  have hsplit := valid.length_eq_length_filter_add (fun p ↦ decide (IsFirst valid p))
  have hkept : (collapse (fun p : ℕ × AdmittedEvent ↦ p.2.dedupKey) [] valid).unique =
      valid.filter (IsFirst valid) := by
    rw [hfirst]
    exact List.filter_congr (fun p _ ↦ decide_eq_decide.2 (by simp [IsFirst]))
  rw [collapseDuplicates, collapse_map, hkept]
  refine ⟨rfl, ?_⟩
  rw [hkept] at hlen
  simp only [← decide_not] at hsplit
  dsimp only
  omega

end

/-- Admission parts a batch into the first occurrences, their repeats and the rejections. -/
theorem admit_partitions (rt : Runtime) (policy : AdmissionPolicy) (batch : IngestBatch)
    (outcome : AdmissionOutcome) (h : admitBatch rt policy batch = .ok outcome) :
    let valid := validEvents rt policy batch 0 batch.events
    let first := valid.filter (IsFirst valid)
    let repeated := valid.filter (¬ IsFirst valid ·)
    outcome.admitted = first.map (·.2) ∧ outcome.duplicates = repeated.length ∧
      (first.map (·.1) ++ repeated.map (·.1) ++ outcome.rejected.map (·.index)).Perm
        (List.range batch.events.length) ∧
      (outcome.rejected.map (·.index)).Pairwise (· < ·) ∧
      (∀ r ∈ outcome.rejected, ∃ raw, batch.events[r.index]? = some raw ∧
        admitEvent rt policy batch raw r.index = .error r.error) ∧
      ∀ e ∈ outcome.admitted, WithinPolicy policy batch e := by
  intro valid first repeated
  obtain ⟨-, hrejected, hc⟩ := admit_cases h
  have hvalid : valid.map (·.2) = (admitEvents rt policy batch 0 batch.events).1 :=
    validEvents_events
  obtain ⟨hunique, hduplicates⟩ := collapse_valid valid validEvents_increasing
  rw [hvalid, hc] at hunique hduplicates
  have hperm : (first.map (·.1) ++ repeated.map (·.1)).Perm (valid.map (·.1)) := by
    rw [← List.map_append]
    have hparts := List.filter_append_perm (fun p ↦ decide (IsFirst valid p)) valid
    simp only [← decide_not] at hparts
    exact hparts.map _
  refine ⟨hunique, hduplicates, ?_, (admit_rejected_increasing h).1, ?_, ?_⟩
  · rw [hrejected, List.range_eq_range']
    exact (hperm.append_right _).trans indices_perm
  · intro r hr
    rw [hrejected] at hr
    obtain ⟨i, raw, hi, hget, he⟩ := admitEvents_error hr
    rw [zero_add] at hi
    exact ⟨raw, hi ▸ hget, he⟩
  · intro e he
    rw [show outcome.admitted = first.map (·.2) from hunique] at he
    obtain ⟨p, hp, rfl⟩ := List.mem_map.1 he
    obtain ⟨⟨raw, i⟩, -, hq⟩ := List.mem_filterMap.1 (List.mem_filter.1 hp).1
    obtain ⟨e, ha, rfl⟩ := Option.map_eq_some_iff.1 hq
    exact admitEvent_within (toOption_some ha)

/-- Two events under one key, one under none, and something that is no event. -/
def mixedBatch : IngestBatch :=
  let keyed := Json.obj [(js "name", .str (js "open")), (js "visitId", .str (js "v")),
    (js "idempotencyKey", .str (js "k"))]
  let keyless := Json.obj [(js "name", .str (js "close")), (js "visitId", .str (js "v"))]
  ⟨js "w", js "p", 0, [keyed, .null, keyless, keyed], some (js "DE"), none⟩

theorem admit_partitions_sample : ∃ outcome,
    admitBatch Analytics.nodeRuntime defaultAdmissionPolicy mixedBatch = .ok outcome ∧
      outcome.admitted.length = 2 ∧ outcome.duplicates = 1 ∧
      outcome.rejected.map (·.index) = [1] ∧
      ∀ e ∈ outcome.admitted, WithinPolicy defaultAdmissionPolicy mixedBatch e := by
  refine ⟨_, rfl, rfl, rfl, rfl, ?_⟩
  exact (admit_partitions Analytics.nodeRuntime defaultAdmissionPolicy mixedBatch _ rfl).2.2.2.2.2

end Counted.Ingestion
