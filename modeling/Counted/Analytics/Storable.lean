import Counted.Analytics.Sink
import Counted.Ingestion.Accounting

namespace Counted.Analytics

open Foundations Ingestion

/-- Whether a property is overwritten by one the sink adds under the same name. -/
def overwritten (person osNameRaw : Bool) (key : JsString) : Prop :=
  (key = js "$person" ∧ person = true) ∨ (key = js "$os_name_raw" ∧ osNameRaw = true)

/-- The texts of an event are ones the server stores, and its date is one. -/
structure Fits (e : AdmittedEvent) : Prop where
  date : (Calendar.timeClip e.occurredAt).isSome
  name : storable e.name = true
  visit : storable e.visit = true
  person : ∀ s ∈ e.person, storable s = true
  properties : ∀ p ∈ e.properties, ¬ overwritten e.person.isSome e.system.osNameRaw.isSome p.1 →
    storable p.1 = true ∧ ∀ s, p.2 = .str s → storable s = true
  osName : ∀ s ∈ e.system.osNameRaw, storable s = true
  dims : ∀ value ∈ [e.system.osVersion, e.system.locale, e.system.appVersion,
    e.system.deviceModel, e.system.sdkVersion, e.system.country], ∀ s ∈ value, storable s = true

/-- A field of an object the server stores. -/
def FieldFits (f : JsString × Json) : Prop :=
  storable f.1 = true ∧ ∀ s ∈ f.2.strings, storable s = true

theorem forall_strings_obj {fields : List (JsString × Json)} :
    (∀ s ∈ (Json.obj fields).strings, storable s = true) ↔ ∀ f ∈ fields, FieldFits f := by
  simp only [Json.strings, Json.mem_stringsOfFields, FieldFits]
  constructor
  · intro h f hf
    exact ⟨h _ ⟨f, hf, .inl rfl⟩, fun s hs ↦ h s ⟨f, hf, .inr hs⟩⟩
  · rintro h s ⟨f, hf, rfl | hs⟩
    · exact (h f hf).1
    · exact (h f hf).2 s hs

theorem forall_assign {props : List (JsString × Json)} {key : JsString} {value : Option JsString}
    {P : JsString × Json → Prop} (hk : key ≠ js "__proto__") :
    (∀ f ∈ assign props key value, P f) ↔
      (∀ f ∈ props, ¬ (f.1 = key ∧ value.isSome = true) → P f) ∧
        ∀ s ∈ value, P (key, .str s) := by
  cases value with
  | none => simp [assign]
  | some s =>
    rw [assign, JsObject.forall_set hk]
    simp

theorem osText_storable (n : OsName) : storable n.text = true := by
  cases n <;> decide

theorem fieldFits_nullable {key : JsString} (hk : storable key = true) (value : Option JsString) :
    FieldFits (key, nullable value) ↔ ∀ s ∈ value, storable s = true := by
  cases value with
  | none => simp [FieldFits, nullable, Json.strings, hk]
  | some s => simp [FieldFits, nullable, Json.strings, hk]

theorem fieldFits_property (p : JsString × PropertyValue) : FieldFits (p.1, propertyJson p.2) ↔
    storable p.1 = true ∧ ∀ s, p.2 = .str s → storable s = true := by
  obtain ⟨key, value⟩ := p
  cases value <;> simp [FieldFits, propertyJson, Json.strings]

theorem props_fit (e : AdmittedEvent) : (∀ f ∈ (toTrackEvent e).props, FieldFits f) ↔
    (∀ p ∈ e.properties, ¬ overwritten e.person.isSome e.system.osNameRaw.isSome p.1 →
      storable p.1 = true ∧ ∀ s, p.2 = .str s → storable s = true) ∧
    (∀ s ∈ e.person, storable s = true) ∧ ∀ s ∈ e.system.osNameRaw, storable s = true := by
  have hd : js "$person" ≠ js "$os_name_raw" := by decide
  have hp (s : JsString) : FieldFits (js "$person", .str s) ↔ storable s = true := by
    simp [FieldFits, Json.strings, (by decide : storable (js "$person") = true)]
  have ho (s : JsString) : FieldFits (js "$os_name_raw", .str s) ↔ storable s = true := by
    simp [FieldFits, Json.strings, (by decide : storable (js "$os_name_raw") = true)]
  simp only [toTrackEvent]
  rw [forall_assign (by decide), forall_assign (by decide)]
  simp only [hd, false_and, not_false_eq_true, true_imp_iff, hp, ho, and_assoc,
    List.forall_mem_map, fieldFits_property, overwritten, not_or]
  refine and_congr_left' (forall₂_congr fun p _ ↦ ?_)
  exact ⟨fun h hn ↦ h hn.1 hn.2, fun h hp ho ↦ h ⟨hp, ho⟩⟩

theorem dims_fit (e : AdmittedEvent) :
    (∀ f ∈ (toTrackEvent e).dims.filterMap (fun d ↦ d.2.map (d.1, ·)), FieldFits f) ↔
    ∀ value ∈ [e.system.osVersion, e.system.locale, e.system.appVersion,
      e.system.deviceModel, e.system.sdkVersion, e.system.country],
      ∀ s ∈ value, storable s = true := by
  have ht (n : OsName) : FieldFits (js "os_name", .str n.text) := by
    refine ⟨(by decide : storable (js "os_name") = true), fun s hs ↦ ?_⟩
    obtain rfl := List.mem_singleton.1 hs
    exact osText_storable n
  simp only [toTrackEvent, systemDims]
  cases e.system.osName with
  | name n =>
    simp only [List.filterMap_cons, List.filterMap_nil, Option.map_some, List.forall_mem_cons, ht,
      true_and, fieldFits_nullable (by decide : storable (js "os_version") = true),
      fieldFits_nullable (by decide : storable (js "locale") = true),
      fieldFits_nullable (by decide : storable (js "app_version") = true),
      fieldFits_nullable (by decide : storable (js "device_model") = true),
      fieldFits_nullable (by decide : storable (js "sdk_version") = true),
      fieldFits_nullable (by decide : storable (js "country") = true)]
    simp
  | inherited method =>
    simp only [List.filterMap_cons, List.filterMap_nil, Option.map_some, Option.map_none,
      List.forall_mem_cons, fieldFits_nullable (by decide : storable (js "os_version") = true),
      fieldFits_nullable (by decide : storable (js "locale") = true),
      fieldFits_nullable (by decide : storable (js "app_version") = true),
      fieldFits_nullable (by decide : storable (js "device_model") = true),
      fieldFits_nullable (by decide : storable (js "sdk_version") = true),
      fieldFits_nullable (by decide : storable (js "country") = true)]
    simp

theorem row_fits (project : ProjectId) (e : AdmittedEvent) :
    (∃ row, trackRow project (toTrackEvent e) = some row ∧ ∀ s ∈ row.strings, storable s = true) ↔
      storable project = true ∧ Fits e := by
  have hc {key s : JsString} (hk : storable key = true) :
      FieldFits (key, .str s) ↔ storable s = true := by simp [FieldFits, Json.strings, hk]
  have hn {key : JsString} (hk : storable key = true) : FieldFits (key, .null) := by
    simp [FieldFits, Json.strings, hk]
  have hrow (ts : ℤ) : (∀ s ∈ (Json.obj ([(js "ts", .str (Calendar.toISOString ts)),
      (js "event_id", .null), (js "actor", .str e.visit), (js "tenant", .str project),
      (js "session", .null), (js "type", .str e.name), (js "props", .obj (toTrackEvent e).props)] ++
      (toTrackEvent e).dims.filterMap (fun d ↦ d.2.map (d.1, ·)))).strings, storable s = true) ↔
      storable e.visit = true ∧ storable project = true ∧ storable e.name = true ∧
        (∀ f ∈ (toTrackEvent e).props, FieldFits f) ∧
        ∀ f ∈ (toTrackEvent e).dims.filterMap (fun d ↦ d.2.map (d.1, ·)), FieldFits f := by
    rw [forall_strings_obj]
    have hprops : FieldFits (js "props", .obj (toTrackEvent e).props) ↔
        ∀ f ∈ (toTrackEvent e).props, FieldFits f := by
      rw [← forall_strings_obj, FieldFits]
      exact and_iff_right (by decide : storable (js "props") = true)
    simp only [List.forall_mem_append, List.forall_mem_cons, hprops,
      hc (by decide : storable (js "ts") = true), Calendar.toISOString_storable,
      hn (by decide : storable (js "event_id") = true),
      hc (by decide : storable (js "actor") = true), hc (by decide : storable (js "tenant") = true),
      hn (by decide : storable (js "session") = true), hc (by decide : storable (js "type") = true)]
    simp [and_assoc]
  rw [trackRow]
  cases ht : Calendar.timeClip (toTrackEvent e).ts with
  | none =>
    refine iff_of_false (by simp) ?_
    rintro ⟨-, hf⟩
    have hd := hf.date
    rw [show e.occurredAt = (toTrackEvent e).ts from rfl, ht] at hd
    cases hd
  | some ts =>
    simp only [Option.map_some, Option.some.injEq, exists_eq_left']
    refine (hrow ts).trans ?_
    rw [props_fit, dims_fit]
    constructor
    · rintro ⟨hv, hp, hn, ⟨hprops, hperson, hos⟩, hdims⟩
      exact ⟨hp, by rw [show e.occurredAt = (toTrackEvent e).ts from rfl, ht]; rfl, hn, hv,
        hperson, hprops, hos, hdims⟩
    · rintro ⟨hp, hf⟩
      exact ⟨hf.visit, hp, hf.name, ⟨hf.properties, hf.person, hf.osName⟩, hf.dims⟩

theorem exists_mapM {α β : Type} {f : α → Option β} {P : β → Prop} {l : List α} :
    (∃ m, l.mapM f = some m ∧ ∀ b ∈ m, P b) ↔ ∀ a ∈ l, ∃ b, f a = some b ∧ P b := by
  induction l with
  | nil => simp
  | cons a l ih =>
    rw [List.forall_mem_cons, ← ih]
    constructor
    · rintro ⟨m, hm, hP⟩
      rw [List.mapM_cons] at hm
      obtain ⟨b, hb, hm⟩ := Option.bind_eq_some_iff.1 hm
      obtain ⟨m', hm', hm⟩ := Option.bind_eq_some_iff.1 hm
      cases hm
      exact ⟨⟨b, hb, hP b List.mem_cons_self⟩, m', hm', fun c hc ↦ hP c (List.mem_cons_of_mem _ hc)⟩
    · rintro ⟨⟨b, hb, hPb⟩, m, hm, hP⟩
      refine ⟨b :: m, by rw [List.mapM_cons, hb, hm]; rfl, ?_⟩
      exact List.forall_mem_cons.2 ⟨hPb, hP⟩

/-- The server takes the parameter of a batch exactly when every event of it fits. -/
theorem taken_iff (project : ProjectId) (events : List AdmittedEvent) :
    taken project events = true ↔ ∀ e ∈ events, storable project = true ∧ Fits e := by
  have h : taken project events = true ↔ ∃ rows, (events.map toTrackEvent).mapM (trackRow project) =
      some rows ∧ ∀ row ∈ rows, ∀ s ∈ row.strings, storable s = true := by
    rw [taken, writeStatement]
    cases (events.map toTrackEvent).mapM (trackRow project) with
    | none => simp
    | some rows =>
      rw [Option.map_some, Option.any_some, jsonbTakes_stringify]
      simp only [Json.strings, Json.mem_stringsOfItems, Option.some.injEq, exists_eq_left']
      exact ⟨fun h row hr s hs ↦ h s ⟨row, hr, hs⟩, fun h s ⟨row, hr, hs⟩ ↦ h row hr s hs⟩
  rw [h, exists_mapM]
  simp only [List.forall_mem_map, row_fits]

/-- A field of the system properties as the batch has it, trimmed and cut to its bound. -/
def systemValue (fields : List (JsString × Json)) (name : JsString) : Option JsString :=
  asBoundedString
    (JsObject.get (((JsObject.get fields (js "systemProperties")).bind Json.plainObject).getD []) name)

/-- The texts of an event of a batch are ones the server stores, and its date is one. Texts that
are not stored are free: a property named `__proto__`, one the sink overwrites, and the rest of
a system value behind its cut. -/
structure Usable (rt : Runtime) (batch : IngestBatch) (index : ℕ)
    (fields : List (JsString × Json)) : Prop where
  date : ∀ d, parseOccurredAt rt (JsObject.get fields (js "occurredAt")) batch.receivedAt index =
    .ok d → (Calendar.timeClip d).isSome
  name : ∀ s, JsObject.get fields (js "name") = some (.str s) → storable s = true
  visitId : ∀ s, JsObject.get fields (js "visitId") = some (.str s) → storable s = true
  userId : ∀ s, JsObject.get fields (js "userId") = some (.str s) → storable s = true
  properties : ∀ entries, JsObject.get fields (js "properties") = some (.obj entries) →
    ∀ p ∈ entries, p.1 ≠ js "__proto__" →
      ¬ overwritten ((JsObject.get fields (js "userId")).any (· matches .str _))
        (canonicalOsName (systemValue fields (js "os_name"))).osNameRaw.isSome p.1 →
      storable p.1 = true ∧ ∀ s, p.2 = .str s → storable s = true
  system : ∀ name ∈ [js "os_name", js "os_version", js "locale", js "app_version",
    js "device_model", js "sdk_version"], ∀ s ∈ systemValue fields name, storable s = true
  country : ∀ s ∈ batch.country, storable s = true

theorem osNameRaw_storable (raw : Option JsString) :
    (∀ s ∈ (canonicalOsName raw).osNameRaw, storable s = true) ↔
      ∀ s ∈ raw, storable s = true := by
  cases raw with
  | none => simp [canonicalOsName]
  | some raw =>
    have ht : (∀ s ∈ some raw, storable s = true) ↔ storable raw.trim = true := by
      rw [storable_trim]
      simp
    have hn (n : OsName) : (∀ s ∈ if raw.trim = n.text then none else some raw.trim,
        storable s = true) ↔ storable raw.trim = true := by
      split_ifs with he
      · rw [he, osText_storable]
        simp
      · simp
    rw [ht, canonicalOsName]
    by_cases hz : raw.trim.length = 0
    · rw [if_pos hz, List.eq_nil_of_length_eq_zero hz]
      simp [storable]
    · rw [if_neg hz]
      cases JsObject.get osAliases (fold raw.trim) with
      | some n => exact hn n
      | none =>
        by_cases hi : fold raw.trim ∈ JsObject.inherited
        · simp [hi]
        · simp only [if_neg hi]
          exact hn .other

theorem admitPersonId_ok {raw : Json} {person : JsString} (h : admitPersonId raw = .ok person) :
    ∃ s : JsString, raw = .str s ∧ person = s.trim := by
  cases raw with
  | str s =>
    rw [admitPersonId] at h
    split_ifs at h
    exact ⟨s, rfl, (Except.ok.inj h).symm⟩
  | _ => cases h

theorem admitOptionalPerson_ok {raw : Option Json} {person : Option JsString}
    (h : admitOptionalPerson raw = .ok person) :
    ((raw = none ∨ raw = some .null) ∧ person = none) ∨
      ∃ s : JsString, raw = some (.str s) ∧ person = some s.trim := by
  unfold admitOptionalPerson at h
  split at h
  · cases h
    exact .inl ⟨.inl rfl, rfl⟩
  · cases h
    exact .inl ⟨.inr rfl, rfl⟩
  · rename_i raw hraw
    cases hp : admitPersonId raw with
    | error e =>
      rw [hp] at h
      cases h
    | ok person =>
      rw [hp] at h
      cases h
      obtain ⟨s, rfl, rfl⟩ := admitPersonId_ok hp
      exact .inr ⟨s, rfl, rfl⟩

theorem admitProperty_str {policy : AdmissionPolicy} {index : ℕ} {key : JsString} {value : Json}
    {v : PropertyValue} (h : admitProperty policy index key value = .ok v) (s : JsString) :
    v = .str s ↔ value = .str s := by
  unfold admitProperty at h
  split at h
  all_goals try cases h
  all_goals try simp
  split_ifs at h
  cases h
  simp

theorem person_of {raw : Option Json} {person : Option JsString}
    (h : admitOptionalPerson raw = .ok person) :
    raw.any (· matches .str _) = person.isSome ∧
      ((∀ s, raw = some (.str s) → storable s = true) ↔ ∀ s ∈ person, storable s = true) := by
  rcases admitOptionalPerson_ok h with ⟨rfl | rfl, rfl⟩ | ⟨s, rfl, rfl⟩
  · simp
  · simp
  · simp [storable_trim]

theorem properties_of {policy : AdmissionPolicy} {index : ℕ} {raw : Option Json}
    {properties : Properties} (h : admitProperties policy raw index = .ok properties)
    (hp : ∀ entries, raw = some (.obj entries) → (entries.map (·.1)).Nodup)
    (free : JsString → Prop) :
    (∀ entries, raw = some (.obj entries) → ∀ p ∈ entries, p.1 ≠ js "__proto__" → ¬ free p.1 →
      storable p.1 = true ∧ ∀ s, p.2 = .str s → storable s = true) ↔
    ∀ p ∈ properties, ¬ free p.1 →
      storable p.1 = true ∧ ∀ s, p.2 = .str s → storable s = true := by
  unfold admitProperties at h
  split at h
  · cases h
    simp
  · cases h
    simp
  · rename_i entries
    split_ifs at h
    have hm := mem_admitEntries h (by simpa using hp entries rfl)
    simp only [Option.some.injEq, Json.obj.injEq, forall_eq']
    constructor
    · intro hall p hpm hf
      obtain hpm | ⟨hne, j, hj, ha⟩ := (hm p).1 hpm
      · cases hpm
      · obtain ⟨hk, hs⟩ := hall (p.1, j) hj hne hf
        exact ⟨hk, fun s he ↦ hs s ((admitProperty_str ha s).1 he)⟩
    · intro hall p hpm hne hf
      obtain ⟨v, hv⟩ : ∃ v, admitProperty policy index p.1 p.2 = .ok v := admitEntries_ok h p hpm
      obtain ⟨hk, hs⟩ := hall (p.1, v) ((hm _).2 (.inr ⟨hne, p.2, hpm, hv⟩)) hf
      exact ⟨hk, fun s he ↦ hs s ((admitProperty_str hv s).2 he)⟩
  · cases h

theorem usable_iff {rt : Runtime} {policy : AdmissionPolicy} {batch : IngestBatch} {index : ℕ}
    {fields : List (JsString × Json)} {e : AdmittedEvent}
    (h : AdmittedFrom rt policy batch fields index e)
    (hp : ∀ entries, JsObject.get fields (js "properties") = some (.obj entries) →
      (entries.map (·.1)).Nodup) :
    Usable rt batch index fields ↔ Fits e := by
  obtain ⟨hany, hperson⟩ := person_of h.person
  have hraw : e.system.osNameRaw =
      (canonicalOsName (systemValue fields (js "os_name"))).osNameRaw := by rw [h.system]; rfl
  have hprops := properties_of h.properties hp
    (overwritten e.person.isSome e.system.osNameRaw.isSome)
  have hdims : (∀ value ∈ [e.system.osVersion, e.system.locale, e.system.appVersion,
      e.system.deviceModel, e.system.sdkVersion, e.system.country],
        ∀ s ∈ value, storable s = true) ↔
      (∀ name ∈ [js "os_version", js "locale", js "app_version", js "device_model",
        js "sdk_version"], ∀ s ∈ systemValue fields name, storable s = true) ∧
        ∀ s ∈ batch.country, storable s = true := by
    rw [h.system]
    simp only [List.forall_mem_cons, and_assoc]
    simp [systemValue, normaliseSystemProperties]
  constructor
  · intro hu
    refine ⟨hu.date _ h.occurredAt, hu.name _ h.name, hu.visitId _ h.visit, hperson.1 hu.userId,
      hprops.1 ?_, ?_, hdims.2 ⟨?_, hu.country⟩⟩
    · rw [← hany, hraw]
      exact hu.properties
    · rw [hraw, osNameRaw_storable]
      exact hu.system _ List.mem_cons_self
    · exact fun name hn ↦ hu.system name (List.mem_cons_of_mem _ hn)
  · intro hf
    refine ⟨?_, ?_, ?_, hperson.2 hf.person, ?_, ?_, (hdims.1 hf.dims).2⟩
    · intro d hd
      obtain rfl := Except.ok.inj (h.occurredAt.symm.trans hd)
      exact hf.date
    · intro s hs
      cases h.name.symm.trans hs
      exact hf.name
    · intro s hs
      cases h.visit.symm.trans hs
      exact hf.visit
    · rw [hany, ← hraw]
      exact hprops.2 hf.properties
    · refine List.forall_mem_cons.2 ⟨?_, (hdims.1 hf.dims).1⟩
      rw [← osNameRaw_storable, ← hraw]
      exact hf.osName

end Counted.Analytics
