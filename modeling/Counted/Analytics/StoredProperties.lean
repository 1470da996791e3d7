import Counted.Analytics.Measure
import Counted.Analytics.Sink
import Counted.Ingestion.OsNames

namespace Counted.Analytics

open Foundations Ingestion

/-- A property as the client wrote it. -/
def propertyField (p : JsString × PropertyValue) : JsString × Json := (p.1, propertyJson p.2)

/-- The name of the machine's system, as it is read from an event. -/
def osNameOf (fields : List (JsString × Json)) : Option JsString :=
  asBoundedString (JsObject.get (((JsObject.get fields (js "systemProperties")).bind
    Json.plainObject).getD []) (js "os_name"))

/-- A client's name of a system that is stored under another. -/
def Renamed (fields : List (JsString × Json)) (e : AdmittedEvent) (raw : JsString) : Prop :=
  ∃ s, osNameOf fields = some s ∧ s.trim = raw ∧ raw ≠ [] ∧ ∀ n, e.system.osName = .name n → n.text ≠ raw

/-- A property under a reserved name that the event leaves free. -/
def Forges (fields : List (JsString × Json)) : Prop :=
  ∃ entries, JsObject.get fields (js "properties") = some (.obj entries) ∧
    ((JsObject.get fields (js "userId") = none ∨ JsObject.get fields (js "userId") = some .null) ∧
      js "$person" ∈ entries.map (·.1) ∨
    (canonicalOsName (osNameOf fields)).osNameRaw = none ∧ js "$os_name_raw" ∈ entries.map (·.1))

section

variable {policy : AdmissionPolicy} {index : ℕ} {entries : List (JsString × Json)}
  {properties out : Properties}

theorem admitProperty_ok {key : JsString} {j : Json} {v : PropertyValue}
    (h : admitProperty policy index key j = .ok v) : propertyJson v = j := by
  cases j with
  | null | bool =>
    cases h
    rfl
  | num n =>
    cases n with
    | finite d =>
      cases h
      rfl
    | infinity | nan => cases h
  | str s =>
    rw [admitProperty] at h
    split_ifs at h
    cases h
    rfl
  | arr | obj => cases h

theorem admitEntries_eq (h : admitEntries policy index properties entries = .ok out)
    (hn : (properties.map (·.1) ++ entries.map (·.1)).Nodup) :
    out.map propertyField = properties.map propertyField ++
      entries.filter (fun f ↦ f.1 ≠ js "__proto__") := by
  induction entries generalizing properties with
  | nil =>
    cases h
    rw [List.filter_nil, List.append_nil]
  | cons entry entries ih =>
    obtain ⟨key, value⟩ := entry
    rw [admitEntries] at h
    split_ifs at h with hk
    cases hv : admitProperty policy index key value with
    | error e =>
      rw [hv] at h
      cases h
    | ok v =>
      rw [hv] at h
      change admitEntries policy index (JsObject.set properties key v) entries = .ok out at h
      have hjson := admitProperty_ok hv
      by_cases hp : key = js "__proto__"
      · rw [JsObject.set, if_pos hp] at h
        have hrest := hn.sublist (List.Sublist.append_left (List.sublist_cons_self _ _) _)
        rw [ih h hrest, List.filter_cons_of_neg (by simpa using hp)]
      · have hfresh : key ∉ properties.map (·.1) := by
          intro hmem
          exact List.disjoint_of_nodup_append hn hmem List.mem_cons_self
        rw [JsObject.set_fresh hp hfresh] at h
        have hrest : ((properties ++ [(key, v)]).map (·.1) ++ entries.map (·.1)).Nodup := by
          simpa using hn
        rw [ih h hrest, List.filter_cons_of_pos (by simpa using hp), List.map_append,
          List.append_assoc, ← hjson]
        rfl

theorem admitProperties_eq (hn : (entries.map (·.1)).Nodup)
    (h : admitProperties policy (some (.obj entries)) index = .ok out) :
    out.map propertyField = entries.filter (fun f ↦ f.1 ≠ js "__proto__") := by
  rw [admitProperties] at h
  split_ifs at h
  exact admitEntries_eq h hn

/-- The properties are those sent, exactly when none is called `__proto__`. -/
theorem properties_kept_iff (policy : AdmissionPolicy) (index : ℕ)
    (hn : (entries.map (·.1)).Nodup)
    (h : admitProperties policy (some (.obj entries)) index = .ok out) :
    (out.map propertyField).Perm entries ↔ js "__proto__" ∉ entries.map (·.1) := by
  rw [admitProperties_eq hn h]
  constructor
  · intro hsame hproto
    obtain ⟨f, hf, hkey⟩ := List.mem_map.1 hproto
    have hkept := (List.mem_filter.1 (hsame.mem_iff.2 hf)).2
    simp [hkey] at hkept
  · intro hproto
    refine List.Perm.of_eq (List.filter_eq_self.2 (fun f hf ↦ decide_eq_true ?_))
    intro hkey
    exact hproto (List.mem_map.2 ⟨f, hf, hkey⟩)

theorem properties_kept_sample :
    ([(js "plan", .str (js "pro")), (js "seats", .num (3 : ℤ))].map propertyField).Perm
      [(js "plan", .str (js "pro")), (js "seats", .num (3 : ℤ))] :=
  (properties_kept_iff defaultAdmissionPolicy 0 (by decide) rfl).2 (by decide)

/-- A property called `__proto__` is lost, and the others are admitted. -/
theorem proto_property_lost :
    admitProperties defaultAdmissionPolicy (some (.obj [(js "__proto__", .str (js "pro")),
      (js "seats", .num (3 : ℤ))])) 0 = .ok [(js "seats", .num (3 : ℤ))] ∧
    ¬ ([(js "seats", .num (3 : ℤ))].map propertyField).Perm
      [(js "__proto__", .str (js "pro")), (js "seats", .num (3 : ℤ))] := by
  refine ⟨rfl, fun h ↦ ?_⟩
  cases h.length_eq

theorem mem_assign {props : List (JsString × Json)} {key name : JsString}
    {value : Option JsString} {j : Json} (hk : key ≠ js "__proto__") :
    (name, j) ∈ assign props key value ↔ (name ≠ key ∨ value = none) ∧ (name, j) ∈ props ∨
      name = key ∧ ∃ s, value = some s ∧ j = .str s := by
  cases value with
  | none => simp [assign]
  | some s =>
    rw [assign, JsObject.set, if_neg hk]
    by_cases hname : name = key
    · subst hname
      by_cases hany : props.any (fun f ↦ f.1 = name) = true
      · rw [if_pos hany, List.mem_map]
        obtain ⟨f, hf, hfk⟩ := List.any_eq_true.1 hany
        simp only [ne_eq, not_true_eq_false, reduceCtorEq, or_self, false_and, true_and,
          Option.some.injEq, exists_eq_left', false_or]
        constructor
        · intro h
          obtain ⟨g, -, hg⟩ := h
          split_ifs at hg with hgk
          · exact (Prod.mk.inj hg).2.symm
          · exact absurd (congrArg Prod.fst hg) hgk
        · intro h
          exact ⟨f, hf, by rw [if_pos (of_decide_eq_true hfk), h]⟩
      · have hnone : (name, j) ∉ props := by
          intro hmem
          exact hany (List.any_eq_true.2 ⟨_, hmem, decide_eq_true rfl⟩)
        rw [if_neg hany]
        simp [hnone]
    · have hne : ∀ v, (name, j) ≠ (key, v) := fun v h ↦ hname (congrArg Prod.fst h)
      split_ifs with hany
      · rw [List.mem_map]
        simp only [ne_eq, hname, not_false_eq_true, true_and, false_and, or_false]
        constructor
        · intro h
          obtain ⟨g, hg, heq⟩ := h
          split_ifs at heq with hgk
          · exact absurd heq.symm (hne _)
          · exact heq ▸ hg
        · intro h
          exact ⟨_, h, if_neg hname⟩
      · simp [hname]

section

variable {rt : Runtime} {batch : IngestBatch} {fields : List (JsString × Json)} {e : AdmittedEvent}

theorem properties_absent (hprops : ∀ entries, JsObject.get fields (js "properties") ≠
      some (.obj entries)) (h : AdmittedFrom rt policy batch fields index e) : e.properties = [] := by
  have hok := h.properties
  cases hget : JsObject.get fields (js "properties") with
  | none =>
    rw [hget] at hok
    exact (Except.ok.inj hok).symm
  | some j =>
    rw [hget] at hok
    cases j with
    | null => exact (Except.ok.inj hok).symm
    | obj entries => exact absurd hget (hprops entries)
    | bool | num | str | arr => cases hok

/-- A name is among the properties when it was sent as one. -/
theorem mem_properties_iff (h : AdmittedFrom rt policy batch fields index e)
    (hn : ∀ entries, JsObject.get fields (js "properties") = some (.obj entries) →
      (entries.map (·.1)).Nodup) {key : JsString} (hk : key ≠ js "__proto__") :
    (∃ j, (key, j) ∈ e.properties.map propertyField) ↔
      ∃ entries, JsObject.get fields (js "properties") = some (.obj entries) ∧
        key ∈ entries.map (·.1) := by
  by_cases hobj : ∃ entries, JsObject.get fields (js "properties") = some (.obj entries)
  · obtain ⟨entries, hget⟩ := hobj
    have hok := h.properties
    rw [hget] at hok
    rw [admitProperties_eq (hn entries hget) hok]
    constructor
    · intro hmem
      obtain ⟨j, hj⟩ := hmem
      exact ⟨entries, hget, List.mem_map.2 ⟨_, (List.mem_filter.1 hj).1, rfl⟩⟩
    · intro hmem
      obtain ⟨entries', hget', hkey⟩ := hmem
      cases hget.symm.trans hget'
      obtain ⟨f, hf, rfl⟩ := List.mem_map.1 hkey
      exact ⟨f.2, List.mem_filter.2 ⟨hf, decide_eq_true hk⟩⟩
  · have hnone : e.properties = [] := properties_absent (fun entries hget ↦ hobj ⟨entries, hget⟩) h
    rw [hnone]
    constructor
    · intro hmem
      obtain ⟨j, hj⟩ := hmem
      cases hj
    · intro hmem
      obtain ⟨entries, hget, -⟩ := hmem
      exact absurd ⟨entries, hget⟩ hobj

/-- Without an id there is no person, and no person without an id. -/
theorem person_none_iff (h : AdmittedFrom rt policy batch fields index e) :
    e.person = none ↔
      JsObject.get fields (js "userId") = none ∨ JsObject.get fields (js "userId") = some .null := by
  have hok := h.person
  cases hget : JsObject.get fields (js "userId") with
  | none =>
    rw [hget] at hok
    simp [(Except.ok.inj hok).symm]
  | some j =>
    rw [hget] at hok
    cases j with
    | null => simp [(Except.ok.inj hok).symm]
    | str s =>
      obtain ⟨p, -, hp⟩ := map_ok.1 hok
      simp [← hp]
    | bool | num | arr | obj => cases hok

end

/-- The reserved properties of what is stored are the person and the client's own name of its
system, exactly when no property was sent under a reserved name that they leave free. -/
theorem reserved_iff {rt : Runtime} {batch : IngestBatch} {fields : List (JsString × Json)}
    {e : AdmittedEvent} (hn : ∀ entries, JsObject.get fields (js "properties") =
      some (.obj entries) → (entries.map (·.1)).Nodup)
    (h : admitEvent rt policy batch (.obj fields) index = .ok e) :
    ((∀ j, (js "$person", j) ∈ (toTrackEvent e).props ↔ ∃ p, e.person = some p ∧ j = .str p) ∧
      ∀ j, (js "$os_name_raw", j) ∈ (toTrackEvent e).props ↔
        ∃ raw, Renamed fields e raw ∧ j = .str raw) ↔ ¬ Forges fields := by
  obtain ⟨fields', hfields, hfrom⟩ := admitEvent_ok h
  cases hfields
  have hsystem : (canonicalOsName (osNameOf fields)).osNameRaw = e.system.osNameRaw := by
    rw [hfrom.system]
    rfl
  have hrenamed {raw : JsString} : Renamed fields e raw ↔ e.system.osNameRaw = some raw := by
    rw [← hsystem, osNameRaw_eq_some_iff, Renamed, hfrom.system]
    rfl
  have hperson (j : Json) : (js "$person", j) ∈ (toTrackEvent e).props ↔
      e.person = none ∧ (js "$person", j) ∈ e.properties.map propertyField ∨
        ∃ p, e.person = some p ∧ j = .str p := by
    rw [toTrackEvent, mem_assign (by decide), mem_assign (by decide)]
    simp [(by decide : js "$person" ≠ js "$os_name_raw"), propertyField]
  have hraw (j : Json) : (js "$os_name_raw", j) ∈ (toTrackEvent e).props ↔
      e.system.osNameRaw = none ∧ (js "$os_name_raw", j) ∈ e.properties.map propertyField ∨
        ∃ raw, e.system.osNameRaw = some raw ∧ j = .str raw := by
    rw [toTrackEvent, mem_assign (by decide), mem_assign (by decide)]
    simp [(by decide : js "$os_name_raw" ≠ js "$person"), propertyField]
  have hforges : Forges fields ↔
      e.person = none ∧ (∃ j, (js "$person", j) ∈ e.properties.map propertyField) ∨
      e.system.osNameRaw = none ∧
        ∃ j, (js "$os_name_raw", j) ∈ e.properties.map propertyField := by
    rw [mem_properties_iff hfrom hn (by decide), mem_properties_iff hfrom hn (by decide),
      person_none_iff hfrom, Forges, hsystem]
    grind
  rw [hforges]
  simp only [hperson, hraw, hrenamed, or_iff_right_iff_imp]
  constructor
  · intro hall hforged
    rcases hforged with ⟨hnone, j, hj⟩ | ⟨hnone, j, hj⟩
    · obtain ⟨p, hsome, -⟩ := hall.1 j ⟨hnone, hj⟩
      cases hnone.symm.trans hsome
    · obtain ⟨raw, hsome, -⟩ := hall.2 j ⟨hnone, hj⟩
      cases hnone.symm.trans hsome
  · intro hnot
    exact ⟨fun j hj ↦ absurd (.inl ⟨hj.1, j, hj.2⟩) hnot,
      fun j hj ↦ absurd (.inr ⟨hj.1, j, hj.2⟩) hnot⟩

end

/-- An event of one property, called as the reserved one. -/
def posing (userId : Json) : List (JsString × Json) :=
  [(js "name", .str (js "open")), (js "visitId", .str (js "v")), (js "userId", userId),
    (js "properties", .obj [(js "$person", .str (js "somebody"))])]

def posingBatch (userId : Json) : IngestBatch :=
  ⟨js "w", js "p", 0, [.obj (posing userId)], none, none⟩

/-- The id of the event takes the place of the property. -/
theorem reserved_iff_sample : ∃ e, admitEvent nodeRuntime defaultAdmissionPolicy
      (posingBatch (.str (js "u1"))) (.obj (posing (.str (js "u1")))) 0 = .ok e ∧
    ∀ j, (js "$person", j) ∈ (toTrackEvent e).props ↔ ∃ p, e.person = some p ∧ j = .str p := by
  have hn : ∀ entries, JsObject.get (posing (.str (js "u1"))) (js "properties") =
      some (.obj entries) → (entries.map (·.1)).Nodup := by
    intro entries hget
    cases hget
    decide
  refine ⟨_, rfl, ((@reserved_iff defaultAdmissionPolicy 0 nodeRuntime
    (posingBatch (.str (js "u1"))) _ _ hn rfl).2 ?_).1⟩
  intro h
  obtain ⟨entries, hget, ⟨huser, -⟩ | ⟨-, hraw⟩⟩ := h
  · rcases huser with huser | huser <;> cases huser
  · cases hget
    revert hraw
    decide

/-- Without one, the property is stored as the person. -/
theorem person_forged : ∃ e, admitEvent nodeRuntime defaultAdmissionPolicy
      (posingBatch .null) (.obj (posing .null)) 0 = .ok e ∧ e.person = none ∧
    (js "$person", .str (js "somebody")) ∈ (toTrackEvent e).props := by
  exact ⟨_, rfl, rfl, List.mem_cons_self⟩

end Counted.Analytics
