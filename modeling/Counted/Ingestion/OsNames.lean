import Counted.Ingestion.SystemProperties

namespace Counted.Ingestion

/-- A canonical name stays as it is. -/
theorem canonicalOsName_text (n : OsName) :
    canonicalOsName (some n.text) = ⟨.name n, none⟩ := by
  cases n <;> decide

/-- No object inherits what is spelled as an alias. -/
theorem osAliases_not_inherited {s : JsString} {n : OsName} (h : JsObject.get osAliases s = some n) :
    s ∉ JsObject.inherited := by
  have hkeys : ∀ p ∈ osAliases, p.1 ∉ JsObject.inherited := by decide
  obtain ⟨p, hp, -⟩ := Option.map_eq_some_iff.1 h
  have hkey : p.1 = s := by simpa using List.find?_some hp
  exact hkey ▸ hkeys p (List.mem_of_find?_eq_some hp)

section

variable {raw : JsString}

theorem canonicalOsName_blank (h : raw.trim = []) :
    canonicalOsName (some raw) = ⟨.name .other, none⟩ := by
  rw [canonicalOsName, h]
  rfl

/-- The name a text has that is not blank. -/
theorem canonicalOsName_eq (h : raw.trim ≠ []) : canonicalOsName (some raw) =
    match JsObject.get osAliases (fold raw.trim) with
    | some n => ⟨.name n, if raw.trim = n.text then none else some raw.trim⟩
    | none =>
      if fold raw.trim ∈ JsObject.inherited then ⟨.inherited (fold raw.trim), some raw.trim⟩
      else ⟨.name .other, if raw.trim = OsName.other.text then none else some raw.trim⟩ := by
  have hlength : ¬ raw.trim.length = 0 := fun hz ↦ h (List.length_eq_zero_iff.1 hz)
  rw [canonicalOsName]
  exact if_neg hlength

end

/-- The name that is kept is the client's own, where it is stored under another. -/
theorem osNameRaw_eq_some_iff {name : Option JsString} {raw : JsString} :
    (canonicalOsName name).osNameRaw = some raw ↔ ∃ s, name = some s ∧ s.trim = raw ∧ raw ≠ [] ∧
      ∀ n, (canonicalOsName name).osName = .name n → n.text ≠ raw := by
  cases name with
  | none => simp [canonicalOsName]
  | some s =>
    simp only [Option.some.injEq, exists_eq_left']
    by_cases hempty : s.trim = []
    · rw [canonicalOsName_blank hempty]
      grind
    · rw [canonicalOsName_eq hempty]
      cases hget : JsObject.get osAliases (fold s.trim) with
      | some n => grind
      | none => grind

/-- A text has a name of the list, which stays as it is, and is kept beside it when it is another
one, exactly when it does not fold to a member that every object inherits. -/
theorem canonicalOsName_settles_iff (raw : JsString) :
    (∃ n, (canonicalOsName (some raw)).osName = .name n ∧
      canonicalOsName (some n.text) = ⟨.name n, none⟩ ∧
      (canonicalOsName (some raw)).osNameRaw =
        if raw.trim = [] ∨ raw.trim = n.text then none else some raw.trim) ↔
    fold raw.trim ∉ JsObject.inherited := by
  by_cases hblank : raw.trim = []
  · rw [canonicalOsName_blank hblank, hblank]
    constructor
    · intro _
      decide
    · intro _
      exact ⟨.other, rfl, canonicalOsName_text .other, (if_pos (.inl rfl)).symm⟩
  · rw [canonicalOsName_eq hblank]
    cases hget : JsObject.get osAliases (fold raw.trim) with
    | some n =>
      constructor
      · intro _
        exact osAliases_not_inherited hget
      · intro _
        refine ⟨n, rfl, canonicalOsName_text n, ?_⟩
        simp only [hblank, false_or]
    | none =>
      by_cases hinherited : fold raw.trim ∈ JsObject.inherited
      · simp only [if_pos hinherited]
        constructor
        · intro h
          obtain ⟨n, hn, -⟩ := h
          cases hn
        · intro h
          exact absurd hinherited h
      · simp only [if_neg hinherited]
        constructor
        · intro _
          exact hinherited
        · intro _
          refine ⟨.other, rfl, canonicalOsName_text .other, ?_⟩
          simp only [hblank, false_or]

/-- A function is found under a name of the table's prototype. -/
theorem constructor_has_no_name :
    canonicalOsName (some (js "Constructor")) =
      ⟨.inherited (js "constructor"), some (js "Constructor")⟩ ∧
    (∀ n, (canonicalOsName (some (js "Constructor"))).osName ≠ .name n) := by
  refine ⟨by decide, fun n h ↦ ?_⟩
  cases n <;> cases h

end Counted.Ingestion
