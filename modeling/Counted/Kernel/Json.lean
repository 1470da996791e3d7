import Counted.Kernel.NumberText

namespace Counted

/-- A value `JSON.parse` can return. An object holds its own properties in enumeration order. -/
inductive Json
  | null
  | bool (b : Bool)
  | num (n : JsNumber)
  | str (s : JsString)
  | arr (items : List Json)
  | obj (fields : List (JsString × Json))

namespace JsObject

variable {α : Type}

/-- Reads an own property. -/
def get (fields : List (JsString × α)) (key : JsString) : Option α :=
  (fields.find? (fun f ↦ f.1 = key)).map (·.2)

/-- Assigns a property of an object literal a value that is no object. Assigning `__proto__`
runs the setter of `Object.prototype`, which creates no own property. -/
def set (fields : List (JsString × α)) (key : JsString) (value : α) : List (JsString × α) :=
  if key = js "__proto__" then fields
  else if fields.any (fun f ↦ f.1 = key) then
    fields.map (fun f ↦ if f.1 = key then (key, value) else f)
  else fields ++ [(key, value)]

/-- The property names every plain object inherits. -/
def inherited : List JsString :=
  [js "constructor", js "__defineGetter__", js "__defineSetter__", js "hasOwnProperty",
    js "__lookupGetter__", js "__lookupSetter__", js "isPrototypeOf", js "propertyIsEnumerable",
    js "toString", js "valueOf", js "__proto__", js "toLocaleString"]

theorem forall_set {fields : List (JsString × α)} {key : JsString} {value : α}
    {P : JsString × α → Prop} (hk : key ≠ js "__proto__") :
    (∀ f ∈ set fields key value, P f) ↔ (∀ f ∈ fields, f.1 ≠ key → P f) ∧ P (key, value) := by
  rw [set, if_neg hk]
  split_ifs with h
  · obtain ⟨g, hg, hgk⟩ := List.any_eq_true.1 h
    have hgk : g.1 = key := of_decide_eq_true hgk
    simp only [List.forall_mem_map]
    constructor
    · intro hall
      exact ⟨fun f hf hne ↦ by simpa [hne] using hall f hf, by simpa [hgk] using hall g hg⟩
    · rintro ⟨hall, hv⟩ f hf
      split_ifs with hfk
      · exact hv
      · exact hall f hf hfk
  · have hne : ∀ f ∈ fields, f.1 ≠ key := by
      intro f hf hfk
      exact h (List.any_eq_true.2 ⟨f, hf, decide_eq_true hfk⟩)
    rw [List.forall_mem_append, List.forall_mem_singleton]
    exact and_congr_left' (forall₂_congr fun f hf ↦ (imp_iff_right (hne f hf)).symm)

/-- What assigning property by property builds. -/
def Distinct (fields : List (JsString × α)) : Prop :=
  (fields.map (·.1)).Nodup ∧ ∀ f ∈ fields, f.1 ≠ js "__proto__"

theorem set_fresh {fields : List (JsString × α)} {key : JsString} {value : α}
    (hp : key ≠ js "__proto__") (h : key ∉ fields.map (·.1)) :
    set fields key value = fields ++ [(key, value)] := by
  have hany : fields.any (fun f ↦ f.1 = key) = false := by
    rw [← Bool.not_eq_true, List.any_eq_true]
    rintro ⟨f, hf, hk⟩
    exact h (List.mem_map.2 ⟨f, hf, of_decide_eq_true hk⟩)
  rw [set, if_neg hp, hany, if_neg Bool.false_ne_true]

theorem set_distinct {fields : List (JsString × α)} (h : Distinct fields) (key : JsString)
    (value : α) : Distinct (set fields key value) := by
  by_cases hp : key = js "__proto__"
  · rwa [set, if_pos hp]
  · by_cases hk : key ∈ fields.map (·.1)
    · obtain ⟨g, hg, rfl⟩ := List.mem_map.1 hk
      have hkeys : (set fields g.1 value).map (·.1) = fields.map (·.1) := by
        rw [set, if_neg hp, if_pos (List.any_eq_true.2 ⟨g, hg, decide_eq_true rfl⟩), List.map_map]
        refine List.map_congr_left (fun f _ ↦ ?_)
        by_cases hf : f.1 = g.1 <;> simp [hf]
      refine ⟨hkeys.symm ▸ h.1, fun f hf ↦ ?_⟩
      have hm := List.mem_map_of_mem (f := (·.1)) hf
      rw [hkeys] at hm
      obtain ⟨f', hf', he⟩ := List.mem_map.1 hm
      exact he ▸ h.2 f' hf'
    · rw [set_fresh hp hk]
      refine ⟨?_, fun f hf ↦ ?_⟩
      · rw [List.map_append, List.nodup_append]
        exact ⟨h.1, List.nodup_singleton _, by rintro a ha b hb rfl; simp_all⟩
      · rcases List.mem_append.1 hf with hf | hf
        · exact h.2 f hf
        · rw [List.mem_singleton.1 hf]
          exact hp

/-- `Object.assign` of distinct properties onto others. -/
theorem foldl_set {fields rest : List (JsString × α)} (h : Distinct (fields ++ rest)) :
    rest.foldl (fun acc f ↦ set acc f.1 f.2) fields = fields ++ rest := by
  induction rest generalizing fields with
  | nil => rw [List.foldl_nil, List.append_nil]
  | cons f rest ih =>
    have hf : f.1 ∉ fields.map (·.1) := by
      have hn := h.1
      rw [List.map_append, List.map_cons, List.nodup_append] at hn
      exact fun hm ↦ hn.2.2 f.1 hm f.1 (List.mem_cons_self ..) rfl
    rw [List.foldl_cons, set_fresh (h.2 f (by simp)) hf]
    rw [List.append_cons fields f rest] at h ⊢
    exact ih h

end JsObject

namespace Json

/-- `typeof value === "object" && value !== null && !Array.isArray(value)`. -/
def plainObject : Json → Option (List (JsString × Json))
  | .obj fields => some fields
  | _ => none

end Json

def isHighSurrogate (u : UInt16) : Bool := 0xD800 ≤ u && u ≤ 0xDBFF

def isLowSurrogate (u : UInt16) : Bool := 0xDC00 ≤ u && u ≤ 0xDFFF

def isSurrogate (u : UInt16) : Bool := isHighSurrogate u || isLowSurrogate u

namespace Json

def hexDigit (n : ℕ) : UInt16 := if n < 10 then 48 + n.toUInt16 else 87 + n.toUInt16

def unicodeEscape (u : UInt16) : JsString :=
  [92, 117, hexDigit (u.toNat / 4096 % 16), hexDigit (u.toNat / 256 % 16),
    hexDigit (u.toNat / 16 % 16), hexDigit (u.toNat % 16)]

/-- `QuoteJSONString` on a unit that is not half of a surrogate pair. -/
def quoteUnit (u : UInt16) : JsString :=
  if u = 8 then [92, 98]
  else if u = 9 then [92, 116]
  else if u = 10 then [92, 110]
  else if u = 12 then [92, 102]
  else if u = 13 then [92, 114]
  else if u = 34 then [92, 34]
  else if u = 92 then [92, 92]
  else if u < 32 || isSurrogate u then unicodeEscape u
  else [u]

def quoteUnits : JsString → JsString
  | [] => []
  | [u] => quoteUnit u
  | u :: v :: s =>
    if isHighSurrogate u && isLowSurrogate v then u :: v :: quoteUnits s
    else quoteUnit u ++ quoteUnits (v :: s)

def quote (s : JsString) : JsString := 34 :: (quoteUnits s ++ [34])

/-- `JSON.stringify`. A number that is not finite is written `null`. -/
def numberText : JsNumber → JsString
  | .finite d => d.toJs
  | _ => js "null"

mutual

def stringify : Json → JsString
  | .null => js "null"
  | .bool true => js "true"
  | .bool false => js "false"
  | .num n => numberText n
  | .str s => quote s
  | .arr items => js "[" ++ stringifyItems items ++ js "]"
  | .obj fields => [123] ++ stringifyFields fields ++ [125]

def stringifyItems : List Json → JsString
  | [] => []
  | [j] => stringify j
  | j :: k :: items => stringify j ++ js "," ++ stringifyItems (k :: items)

def stringifyFields : List (JsString × Json) → JsString
  | [] => []
  | [(key, j)] => quote key ++ js ":" ++ stringify j
  | (key, j) :: f :: fields =>
    quote key ++ js ":" ++ stringify j ++ js "," ++ stringifyFields (f :: fields)

end

end Json

example : (Json.obj [(js "a", .arr [.null, .str [0]])]).stringify =
    [123] ++ js "\"a\":[null,\"\\u0000\"]" ++ [125] := by decide

end Counted
