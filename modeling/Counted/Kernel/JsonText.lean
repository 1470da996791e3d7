import Counted.Kernel.Json

namespace Counted

/-- Text the server stores: no U+0000, and every surrogate in a pair. -/
def storable : JsString → Bool
  | [] => true
  | [u] => u != 0 && !isSurrogate u
  | u :: v :: s =>
    if isHighSurrogate u && isLowSurrogate v then storable s
    else u != 0 && !isSurrogate u && storable (v :: s)

theorem isSpace_plain {u : UInt16} (hu : JsString.isSpace u = true) :
    u ≠ 0 ∧ isHighSurrogate u = false ∧ isLowSurrogate u = false := by
  simp only [JsString.isSpace, Bool.or_eq_true, Bool.and_eq_true, decide_eq_true_eq, beq_iff_eq,
    UInt16.le_iff_toNat_le, ← UInt16.toNat_inj, UInt16.reduceToNat] at hu
  simp only [isHighSurrogate, isLowSurrogate, Bool.and_eq_false_iff, decide_eq_false_iff_not,
    UInt16.le_iff_toNat_le, ne_eq, ← UInt16.toNat_inj, UInt16.reduceToNat]
  omega

theorem storable_cons_plain {u : UInt16} (hz : u ≠ 0) (hh : isHighSurrogate u = false)
    (hl : isLowSurrogate u = false) (s : JsString) : storable (u :: s) = storable s := by
  cases s with
  | nil => simp [storable, isSurrogate, hz, hh, hl]
  | cons v s => simp [storable, isSurrogate, hz, hh, hl]

theorem storable_concat_plain {u : UInt16} (hz : u ≠ 0) (hh : isHighSurrogate u = false)
    (hl : isLowSurrogate u = false) (s : JsString) : storable (s ++ [u]) = storable s := by
  induction s using storable.induct with
  | case1 => simp [storable, isSurrogate, hz, hh, hl]
  | case2 v => simp [storable, isSurrogate, hz, hh, hl]
  | case3 v w s h ih =>
    rw [List.cons_append, List.cons_append, storable, if_pos h, storable, if_pos h, ih]
  | case4 v w s h ih =>
    rw [List.cons_append, List.cons_append, storable, if_neg h, storable, if_neg h,
      ← List.cons_append, ih]

/-- Trimming takes away nothing the server objects to. -/
theorem storable_trim (s : JsString) : storable s.trim = storable s := by
  have hl (s : JsString) : storable (s.dropWhile JsString.isSpace) = storable s := by
    induction s with
    | nil => rfl
    | cons u s ih =>
      by_cases hu : JsString.isSpace u = true
      · obtain ⟨hz, hh, hl⟩ := isSpace_plain hu
        rw [List.dropWhile_cons_of_pos hu, ih, storable_cons_plain hz hh hl]
      · rw [List.dropWhile_cons_of_neg hu]
  have hr (s : JsString) : storable (s.rdropWhile JsString.isSpace) = storable s := by
    induction s using List.reverseRecOn with
    | nil => rfl
    | append_singleton s u ih =>
      by_cases hu : JsString.isSpace u = true
      · obtain ⟨hz, hh, hl⟩ := isSpace_plain hu
        rw [List.rdropWhile_concat_pos _ _ _ hu, ih, storable_concat_plain hz hh hl]
      · rw [List.rdropWhile_concat_neg _ _ _ hu]
  rw [JsString.trim, hr, hl]

/-- Text of plain units, such as the engine writes for a number or a date. -/
def Plain (s : JsString) : Prop :=
  ∀ u ∈ s, u ≠ 0 ∧ isHighSurrogate u = false ∧ isLowSurrogate u = false

theorem plain_of_all {s : JsString}
    (h : s.all (fun u ↦ u != 0 && !isHighSurrogate u && !isLowSurrogate u) = true) : Plain s := by
  intro u hu
  simpa [and_assoc] using List.all_eq_true.1 h u hu

theorem Plain.append {s t : JsString} (hs : Plain s) (ht : Plain t) : Plain (s ++ t) := by
  intro u hu
  rcases List.mem_append.1 hu with h | h
  · exact hs u h
  · exact ht u h

theorem IsDigits.plain {s : JsString} (hs : IsDigits s) : Plain s := by
  intro u hu
  obtain ⟨d, hd, rfl⟩ := hs u hu
  interval_cases d <;> decide

theorem Plain.storable {s : JsString} (hs : Plain s) : storable s = true := by
  induction s with
  | nil => rfl
  | cons u s ih =>
    obtain ⟨hz, hh, hl⟩ := hs u List.mem_cons_self
    rw [storable_cons_plain hz hh hl]
    exact ih (fun v hv ↦ hs v (List.mem_cons_of_mem _ hv))

namespace Json

mutual

/-- Every string of a value, keys included, in the order of its text. -/
def strings : Json → List JsString
  | .str s => [s]
  | .arr items => stringsOfItems items
  | .obj fields => stringsOfFields fields
  | _ => []

def stringsOfItems : List Json → List JsString
  | [] => []
  | j :: items => strings j ++ stringsOfItems items

def stringsOfFields : List (JsString × Json) → List JsString
  | [] => []
  | (key, j) :: fields => key :: (strings j ++ stringsOfFields fields)

end

theorem mem_stringsOfItems {items : List Json} {s : JsString} :
    s ∈ stringsOfItems items ↔ ∃ j ∈ items, s ∈ j.strings := by
  induction items with
  | nil => simp [stringsOfItems]
  | cons j items ih => simp [stringsOfItems, ih]

theorem mem_stringsOfFields {fields : List (JsString × Json)} {s : JsString} :
    s ∈ stringsOfFields fields ↔ ∃ f ∈ fields, s = f.1 ∨ s ∈ f.2.strings := by
  induction fields with
  | nil => simp [stringsOfFields]
  | cons f fields ih =>
    simp only [stringsOfFields, List.mem_cons, List.mem_append, ih, exists_eq_or_imp, or_assoc]

end Json

/-- Where a reader of a JSON text stands: outside the literals, in one, after a backslash, or
behind the digits of an escape. -/
inductive ReadMode
  | text
  | literal
  | escape
  | hex (digits : List ℕ)

structure JsonReader where
  mode : ReadMode
  current : JsString
  literals : List JsString

namespace JsonReader

def hexValue (u : UInt16) : ℕ := if u < 58 then u.toNat - 48 else u.toNat - 87

def escaped (u : UInt16) : UInt16 :=
  if u = 98 then 8 else if u = 116 then 9 else if u = 110 then 10 else if u = 102 then 12
  else if u = 114 then 13 else u

def step (r : JsonReader) (u : UInt16) : JsonReader :=
  match r.mode with
  | .text => if u = 34 then { r with mode := .literal, current := [] } else r
  | .literal =>
    if u = 34 then { r with mode := .text, literals := r.literals ++ [r.current] }
    else if u = 92 then { r with mode := .escape }
    else { r with current := r.current ++ [u] }
  | .escape =>
    if u = 117 then { r with mode := .hex [] }
    else { r with mode := .literal, current := r.current ++ [escaped u] }
  | .hex [a, b, c] =>
    { r with mode := .literal
             current := r.current ++ [(4096 * a + 256 * b + 16 * c + hexValue u).toUInt16] }
  | .hex digits => { r with mode := .hex (digits ++ [hexValue u]) }

def read (r : JsonReader) (t : JsString) : JsonReader := t.foldl step r

variable (r : JsonReader) (current : JsString) (literals : List JsString)

@[simp] theorem read_append (s t : JsString) : r.read (s ++ t) = (r.read s).read t :=
  List.foldl_append

theorem read_text {t : JsString} (h : t.contains 34 = false) :
    (JsonReader.mk .text current literals).read t = ⟨.text, current, literals⟩ := by
  induction t with
  | nil => rfl
  | cons u t ih =>
    simp only [List.contains_cons, Bool.or_eq_false_iff, beq_eq_false_iff_ne] at h
    have hu : u ≠ 34 := h.1.symm
    have hs : (JsonReader.mk .text current literals).step u = ⟨.text, current, literals⟩ := by
      simp [step, hu]
    rw [read, List.foldl_cons, hs]
    exact ih h.2

theorem hexValue_hexDigit {n : ℕ} (h : n < 16) : hexValue (Json.hexDigit n) = n := by
  interval_cases n <;> decide

theorem read_unicodeEscape (u : UInt16) :
    (JsonReader.mk .literal current literals).read (Json.unicodeEscape u) =
      ⟨.literal, current ++ [u], literals⟩ := by
  have hu : u.toNat < 65536 := u.toNat_lt
  have hn : 4096 * (u.toNat / 4096 % 16) + 256 * (u.toNat / 256 % 16) +
      16 * (u.toNat / 16 % 16) + u.toNat % 16 = u.toNat := by omega
  have hd (n : ℕ) : hexValue (Json.hexDigit (n % 16)) = n % 16 :=
    hexValue_hexDigit (Nat.mod_lt _ (by norm_num))
  simp [read, Json.unicodeEscape, step, hd, hn]

theorem read_quoteUnit (u : UInt16) :
    (JsonReader.mk .literal current literals).read (Json.quoteUnit u) =
      ⟨.literal, current ++ [u], literals⟩ := by
  unfold Json.quoteUnit
  split_ifs with h8 h9 h10 h12 h13 h34 h92 hu
  all_goals try subst u
  · rfl
  · rfl
  · rfl
  · rfl
  · rfl
  · rfl
  · rfl
  · exact read_unicodeEscape current literals u
  · simp [read, step, h34, h92]

theorem surrogate_ne {u : UInt16} (h : isSurrogate u = true) : u ≠ 34 ∧ u ≠ 92 := by
  constructor
  · rintro rfl
    cases h
  · rintro rfl
    cases h

theorem read_quoteUnits (s : JsString) :
    (JsonReader.mk .literal current literals).read (Json.quoteUnits s) =
      ⟨.literal, current ++ s, literals⟩ := by
  induction s using Json.quoteUnits.induct generalizing current with
  | case1 => simp [Json.quoteUnits, read]
  | case2 u => exact read_quoteUnit current literals u
  | case3 u v s h ih =>
    have hu := surrogate_ne (u := u) (by simp [isSurrogate, (Bool.and_eq_true _ _ ▸ h).1])
    have hv := surrogate_ne (u := v) (by simp [isSurrogate, (Bool.and_eq_true _ _ ▸ h).2])
    have hs : (JsonReader.mk .literal current literals).read [u, v] =
        ⟨.literal, current ++ [u, v], literals⟩ := by simp [read, step, hu, hv]
    have hq : Json.quoteUnits (u :: v :: s) = [u, v] ++ Json.quoteUnits s := by
      rw [Json.quoteUnits, if_pos h]
      rfl
    rw [hq, read_append, hs, ih, List.append_assoc]
    rfl
  | case4 u v s h ih =>
    rw [Json.quoteUnits, if_neg h, read_append, read_quoteUnit, ih, List.append_assoc]
    rfl

/-- A quoted string is read back. -/
theorem read_quote (s : JsString) :
    (JsonReader.mk .text current literals).read (Json.quote s) = ⟨.text, s, literals ++ [s]⟩ := by
  have h := read_quoteUnits [] literals s
  rw [read] at h
  simp [Json.quote, read, step, h]

theorem literals_step (u : UInt16) : r.literals <+: (r.step u).literals := by
  unfold step
  split
  · split_ifs <;> exact List.prefix_rfl
  · split_ifs
    · exact List.prefix_append _ _
    · exact List.prefix_rfl
    · exact List.prefix_rfl
  · split_ifs <;> exact List.prefix_rfl
  · exact List.prefix_rfl
  · exact List.prefix_rfl

theorem literals_read (t : JsString) : r.literals <+: (r.read t).literals := by
  induction t generalizing r with
  | nil => exact List.prefix_rfl
  | cons u t ih => exact (r.literals_step u).trans (ih _)

/-- Where a quoted string ends cannot be mistaken. -/
theorem quote_cancel {s s' t t' : JsString} (h : Json.quote s ++ t = Json.quote s' ++ t') :
    s = s' ∧ t = t' := by
  have hs (s t : JsString) :
      [s] <+: ((JsonReader.mk .text [] []).read (Json.quote s ++ t)).literals := by
    rw [read_append, read_quote]
    exact literals_read ⟨.text, s, [s]⟩ t
  have hs' := hs s' t'
  rw [← h] at hs'
  have hp : [s] <+: [s'] := List.prefix_of_prefix_length_le (hs s t) hs' le_rfl
  obtain rfl : s = s' := by simpa using hp
  exact ⟨rfl, List.append_cancel_left h⟩

theorem numberText_units (n : JsNumber) : (Json.numberText n).contains 34 = false := by
  cases n with
  | finite d =>
    rw [← Bool.not_eq_true, List.contains_iff_mem]
    intro h
    exact absurd (Decimal.toJs_units d 34 h) (by decide)
  | infinity n => rfl
  | nan => rfl

mutual

theorem read_stringify : ∀ (j : Json) (current : JsString) (literals : List JsString),
    ∃ last, (JsonReader.mk .text current literals).read j.stringify =
      ⟨.text, last, literals ++ j.strings⟩
  | .null, c, l => ⟨c, by rw [Json.stringify, read_text c l (by decide)]; simp [Json.strings]⟩
  | .bool true, c, l => ⟨c, by rw [Json.stringify, read_text c l (by decide)]; simp [Json.strings]⟩
  | .bool false, c, l => ⟨c, by rw [Json.stringify, read_text c l (by decide)]; simp [Json.strings]⟩
  | .num n, c, l =>
    ⟨c, by rw [Json.stringify, read_text c l (numberText_units n)]; simp [Json.strings]⟩
  | .str s, c, l => ⟨s, by rw [Json.stringify, read_quote]; simp [Json.strings]⟩
  | .arr items, c, l => by
    obtain ⟨last, h⟩ := read_items items c l
    refine ⟨last, ?_⟩
    rw [Json.stringify, read_append, read_append, read_text c l (by decide), h,
      read_text _ _ (by decide), Json.strings]
  | .obj fields, c, l => by
    obtain ⟨last, h⟩ := read_fields fields c l
    refine ⟨last, ?_⟩
    rw [Json.stringify, read_append, read_append, read_text c l (by decide), h,
      read_text _ _ (by decide), Json.strings]

theorem read_items : ∀ (items : List Json) (current : JsString) (literals : List JsString),
    ∃ last, (JsonReader.mk .text current literals).read (Json.stringifyItems items) =
      ⟨.text, last, literals ++ Json.stringsOfItems items⟩
  | [], c, l => ⟨c, by simp [Json.stringifyItems, Json.stringsOfItems, read]⟩
  | [j], c, l => by
    obtain ⟨last, h⟩ := read_stringify j c l
    exact ⟨last, by simpa [Json.stringifyItems, Json.stringsOfItems] using h⟩
  | j :: k :: items, c, l => by
    obtain ⟨mid, h⟩ := read_stringify j c l
    obtain ⟨last, h'⟩ := read_items (k :: items) mid (l ++ j.strings)
    refine ⟨last, ?_⟩
    rw [Json.stringifyItems, read_append, read_append, h, read_text _ _ (by decide), h']
    simp [Json.stringsOfItems]

theorem read_fields : ∀ (fields : List (JsString × Json)) (current : JsString)
    (literals : List JsString),
    ∃ last, (JsonReader.mk .text current literals).read (Json.stringifyFields fields) =
      ⟨.text, last, literals ++ Json.stringsOfFields fields⟩
  | [], c, l => ⟨c, by simp [Json.stringifyFields, Json.stringsOfFields, read]⟩
  | [(key, j)], c, l => by
    obtain ⟨last, h⟩ := read_stringify j key (l ++ [key])
    refine ⟨last, ?_⟩
    rw [Json.stringifyFields, read_append, read_append, read_quote, read_text _ _ (by decide), h]
    simp [Json.stringsOfFields]
  | (key, j) :: f :: fields, c, l => by
    obtain ⟨mid, h⟩ := read_stringify j key (l ++ [key])
    obtain ⟨last, h'⟩ := read_fields (f :: fields) mid (l ++ [key] ++ j.strings)
    refine ⟨last, ?_⟩
    rw [Json.stringifyFields, read_append, read_append, read_append, read_append, read_quote,
      read_text _ _ (by decide), h, read_text _ _ (by decide), h']
    simp [Json.stringsOfFields]

end

end JsonReader

/-- The contents of the literals of a JSON text. -/
def jsonLiterals (t : JsString) : List JsString := ((JsonReader.mk .text [] []).read t).literals

theorem jsonLiterals_stringify (j : Json) : jsonLiterals j.stringify = j.strings := by
  obtain ⟨last, h⟩ := JsonReader.read_stringify j [] []
  rw [jsonLiterals, h, List.nil_append]

/-- Whether the server takes a JSON text as `jsonb`. -/
def jsonbTakes (t : JsString) : Bool := (jsonLiterals t).all storable

theorem jsonbTakes_stringify (j : Json) :
    jsonbTakes j.stringify = true ↔ ∀ s ∈ j.strings, storable s = true := by
  rw [jsonbTakes, jsonLiterals_stringify, List.all_eq_true]

example : jsonbTakes (Json.arr [.str (js "a\\u0000\"b")]).stringify = true := by decide
example : jsonbTakes (Json.obj [(js "k", .str [0x61, 0])]).stringify = false := by decide
example : jsonbTakes (Json.str [0xD83D, 0xDE00]).stringify = true := by decide
example : jsonbTakes (Json.str [0xD83D, 0x61]).stringify = false := by decide

end Counted
