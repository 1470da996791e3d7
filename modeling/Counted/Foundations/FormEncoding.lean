import Counted.Foundations.Url
import Counted.Foundations.Utf8

namespace Counted.Foundations

/-! ### Reading escapes -/

/-- The value of a hexadecimal digit of either case. -/
def hexOf (u : UInt16) : Option ℕ :=
  if 48 ≤ u ∧ u ≤ 57 then some (u.toNat - 48)
  else if 65 ≤ u ∧ u ≤ 70 then some (u.toNat - 55)
  else if 97 ≤ u ∧ u ≤ 102 then some (u.toNat - 87)
  else none

/-- The bytes of an ASCII text with escapes. -/
def percentDecode : Units → List ℕ
  | [] => []
  | [u] => [u.toNat]
  | [u, v] => [u.toNat, v.toNat]
  | u :: v :: w :: s =>
    if u = 37 then
      match hexOf v, hexOf w with
      | some m, some n => (16 * m + n) :: percentDecode s
      | _, _ => u.toNat :: percentDecode (v :: w :: s)
    else u.toNat :: percentDecode (v :: w :: s)

/-- The text itself, with U+FFFD for each surrogate that is not in a pair. -/
def repaired (s : Units) : Units := (codePoints s).flatMap unitsOfPoint

variable {kept : ℕ → Bool} {u : UInt16} {s t : Units} {p : ℕ} {ps : List ℕ}

theorem hexOf_hexDigit {n : ℕ} (hn : n < 16) : hexOf (hexDigit n) = some n := by
  interval_cases n <;> rfl

theorem percentDecode_escapeByte {b : ℕ} (hb : b < 256) :
    percentDecode (escapeByte b ++ s) = b :: percentDecode s := by
  rw [escapeByte, List.cons_append, List.cons_append, List.cons_append, List.nil_append,
    percentDecode, if_pos rfl, hexOf_hexDigit (by omega), hexOf_hexDigit (by omega)]
  dsimp only
  congr 1
  omega

theorem percentDecode_cons (hu : u ≠ 37) : percentDecode (u :: s) = u.toNat :: percentDecode s := by
  rcases s with _ | ⟨v, _ | ⟨w, s⟩⟩
  · rfl
  · rfl
  · rw [percentDecode, if_neg hu]

theorem percentDecode_escapes {bytes : List ℕ} (hb : ∀ b ∈ bytes, b < 256) :
    percentDecode (bytes.flatMap escapeByte ++ s) = bytes ++ percentDecode s := by
  induction bytes with
  | nil => rfl
  | cons b bytes ih =>
    rw [List.flatMap_cons, List.append_assoc, percentDecode_escapeByte (hb b List.mem_cons_self),
      ih fun c hc ↦ hb c (List.mem_cons_of_mem b hc), List.cons_append]

theorem percentDecode_escapePoint (hpercent : kept 37 = false) (hp : p < 0x110000) :
    percentDecode (escapePoint kept p ++ s) = utf8 p ++ percentDecode s := by
  rw [escapePoint]
  split_ifs with h
  · rw [Bool.and_eq_true, decide_eq_true_eq] at h
    have hnat : (UInt16.ofNat p).toNat = p := by
      rw [UInt16.toNat_ofNat']
      omega
    have hne : UInt16.ofNat p ≠ 37 := by
      intro he
      have hp37 : p = 37 := by
        rw [← hnat, he]
        rfl
      rw [hp37, hpercent] at h
      exact Bool.false_ne_true h.2
    rw [List.singleton_append, percentDecode_cons hne, hnat, utf8, if_pos h.1]
    rfl
  · exact percentDecode_escapes (utf8_lt hp)

/-- What is encoded is read back as bytes. -/
theorem percentDecode_percentEncode (hpercent : kept 37 = false) (s : Units) :
    percentDecode (percentEncode kept s) = utf8Bytes s := by
  have hps := codePoints_lt s
  rw [percentEncode, utf8Bytes]
  generalize codePoints s = ps at hps
  induction ps with
  | nil => rfl
  | cons p ps ih =>
    rw [List.flatMap_cons, percentDecode_escapePoint hpercent (hps p List.mem_cons_self),
      ih fun q hq ↦ hps q (List.mem_cons_of_mem p hq), List.flatMap_cons]

theorem decodeUtf8_repaired (s : Units) : decodeUtf8 (utf8Bytes s) = some (repaired s) := by
  rw [decodeUtf8, utf8Bytes, readPoints_utf8 (codePoints_scalar s) (length_le_flatMap_utf8 _)]
  rfl

theorem unpaired_eq (h : unitsOfPoint (unpaired u) = [u]) : isSurrogate u = false := by
  by_contra hs
  rw [Bool.not_eq_false] at hs
  have hu : unpaired u = 0xFFFD := by
    exact if_pos hs
  rw [hu] at h
  rw [← List.singleton_injective h] at hs
  exact Bool.false_ne_true hs

/-- Only what is well formed is read back as it was. -/
theorem repaired_eq_iff : repaired s = s ↔ wellFormed s = true := by
  refine ⟨fun h ↦ ?_, flatMap_unitsOfPoint⟩
  rw [repaired] at h
  induction s using codePoints.induct with
  | case1 => rfl
  | case2 u =>
    rw [codePoints, List.flatMap_singleton] at h
    rw [wellFormed, unpaired_eq h]
    rfl
  | case3 u v s hpair ih =>
    rw [codePoints, if_pos hpair, List.flatMap_cons] at h
    rw [wellFormed, if_pos hpair]
    rw [Bool.and_eq_true] at hpair
    rw [unitsOfPoint_paired hpair.1 hpair.2] at h
    exact ih (List.append_cancel_left h)
  | case4 u v s hpair ih =>
    rw [codePoints, if_neg hpair, List.flatMap_cons] at h
    have hhead : unitsOfPoint (unpaired u) = [u] := by
      have hlen : (unitsOfPoint (unpaired u)).length = 1 := by
        rw [unitsOfPoint, if_pos (unpaired_lt u), List.length_singleton]
      obtain ⟨w, hw⟩ := List.length_eq_one_iff.1 hlen
      rw [hw] at h ⊢
      rw [(List.cons.inj h).1]
    rw [hhead] at h
    rw [wellFormed, if_neg hpair, unpaired_eq hhead, ih (List.append_cancel_left h)]
    rfl

/-! ### Texts in a path -/

def isAlphanumeric (p : ℕ) : Bool := 48 ≤ p && p ≤ 57 || 65 ≤ p && p ≤ 90 || 97 ≤ p && p ≤ 122

def keptInComponent (p : ℕ) : Bool := isAlphanumeric p || p ∈ [33, 39, 40, 41, 42, 45, 46, 95, 126]

/-- `encodeURIComponent`, which throws where a surrogate is not in a pair. -/
def encodeComponent (s : Units) : Option Units :=
  if wellFormed s then some (percentEncode keptInComponent s) else none

/-- `decodeURIComponent` of an ASCII text whose percent signs begin escapes. -/
def decodeComponent (s : Units) : Option Units := decodeUtf8 (percentDecode s)

theorem decodeComponent_encodeComponent (h : encodeComponent s = some t) :
    decodeComponent t = some s := by
  rw [encodeComponent] at h
  split_ifs at h with hs
  rw [← Option.some.inj h, decodeComponent, percentDecode_percentEncode rfl,
    decodeUtf8_utf8Bytes hs]

theorem afterDot_encoded (hpercent : kept 37 = false) (hdot : kept 46 = true) :
    afterDot (percentEncode kept s) = some t ↔ ∃ r, s = 46 :: r ∧ t = percentEncode kept r := by
  obtain rfl | ⟨u, r, rfl, hu, hcons⟩ | ⟨u, r, b, rest, rfl, hu, hb, hbk, hescape⟩ :=
    percentEncode_cases kept s
  · refine iff_of_false (fun h ↦ by cases h) ?_
    rintro ⟨r, hr, -⟩
    cases hr
  · rw [hcons, afterDot]
    have hne : u ≠ 37 := by
      rintro rfl
      exact Bool.false_ne_true (hpercent.symm.trans hu.2)
    split_ifs with hfirst
    · subst hfirst
      rw [Option.some_inj]
      constructor
      · rintro rfl
        exact ⟨r, rfl, rfl⟩
      · rintro ⟨r', hr', rfl⟩
        rw [(List.cons.inj hr').2]
    · refine iff_of_false (fun h ↦ by cases h) ?_
      rintro ⟨r', hr', -⟩
      exact hfirst (List.cons.inj hr').1
  · have hne : b ≠ 46 := by
      rintro rfl
      exact hbk ⟨by decide, hdot⟩
    rw [hescape, afterDot_escapeByte hb hne]
    refine iff_of_false (fun h ↦ by cases h) ?_
    rintro ⟨r', hr', -⟩
    rw [(List.cons.inj hr').1] at hu
    exact hu ⟨by decide, hdot⟩

theorem isDot_encoded (hpercent : kept 37 = false) (hdot : kept 46 = true) :
    isDot (percentEncode kept s) = true ↔ s = [46] := by
  rw [isDot, decide_eq_true_eq, afterDot_encoded hpercent hdot]
  constructor
  · rintro ⟨r, rfl, hr⟩
    rw [percentEncode_eq_nil.1 hr.symm]
  · rintro rfl
    exact ⟨[], rfl, rfl⟩

theorem isDoubleDot_encoded (hpercent : kept 37 = false) (hdot : kept 46 = true) :
    isDoubleDot (percentEncode kept s) = true ↔ s = [46, 46] := by
  rw [isDoubleDot, decide_eq_true_eq, Option.bind_eq_some_iff]
  constructor
  · rintro ⟨t, ht, htail⟩
    obtain ⟨r, rfl, rfl⟩ := (afterDot_encoded hpercent hdot).1 ht
    obtain ⟨q, rfl, hq⟩ := (afterDot_encoded hpercent hdot).1 htail
    rw [percentEncode_eq_nil.1 hq.symm]
  · rintro rfl
    exact ⟨_, (afterDot_encoded hpercent hdot).2 ⟨_, rfl, rfl⟩,
      (afterDot_encoded hpercent hdot).2 ⟨_, rfl, rfl⟩⟩

/-- An encoded text stays a segment of its own unless it is a dot or two. -/
theorem dotless_encoded (hpercent : kept 37 = false) (hdot : kept 46 = true) :
    Dotless (percentEncode kept s) ↔ s ≠ [46] ∧ s ≠ [46, 46] := by
  rw [Dotless, ← Bool.not_eq_true, ← Bool.not_eq_true, isDot_encoded hpercent hdot,
    isDoubleDot_encoded hpercent hdot]

/-! ### Forms -/

def keptInForm (p : ℕ) : Bool := isAlphanumeric p || p ∈ [42, 45, 46, 95]

def formPoint (p : ℕ) : Units := if p = 32 then [43] else escapePoint keptInForm p

def formEncode (s : Units) : Units := (codePoints s).flatMap formPoint

/-- The text of `application/x-www-form-urlencoded` for names and values. -/
def formText (pairs : List (Units × Units)) : Units :=
  [38].intercalate (pairs.map fun f ↦ formEncode f.1 ++ 61 :: formEncode f.2)

def formDecode (s : Units) : Option Units :=
  decodeUtf8 (percentDecode (s.map fun u ↦ if u = 43 then 32 else u))

def formPair (s : Units) : Option (Units × Units) :=
  (formDecode (cut 61 s).1).bind fun name ↦
    (formDecode ((cut 61 s).2.getD [])).map fun value ↦ (name, value)

/-- The names and values of a form, where its texts are UTF-8. -/
def formParse (t : Units) : Option (List (Units × Units)) :=
  ((t.splitOn 38).filter (· ≠ [])).mapM formPair

/-- A unit of an encoded form. -/
def FormUnit (u : UInt16) : Prop := u = 43 ∨ Escape u ∨ Plain keptInForm u

theorem mem_escapePoint (hp : p < 0x110000) (h : u ∈ escapePoint kept p) :
    Escape u ∨ Plain kept u := by
  rw [escapePoint] at h
  split_ifs at h with hkept
  · rw [Bool.and_eq_true, decide_eq_true_eq] at hkept
    rw [List.mem_singleton.1 h]
    have hnat : (UInt16.ofNat p).toNat = p := by
      rw [UInt16.toNat_ofNat']
      omega
    exact .inr ⟨hnat.symm ▸ hkept.1, hnat.symm ▸ hkept.2⟩
  · exact .inl (escape_of_mem hp h)

theorem formUnit_of_mem (h : u ∈ formEncode s) : FormUnit u := by
  obtain ⟨p, hp, hu⟩ := List.mem_flatMap.1 h
  rw [formPoint] at hu
  split_ifs at hu with hspace
  · exact .inl (List.mem_singleton.1 hu)
  · exact .inr (mem_escapePoint (codePoints_lt s p hp) hu)

theorem escape_cases (h : Escape u) : 48 ≤ u.toNat ∧ u.toNat ≤ 57 ∨ 65 ≤ u.toNat ∧ u.toNat ≤ 70 ∨
    u.toNat = 37 := by
  rcases h with rfl | ⟨n, hn, rfl⟩
  · exact .inr (.inr rfl)
  · rw [hexDigit_toNat hn]
    split_ifs <;> omega

theorem keptInForm_cases (h : keptInForm p = true) : 48 ≤ p ∧ p ≤ 57 ∨ 65 ≤ p ∧ p ≤ 90 ∨
    97 ≤ p ∧ p ≤ 122 ∨ p = 42 ∨ p = 45 ∨ p = 46 ∨ p = 95 := by
  simp only [keptInForm, isAlphanumeric, Bool.or_eq_true, Bool.and_eq_true, decide_eq_true_eq,
    List.mem_cons, List.not_mem_nil, or_false] at h
  omega

theorem FormUnit.cases (h : FormUnit u) : 48 ≤ u.toNat ∧ u.toNat ≤ 57 ∨
    65 ≤ u.toNat ∧ u.toNat ≤ 90 ∨ 97 ≤ u.toNat ∧ u.toNat ≤ 122 ∨ u.toNat ∈ [37, 42, 43, 45, 46, 95] := by
  rcases h with rfl | h | h
  · exact .inr (.inr (.inr (by decide)))
  · have := escape_cases h
    simp only [List.mem_cons, List.not_mem_nil, or_false]
    omega
  · have := keptInForm_cases h.2
    simp only [List.mem_cons, List.not_mem_nil, or_false]
    omega

theorem map_plus_formPoint (hp : p < 0x110000) :
    (formPoint p).map (fun u ↦ if u = 43 then 32 else u) =
      escapePoint (fun p ↦ keptInForm p || p = 32) p := by
  by_cases hspace : p = 32
  · rw [hspace]
    rfl
  · have hsame : escapePoint (fun p ↦ keptInForm p || p = 32) p = escapePoint keptInForm p := by
      rw [escapePoint, escapePoint, decide_eq_false hspace, Bool.or_false]
    rw [formPoint, if_neg hspace, hsame]
    have hne : ∀ u ∈ escapePoint keptInForm p, (if u = 43 then 32 else u) = u := by
      intro u hu
      rw [if_neg]
      rintro rfl
      rcases mem_escapePoint hp hu with h | h
      · rcases escape_cases h with h | h | h
        · exact absurd h.1 (by decide)
        · exact absurd h.1 (by decide)
        · exact absurd h (by decide)
      · exact absurd h.2 (by decide)
    exact (List.map_congr_left hne).trans (List.map_id _)

theorem map_plus_formEncode (s : Units) :
    (formEncode s).map (fun u ↦ if u = 43 then 32 else u) =
      percentEncode (fun p ↦ keptInForm p || p = 32) s := by
  rw [formEncode, percentEncode, List.map_flatMap]
  exact List.flatMap_congr fun p hp ↦ map_plus_formPoint (codePoints_lt s p hp)

theorem formDecode_formEncode (s : Units) : formDecode (formEncode s) = some (repaired s) := by
  rw [formDecode, map_plus_formEncode, percentDecode_percentEncode (by decide),
    decodeUtf8_repaired]

theorem cut_cons {d : UInt16} {a b : Units} (ha : d ∉ a) : cut d (a ++ d :: b) = (a, some b) := by
  have hall : ∀ u ∈ a, decide (u ≠ d) = true := fun u hu ↦ decide_eq_true fun h ↦ ha (h ▸ hu)
  rw [cut, List.takeWhile_append_of_pos hall, List.dropWhile_append_of_pos hall,
    List.takeWhile_cons_of_neg (by simp), List.dropWhile_cons_of_neg (by simp), List.append_nil]
  rfl

theorem cut_of_not_mem {d : UInt16} (h : d ∉ s) : cut d s = (s, none) := by
  have hall : ∀ u ∈ s, decide (u ≠ d) = true := fun u hu ↦ decide_eq_true fun he ↦ h (he ▸ hu)
  rw [cut, List.takeWhile_eq_self_iff.2 hall, List.dropWhile_eq_nil_iff.2 hall]
  rfl

theorem not_mem_formEncode (h : u.toNat ∈ [35, 38, 61, 63]) : u ∉ formEncode s := by
  intro hu
  have hcases := (formUnit_of_mem hu).cases
  simp only [List.mem_cons, List.not_mem_nil, or_false] at hcases h
  omega

theorem formPair_formEncode (f : Units × Units) :
    formPair (formEncode f.1 ++ 61 :: formEncode f.2) = some (repaired f.1, repaired f.2) := by
  rw [formPair, cut_cons (not_mem_formEncode (by decide)), Option.getD_some,
    formDecode_formEncode, formDecode_formEncode]
  rfl

/-- A form is read back, with its texts repaired. -/
theorem formParse_formText (pairs : List (Units × Units)) :
    formParse (formText pairs) = some (pairs.map fun f ↦ (repaired f.1, repaired f.2)) := by
  have hpieces : ∀ piece ∈ pairs.map (fun f ↦ formEncode f.1 ++ 61 :: formEncode f.2),
      38 ∉ piece ∧ piece ≠ [] := by
    intro piece hpiece
    obtain ⟨f, -, rfl⟩ := List.mem_map.1 hpiece
    refine ⟨?_, List.append_ne_nil_of_right_ne_nil _ (List.cons_ne_nil _ _)⟩
    rw [List.mem_append, List.mem_cons]
    rintro (h | h | h)
    · exact not_mem_formEncode (by decide) h
    · exact absurd h (by decide)
    · exact not_mem_formEncode (by decide) h
  have hsplit : ((formText pairs).splitOn 38).filter (· ≠ []) =
      pairs.map (fun f ↦ formEncode f.1 ++ 61 :: formEncode f.2) := by
    cases pairs with
    | nil => rfl
    | cons f pairs =>
      rw [formText, List.splitOn_intercalate 38 (fun piece hp ↦ (hpieces piece hp).1)
        (List.cons_ne_nil _ _)]
      exact List.filter_eq_self.2 fun piece hp ↦ decide_eq_true (hpieces piece hp).2
  rw [formParse, hsplit]
  clear hsplit hpieces
  induction pairs with
  | nil => rfl
  | cons f pairs ih =>
    rw [List.map_cons, List.mapM_cons, formPair_formEncode, ih]
    rfl

theorem mem_intercalate {d : UInt16} {l : List Units} (h : u ∈ [d].intercalate l) :
    u = d ∨ ∃ s ∈ l, u ∈ s := by
  induction l with
  | nil => cases h
  | cons s l ih =>
    cases l with
    | nil =>
      rw [List.intercalate_singleton] at h
      exact .inr ⟨s, List.mem_cons_self, h⟩
    | cons t l =>
      rw [List.intercalate_cons_cons, List.mem_append, List.mem_append, List.mem_singleton] at h
      rcases h with (h | h) | h
      · exact .inr ⟨s, List.mem_cons_self, h⟩
      · exact .inl h
      · exact (ih h).imp_right fun ⟨r, hr, hu⟩ ↦ ⟨r, List.mem_cons_of_mem s hr, hu⟩

/-- The text of a form is left alone in a query. -/
theorem plain_of_mem_formText {pairs : List (Units × Units)} (h : u ∈ formText pairs) :
    Plain keptInQuery u ∧ 32 < u ∧ u ≠ 63 ∧ u ≠ 35 := by
  have hcases : 48 ≤ u.toNat ∧ u.toNat ≤ 57 ∨ 65 ≤ u.toNat ∧ u.toNat ≤ 90 ∨
      97 ≤ u.toNat ∧ u.toNat ≤ 122 ∨ u.toNat ∈ [37, 38, 42, 43, 45, 46, 61, 95] := by
    have hunit (hu : FormUnit u) := hu.cases
    rcases mem_intercalate h with rfl | ⟨piece, hpiece, hu⟩
    · exact .inr (.inr (.inr (by decide)))
    · obtain ⟨f, -, rfl⟩ := List.mem_map.1 hpiece
      rw [List.mem_append, List.mem_cons] at hu
      simp only [List.mem_cons, List.not_mem_nil, or_false] at hunit ⊢
      rcases hu with hu | rfl | hu
      · have := hunit (formUnit_of_mem hu)
        omega
      · exact .inr (.inr (.inr (by decide)))
      · have := hunit (formUnit_of_mem hu)
        omega
  simp only [List.mem_cons, List.not_mem_nil, or_false] at hcases
  refine ⟨⟨by omega, ?_⟩, UInt16.lt_iff_toNat_lt.2 (show 32 < u.toNat by omega), ?_, ?_⟩
  · simp only [keptInQuery, Bool.and_eq_true, decide_eq_true_eq, List.mem_cons, List.not_mem_nil,
      or_false]
    omega
  · rintro rfl
    exact absurd hcases (by decide)
  · rintro rfl
    exact absurd hcases (by decide)

/-! ### A path and a form below an address -/

/-- The text an address begins with, before its path, and the origin that it names. -/
structure Site where
  text : Units
  origin : Origin

/-- What the URL standard makes of an address that goes on with a slash. -/
def Site.parse (site : Site) (url : Units) : Option Url :=
  if site.text.isPrefixOf url then
    match stripped (url.drop site.text.length) with
    | [] => none
    | u :: s => if isSlash u then some (localUrl site.origin s) else none
  else none

/-- A path followed by a form, if there is any. -/
def target (path : List Units) (pairs : List (Units × Units)) : Units :=
  path.flatMap (fun s ↦ 47 :: s) ++ if formText pairs = [] then [] else 63 :: formText pairs

theorem Plain.visible (h : Plain keptInPath u) : 32 < u ∧ u ≠ 63 ∧ u ≠ 35 := by
  have hkept := h.2
  simp only [keptInPath, Bool.and_eq_true, decide_eq_true_eq, List.mem_cons, List.not_mem_nil,
    or_false] at hkept
  refine ⟨UInt16.lt_iff_toNat_lt.2 (show 32 < u.toNat by omega), ?_, ?_⟩
  · rintro rfl
    exact absurd hkept.2 (by decide)
  · rintro rfl
    exact absurd hkept.2 (by decide)

theorem Site.parse_target {site : Site} {p : Units} {l : List Units} {pairs : List (Units × Units)}
    (hp : ∀ s ∈ p :: l, ∀ u ∈ s, Plain keptInPath u ∧ isSlash u = false) :
    site.parse (site.text ++ target (p :: l) pairs) = some
      { origin := site.origin
        path := walk [] (p :: l)
        query := if formText pairs = [] then none else some (formText pairs)
        fragment := none } := by
  have hpath : ∀ u ∈ p ++ l.flatMap (fun s ↦ 47 :: s), 32 < u ∧ u ≠ 63 ∧ u ≠ 35 := by
    intro u hu
    rcases List.mem_append.1 hu with hu | hu
    · exact (hp p List.mem_cons_self u hu).1.visible
    · obtain ⟨s, hs, hu⟩ := List.mem_flatMap.1 hu
      rcases List.mem_cons.1 hu with rfl | hu
      · decide
      · exact (hp s (List.mem_cons_of_mem p hs) u hu).1.visible
  have hform : ∀ u ∈ (if formText pairs = [] then [] else 63 :: formText pairs), 32 < u ∧ u ≠ 35 := by
    intro u hu
    split_ifs at hu
    · cases hu
    · rcases List.mem_cons.1 hu with rfl | hu
      · decide
      · exact ⟨(plain_of_mem_formText hu).2.1, (plain_of_mem_formText hu).2.2.2⟩
  have htarget : target (p :: l) pairs = 47 :: ((p ++ l.flatMap (fun s ↦ 47 :: s)) ++
      if formText pairs = [] then [] else 63 :: formText pairs) := by
    rw [target, List.flatMap_cons, List.cons_append, List.cons_append]
  have hstripped : stripped (target (p :: l) pairs) = target (p :: l) pairs := by
    refine stripped_of_visible fun u hu ↦ ?_
    rw [htarget, List.mem_cons, List.mem_append] at hu
    rcases hu with rfl | hu | hu
    · decide
    · exact (hpath u hu).1
    · exact (hform u hu).1
  have hslash : ∀ s ∈ p :: l, ∀ u ∈ s, isSlash u = false := fun s hs u hu ↦ (hp s hs u hu).2
  have hencode : (p :: l).map (percentEncode keptInPath) = p :: l :=
    (List.map_congr_left fun s hs ↦ percentEncode_of_plain fun u hu ↦ (hp s hs u hu).1).trans
      (List.map_id _)
  have hsplit : (p ++ l.flatMap (fun s ↦ 47 :: s)).splitOnP isSlash = p :: l :=
    splitOnP_slashes (hslash p List.mem_cons_self) fun s hs ↦ hslash s (List.mem_cons_of_mem p hs)
  have hmark : 63 ∉ p ++ l.flatMap (fun s ↦ 47 :: s) := fun h ↦ (hpath 63 h).2.1 rfl
  rw [Site.parse, if_pos (List.isPrefixOf_iff_prefix.2 (List.prefix_append ..)), List.drop_left,
    hstripped, htarget]
  dsimp only
  rw [if_pos (show isSlash 47 = true from rfl), localUrl, segments, cut_of_not_mem fun h ↦ ?_]
  · dsimp only
    by_cases hempty : formText pairs = []
    · rw [if_pos hempty, if_pos hempty, List.append_nil, cut_of_not_mem hmark, hsplit, hencode]
      rfl
    · rw [if_neg hempty, if_neg hempty, cut_cons hmark, hsplit, hencode, Option.map_some,
        percentEncode_of_plain fun u hu ↦ (plain_of_mem_formText hu).1]
      rfl
  · rcases List.mem_append.1 h with h | h
    · exact (hpath 35 h).2.2 rfl
    · exact (hform 35 h).2 rfl

end Counted.Foundations
