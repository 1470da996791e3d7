import Counted.Ingestion.CountryFile

namespace Counted.Ingestion

open Foundations

section Search

variable {starts : List ℕ} {key : ℕ}

/-- What the search knows: all is at or below the key before `low`, and above it after `high`. -/
theorem floorFrom_spec (hmono : ∀ i j, i ≤ j → j < starts.length →
      starts.getD j 0 ≤ key → starts.getD i 0 ≤ key) {low high found : ℤ} (h0 : 0 ≤ low)
    (hhigh : high < starts.length) (hle : low ≤ high + 1) (hfound : found = low - 1)
    (hbelow : ∀ i : ℕ, i < low → starts.getD i 0 ≤ key)
    (habove : ∀ i : ℕ, high < i → i < starts.length → key < starts.getD i 0) :
    -1 ≤ floorFrom starts key low high found ∧
      floorFrom starts key low high found < starts.length ∧
      (∀ i : ℕ, i ≤ floorFrom starts key low high found → starts.getD i 0 ≤ key) ∧
      ∀ i : ℕ, floorFrom starts key low high found < i → i < starts.length →
        key < starts.getD i 0 := by
  induction low, high, found using floorFrom.induct starts key with
  | case1 low high found hlh middle hmid ih =>
    have hm : low ≤ middle ∧ middle ≤ high := by
      dsimp only [middle]
      omega
    rw [floorFrom, if_pos hlh]
    dsimp only
    rw [if_pos hmid]
    refine ih (by omega) hhigh (by omega) (by omega) ?_ habove
    intro i hi
    exact hmono i middle.toNat (by omega) (by omega) hmid
  | case2 low high found hlh middle hmid ih =>
    have hm : low ≤ middle ∧ middle ≤ high := by
      dsimp only [middle]
      omega
    rw [floorFrom, if_pos hlh]
    dsimp only
    rw [if_neg hmid]
    refine ih h0 (by omega) (by omega) hfound hbelow ?_
    intro i hi hlen
    by_contra hkey
    exact hmid (hmono middle.toNat i (by omega) hlen (by omega))
  | case3 low high found hlh =>
    rw [floorFrom, if_neg hlh, hfound]
    refine ⟨by omega, by omega, fun i hi ↦ hbelow i (by omega), ?_⟩
    intro i hi hlen
    exact habove i (by omega) hlen

theorem floorIndex_spec (hmono : ∀ i j, i ≤ j → j < starts.length →
      starts.getD j 0 ≤ key → starts.getD i 0 ≤ key) (hkey : starts.getD 0 0 ≤ key)
    (hne : starts ≠ []) : ∃ i : ℕ, floorIndex starts key = i ∧ i < starts.length ∧
      (∀ j ≤ i, starts.getD j 0 ≤ key) ∧
      ∀ j, i < j → j < starts.length → key < starts.getD j 0 := by
  have hpos := List.length_pos_iff.2 hne
  obtain ⟨hlow, hhigh, hbelow, habove⟩ := @floorFrom_spec starts key hmono 0
    (starts.length - 1) (-1) le_rfl (by omega) (by omega) (by omega)
    (fun i hi ↦ absurd hi (by omega)) (fun i hi hlen ↦ absurd hi (by omega))
  have hnonneg : floorFrom starts key 0 (starts.length - 1) (-1) ≠ -1 := by
    intro hneg
    exact absurd (habove 0 (by omega) hpos) (not_lt.2 hkey)
  obtain ⟨i, hi⟩ := Int.eq_ofNat_of_zero_le (show 0 ≤ floorIndex starts key by
    unfold floorIndex
    omega)
  refine ⟨i, hi, ?_, fun j hj ↦ hbelow j ?_, fun j hj ↦ habove j ?_⟩ <;>
  · unfold floorIndex at hi
    omega

end Search

section Axis

variable {boundaries : List (Boundary JsString)} {table : CountryTable} {key : ℕ}

/-- The name that an index stands for, the empty one being that of no country. -/
def countryName (countries : List JsString) (index : ℕ) : JsString :=
  if index = 0 then [] else countries.getD (index - 1) []

theorem countryName_countryIndex {codes : List JsString} {cc : JsString}
    (h : cc ≠ [] → cc ∈ codes) : countryName codes (countryIndex codes cc) = cc := by
  unfold countryName countryIndex
  by_cases hcc : cc = []
  · rw [if_pos hcc, if_pos rfl, hcc]
  · rw [if_neg hcc, if_neg (Nat.succ_ne_zero _), Nat.add_sub_cancel,
      List.getD_eq_getElem _ _ (List.idxOf_lt_length_iff.2 (h hcc)), List.getElem_idxOf]

theorem onAxis_eq {store : ℕ → ℕ} {i : ℕ} (hi : i < boundaries.length)
    (hfloor : floorIndex (boundaries.map (store ·.start)) key = i)
    (hcode : boundaries[i].label ≠ [] → boundaries[i].label ∈ table.countries) :
    table.onAxis (axisOf store table.countries boundaries) key =
      if boundaries[i].label = [] then none else some boundaries[i].label := by
  have hcountry : (boundaries.map (countryIndex table.countries ·.label)).getD i 0 =
      countryIndex table.countries boundaries[i].label := by
    rw [List.getD_eq_getElem _ _ (by rwa [List.length_map]), List.getElem_map]
  rw [CountryTable.onAxis, axisOf]
  dsimp only
  rw [hfloor, if_neg (by omega), Int.toNat_natCast, hcountry, countryIndex]
  split_ifs with hn
  · rfl
  · have hlt := List.idxOf_lt_length_iff.2 (hcode hn)
    exact (List.getElem?_eq_getElem hlt).trans (congrArg some (List.getElem_idxOf hlt))

theorem getD_starts (store : ℕ → ℕ) {i : ℕ} (hi : i < boundaries.length) :
    (boundaries.map (store ·.start)).getD i 0 = store boundaries[i].start := by
  rw [List.getD_eq_getElem _ _ (by rwa [List.length_map]), List.getElem_map]

theorem ne_nil_of_head (hhead : boundaries.head?.map (·.start) = some 0) : boundaries ≠ [] := by
  intro hn
  simp [hn] at hhead

theorem getD_starts_zero (store : ℕ → ℕ) (hhead : boundaries.head?.map (·.start) = some 0) :
    (boundaries.map (store ·.start)).getD 0 0 = store 0 := by
  cases boundaries with
  | nil => simp at hhead
  | cons b rest =>
    have hb : b.start = 0 := Option.some.inj hhead
    rw [List.map_cons, List.getD_cons_zero, hb]

/-- The search of exact starts finds the value of the function that the boundaries describe. -/
theorem onAxis_valueAt (hinc : Ascending boundaries)
    (hhead : boundaries.head?.map (·.start) = some 0)
    (hcodes : ∀ b ∈ boundaries, b.label ≠ [] → b.label ∈ table.countries) :
    table.onAxis (axisOf id table.countries boundaries) key =
      if valueAt [] boundaries key = [] then none else some (valueAt [] boundaries key) := by
  have hne := ne_nil_of_head hhead
  have hmono : ∀ i j, i ≤ j → j < (boundaries.map (id ·.start)).length →
      (boundaries.map (id ·.start)).getD j 0 ≤ key →
        (boundaries.map (id ·.start)).getD i 0 ≤ key := by
    intro i j hij hj hkey
    rw [List.length_map] at hj
    rw [getD_starts id hj] at hkey
    rw [getD_starts id (hij.trans_lt hj)]
    rcases hij.eq_or_lt with rfl | hlt
    · exact hkey
    · exact (List.pairwise_iff_getElem.1 hinc i j (hij.trans_lt hj) hj hlt).le.trans hkey
  obtain ⟨i, hfloor, hi, hle, hlt⟩ := floorIndex_spec hmono
    (getD_starts_zero id hhead ▸ Nat.zero_le key)
    (by simpa using hne)
  rw [List.length_map] at hi
  have hvalue : valueAt [] boundaries key = boundaries[i].label := by
    apply valueAt_getElem hi
    · intro j hj hji
      have h := hle j hji
      rwa [getD_starts id hj] at h
    · intro j hj hij
      have h := hlt j hij (by rwa [List.length_map])
      rwa [getD_starts id hj] at h
  rw [hvalue, onAxis_eq hi hfloor (hcodes _ (List.getElem_mem hi))]

/-- Where every start as it is in memory is at or below the key, the search ends at the last
block. -/
theorem onAxis_last {store : ℕ → ℕ} (hne : boundaries ≠ [])
    (hall : ∀ b ∈ boundaries, store b.start ≤ key)
    (hlast : (boundaries.getLast hne).label = []) :
    table.onAxis (axisOf store table.countries boundaries) key = none := by
  have hbelow : ∀ i, i < boundaries.length → (boundaries.map (store ·.start)).getD i 0 ≤ key := by
    intro i hi
    rw [getD_starts store hi]
    exact hall _ (List.getElem_mem hi)
  obtain ⟨i, hfloor, hi, -, hlt⟩ := floorIndex_spec
    (fun i j hij hj _ ↦ hbelow i (hij.trans_lt (by rwa [List.length_map] at hj)))
    (hbelow 0 (List.length_pos_iff.2 hne)) (by simpa using hne)
  rw [List.length_map] at hi
  have hend : i = boundaries.length - 1 := by
    by_contra hmid
    have hafter := hlt (i + 1) (by omega) (by rw [List.length_map]; omega)
    exact absurd (hbelow (i + 1) (by omega)) (not_le.2 hafter)
  have hlabel : boundaries[i].label = [] := by
    rw [List.getLast_eq_getElem] at hlast
    simpa only [hend] using hlast
  rw [onAxis_eq hi hfloor (fun hn ↦ absurd hlabel hn), if_pos hlabel]

end Axis

/-- One family of the table in memory is what the ranges say. `lookup` is the search of it. -/
structure AxisAgrees (ranges : List Range) (space : ℕ) (countries : List JsString)
    (axis : CountryAxis) (lookup : ℕ → Option JsString) : Prop where
  answers : ∀ key < space, lookup key = countryAt ranges key
  increasing : Ascending (toBoundaries ranges).boundaries
  origin : (toBoundaries ranges).boundaries.head?.map (·.start) = some 0
  minimal : Irredundant (toBoundaries ranges).boundaries
  starts : axis.starts = (toBoundaries ranges).boundaries.map (·.start)
  country : axis.country.map (countryName countries) =
    (toBoundaries ranges).boundaries.map (·.label)

structure TableAgrees (v4 v6 : List Range) (table : CountryTable) : Prop where
  four : AxisAgrees v4 (2 ^ 32) table.countries table.v4 (fun key ↦ countryOfKey table (.v4 key))
  six : AxisAgrees v6 (2 ^ 48) table.countries table.v6 (fun key ↦ countryOfKey table (.v6 key))

section Agreement

variable {ranges : List Range} {table : CountryTable} {space : ℕ}

theorem countryAt_ne_nil (ranges : List Range) (key : ℕ) : countryAt ranges key ≠ some [] := by
  intro h
  obtain ⟨range, -, hcc⟩ := Option.map_eq_some_iff.1 h
  exact range.cc_ne_nil hcc

/-- An axis whose array keeps the starts agrees with the ranges. -/
theorem axisAgrees_of_exact {store : ℕ → ℕ}
    (hstore : ∀ b ∈ (toBoundaries ranges).boundaries, store b.start = b.start)
    (hcodes : ∀ b ∈ (toBoundaries ranges).boundaries, b.label ≠ [] → b.label ∈ table.countries) :
    AxisAgrees ranges space table.countries
      (axisOf store table.countries (toBoundaries ranges).boundaries)
      (table.onAxis (axisOf store table.countries (toBoundaries ranges).boundaries)) := by
  have hexact : axisOf store table.countries (toBoundaries ranges).boundaries =
      axisOf id table.countries (toBoundaries ranges).boundaries := by
    unfold axisOf
    rw [List.map_congr_left hstore]
    rfl
  rw [hexact]
  have hhead := toBoundaries_head ranges
  refine ⟨?_, toBoundaries_increasing ranges, hhead, toBoundaries_minimal ranges, rfl, ?_⟩
  · intro key _
    rw [onAxis_valueAt (toBoundaries_increasing ranges) hhead hcodes, toBoundaries_value]
    cases h : countryAt ranges key with
    | none => rfl
    | some cc =>
      have hcc : cc ≠ [] := fun hn ↦ countryAt_ne_nil ranges key (hn ▸ h)
      exact if_neg hcc
  · rw [axisOf, List.map_map]
    exact List.map_congr_left fun b hb ↦ countryName_countryIndex (hcodes b hb)

/-- A range that ends with the space of IPv4 is not found at its end. -/
theorem onAxis_top (hspace : ∀ r ∈ ranges, r.stop ≤ 2 ^ 32) :
    table.onAxis (axisOf (· % 2 ^ 32) table.countries (toBoundaries ranges).boundaries)
      (2 ^ 32 - 1) = none := by
  have hne := ne_nil_of_head (toBoundaries_head ranges)
  refine onAxis_last hne (fun b _ ↦ Nat.le_sub_one_of_lt (Nat.mod_lt _ (by norm_num))) ?_
  -- above every range the value is that of the last boundary
  have hout : countryAt ranges (2 ^ 32) = none := by
    rw [countryAt, firstCountry, Option.map_eq_none_iff, List.find?_eq_none]
    intro r hr hc
    have hstop := hspace r (List.mem_mergeSort.1 hr)
    have hkey := (Range.contains_iff.1 hc).2
    omega
  have hbelow : ∀ b ∈ (toBoundaries ranges).boundaries, b.start ≤ 2 ^ 32 := by
    intro b hb
    rcases toBoundaries_start ranges hb with h0 | ⟨r, hr, hle⟩
    · omega
    · exact hle.trans (hspace r hr)
  have hvalue := toBoundaries_value ranges (2 ^ 32)
  rw [hout, Option.getD_none, ← List.dropLast_append_getLast hne, valueAt_concat_of_le
    (fun b hb ↦ hbelow b (List.mem_of_mem_dropLast hb))
    (hbelow _ (List.getLast_mem hne))] at hvalue
  exact hvalue

theorem countryAt_isSome {r : Range} (hr : r ∈ ranges) {key : ℕ} (hk : r.contains key) :
    (countryAt ranges key).isSome := by
  rw [countryAt, firstCountry, Option.isSome_map, List.find?_isSome]
  exact ⟨r, List.mem_mergeSort.2 hr, hk⟩

theorem length_lt_of_bytes {localeCompare : JsString → JsString → ℤ} {now : ℕ} {v4 v6 : List Range}
    (h : (tableBytes localeCompare now v4 v6).length < 2 ^ 32) :
    (toBoundaries v4).boundaries.length < 2 ^ 32 ∧
      (toBoundaries v6).boundaries.length < 2 ^ 32 := by
  have h4 := length_le_axisEntries (tableCodes localeCompare v4 v6) 0 (toBoundaries v4).boundaries
  have h6 := length_le_axisEntries (tableCodes localeCompare v4 v6) 0 (toBoundaries v6).boundaries
  simp only [tableBytes, axisBytes, List.length_append] at h
  omega

/-- The reader's table agrees with the builder's ranges exactly where no IPv4 range reaches the
end of its space. -/
theorem table_agrees_iff (localeCompare : JsString → JsString → ℤ) (now : ℕ) (v4 v6 : List Range)
    (bytes : List UInt8) (h4 : ∀ r ∈ v4, r.stop ≤ 2 ^ 32) (_h6 : ∀ r ∈ v6, r.stop ≤ 2 ^ 48)
    (hwrite : writeTable localeCompare now v4 v6 = .ok bytes) :
    (∃ table, decodeCountryTable bytes = .ok table ∧ TableAgrees v4 v6 table.toCountryTable) ↔
      ∀ r ∈ v4, r.stop < 2 ^ 32 := by
  rw [writeTable] at hwrite
  split_ifs at hwrite with hlen
  cases hwrite
  obtain ⟨hlen4, hlen6⟩ := length_lt_of_bytes hlen
  rw [decode_tableBytes localeCompare now v4 v6 hlen4 hlen6]
  have hcodes4 : ∀ b ∈ (toBoundaries v4).boundaries, b.label ≠ [] →
      b.label ∈ tableCodes localeCompare v4 v6 := by
    intro b hb hn
    exact (mem_countryCodes localeCompare).2 ⟨hn, b, List.mem_append_left _ hb, rfl⟩
  have hcodes6 : ∀ b ∈ (toBoundaries v6).boundaries, b.label ≠ [] →
      b.label ∈ tableCodes localeCompare v4 v6 := by
    intro b hb hn
    exact (mem_countryCodes localeCompare).2 ⟨hn, b, List.mem_append_right _ hb, rfl⟩
  constructor
  · intro ⟨table, htable, hagrees⟩ r hr
    cases htable
    by_contra hstop
    have hspan := r.start_lt_stop
    have hend := h4 r hr
    have htop := hagrees.four.answers (2 ^ 32 - 1) (by norm_num)
    dsimp only [countryOfKey] at htop
    rw [onAxis_top h4] at htop
    have hsome := countryAt_isSome hr (Range.contains_iff.2 ⟨by omega, by omega⟩ :
      r.contains (2 ^ 32 - 1))
    rw [← htop] at hsome
    exact absurd hsome (by simp)
  · intro hbelow
    have hstore : ∀ b ∈ (toBoundaries v4).boundaries, b.start % 2 ^ 32 = b.start := by
      intro b hb
      refine Nat.mod_eq_of_lt ?_
      rcases toBoundaries_start v4 hb with h0 | ⟨r, hr, hle⟩
      · rw [h0]
        norm_num
      · exact hle.trans_lt (hbelow r hr)
    let table : CountryTable := ⟨tableCodes localeCompare v4 v6,
      axisOf (· % 2 ^ 32) (tableCodes localeCompare v4 v6) (toBoundaries v4).boundaries,
      axisOf id (tableCodes localeCompare v4 v6) (toBoundaries v6).boundaries⟩
    exact ⟨_, rfl, @axisAgrees_of_exact v4 table (2 ^ 32) (· % 2 ^ 32) hstore hcodes4,
      @axisAgrees_of_exact v6 table (2 ^ 48) id (fun _ _ ↦ rfl) hcodes6⟩

theorem tableCodes_single (localeCompare : JsString → JsString → ℤ) (r : Range) (h : 0 < r.start) :
    tableCodes localeCompare [r] [] = [r.cc] := by
  have hcc := r.cc_ne_nil
  rw [tableCodes, toBoundaries_single r h, toBoundaries_nil]
  simp [countryCodes, frequency, groupBy, upsert, hcc]

end Agreement

/-- 8.0.0.0/8. -/
def lowBlock : Range := ⟨134217728, 16777216, js "US", by norm_num, by decide⟩

/-- 255.0.0.0/8, which ends with the space. -/
def topBlock : Range := ⟨4278190080, 16777216, js "US", by norm_num, by decide⟩

theorem lowBlock_length : (tableBytes (fun _ _ ↦ 0) 0 [lowBlock] []).length < 2 ^ 32 := by
  rw [tableBytes, tableCodes_single _ _ (by decide), toBoundaries_single _ (by decide),
    toBoundaries_nil]
  simp [axisBytes, axisEntries, Writer.u32, Writer.u16, Writer.u8, Writer.varint, Writer.ascii,
    lowBlock, countryIndex, leb128, js, magic]

theorem topBlock_length : (tableBytes (fun _ _ ↦ 0) 0 [topBlock] []).length < 2 ^ 32 := by
  rw [tableBytes, tableCodes_single _ _ (by decide), toBoundaries_single _ (by decide),
    toBoundaries_nil]
  simp [axisBytes, axisEntries, Writer.u32, Writer.u16, Writer.u8, Writer.varint, Writer.ascii,
    topBlock, countryIndex, leb128, js, magic]

theorem table_agrees_low_block : ∃ table, decodeCountryTable
    (tableBytes (fun _ _ ↦ 0) 0 [lowBlock] []) = .ok table ∧
      TableAgrees [lowBlock] [] table.toCountryTable := by
  refine (table_agrees_iff (fun _ _ ↦ 0) 0 [lowBlock] [] _ ?_ (List.forall_mem_nil _)
    (if_pos lowBlock_length)).2 ?_
  · intro r hr
    rw [List.mem_singleton.1 hr]
    decide
  · intro r hr
    rw [List.mem_singleton.1 hr]
    decide

/-- An address of the last block has no country in the table. -/
theorem top_block_unknown : ∃ bytes table,
    writeTable (fun _ _ ↦ 0) 0 [topBlock] [] = .ok bytes ∧
      decodeCountryTable bytes = .ok table ∧
      countryOfKey table.toCountryTable (.v4 4278255873) = none ∧
      countryAt [topBlock] 4278255873 = some (js "US") ∧
      ¬ TableAgrees [topBlock] [] table.toCountryTable := by
  obtain ⟨hlen4, hlen6⟩ := length_lt_of_bytes topBlock_length
  let table : CountryTable := ⟨tableCodes (fun _ _ ↦ 0) [topBlock] [],
    axisOf (· % 2 ^ 32) (tableCodes (fun _ _ ↦ 0) [topBlock] [])
      (toBoundaries [topBlock]).boundaries,
    axisOf id (tableCodes (fun _ _ ↦ 0) [topBlock] []) (toBoundaries []).boundaries⟩
  have hlookup : countryOfKey table (.v4 4278255873) = none := by
    have hlast := @onAxis_last [⟨0, []⟩, ⟨topBlock.start, topBlock.cc⟩,
      ⟨topBlock.start + topBlock.span, []⟩] table 4278255873 (· % 2 ^ 32) (List.cons_ne_nil _ _)
      (by decide) rfl
    dsimp only [countryOfKey, table] at hlast ⊢
    rw [toBoundaries_single topBlock (by decide)] at hlast ⊢
    exact hlast
  have hcountry : countryAt [topBlock] 4278255873 = some (js "US") := by
    rw [countryAt, sorted, List.mergeSort_singleton]
    rfl
  refine ⟨_, _, if_pos topBlock_length, decode_tableBytes _ 0 [topBlock] [] hlen4 hlen6, hlookup,
    hcountry, ?_⟩
  intro h
  have hsame := h.four.answers 4278255873 (by norm_num)
  rw [hcountry] at hsame
  exact absurd (hsame.symm.trans hlookup) (by simp)

end Counted.Ingestion
