import Counted.Foundations.Intervals
import Counted.Ingestion.Geography

namespace Counted.Ingestion

open Foundations

/-- A block that a registry has delegated, as `readRecords` lets it in. -/
structure Range where
  start : ℕ
  span : ℕ
  cc : JsString
  positive : 0 < span
  code : isCountryCode cc

namespace Range

def stop (range : Range) : ℕ := range.start + range.span

def contains (range : Range) (key : ℕ) : Bool := range.start ≤ key && key < range.stop

/-- The order of the builder's sort, which is stable. -/
def sortsBefore (a b : Range) : Bool :=
  a.start < b.start || a.start == b.start && a.span ≤ b.span

theorem contains_iff {range : Range} {key : ℕ} :
    range.contains key ↔ range.start ≤ key ∧ key < range.stop := by
  simp [contains]

theorem start_lt_stop (range : Range) : range.start < range.stop := by
  have h := range.positive
  unfold stop
  omega

theorem cc_ne_nil (range : Range) : range.cc ≠ [] := by
  intro hn
  have h := range.code
  rw [hn] at h
  exact absurd h (by decide)

theorem start_le_of_sortsBefore {a b : Range} (h : a.sortsBefore b) : a.start ≤ b.start := by
  simp only [sortsBefore, Bool.or_eq_true, Bool.and_eq_true, decide_eq_true_eq, beq_iff_eq] at h
  omega

end Range

def sorted (ranges : List Range) : List Range := ranges.mergeSort Range.sortsBefore

theorem sorted_pairwise (ranges : List Range) :
    (sorted ranges).Pairwise (fun a b ↦ a.start ≤ b.start) := by
  refine (List.pairwise_mergeSort ?_ ?_ ranges).imp fun h ↦ Range.start_le_of_sortsBefore h
  · intro a b c hab hbc
    simp only [Range.sortsBefore, Bool.or_eq_true, Bool.and_eq_true, decide_eq_true_eq,
      beq_iff_eq] at *
    omega
  · intro a b
    simp only [Range.sortsBefore, Bool.or_eq_true, Bool.and_eq_true, decide_eq_true_eq,
      beq_iff_eq]
    omega

/-- The country of the first range of a list that has the key. -/
def firstCountry (ranges : List Range) (key : ℕ) : Option JsString :=
  (ranges.find? (·.contains key)).map (·.cc)

/-- What the loop of `toBoundaries` carries. -/
structure Flattening where
  boundaries : List (Boundary JsString)
  overlaps : ℕ
  cursor : ℕ

def Flattening.step (f : Flattening) (range : Range) : Flattening :=
  let start := max range.start f.cursor
  let stop := range.start + range.span
  if stop ≤ f.cursor then { f with overlaps := f.overlaps + 1 }
  else
    { boundaries := (if f.cursor < start then f.boundaries ++ [⟨f.cursor, []⟩]
        else f.boundaries) ++ [⟨start, range.cc⟩]
      overlaps := if range.start < start then f.overlaps + 1 else f.overlaps
      cursor := stop }

/-- Everything above the last allocation is unknown. -/
def Flattening.close (f : Flattening) : List (Boundary JsString) :=
  f.boundaries ++ [⟨f.cursor, []⟩]

/-- Neighbours of one country are one block. -/
def mergeStep (merged : List (Boundary JsString)) (boundary : Boundary JsString) :
    List (Boundary JsString) :=
  match merged.getLast? with
  | none => [boundary]
  | some last =>
    if last.label = boundary.label then merged
    else if last.start = boundary.start then merged.dropLast ++ [boundary]
    else merged ++ [boundary]

structure Partition where
  boundaries : List (Boundary JsString)
  overlaps : ℕ

/-- A partition of the whole space. The empty code stands for no country. -/
def toBoundaries (ranges : List Range) : Partition :=
  let f := (sorted ranges).foldl Flattening.step ⟨[], 0, 0⟩
  let boundaries := f.close
  let boundaries := if boundaries.head?.map (·.start) = some 0 then boundaries
    else ⟨0, []⟩ :: boundaries
  ⟨boundaries.foldl mergeStep [], f.overlaps⟩

section Flattening

variable {seen : List Range} {f : Flattening} {range : Range} {key : ℕ}

/-- Of the ranges seen, the boundaries tell what the keys below the cursor belong to. -/
structure Flattening.Inv (f : Flattening) (seen : List Range) : Prop where
  increasing : Ascending f.boundaries
  below : ∀ b ∈ f.boundaries, b.start < f.cursor
  anchored : f.boundaries.head?.map (·.start) = some 0 ∨ f.boundaries = [] ∧ f.cursor = 0
  bound : ∀ r ∈ seen, r.stop ≤ f.cursor
  reached : f.cursor = 0 ∨ ∃ r ∈ seen, r.stop = f.cursor
  labels : ∀ b ∈ f.boundaries, b.label = [] ∨ isCountryCode b.label
  values : ∀ key < f.cursor,
    valueAt [] f.boundaries key = (firstCountry seen key).getD []

theorem firstCountry_concat (h : seen.find? (·.contains key) = none) :
    firstCountry (seen ++ [range]) key =
      if range.contains key then some range.cc else none := by
  rw [firstCountry, List.find?_append, h, Option.none_or]
  by_cases hr : range.contains key <;> simp [hr]

/-- No range reaches the cursor. -/
theorem Flattening.Inv.find?_eq_none (h : f.Inv seen) (hk : f.cursor ≤ key) :
    seen.find? (·.contains key) = none := by
  rw [List.find?_eq_none]
  intro r hr hc
  have hb := h.bound r hr
  have hk' := (Range.contains_iff.1 hc).2
  omega

/-- Below the cursor a range that starts after those before it adds nothing. -/
theorem Flattening.Inv.firstCountry_concat (h : f.Inv seen)
    (hs : ∀ r ∈ seen, r.start ≤ range.start) (hk : key < f.cursor) :
    firstCountry (seen ++ [range]) key = firstCountry seen key := by
  cases hf : seen.find? (·.contains key) with
  | some r => rw [firstCountry, firstCountry, List.find?_append, hf, Option.some_or]
  | none =>
    have hout : ¬ range.contains key := by
      intro hc
      rcases h.reached with h0 | ⟨r, hr, hstop⟩
      · omega
      · have hin : r.contains key :=
          Range.contains_iff.2 ⟨(hs r hr).trans (Range.contains_iff.1 hc).1, hstop ▸ hk⟩
        exact List.find?_eq_none.1 hf r hr hin
    rw [Ingestion.firstCountry_concat hf, if_neg hout, firstCountry, hf]
    rfl

/-- What a range adds where it reaches over the cursor, its block opening at `b`. -/
theorem Flattening.Inv.extend (h : f.Inv seen)
    (hs : ∀ r ∈ seen, r.start ≤ range.start) (hstop : f.cursor < range.stop)
    {l : List (Boundary JsString)} (hl : Ascending l) (hb : ∀ b ∈ l, b.start < range.stop)
    (hl0 : l.head?.map (·.start) = some 0)
    (hcodes : ∀ b ∈ l, b ∈ f.boundaries ∨ b.label = [] ∨ b.label = range.cc)
    (hold : ∀ key < f.cursor, valueAt [] l key = valueAt [] f.boundaries key)
    (hnew : ∀ key, f.cursor ≤ key → key < range.stop →
      valueAt [] l key = if range.contains key then range.cc else []) (overlaps : ℕ) :
    Flattening.Inv ⟨l, overlaps, range.stop⟩ (seen ++ [range]) where
  increasing := hl
  below := hb
  anchored := .inl hl0
  bound := by
    intro r hr
    rcases List.mem_append.1 hr with hr | hr
    · exact (h.bound r hr).trans hstop.le
    · rw [List.mem_singleton.1 hr]
  reached := .inr ⟨range, by simp, rfl⟩
  labels := by
    intro b hb
    rcases hcodes b hb with hb | hb | hb
    · exact h.labels b hb
    · exact .inl hb
    · exact .inr (hb ▸ range.code)
  values := by
    intro key hk
    rcases lt_or_ge key f.cursor with hlt | hge
    · rw [hold key hlt, h.values key hlt, h.firstCountry_concat hs hlt]
    · rw [hnew key hge hk, Ingestion.firstCountry_concat (h.find?_eq_none hge)]
      split <;> rfl

theorem Flattening.Inv.step (h : f.Inv seen)
    (hs : ∀ r ∈ seen, r.start ≤ range.start) :
    (f.step range).Inv (seen ++ [range]) := by
  have hspan := range.start_lt_stop
  have hall : ∀ b ∈ f.boundaries, ∀ key, f.cursor ≤ key → b.start ≤ key :=
    fun b hb key hk ↦ (h.below b hb).le.trans hk
  unfold Flattening.step
  dsimp only
  rw [← Range.stop]
  by_cases hin : range.stop ≤ f.cursor
  · rw [if_pos hin]
    exact {
      increasing := h.increasing
      below := h.below
      anchored := h.anchored
      bound := by
        intro r hr
        rcases List.mem_append.1 hr with hr | hr
        · exact h.bound r hr
        · exact List.mem_singleton.1 hr ▸ hin
      reached := h.reached.imp_right fun ⟨r, hr, hstop⟩ ↦ ⟨r, List.mem_append_left _ hr, hstop⟩
      labels := h.labels
      values := fun key hk ↦ (h.values key hk).trans
        (congrArg (·.getD []) (h.firstCountry_concat hs hk).symm) }
  rw [if_neg hin]
  by_cases hgap : f.cursor < max range.start f.cursor
  · -- a gap before the range gets a boundary of its own
    have hstart : max range.start f.cursor = range.start := by omega
    have hlt : f.cursor < range.start := by omega
    rw [if_pos hgap, hstart]
    refine h.extend hs (by omega) ?_ ?_ ?_ ?_ ?_ ?_ _
    · rw [ascending_concat, ascending_concat]
      refine ⟨⟨h.increasing, h.below⟩, ?_⟩
      intro b hb
      rcases List.mem_append.1 hb with hb | hb
      · exact (h.below b hb).trans hlt
      · exact List.mem_singleton.1 hb ▸ hlt
    · intro b hb
      simp only [List.append_assoc, List.mem_append, List.mem_cons, List.not_mem_nil,
        or_false] at hb
      rcases hb with hb | rfl | rfl
      · exact (h.below b hb).trans (hlt.trans hspan)
      · exact hlt.trans hspan
      · exact hspan
    · rcases h.anchored with h0 | ⟨hn, hc⟩
      · cases hf : f.boundaries with
        | nil => simp [hf] at h0
        | cons b l => simpa [hf] using h0
      · simp [hn, hc]
    · intro b hb
      simp only [List.append_assoc, List.mem_append, List.mem_cons, List.not_mem_nil,
        or_false] at hb
      rcases hb with hb | rfl | rfl
      · exact .inl hb
      · exact .inr (.inl rfl)
      · exact .inr (.inr rfl)
    · intro key hk
      rw [valueAt_concat_of_lt (hk.trans hlt), valueAt_concat_of_lt hk]
    · intro key hge hkey
      rcases lt_or_ge key range.start with hk | hk
      · rw [valueAt_concat_of_lt hk, valueAt_concat_of_le (fun b hb ↦ hall b hb key hge) hge,
          if_neg (fun hc ↦ absurd (Range.contains_iff.1 hc).1 (not_le.2 hk))]
      · rw [valueAt_concat_of_le _ hk, if_pos (Range.contains_iff.2 ⟨hk, hkey⟩)]
        intro b hb
        rcases List.mem_append.1 hb with hb | hb
        · exact hall b hb key hge
        · exact List.mem_singleton.1 hb ▸ hge
  · have hstart : max range.start f.cursor = f.cursor := by omega
    rw [if_neg hgap, hstart]
    refine h.extend hs (by omega) ?_ ?_ ?_ ?_ ?_ ?_ _
    · exact ascending_concat.2 ⟨h.increasing, h.below⟩
    · intro b hb
      rcases List.mem_append.1 hb with hb | hb
      · exact (h.below b hb).trans (by omega)
      · rw [List.mem_singleton.1 hb]
        dsimp only
        omega
    · rcases h.anchored with h0 | ⟨hn, hc⟩
      · cases hf : f.boundaries with
        | nil => simp [hf] at h0
        | cons b l => simpa [hf] using h0
      · simp [hn, hc]
    · intro b hb
      rcases List.mem_append.1 hb with hb | hb
      · exact .inl hb
      · exact .inr (.inr (List.mem_singleton.1 hb ▸ rfl))
    · intro key hk
      exact valueAt_concat_of_lt hk
    · intro key hge hlt
      rw [valueAt_concat_of_le (fun b hb ↦ hall b hb key hge) hge,
        if_pos (Range.contains_iff.2 ⟨by omega, hlt⟩)]

theorem Flattening.inv_foldl (ranges : List Range)
    (hs : ranges.Pairwise (fun a b ↦ a.start ≤ b.start)) :
    (ranges.foldl Flattening.step ⟨[], 0, 0⟩).Inv ranges := by
  induction ranges using List.reverseRecOn with
  | nil =>
    exact ⟨List.Pairwise.nil, List.forall_mem_nil _, .inr ⟨rfl, rfl⟩, List.forall_mem_nil _,
      .inl rfl, List.forall_mem_nil _, fun key hk ↦ absurd hk (Nat.not_lt_zero key)⟩
  | append_singleton ranges range ih =>
    rw [List.pairwise_append] at hs
    rw [List.foldl_append]
    exact (ih hs.1).step fun r hr ↦ hs.2.2 r hr range (List.mem_singleton_self range)

end Flattening

section Merging

variable {seen merged : List (Boundary JsString)} {b : Boundary JsString}

/-- The merged boundaries describe what those seen describe, with none to spare. -/
structure MergeInv (seen merged : List (Boundary JsString)) : Prop where
  kept : ∀ c ∈ merged, c ∈ seen
  increasing : Ascending merged
  minimal : Irredundant merged
  first : merged.head? = seen.head?
  values : ∀ key, valueAt [] merged key = valueAt [] seen key

theorem MergeInv.step (h : MergeInv seen merged) (hb : Ascending (seen ++ [b])) :
    MergeInv (seen ++ [b]) (mergeStep merged b) := by
  have hbelow : ∀ c ∈ merged, c.start < b.start :=
    fun c hc ↦ (ascending_concat.1 hb).2 c (h.kept c hc)
  have hvalues (key : ℕ) : valueAt [] (merged ++ [b]) key = valueAt [] (seen ++ [b]) key := by
    rcases lt_or_ge key b.start with hk | hk
    · rw [valueAt_concat_of_lt hk, valueAt_concat_of_lt hk, h.values key]
    · rw [valueAt_concat_of_le (fun c hc ↦ (hbelow c hc).le.trans hk) hk,
        valueAt_concat_of_le (fun c hc ↦ ((ascending_concat.1 hb).2 c hc).le.trans hk) hk]
  rcases List.eq_nil_or_concat merged with hn | ⟨l, c, hl⟩
  · subst hn
    have hseen : seen = [] := List.head?_eq_none_iff.1 (h.first.symm.trans rfl)
    subst hseen
    exact ⟨fun _ hc ↦ hc, List.pairwise_singleton _ _, List.isChain_singleton _, rfl,
      fun _ ↦ rfl⟩
  · rw [List.concat_eq_append] at hl
    subst hl
    have hseen : ∃ a rest, seen = a :: rest := by
      cases seen with
      | nil => exact absurd (h.kept c (by simp)) List.not_mem_nil
      | cons a rest => exact ⟨a, rest, rfl⟩
    obtain ⟨a, rest, rfl⟩ := hseen
    have hfirst : (l ++ [c] ++ [b]).head? = (a :: rest ++ [b]).head? := by
      rw [List.head?_append_of_ne_nil _ (by simp), h.first]
      rfl
    have hcb : c.start < b.start := hbelow c (by simp)
    simp only [mergeStep, List.getLast?_concat, if_neg hcb.ne]
    split_ifs with hlab
    · refine ⟨fun c' hc' ↦ List.mem_append_left _ (h.kept c' hc'), h.increasing, h.minimal,
        h.first, fun key ↦ ?_⟩
      rw [← hvalues key, valueAt_concat_repeats h.increasing hcb.le hlab]
    · refine ⟨?_, ascending_concat.2 ⟨h.increasing, hbelow⟩, irredundant_concat.2 ⟨h.minimal, hlab⟩,
        hfirst, hvalues⟩
      intro c' hc'
      rcases List.mem_append.1 hc' with hc' | hc'
      · exact List.mem_append_left _ (h.kept c' hc')
      · exact List.mem_append_right _ hc'

theorem mergeInv_foldl (hl : Ascending seen) : MergeInv seen (seen.foldl mergeStep []) := by
  induction seen using List.reverseRecOn with
  | nil => exact ⟨fun _ hc ↦ hc, List.Pairwise.nil, List.isChain_nil, rfl, fun _ ↦ rfl⟩
  | append_singleton l b ih =>
    rw [List.foldl_append]
    exact (ih (ascending_concat.1 hl).1).step hl

end Merging

section Spec

variable (ranges : List Range)

/-- The country of the first range that has the key, in the order of the builder's sort. -/
def countryAt (key : ℕ) : Option JsString := firstCountry (sorted ranges) key

/-- The boundaries before neighbours are merged. There is one at 0 whatever the ranges are. -/
theorem toBoundaries_eq : ∃ f : Flattening, f.Inv (sorted ranges) ∧
    f.close.head?.map (·.start) = some 0 ∧
    (toBoundaries ranges).boundaries = f.close.foldl mergeStep [] := by
  have h := Flattening.inv_foldl (sorted ranges) (sorted_pairwise ranges)
  refine ⟨_, h, ?_⟩
  have hhead : ((sorted ranges).foldl Flattening.step ⟨[], 0, 0⟩).close.head?.map (·.start) =
      some 0 := by
    rw [Flattening.close]
    rcases h.anchored with h0 | ⟨hn, hc⟩
    · rw [List.head?_append, Option.map_or, h0]
      rfl
    · rw [hn, hc]
      rfl
  refine ⟨hhead, ?_⟩
  rw [toBoundaries]
  dsimp only
  rw [if_pos hhead]

theorem Flattening.Inv.merged {seen : List Range} {f : Flattening} (h : f.Inv seen) :
    MergeInv f.close (f.close.foldl mergeStep []) :=
  mergeInv_foldl (ascending_concat.2 ⟨h.increasing, h.below⟩)

theorem toBoundaries_increasing : Ascending (toBoundaries ranges).boundaries := by
  obtain ⟨f, h, -, he⟩ := toBoundaries_eq ranges
  rw [he]
  exact h.merged.increasing

theorem toBoundaries_minimal : Irredundant (toBoundaries ranges).boundaries := by
  obtain ⟨f, h, -, he⟩ := toBoundaries_eq ranges
  rw [he]
  exact h.merged.minimal

theorem toBoundaries_head :
    (toBoundaries ranges).boundaries.head?.map (·.start) = some 0 := by
  obtain ⟨f, h, hhead, he⟩ := toBoundaries_eq ranges
  rw [he, h.merged.first]
  exact hhead

theorem toBoundaries_value (key : ℕ) : valueAt [] (toBoundaries ranges).boundaries key =
    (countryAt ranges key).getD [] := by
  obtain ⟨f, h, -, he⟩ := toBoundaries_eq ranges
  rw [he, h.merged.values, Flattening.close]
  rcases lt_or_ge key f.cursor with hk | hk
  · rw [valueAt_concat_of_lt hk, h.values key hk, countryAt]
  · rw [valueAt_concat_of_le (fun b hb ↦ (h.below b hb).le.trans hk) hk, countryAt, firstCountry,
      h.find?_eq_none hk]
    rfl

theorem toBoundaries_label {b : Boundary JsString} (hb : b ∈ (toBoundaries ranges).boundaries) :
    b.label = [] ∨ isCountryCode b.label := by
  obtain ⟨f, h, -, he⟩ := toBoundaries_eq ranges
  rw [he] at hb
  have hkept := h.merged.kept b hb
  rcases List.mem_append.1 hkept with hf | hf
  · exact h.labels b hf
  · exact .inl (List.mem_singleton.1 hf ▸ rfl)

/-- No boundary lies above the end of every range. -/
theorem toBoundaries_start {b : Boundary JsString} (hb : b ∈ (toBoundaries ranges).boundaries) :
    b.start = 0 ∨ ∃ r ∈ ranges, b.start ≤ r.stop := by
  obtain ⟨f, h, -, he⟩ := toBoundaries_eq ranges
  rw [he] at hb
  have hkept := h.merged.kept b hb
  have hle : b.start ≤ f.cursor := by
    rcases List.mem_append.1 hkept with hf | hf
    · exact (h.below b hf).le
    · rw [List.mem_singleton.1 hf]
  rcases h.reached with h0 | ⟨r, hr, hstop⟩
  · exact .inl (by omega)
  · exact .inr ⟨r, List.mem_mergeSort.1 hr, hstop ▸ hle⟩

theorem toBoundaries_nil : toBoundaries [] = ⟨[⟨0, []⟩], 0⟩ := by
  simp only [toBoundaries, sorted, List.mergeSort_nil]
  rfl

theorem toBoundaries_single (r : Range) (h : 0 < r.start) : toBoundaries [r] =
    ⟨[⟨0, []⟩, ⟨r.start, r.cc⟩, ⟨r.start + r.span, []⟩], 0⟩ := by
  have hcc := r.cc_ne_nil
  have hspan := r.positive.ne'
  have hle : ¬ r.start + r.span ≤ 0 := by omega
  have hmax : max r.start 0 = r.start := by omega
  simp only [toBoundaries, sorted, List.mergeSort_singleton, List.foldl_cons, List.foldl_nil,
    Flattening.step, if_neg hle, hmax, if_pos h, lt_irrefl, if_false, Flattening.close]
  simp [mergeStep, hcc, Ne.symm hcc, h.ne, hspan]

end Spec

end Counted.Ingestion
