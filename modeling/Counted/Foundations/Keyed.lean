import Mathlib

namespace Counted.Foundations.Keyed

variable {α κ M : Type} [DecidableEq κ] [AddCommMonoid M] (key : α → κ)

/-- Replaces the entry with `a`'s key where it stands, or appends `a`: what a JavaScript `Map`
does to its insertion order. -/
def upsert (a : α) (l : List α) : List α :=
  if l.any (fun b ↦ key b = key a) then l.map (fun b ↦ if key b = key a then a else b)
  else l ++ [a]

def remove (k : κ) (l : List α) : List α := l.filter (fun b ↦ key b ≠ k)

def lookup (k : κ) (l : List α) : Option α := l.find? (fun b ↦ key b = k)

variable {key} {a b : α} {k : κ} {l : List α}

theorem lookup_eq_some (h : lookup key k l = some a) : a ∈ l ∧ key a = k :=
  ⟨List.mem_of_find?_eq_some h, by simpa using List.find?_some h⟩

theorem lookup_eq_none : lookup key k l = none ↔ k ∉ l.map key := by
  simp [lookup]

theorem lookup_of_mem (hl : (l.map key).Nodup) (ha : a ∈ l) : lookup key (key a) l = some a := by
  obtain ⟨b, hb⟩ : ∃ b, lookup key (key a) l = some b := by
    rw [← Option.isSome_iff_exists, Option.isSome_iff_ne_none, ne_eq, lookup_eq_none]
    simpa using ⟨a, ha, rfl⟩
  obtain ⟨hbl, hk⟩ := lookup_eq_some hb
  rw [hb, List.inj_on_of_nodup_map hl hbl ha hk]

theorem filter_key (hl : (l.map key).Nodup) (ha : a ∈ l) : l.filter (fun b ↦ key b = key a) = [a] := by
  induction l with
  | nil => cases ha
  | cons c l ih =>
    rw [List.map_cons, List.nodup_cons] at hl
    rcases List.mem_cons.1 ha with rfl | ha
    · rw [List.filter_cons_of_pos (by simp), List.filter_eq_nil_iff.2]
      intro b hb hk
      exact hl.1 (of_decide_eq_true hk ▸ List.mem_map_of_mem hb)
    · rw [List.filter_cons_of_neg, ih hl.2 ha]
      intro hk
      exact hl.1 (of_decide_eq_true hk ▸ List.mem_map_of_mem ha)

theorem upsert_of_notMem (h : key a ∉ l.map key) : upsert key a l = l ++ [a] := by
  rw [upsert, if_neg]
  simpa using h

theorem upsert_of_mem (h : key a ∈ l.map key) :
    upsert key a l = l.map (fun b ↦ if key b = key a then a else b) := by
  rw [upsert, if_pos]
  simpa using h

theorem map_key_upsert : (upsert key a l).map key =
    if key a ∈ l.map key then l.map key else l.map key ++ [key a] := by
  split_ifs with h
  · rw [upsert_of_mem h, List.map_map]
    refine List.map_congr_left fun b _ ↦ ?_
    by_cases hb : key b = key a <;> simp [hb]
  · simp [upsert_of_notMem h]

theorem nodup_upsert (hl : (l.map key).Nodup) : ((upsert key a l).map key).Nodup := by
  rw [map_key_upsert]
  split_ifs with h
  · exact hl
  · simpa using hl.concat h

theorem lookup_cons : lookup key k (b :: l) = if key b = k then some b else lookup key k l := by
  rw [lookup, lookup, List.find?_cons]
  split_ifs with h <;> simp [h]

theorem lookup_replace (h : key a ∈ l.map key) :
    lookup key k (l.map (fun b ↦ if key b = key a then a else b)) =
      if key a = k then some a else lookup key k l := by
  induction l with
  | nil => cases h
  | cons b l ih =>
    rw [List.map_cons, lookup_cons, lookup_cons]
    by_cases hb : key b = key a
    · rw [if_pos hb]
      by_cases hk : key a = k
      · rw [if_pos hk, if_pos hk]
      · rw [if_neg hk, if_neg hk, if_neg (hb ▸ hk)]
        by_cases hl : key a ∈ l.map key
        · rw [ih hl, if_neg hk]
        · congr 1
          refine (List.map_congr_left fun c hc ↦ if_neg fun he ↦ hl ?_).trans (List.map_id l)
          exact he ▸ List.mem_map_of_mem hc
    · have hl : key a ∈ l.map key :=
        (List.mem_cons.1 h).resolve_left fun he ↦ hb he.symm
      rw [if_neg hb, ih hl]
      split_ifs with hbk hak
      · exact absurd (hbk.trans hak.symm) hb
      · rfl
      · rfl
      · rfl

/-- What is looked up after an upsert. -/
theorem lookup_upsert (k : κ) :
    lookup key k (upsert key a l) = if key a = k then some a else lookup key k l := by
  by_cases h : key a ∈ l.map key
  · rw [upsert_of_mem h, lookup_replace h]
  · rw [upsert_of_notMem h]
    rw [lookup, List.find?_append, ← lookup]
    split_ifs with hk
    · rw [lookup_eq_none.2 (hk ▸ h)]
      simp [hk]
    · simp [hk]

theorem countP_replace_le (hl : (l.map key).Nodup) (q : α → Bool) :
    (l.map (fun b ↦ if key b = key a then a else b)).countP q ≤
      l.countP q + if q a then 1 else 0 := by
  induction l with
  | nil => exact Nat.zero_le _
  | cons b l ih =>
    rw [List.map_cons, List.nodup_cons] at hl
    rw [List.map_cons, List.countP_cons, List.countP_cons]
    by_cases hb : key b = key a
    · have hrest : l.map (fun c ↦ if key c = key a then a else c) = l := by
        refine (List.map_congr_left fun c hc ↦ if_neg fun he ↦ hl.1 ?_).trans (List.map_id l)
        exact hb.trans he.symm ▸ List.mem_map_of_mem hc
      rw [hrest, if_pos hb]
      omega
    · have := ih hl.2
      rw [if_neg hb]
      omega

/-- An upsert adds one to a count at most, and only if what it writes counts. -/
theorem countP_upsert_le (hl : (l.map key).Nodup) (q : α → Bool) :
    (upsert key a l).countP q ≤ l.countP q + if q a then 1 else 0 := by
  by_cases h : key a ∈ l.map key
  · rw [upsert_of_mem h]
    exact countP_replace_le hl q
  · rw [upsert_of_notMem h, List.countP_append, List.countP_singleton]

theorem mem_upsert : b ∈ upsert key a l ↔ b = a ∨ b ∈ l ∧ key b ≠ key a := by
  by_cases h : key a ∈ l.map key
  · obtain ⟨c, hc, hck⟩ := List.mem_map.1 h
    rw [upsert_of_mem h, List.mem_map]
    constructor
    · rintro ⟨d, hd, rfl⟩
      by_cases hk : key d = key a <;> simp [hk, hd]
    · rintro (rfl | ⟨hb, hk⟩)
      · exact ⟨c, hc, if_pos hck⟩
      · exact ⟨b, hb, if_neg hk⟩
  · rw [upsert_of_notMem h, List.mem_append, List.mem_singleton]
    constructor
    · rintro (hb | rfl)
      · exact .inr ⟨hb, fun hk ↦ h (hk ▸ List.mem_map_of_mem hb)⟩
      · exact .inl rfl
    · rintro (rfl | ⟨hb, -⟩)
      · exact .inr rfl
      · exact .inl hb

/-- An upsert among entries that a test leaves out changes nothing of what it keeps. -/
theorem filter_upsert {p : α → Bool} (ha : p a = false) (hl : ∀ b ∈ l, key b = key a → p b = false) :
    (upsert key a l).filter p = l.filter p := by
  by_cases h : key a ∈ l.map key
  · rw [upsert_of_mem h]
    clear h
    induction l with
    | nil => rfl
    | cons b l ih =>
      have hrest := ih fun c hc ↦ hl c (List.mem_cons_of_mem b hc)
      rw [List.map_cons]
      split_ifs with hb
      · rw [List.filter_cons_of_neg (by simp [ha]), hrest,
          List.filter_cons_of_neg (by simp [hl b List.mem_cons_self hb])]
      · rw [List.filter_cons, List.filter_cons, hrest]
  · rw [upsert_of_notMem h, List.filter_append, List.filter_cons_of_neg (by simp [ha]),
      List.filter_nil, List.append_nil]

/-- A column keeps its values distinct where the entry upserted has one no other entry has. -/
theorem nodup_filterMap_upsert {β : Type} {f : α → Option β} (hl : (l.map key).Nodup)
    (hf : (l.filterMap f).Nodup)
    (h : ∀ b ∈ l, key b ≠ key a → ∀ y, f a = some y → f b ≠ some y) :
    ((upsert key a l).filterMap f).Nodup := by
  rw [List.Nodup, List.pairwise_filterMap] at hf ⊢
  by_cases hk : key a ∈ l.map key
  · rw [upsert_of_mem hk, List.pairwise_map]
    have hkeys : l.Pairwise (fun b c ↦ key b ≠ key c) := List.pairwise_map.1 hl
    refine (hkeys.and hf).imp_of_mem ?_
    rintro b c hb hc ⟨hne, hfbc⟩ y hy z hz rfl
    split_ifs at hy hz with hba hca hca
    · exact hne (hba.trans hca.symm)
    · exact h c hc hca y hy hz
    · exact h b hb hba y hz hy
    · exact hfbc y hy y hz rfl
  · rw [upsert_of_notMem hk, List.pairwise_append]
    refine ⟨hf, List.pairwise_singleton _ _, ?_⟩
    rintro b hb c hc y hy z hz rfl
    obtain rfl := List.mem_singleton.1 hc
    exact h b hb (fun he ↦ hk (he ▸ List.mem_map_of_mem hb)) y hz hy

/-- In a column of distinct values, one value is that of one entry. -/
theorem eq_of_nodup_filterMap {β : Type} {f : α → Option β} {y : β} (hf : (l.filterMap f).Nodup)
    (ha : a ∈ l) (hb : b ∈ l) (hya : f a = some y) (hyb : f b = some y) : a = b := by
  induction l with
  | nil => cases ha
  | cons c l ih =>
    have hrest : (l.filterMap f).Nodup := ((List.sublist_cons_self c l).filterMap f).nodup hf
    have hhead : ∀ d ∈ l, f c = some y → f d ≠ some y := by
      intro d hd hc hyd
      rw [List.filterMap_cons_some hc, List.nodup_cons] at hf
      exact hf.1 (List.mem_filterMap.2 ⟨d, hd, hyd⟩)
    rcases List.mem_cons.1 ha with rfl | ha'
    · rcases List.mem_cons.1 hb with rfl | hb'
      · rfl
      · exact absurd hyb (hhead b hb' hya)
    · rcases List.mem_cons.1 hb with rfl | hb'
      · exact absurd hya (hhead a ha' hyb)
      · exact ih hrest ha' hb'

theorem nodup_remove (hl : (l.map key).Nodup) : ((remove key k l).map key).Nodup :=
  (List.filter_sublist.map key).nodup hl

theorem mem_remove : b ∈ remove key k l ↔ b ∈ l ∧ key b ≠ k := by
  simp [remove]

theorem lookup_remove (k' : κ) :
    lookup key k (remove key k' l) = if k' = k then none else lookup key k l := by
  rw [remove, lookup, List.find?_filter]
  split_ifs with h
  · subst h
    simp
  · congr 1
    funext b
    by_cases hb : key b = k
    · simp [hb, Ne.symm h]
    · simp [hb]

theorem remove_of_notMem (h : k ∉ l.map key) : remove key k l = l := by
  refine List.filter_eq_self.2 fun b hb ↦ ?_
  simpa using fun hk : key b = k ↦ h (hk ▸ List.mem_map_of_mem hb)

/-- Taking an entry out takes its share out of a total. -/
theorem sum_remove (hl : (l.map key).Nodup) (ha : a ∈ l) (f : α → M) :
    (l.map f).sum = f a + ((remove key (key a) l).map f).sum := by
  induction l with
  | nil => cases ha
  | cons c l ih =>
    simp only [List.map_cons, List.nodup_cons] at hl
    by_cases hc : key c = key a
    · obtain rfl : c = a := by
        rcases List.mem_cons.1 ha with rfl | ha
        · rfl
        · exact absurd (List.mem_map_of_mem ha) (hc ▸ hl.1)
      rw [remove, List.filter_cons_of_neg (by simp), ← remove, remove_of_notMem hl.1,
        List.map_cons, List.sum_cons]
    · have hm : a ∈ l := (List.mem_cons.1 ha).resolve_left (fun h ↦ hc (h ▸ rfl))
      rw [remove, List.filter_cons_of_pos (by simpa using hc), ← remove, List.map_cons,
        List.sum_cons, ih hl.2 hm, List.map_cons, List.sum_cons, add_left_comm]

/-- Replacing an entry changes a total by the difference of the two shares. -/
theorem sum_upsert (hl : (l.map key).Nodup) (hb : b ∈ l) (hk : key b = key a) (f : α → M) :
    f b + ((upsert key a l).map f).sum = f a + (l.map f).sum := by
  have hu := upsert_of_mem (hk ▸ List.mem_map_of_mem hb : key a ∈ l.map key)
  have hn : ((upsert key a l).map key).Nodup := nodup_upsert hl
  have hr : remove key (key a) (upsert key a l) = remove key (key a) l := by
    rw [hu, remove, List.filter_map, remove]
    have hf : ((fun b ↦ decide (key b ≠ key a)) ∘ fun b ↦ if key b = key a then a else b) =
        fun b ↦ decide (key b ≠ key a) := by
      funext c
      by_cases hc : key c = key a <;> simp [hc]
    rw [hf]
    refine (List.map_congr_left fun c hc ↦ if_neg ?_).trans (List.map_id' _)
    simpa using (List.mem_filter.1 hc).2
  rw [sum_remove hn (mem_upsert.2 (.inl rfl)) f, hr, sum_remove hl hb f, hk]
  exact add_left_comm _ _ _

end Counted.Foundations.Keyed
