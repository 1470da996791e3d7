import Mathlib

namespace Counted.Foundations

variable {α κ σ : Type} [DecidableEq κ] (key : α → κ) (init : σ) (add : σ → α → σ)

/-- `map.set(key, add(map.get(key) ?? init, a))` on a map that keeps the order of insertion. -/
def upsert (m : List (κ × σ)) (a : α) : List (κ × σ) :=
  if m.any (fun p ↦ p.1 = key a) then
    m.map (fun p ↦ if p.1 = key a then (p.1, add p.2 a) else p)
  else m ++ [(key a, add init a)]

def groupBy (l : List α) : List (κ × σ) := l.foldl (upsert key init add) []

/-- The keys of a list in the order of their first occurrence. -/
def distinctKeys (l : List α) : List κ := (l.map key).eraseDups

variable {key} {init : σ} {add : σ → α → σ} {l : List α}

theorem mem_distinctKeys {k : κ} : k ∈ distinctKeys key l ↔ ∃ a ∈ l, key a = k := by
  simp [distinctKeys]

theorem distinctKeys_concat (l : List α) (a : α) : distinctKeys key (l ++ [a]) =
    if key a ∈ distinctKeys key l then distinctKeys key l else distinctKeys key l ++ [key a] := by
  simp only [distinctKeys, List.map_append, List.eraseDups_append, List.map_cons, List.map_nil,
    List.mem_eraseDups]
  by_cases h : key a ∈ l.map key
  · rw [if_pos h, List.removeAll, List.filter_cons_of_neg (by simpa using h)]
    simp
  · rw [if_neg h, List.removeAll, List.filter_cons_of_pos (by simpa using h)]
    simp [List.eraseDups_cons]

theorem distinctKeys_nodup (l : List α) : (distinctKeys key l).Nodup := by
  induction l using List.reverseRecOn with
  | nil => simp [distinctKeys]
  | append_singleton l a ih =>
    rw [distinctKeys_concat]
    split_ifs with h
    · exact ih
    · exact List.nodup_append.2 ⟨ih, List.nodup_singleton _, by
        rintro k hk _ hs rfl
        exact h (List.mem_singleton.1 hs ▸ hk)⟩

/-- Grouping is, of each key, the fold of the elements that have it. -/
theorem groupBy_eq (l : List α) : groupBy key init add l =
    (distinctKeys key l).map (fun k ↦ (k, (l.filter (fun a ↦ key a = k)).foldl add init)) := by
  induction l using List.reverseRecOn with
  | nil => simp [groupBy, distinctKeys]
  | append_singleton l a ih =>
    rw [groupBy, List.foldl_append, List.foldl_cons, List.foldl_nil, ← groupBy, ih, upsert,
      distinctKeys_concat]
    have hany : (((distinctKeys key l).map (fun k ↦
        (k, (l.filter (fun a ↦ key a = k)).foldl add init))).any (fun p ↦ p.1 = key a)) = true ↔
        key a ∈ distinctKeys key l := by simp
    by_cases h : key a ∈ distinctKeys key l
    · rw [if_pos (hany.2 h), if_pos h, List.map_map]
      refine List.map_congr_left (fun k _ ↦ ?_)
      by_cases hk : k = key a
      · simp [hk, List.filter_append]
      · simp [hk, List.filter_append, Ne.symm hk]
    · rw [if_neg (fun hn ↦ h (hany.1 hn)), if_neg h, List.map_append]
      congr 1
      · refine List.map_congr_left (fun k hk ↦ ?_)
        have hne : key a ≠ k := by
          rintro rfl
          exact h hk
        simp [List.filter_append, hne]
      · have hnone : l.filter (fun b ↦ key b = key a) = [] := by
          rw [List.filter_eq_nil_iff]
          intro b hb he
          exact h (mem_distinctKeys.2 ⟨b, hb, of_decide_eq_true he⟩)
        simp [List.filter_append, hnone]

theorem find_map_pair {ks : List κ} {f : κ → σ} (k : κ) :
    (ks.map (fun k ↦ (k, f k))).find? (fun p ↦ p.1 = k) = if k ∈ ks then some (k, f k) else none := by
  induction ks with
  | nil => rfl
  | cons j ks ih =>
    rw [List.map_cons, List.find?_cons]
    by_cases hj : j = k
    · subst hj
      simp
    · simp [hj, Ne.symm hj, ih]

/-- `map.get(key) ?? init` of a grouping. -/
theorem groupBy_get (l : List α) (k : κ) :
    (((groupBy key init add l).find? (fun p ↦ p.1 = k)).map (·.2)).getD init =
      (l.filter (fun a ↦ key a = k)).foldl add init := by
  rw [groupBy_eq, find_map_pair]
  split_ifs with hk
  · rfl
  · have hnone : l.filter (fun a ↦ key a = k) = [] := by
      rw [List.filter_eq_nil_iff]
      intro a ha he
      exact hk (mem_distinctKeys.2 ⟨a, ha, of_decide_eq_true he⟩)
    rw [hnone]
    rfl

theorem groupBy_keys (l : List α) :
    (groupBy key init add l).map (·.1) = distinctKeys key l := by
  rw [groupBy_eq, List.map_map]
  exact List.map_id _

theorem distinctKeys_congr {key' : α → κ} (h : ∀ a ∈ l, key a = key' a) :
    distinctKeys key l = distinctKeys key' l := by
  rw [distinctKeys, distinctKeys, List.map_congr_left h]

theorem distinctKeys_perm {m : List α} (h : l.Perm m) :
    (distinctKeys key l).Perm (distinctKeys key m) := by
  rw [List.perm_ext_iff_of_nodup (distinctKeys_nodup l) (distinctKeys_nodup m)]
  intro k
  simp only [mem_distinctKeys, h.mem_iff]

theorem distinctKeys_comp {κ' : Type} [DecidableEq κ'] {f : κ → κ'} (hf : Function.Injective f)
    (l : List α) : distinctKeys (fun a ↦ f (key a)) l = (distinctKeys key l).map f := by
  induction l using List.reverseRecOn with
  | nil => simp [distinctKeys]
  | append_singleton l a ih =>
    have hm := List.mem_map_of_injective (a := key a) (l := distinctKeys key l) hf
    rw [distinctKeys_concat, distinctKeys_concat, ih]
    by_cases h : key a ∈ distinctKeys key l
    · rw [if_pos h, if_pos (hm.2 h)]
    · rw [if_neg h, if_neg (mt hm.1 h), List.map_append, List.map_cons, List.map_nil]

theorem sum_length_cells (l : List α) (P : κ → Prop) [DecidablePred P] :
    (((distinctKeys key l).filter (fun k ↦ P k)).map
      (fun k ↦ (l.filter (fun a ↦ key a = k)).length)).sum =
      (l.filter (fun a ↦ P (key a))).length := by
  have hcount (k : κ) : (l.filter (fun a ↦ key a = k)).length = (l.map key).count k := by
    rw [List.count, List.countP_map, List.countP_eq_length_filter]
    exact congrArg List.length (List.filter_congr fun a _ ↦ by simp [beq_eq_decide])
  have hsum := List.sum_map_count_dedup_filter_eq_countP (fun k ↦ decide (P k)) (l.map key)
  rw [List.countP_map, List.countP_eq_length_filter] at hsum
  simp only [hcount]
  refine Eq.trans (List.Perm.sum_eq (List.Perm.map _ ?_)) hsum
  refine List.Perm.filter _ ?_
  rw [List.perm_ext_iff_of_nodup (distinctKeys_nodup l) (List.nodup_dedup _)]
  intro k
  simp [mem_distinctKeys]

/-- Of what is in one cell at most, the cells' values sum up to the value of that cell. -/
theorem sum_single_cell {l : List α} {P : κ → Prop} [DecidablePred P] {f : List α → ℕ}
    (hf : f [] = 0) (h : ∀ a ∈ l, ∀ b ∈ l, P (key a) → P (key b) → key a = key b) :
    (((distinctKeys key l).filter (fun k ↦ P k)).map
      (fun k ↦ f (l.filter (fun a ↦ key a = k)))).sum = f (l.filter (fun a ↦ P (key a))) := by
  have hmem {k : κ} : k ∈ (distinctKeys key l).filter (fun k ↦ P k) ↔
      ∃ a ∈ l, key a = k ∧ P k := by
    rw [List.mem_filter, mem_distinctKeys, decide_eq_true_eq]
    constructor
    · rintro ⟨⟨a, ha, hk⟩, hp⟩
      exact ⟨a, ha, hk, hp⟩
    · rintro ⟨a, ha, hk, hp⟩
      exact ⟨⟨a, ha, hk⟩, hp⟩
  by_cases hex : ∃ a ∈ l, P (key a)
  · obtain ⟨a, ha, hp⟩ := hex
    have hone : (distinctKeys key l).filter (fun k ↦ P k) = [key a] := by
      refine List.perm_singleton.1 ((List.perm_ext_iff_of_nodup
        ((distinctKeys_nodup l).filter _) (List.nodup_singleton _)).2 (fun k ↦ ?_))
      rw [hmem, List.mem_singleton]
      constructor
      · rintro ⟨b, hb, rfl, hpb⟩
        exact h b hb a ha hpb hp
      · rintro rfl
        exact ⟨a, ha, rfl, hp⟩
    have hfilter : l.filter (fun b ↦ key b = key a) = l.filter (fun b ↦ P (key b)) := by
      refine List.filter_congr (fun b hb ↦ decide_eq_decide.2 ⟨fun he ↦ he ▸ hp, fun hpb ↦ ?_⟩)
      exact h b hb a ha hpb hp
    rw [hone, List.map_cons, List.map_nil, List.sum_singleton, hfilter]
  · have hnil : (distinctKeys key l).filter (fun k ↦ P k) = [] := by
      refine List.eq_nil_iff_forall_not_mem.2 (fun k hk ↦ ?_)
      obtain ⟨a, ha, rfl, hp⟩ := hmem.1 hk
      exact hex ⟨a, ha, hp⟩
    have hfilter : l.filter (fun b ↦ P (key b)) = [] := by
      rw [List.filter_eq_nil_iff]
      exact fun a ha hp ↦ hex ⟨a, ha, of_decide_eq_true hp⟩
    rw [hnil, hfilter, hf, List.map_nil, List.sum_nil]

end Counted.Foundations
