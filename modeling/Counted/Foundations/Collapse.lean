import Mathlib

namespace Counted.Foundations

/-- The entries of a list that repeat no earlier one, and how many were dropped. -/
structure Deduplicated (α : Type) where
  unique : List α
  duplicates : ℕ

variable {α κ : Type} [DecidableEq κ] (f : α → Option κ)

/-- Keeps the first entry of every key that has not been seen. An entry without a key repeats
nothing. -/
def collapse (seen : List κ) : List α → Deduplicated α
  | [] => ⟨[], 0⟩
  | a :: l =>
    match f a with
    | none =>
      let r := collapse seen l
      ⟨a :: r.unique, r.duplicates⟩
    | some k =>
      if k ∈ seen then
        let r := collapse seen l
        ⟨r.unique, r.duplicates + 1⟩
      else
        let r := collapse (k :: seen) l
        ⟨a :: r.unique, r.duplicates⟩

variable {f} {seen : List κ} {a : α} {k : κ} {l : List α}

section

attribute [local simp] collapse

theorem collapse_none (h : f a = none) : collapse f seen (a :: l) =
    ⟨a :: (collapse f seen l).unique, (collapse f seen l).duplicates⟩ := by
  simp only [collapse, h]

theorem collapse_seen (h : f a = some k) (hk : k ∈ seen) : collapse f seen (a :: l) =
    ⟨(collapse f seen l).unique, (collapse f seen l).duplicates + 1⟩ := by
  simp only [collapse, h, hk, if_true]

theorem collapse_fresh (h : f a = some k) (hk : k ∉ seen) : collapse f seen (a :: l) =
    ⟨a :: (collapse f (k :: seen) l).unique, (collapse f (k :: seen) l).duplicates⟩ := by
  simp only [collapse, h, hk, if_false]

end

/-- The three ways an entry is met, as an induction principle. -/
theorem collapse_induction {P : List κ → List α → Prop} (nil : ∀ seen, P seen [])
    (keyless : ∀ seen a l, f a = none → P seen l → P seen (a :: l))
    (seen : ∀ seen a l k, f a = some k → k ∈ seen → P seen l → P seen (a :: l))
    (fresh : ∀ seen a l k, f a = some k → k ∉ seen → P (k :: seen) l → P seen (a :: l))
    (s : List κ) (l : List α) : P s l := by
  induction l generalizing s with
  | nil => exact nil s
  | cons a l ih =>
    cases h : f a with
    | none => exact keyless s a l h (ih s)
    | some k =>
      by_cases hk : k ∈ s
      · exact seen s a l k h hk (ih s)
      · exact fresh s a l k h hk (ih (k :: s))

theorem collapse_length (seen : List κ) (l : List α) :
    (collapse f seen l).unique.length + (collapse f seen l).duplicates = l.length := by
  induction seen, l using collapse_induction (f := f) with
  | nil seen => rfl
  | keyless seen a l h ih => rw [collapse_none h]; simp only [List.length_cons]; omega
  | seen seen a l k h hk ih => rw [collapse_seen h hk]; simp only [List.length_cons]; omega
  | fresh seen a l k h hk ih => rw [collapse_fresh h hk]; simp only [List.length_cons]; omega

theorem collapse_sublist (seen : List κ) (l : List α) :
    (collapse f seen l).unique.Sublist l := by
  induction seen, l using collapse_induction (f := f) with
  | nil seen => exact .slnil
  | keyless seen a l h ih => rw [collapse_none h]; exact ih.cons_cons a
  | seen seen a l k h hk ih => rw [collapse_seen h hk]; exact ih.cons a
  | fresh seen a l k h hk ih => rw [collapse_fresh h hk]; exact ih.cons_cons a

/-- What is kept carries no key twice and none that had been seen. -/
theorem collapse_keys (seen : List κ) (l : List α) :
    ((collapse f seen l).unique.filterMap f).Nodup ∧
      ∀ k ∈ (collapse f seen l).unique.filterMap f, k ∉ seen := by
  induction seen, l using collapse_induction (f := f) with
  | nil seen => simp [collapse]
  | keyless seen a l h ih => rwa [collapse_none h, List.filterMap_cons_none h]
  | seen seen a l k h hk ih => rwa [collapse_seen h hk]
  | fresh seen a l k h hk ih =>
    rw [collapse_fresh h hk, List.filterMap_cons_some h]
    refine ⟨List.nodup_cons.2 ⟨fun hm ↦ ih.2 k hm List.mem_cons_self, ih.1⟩, fun j hj ↦ ?_⟩
    rcases List.mem_cons.1 hj with rfl | hj
    · exact hk
    · exact fun hs ↦ ih.2 j hj (List.mem_cons_of_mem k hs)

/-- What is dropped repeats a seen key or the key of something kept. -/
theorem collapse_covers (seen : List κ) (l : List α) :
    ∀ a ∈ l, a ∈ (collapse f seen l).unique ∨
      ∃ k, f a = some k ∧ (k ∈ seen ∨ k ∈ (collapse f seen l).unique.filterMap f) := by
  induction seen, l using collapse_induction (f := f) with
  | nil seen => simp
  | keyless seen b l h ih =>
    intro a ha
    rw [collapse_none h, List.filterMap_cons_none h]
    rcases List.mem_cons.1 ha with rfl | ha
    · exact .inl List.mem_cons_self
    · exact (ih a ha).imp_left (List.mem_cons_of_mem b)
  | seen seen b l k h hk ih =>
    intro a ha
    rw [collapse_seen h hk]
    rcases List.mem_cons.1 ha with rfl | ha
    · exact .inr ⟨k, h, .inl hk⟩
    · exact ih a ha
  | fresh seen b l k h hk ih =>
    intro a ha
    rw [collapse_fresh h hk, List.filterMap_cons_some h]
    rcases List.mem_cons.1 ha with rfl | ha
    · exact .inl List.mem_cons_self
    · refine (ih a ha).imp (List.mem_cons_of_mem b) (fun ⟨j, hj, hs⟩ ↦ ⟨j, hj, ?_⟩)
      simp only [List.mem_cons] at hs ⊢
      tauto

theorem collapse_congr {s t : List κ} (h : ∀ k, k ∈ s ↔ k ∈ t) :
    collapse f s l = collapse f t l := by
  induction l generalizing s t with
  | nil => rfl
  | cons a l ih =>
    cases ha : f a with
    | none => rw [collapse_none ha, collapse_none ha, ih h]
    | some k =>
      by_cases hk : k ∈ s
      · rw [collapse_seen ha hk, collapse_seen ha ((h k).1 hk), ih h]
      · rw [collapse_fresh ha hk, collapse_fresh ha (fun hs ↦ hk ((h k).2 hs)),
          ih (t := k :: t) (fun j ↦ by simp [h j])]

/-- Collapsing in two goes, the second knowing the keys of the first, is collapsing at once. -/
theorem collapse_append (seen : List κ) (l m : List α) :
    (collapse f seen (l ++ m)).unique = (collapse f seen l).unique ++
      (collapse f (seen ++ (collapse f seen l).unique.filterMap f) m).unique := by
  induction seen, l using collapse_induction (f := f) with
  | nil seen => simp [collapse]
  | keyless seen a l h ih =>
    rw [List.cons_append, collapse_none h, collapse_none h, ih, List.filterMap_cons_none h,
      List.cons_append]
  | seen seen a l k h hk ih =>
    rw [List.cons_append, collapse_seen h hk, collapse_seen h hk, ih]
  | fresh seen a l k h hk ih =>
    have hs : ∀ j, j ∈ k :: seen ++ (collapse f (k :: seen) l).unique.filterMap f ↔
        j ∈ seen ++ k :: (collapse f (k :: seen) l).unique.filterMap f := by
      intro j
      simp only [List.mem_append, List.mem_cons]
      tauto
    rw [List.cons_append, collapse_fresh h hk, collapse_fresh h hk, ih, collapse_congr hs,
      List.filterMap_cons_some h, List.cons_append]

/-- Nothing is kept of what has all been seen. -/
theorem collapse_all_seen (h : ∀ a ∈ l, ∃ k ∈ seen, f a = some k) :
    (collapse f seen l).unique = [] := by
  induction l with
  | nil => rfl
  | cons a l ih =>
    obtain ⟨k, hk, ha⟩ := h a List.mem_cons_self
    rw [collapse_seen ha hk]
    exact ih (fun b hb ↦ h b (List.mem_cons_of_mem a hb))

/-- Entries without a key are all kept. -/
theorem collapse_keyless (seen : List κ) (l : List α) :
    (collapse f seen l).unique.filter (fun a ↦ (f a).isNone) = l.filter (fun a ↦ (f a).isNone) := by
  induction seen, l using collapse_induction (f := f) with
  | nil seen => rfl
  | keyless seen a l h ih => simp [collapse_none h, h, ih]
  | seen seen a l k h hk ih => simp [collapse_seen h hk, h, ih]
  | fresh seen a l k h hk ih => simp [collapse_fresh h hk, h, ih]

/-- What is kept, by position: the entries without a key and the first of each new key. -/
theorem mem_collapse_zipIdx {n m : ℕ} {b : α} (seen : List κ) (l : List α) :
    (b, n + m) ∈ (collapse (fun p : α × ℕ ↦ f p.1) seen (l.zipIdx n)).unique ↔
      l[m]? = some b ∧ (f b = none ∨ ∃ k, f b = some k ∧ k ∉ seen ∧
        ∀ j < m, ∀ c, l[j]? = some c → f c ≠ some k) := by
  induction l generalizing seen n m with
  | nil => simp [collapse]
  | cons a l ih =>
    have hlow (s : List κ) : (b, n) ∉
        (collapse (fun p : α × ℕ ↦ f p.1) s (l.zipIdx (n + 1))).unique := fun hm ↦ by
      have := (List.mem_zipIdx ((collapse_sublist _ _).subset hm)).1
      omega
    have hidx (m : ℕ) : n + (m + 1) = n + 1 + m := by omega
    have hne (m : ℕ) : n + 1 + m ≠ n := by omega
    rw [List.zipIdx_cons]
    cases h : f a with
    | none =>
      rw [collapse_none (f := fun p : α × ℕ ↦ f p.1) (a := (a, n)) h]
      cases m with
      | zero =>
        simp only [add_zero, List.mem_cons, Prod.mk.injEq, hlow, and_true, or_false,
          List.getElem?_cons_zero, Option.some_inj]
        constructor
        · rintro rfl
          exact ⟨rfl, .inl h⟩
        · exact fun hb ↦ hb.1.symm
      | succ m =>
        rw [hidx m]
        simp only [List.mem_cons, Prod.mk.injEq, hne, and_false, false_or, ih,
          List.getElem?_cons_succ, Nat.forall_lt_succ_left, List.getElem?_cons_zero,
          Option.some_inj, forall_eq', h, reduceCtorEq, not_false_eq_true, true_and, ne_eq]
    | some k =>
      by_cases hk : k ∈ seen
      · rw [collapse_seen (f := fun p : α × ℕ ↦ f p.1) (a := (a, n)) h hk]
        cases m with
        | zero =>
          simp only [add_zero, hlow, List.getElem?_cons_zero, Option.some_inj, false_iff]
          rintro ⟨rfl, hn | ⟨j, hj, hjs, -⟩⟩
          · rw [h] at hn
            cases hn
          · rw [h] at hj
            exact hjs (Option.some.inj hj ▸ hk)
        | succ m =>
          rw [hidx m]
          simp only [ih, List.getElem?_cons_succ, Nat.forall_lt_succ_left,
            List.getElem?_cons_zero, Option.some_inj, forall_eq', h, ne_eq]
          refine and_congr_right fun _ ↦ or_congr_right (exists_congr fun j ↦ ?_)
          refine and_congr_right fun _ ↦ and_congr_right fun hj ↦ ?_
          simp [ne_of_mem_of_not_mem hk hj]
      · rw [collapse_fresh (f := fun p : α × ℕ ↦ f p.1) (a := (a, n)) h hk]
        cases m with
        | zero =>
          simp only [add_zero, List.mem_cons, Prod.mk.injEq, hlow, and_true, or_false,
            List.getElem?_cons_zero, Option.some_inj]
          constructor
          · rintro rfl
            exact ⟨rfl, .inr ⟨k, h, hk, by simp⟩⟩
          · exact fun hb ↦ hb.1.symm
        | succ m =>
          rw [hidx m]
          simp only [List.mem_cons, Prod.mk.injEq, hne, and_false, false_or, ih,
            List.getElem?_cons_succ, Nat.forall_lt_succ_left, List.getElem?_cons_zero,
            Option.some_inj, forall_eq', h, ne_eq, not_or]
          refine and_congr_right fun _ ↦ or_congr_right (exists_congr fun j ↦ ?_)
          rw [@eq_comm _ k j]
          tauto

theorem collapse_zipIdx_map (seen : List κ) (l : List α) (n : ℕ) :
    (collapse (fun p : α × ℕ ↦ f p.1) seen (l.zipIdx n)).unique.map (·.1) =
      (collapse f seen l).unique := by
  induction seen, l using collapse_induction (f := f) generalizing n with
  | nil seen => rfl
  | keyless seen a l h ih =>
    rw [List.zipIdx_cons, collapse_none h,
      collapse_none (f := fun p : α × ℕ ↦ f p.1) (a := (a, n)) h, List.map_cons, ih]
  | seen seen a l k h hk ih =>
    rw [List.zipIdx_cons, collapse_seen h hk,
      collapse_seen (f := fun p : α × ℕ ↦ f p.1) (a := (a, n)) h hk, ih]
  | fresh seen a l k h hk ih =>
    rw [List.zipIdx_cons, collapse_fresh h hk,
      collapse_fresh (f := fun p : α × ℕ ↦ f p.1) (a := (a, n)) h hk, List.map_cons, ih]

/-- The positions that are kept are listed in order. -/
theorem collapse_zipIdx_increasing (seen : List κ) (l : List α) (n : ℕ) :
    ((collapse (fun p : α × ℕ ↦ f p.1) seen (l.zipIdx n)).unique.map (·.2)).Pairwise (· < ·) := by
  have hs := (collapse_sublist (f := fun p : α × ℕ ↦ f p.1) seen (l.zipIdx n)).map (·.2)
  rw [List.zipIdx_map_snd] at hs
  exact List.Pairwise.sublist hs List.pairwise_lt_range'

theorem collapse_map {β : Type} (g : β → α) (seen : List κ) (l : List β) :
    collapse f seen (l.map g) = ⟨(collapse (fun b ↦ f (g b)) seen l).unique.map g,
      (collapse (fun b ↦ f (g b)) seen l).duplicates⟩ := by
  induction seen, l using collapse_induction (f := fun b ↦ f (g b)) with
  | nil seen => rfl
  | keyless seen b l h ih =>
    rw [List.map_cons, collapse_none h, collapse_none (f := fun b ↦ f (g b)) h, ih, List.map_cons]
  | seen seen b l k h hk ih =>
    rw [List.map_cons, collapse_seen h hk, collapse_seen (f := fun b ↦ f (g b)) h hk, ih]
  | fresh seen b l k h hk ih =>
    rw [List.map_cons, collapse_fresh h hk, collapse_fresh (f := fun b ↦ f (g b)) h hk, ih,
      List.map_cons]

/-- Of entries in order, what is kept are those without a key and the first of each new key. -/
theorem collapse_eq_filter {rank : α → ℕ} (seen : List κ) {l : List α}
    (hl : (l.map rank).Pairwise (· < ·)) : (collapse f seen l).unique =
      l.filter (fun a ↦ f a = none ∨
        f a ∉ seen.map some ∧ ∀ b ∈ l, rank b < rank a → f b ≠ f a) := by
  have hlater {a : α} {l : List α} (h : ((a :: l).map rank).Pairwise (· < ·)) (seen : List κ) :
      l.filter (fun x ↦ f x = none ∨
        f x ∉ seen.map some ∧ ∀ b ∈ a :: l, rank b < rank x → f b ≠ f x) =
      l.filter (fun x ↦ f x = none ∨
        (f x ∉ seen.map some ∧ f a ≠ f x) ∧ ∀ b ∈ l, rank b < rank x → f b ≠ f x) := by
    rw [List.map_cons, List.pairwise_cons] at h
    refine List.filter_congr (fun x hx ↦ decide_eq_decide.2 ?_)
    have hax := h.1 _ (List.mem_map_of_mem hx)
    rw [List.forall_mem_cons]
    tauto
  have hfirst {a : α} {l : List α} (h : ((a :: l).map rank).Pairwise (· < ·)) :
      ∀ b ∈ a :: l, ¬ rank b < rank a := by
    rw [List.map_cons, List.pairwise_cons] at h
    intro b hb
    rcases List.mem_cons.1 hb with rfl | hb
    · exact lt_irrefl _
    · exact (h.1 _ (List.mem_map_of_mem hb)).not_gt
  induction seen, l using collapse_induction (f := f) with
  | nil seen => rfl
  | keyless seen a l h ih =>
    rw [collapse_none h, ih hl.of_cons, List.filter_cons_of_pos (by simp [h]), hlater hl]
    refine congrArg _ (List.filter_congr (fun x _ ↦ decide_eq_decide.2 ?_))
    rw [h, ne_comm]
    tauto
  | seen seen a l k h hk ih =>
    rw [collapse_seen h hk, ih hl.of_cons, List.filter_cons_of_neg, hlater hl]
    · refine List.filter_congr (fun x _ ↦ decide_eq_decide.2 ?_)
      have hx : f x ∉ seen.map some → f a ≠ f x := by
        intro hn he
        exact hn (he ▸ h ▸ List.mem_map_of_mem hk)
      tauto
    · simp [h, hk]
  | fresh seen a l k h hk ih =>
    rw [collapse_fresh h hk, ih hl.of_cons, List.filter_cons_of_pos, hlater hl]
    · refine congrArg _ (List.filter_congr (fun x _ ↦ decide_eq_decide.2 ?_))
      rw [List.map_cons, List.mem_cons, h, not_or, @ne_comm _ (some k) (f x)]
      tauto
    · refine decide_eq_true (.inr ⟨by simp [h, hk], fun b hb hr ↦ absurd hr (hfirst hl b hb)⟩)

theorem countP_le_one_of_nodup (h : (l.filterMap f).Nodup) (k : κ) :
    l.countP (fun a ↦ f a = some k) ≤ 1 := by
  have hc := List.nodup_iff_count_le_one.1 h k
  rw [List.count_filterMap] at hc
  exact (List.countP_mono_left fun a _ ha ↦ by simpa using ha).trans hc

/-- Of a list in which no key repeats, no more entries have one of some keys than there are keys. -/
theorem countP_le_length_of_nodup (h : (l.filterMap f).Nodup) (ks : List κ) :
    l.countP (fun a ↦ ∃ k ∈ ks, f a = some k) ≤ ks.length := by
  have hmap : (l.filter (fun a ↦ ∃ k ∈ ks, f a = some k)).length =
      ((l.filter (fun a ↦ ∃ k ∈ ks, f a = some k)).filterMap f).length := by
    rw [List.length_filterMap_eq_countP, eq_comm, List.countP_eq_length]
    intro a ha
    obtain ⟨k, -, hk⟩ := of_decide_eq_true (List.mem_filter.1 ha).2
    rw [hk, Option.isSome_some]
  rw [List.countP_eq_length_filter, hmap]
  apply List.Subperm.length_le
  apply List.Nodup.subperm
  · exact h.sublist ((List.filter_sublist).filterMap f)
  · intro k hk
    obtain ⟨a, ha, hak⟩ := List.mem_filterMap.1 hk
    obtain ⟨k', hk', hak'⟩ := of_decide_eq_true (List.mem_filter.1 ha).2
    exact Option.some.inj (hak.symm.trans hak') ▸ hk'

end Counted.Foundations
