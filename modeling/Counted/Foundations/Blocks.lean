import Mathlib

namespace Counted.Foundations

variable {α : Type}

section Sorted

variable {le : α → α → Bool}

/-- What stands behind an element of a sorted list does not stand before it. -/
theorem filter_split {l₁ l₂ : List α} {a : α} (h₁ : ∀ b ∈ l₁, (!le a b) = true)
    (h₂ : ∀ b ∈ l₂, le a b = true) :
    (l₁ ++ l₂).filter (fun b ↦ !le a b) = l₁ ∧ (l₁ ++ l₂).filter (le a) = l₂ := by
  rw [List.filter_append, List.filter_append, List.filter_eq_self.2 h₁, List.filter_eq_self.2 h₂,
    List.filter_eq_nil_iff.2 (fun b hb ↦ by simp [h₂ b hb]),
    List.filter_eq_nil_iff.2 (fun b hb ↦ by simpa using h₁ b hb)]
  exact ⟨List.append_nil _, List.nil_append _⟩

/-- To sort a part of a list is to sort the list and keep the part. -/
theorem filter_mergeSort (trans : ∀ a b c, le a b = true → le b c = true → le a c = true)
    (total : ∀ a b, (le a b || le b a) = true) (p : α → Bool) (l : List α) :
    (l.mergeSort le).filter p = (l.filter p).mergeSort le := by
  induction l with
  | nil => simp
  | cons a l ih =>
    obtain ⟨k₁, k₂, hk, hl, hk₁⟩ := List.mergeSort_cons trans total a l
    have hk₂ (b : α) (hb : b ∈ k₂) : le a b = true := by
      have hsorted := List.pairwise_mergeSort trans total (a :: l)
      rw [hk] at hsorted
      exact (List.pairwise_cons.1 (List.pairwise_append.1 hsorted).2.1).1 b hb
    rw [hl, List.filter_append] at ih
    rw [hk, List.filter_append, List.filter_cons]
    by_cases hp : p a
    · obtain ⟨m₁, m₂, hm, hf, hm₁⟩ := List.mergeSort_cons trans total a (l.filter p)
      have hm₂ (b : α) (hb : b ∈ m₂) : le a b = true := by
        have hsorted := List.pairwise_mergeSort trans total (a :: l.filter p)
        rw [hm] at hsorted
        exact (List.pairwise_cons.1 (List.pairwise_append.1 hsorted).2.1).1 b hb
      have hsplit := @filter_split _ le (k₁.filter p) (k₂.filter p) a
        (fun b hb ↦ hk₁ b (List.mem_of_mem_filter hb)) (fun b hb ↦ hk₂ b (List.mem_of_mem_filter hb))
      rw [ih, hf, (filter_split hm₁ hm₂).1, (filter_split hm₁ hm₂).2] at hsplit
      rw [if_pos hp, List.filter_cons_of_pos hp, hm, ← hsplit.1, ← hsplit.2]
    · rw [if_neg hp, List.filter_cons_of_neg hp, ih]

end Sorted

/-- A list cut into blocks of one length, of which only the last may be shorter. -/
structure Blocked (n : ℕ) (bs : List (List α)) : Prop where
  short : ∀ b ∈ bs, b.length ≤ n
  full : ∀ b ∈ bs.dropLast, b.length = n
  ne_nil : ∀ b ∈ bs, b ≠ []

namespace Blocked

variable {n : ℕ} {bs cs : List (List α)} {b : List α} {p : α → Bool}

theorem sublist (h : Blocked n bs) (hc : cs.Sublist bs) : Blocked n cs where
  short b hb := h.short b (hc.subset hb)
  full b hb := by
    have hlast : cs.dropLast.Sublist bs.dropLast := by
      have htail := hc.reverse.tail
      rwa [List.tail_reverse, List.tail_reverse, List.reverse_sublist] at htail
    exact h.full b (hlast.subset hb)
  ne_nil b hb := h.ne_nil b (hc.subset hb)

theorem tail (h : Blocked n (b :: bs)) : Blocked n bs := h.sublist (List.sublist_cons_self b bs)

/-- Only the lengths of the blocks matter. -/
theorem congr (h : Blocked n bs) (hc : cs.map List.length = bs.map List.length) : Blocked n cs := by
  have hmem {b : List α} (hb : b ∈ cs) : ∃ c ∈ bs, c.length = b.length := by
    have := List.mem_map_of_mem (f := List.length) hb
    rw [hc] at this
    simpa using this
  refine ⟨fun b hb ↦ ?_, fun b hb ↦ ?_, fun b hb ↦ ?_⟩
  · obtain ⟨c, hcb, hlen⟩ := hmem hb
    exact hlen ▸ h.short c hcb
  · have hlast : cs.dropLast.map List.length = bs.dropLast.map List.length := by
      rw [List.map_dropLast, List.map_dropLast, hc]
    have := List.mem_map_of_mem (f := List.length) hb
    rw [hlast] at this
    obtain ⟨c, hcb, hlen⟩ := List.mem_map.1 this
    exact hlen ▸ h.full c hcb
  · obtain ⟨c, hcb, hlen⟩ := hmem hb
    have := List.length_pos_iff.2 (h.ne_nil c hcb)
    rw [← List.length_pos_iff]
    omega

/-- Where the members of a block are chosen together, the first `n` of those chosen are the first
block chosen. -/
theorem take_filter (h : Blocked n bs)
    (hp : ∀ b ∈ bs, (∀ a ∈ b, p a = true) ∨ ∀ a ∈ b, p a = false) :
    (bs.flatten.filter p).take n = [] ∧ (∀ b ∈ bs, ∀ a ∈ b, p a = false) ∨
      ∃ l b m, bs = l ++ b :: m ∧ (∀ c ∈ l, ∀ a ∈ c, p a = false) ∧ (∀ a ∈ b, p a = true) ∧
        (bs.flatten.filter p).take n = b := by
  induction bs with
  | nil => simp
  | cons b bs ih =>
    rw [List.flatten_cons, List.filter_append]
    rcases hp b List.mem_cons_self with hb | hb
    · refine .inr ⟨[], b, bs, rfl, by simp, hb, ?_⟩
      rw [List.filter_eq_self.2 hb]
      cases bs with
      | nil => simpa using h.short b List.mem_cons_self
      | cons c bs => exact List.take_left' (h.full b (by simp))
    · rw [List.filter_eq_nil_iff.2 (fun a ha ↦ by simp [hb a ha]), List.nil_append]
      rcases ih h.tail (fun c hc ↦ hp c (List.mem_cons_of_mem b hc)) with
        ⟨ht, hn⟩ | ⟨l, c, m, rfl, hl, hc, ht⟩
      · refine .inl ⟨ht, fun c hc ↦ ?_⟩
        rcases List.mem_cons.1 hc with rfl | hc
        · exact hb
        · exact hn c hc
      · refine .inr ⟨b :: l, c, m, rfl, fun d hd ↦ ?_, hc, ht⟩
        rcases List.mem_cons.1 hd with rfl | hd
        · exact hb
        · exact hl d hd

end Blocked

section Around

variable {κ : Type} [BEq κ] [LawfulBEq κ] {key : α → κ} {l b m : List α}

theorem key_notMem (h : ((l ++ (b ++ m)).map key).Nodup) :
    (∀ a ∈ l, key a ∉ b.map key) ∧ ∀ a ∈ m, key a ∉ b.map key := by
  rw [List.map_append, List.map_append, List.nodup_append, List.nodup_append] at h
  obtain ⟨-, ⟨-, -, hbm⟩, hl⟩ := h
  exact ⟨fun a ha hb ↦ hl _ (List.mem_map_of_mem ha) _ (List.mem_append_left _ hb) rfl,
    fun a ha hb ↦ hbm _ hb _ (List.mem_map_of_mem ha) rfl⟩

/-- To drop the members with the keys of a stretch is to drop the stretch. -/
theorem filter_around (h : ((l ++ (b ++ m)).map key).Nodup) :
    (l ++ (b ++ m)).filter (fun a ↦ key a ∉ b.map key) = l ++ m := by
  obtain ⟨hl, hm⟩ := key_notMem h
  rw [List.filter_append, List.filter_append,
    List.filter_eq_self.2 (fun a ha ↦ by simpa using hl a ha),
    List.filter_eq_nil_iff.2 (fun a ha ↦ by simpa using ⟨a, ha, rfl⟩),
    List.filter_eq_self.2 (fun a ha ↦ by simpa using hm a ha), List.nil_append]

theorem map_around (f : α → α) (h : ((l ++ (b ++ m)).map key).Nodup) :
    (l ++ (b ++ m)).map (fun a ↦ if key a ∈ b.map key then f a else a) = l ++ (b.map f ++ m) := by
  obtain ⟨hl, hm⟩ := key_notMem h
  have hkeep {k : List α} (hk : ∀ a ∈ k, key a ∉ b.map key) :
      k.map (fun a ↦ if key a ∈ b.map key then f a else a) = k :=
    (List.map_congr_left (g := id) fun a ha ↦ if_neg (hk a ha)).trans (List.map_id _)
  rw [List.map_append, List.map_append, hkeep hl, hkeep hm]
  congr 2
  exact List.map_congr_left fun a ha ↦ if_pos (List.mem_map_of_mem ha)

end Around

/-- Every list is cut into blocks, which are its stretches from the multiples of the length on. -/
theorem exists_blocked {n : ℕ} (hn : 0 < n) (l : List α) : ∃ bs, Blocked n bs ∧ bs.flatten = l ∧
    (∀ b ∈ bs, ∃ k, b = (l.drop (k * n)).take n) ∧
    ∀ k, (l.drop (k * n)).take n = [] ∨ (l.drop (k * n)).take n ∈ bs := by
  induction h : l.length using Nat.strong_induction_on generalizing l with
  | _ len ih =>
    subst h
    by_cases hl : l = []
    · subst hl
      exact ⟨[], ⟨by simp, by simp, by simp⟩, rfl, by simp, by simp⟩
    · have hpos := List.length_pos_iff.2 hl
      obtain ⟨bs, hbs, hflat, hsome, hall⟩ := ih (l.drop n).length (by simp; omega) (l.drop n) rfl
      refine ⟨l.take n :: bs, ⟨?_, ?_, ?_⟩, ?_, ?_, ?_⟩
      · intro b hb
        rcases List.mem_cons.1 hb with rfl | hb
        · exact List.length_take_le n l
        · exact hbs.short b hb
      · intro b hb
        cases bs with
        | nil => simp at hb
        | cons c bs =>
          rw [List.dropLast_cons_of_ne_nil (List.cons_ne_nil c bs)] at hb
          rcases List.mem_cons.1 hb with rfl | hb
          · have hne : l.drop n ≠ [] := by
              rw [← hflat, List.flatten_cons]
              exact List.append_ne_nil_of_left_ne_nil (hbs.ne_nil c List.mem_cons_self) _
            have := List.length_pos_iff.2 hne
            rw [List.length_drop] at this
            rw [List.length_take]
            omega
          · exact hbs.full b hb
      · intro b hb
        rcases List.mem_cons.1 hb with rfl | hb
        · rw [← List.length_pos_iff, List.length_take]
          omega
        · exact hbs.ne_nil b hb
      · rw [List.flatten_cons, hflat, List.take_append_drop]
      · intro b hb
        rcases List.mem_cons.1 hb with rfl | hb
        · exact ⟨0, by simp⟩
        · obtain ⟨k, rfl⟩ := hsome b hb
          exact ⟨k + 1, by rw [List.drop_drop, Nat.succ_mul, Nat.add_comm]⟩
      · intro k
        cases k with
        | zero => exact .inr (by simp)
        | succ k =>
          have h := hall k
          rw [List.drop_drop, ← Nat.add_comm, ← Nat.succ_mul] at h
          exact h.imp_right (List.mem_cons_of_mem _)

end Counted.Foundations
