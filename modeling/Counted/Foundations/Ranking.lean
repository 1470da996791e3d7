import Mathlib

namespace Counted.Foundations

variable {α : Type} (le : α → α → Bool)

/-- The first elements in an order. -/
def top (n : ℕ) (l : List α) : List α := (l.mergeSort le).take n

/-- The elements that stand strictly before another. -/
def ahead (l : List α) (a : α) : List α := l.filter (fun b ↦ !le a b)

/-- Whether the first elements are told apart by the order. -/
def Settled (n : ℕ) (l : List α) : Prop :=
  ∀ a ∈ l, ∀ b ∈ l, le a b = true → le b a = true → a ≠ b → n ≤ (ahead le l a).length

variable {le} {l m : List α} {n : ℕ} {a b : α}

theorem top_congr {le' : α → α → Bool} (h : ∀ a ∈ l, ∀ b ∈ l, le a b = le' a b) :
    top le n l = top le' n l := by
  have hmap := @List.map_mergeSort _ _ le le' id l h
  rw [List.map_id, List.map_id] at hmap
  rw [top, top, hmap]

theorem ahead_perm (h : l.Perm m) : (ahead le l a).Perm (ahead le m a) := h.filter _

theorem settled_congr {le' : α → α → Bool} (h : ∀ a ∈ l, ∀ b ∈ l, le a b = le' a b) :
    Settled le n l ↔ Settled le' n l := by
  refine forall₂_congr (fun a ha ↦ forall₂_congr (fun b hb ↦ ?_))
  have hahead : ahead le l a = ahead le' l a :=
    List.filter_congr (fun c hc ↦ by rw [h a ha c hc])
  rw [h a ha b hb, h b hb a ha, hahead]

section

variable (trans : ∀ a b c, le a b = true → le b c = true → le a c = true)
  (total : ∀ a b, (le a b || le b a) = true)

include total

theorem le_of_not_le (h : le a b = false) : le b a = true := by
  have := total a b
  rwa [h, Bool.false_or] at this

theorem le_self (a : α) : le a a = true := by
  have := total a a
  rwa [Bool.or_self] at this

/-- In a sorted list no more stands before an element than its position. -/
theorem ahead_length_le (hl : l.Pairwise (fun a b ↦ le a b = true)) {i : ℕ} (hi : i < l.length) :
    (ahead le l l[i]).length ≤ i := by
  have hrest : ahead le (l.drop i) l[i] = [] := by
    rw [ahead, List.filter_eq_nil_iff]
    intro b hb
    obtain ⟨j, hj, rfl⟩ := List.mem_drop_iff_getElem.1 hb
    rcases Nat.eq_zero_or_pos j with rfl | hpos
    · simp [le_self total]
    · simp [List.pairwise_iff_getElem.1 hl i (i + j) hi (by omega) (by omega)]
  have hsplit : ahead le l l[i] = ahead le (l.take i) l[i] ++ ahead le (l.drop i) l[i] := by
    rw [ahead, ahead, ahead, ← List.filter_append, List.take_append_drop]
  rw [hsplit, hrest, List.append_nil]
  exact (List.length_filter_le _ _).trans (List.length_take_le _ _)

include trans

theorem le_getElem (hl : l.Pairwise (fun a b ↦ le a b = true))
    (hm : m.Pairwise (fun a b ↦ le a b = true)) (h : l.Perm m) {i : ℕ} (hi : i < l.length)
    (hi' : i < m.length) : le l[i] m[i] = true := by
  by_contra hnot
  have hfew := ahead_length_le total hl hi
  have hmany : i + 1 ≤ (ahead le m l[i]).length := by
    have htake : ahead le (m.take (i + 1)) l[i] = m.take (i + 1) := by
      rw [ahead, List.filter_eq_self]
      intro b hb
      obtain ⟨j, hj, rfl⟩ := List.mem_take_iff_getElem.1 hb
      have hle : le m[j] m[i] = true := by
        rcases Nat.lt_or_ge j i with hlt | hge
        · exact List.pairwise_iff_getElem.1 hm j i _ hi' hlt
        · obtain rfl : j = i := by omega
          exact le_self total _
      rw [Bool.not_eq_true', ← Bool.not_eq_true]
      exact fun hlj ↦ hnot (trans _ _ _ hlj hle)
    have hsub := (List.take_sublist (i + 1) m).filter (fun b ↦ !le l[i] b)
    have hlen := hsub.length_le
    change (ahead le (m.take (i + 1)) l[i]).length ≤ _ at hlen
    rw [htake, List.length_take] at hlen
    exact (show i + 1 ≤ min (i + 1) m.length by omega).trans hlen
  rw [(ahead_perm h).length_eq] at hfew
  omega

/-- Where the order settles the first elements, they do not depend on how the list was given. -/
theorem Settled.top_perm (hs : Settled le n l) (h : l.Perm m) : top le n l = top le n m := by
  have hl := List.pairwise_mergeSort trans total l
  have hm := List.pairwise_mergeSort trans total m
  have hperm : (l.mergeSort le).Perm (m.mergeSort le) :=
    (List.mergeSort_perm l le).trans (h.trans (List.mergeSort_perm m le).symm)
  refine List.ext_getElem ?_ (fun i hi hi' ↦ ?_)
  · rw [top, top, List.length_take, List.length_take, hperm.length_eq]
  · simp only [top, List.getElem_take]
    rw [top, List.length_take, lt_min_iff] at hi hi'
    have hle := le_getElem trans total hl hm hperm hi.2 hi'.2
    have hge := le_getElem trans total hm hl hperm.symm hi'.2 hi.2
    by_contra hne
    have hmany := hs _ ((List.mergeSort_perm l le).mem_iff.1 (List.getElem_mem hi.2)) _
      (h.mem_iff.2 ((List.mergeSort_perm m le).mem_iff.1 (List.getElem_mem hi'.2))) hle hge hne
    have hfew := ahead_length_le total hl hi.2
    rw [(ahead_perm (List.mergeSort_perm l le)).length_eq] at hfew
    omega

/-- The first of a list comes first among those that are tied with it. -/
theorem top_head (h : (ahead le (a :: l) a).length < n) :
    (top le n (a :: l))[(ahead le (a :: l) a).length]? = some a := by
  obtain ⟨before, after, hsort, hrest, hbefore⟩ := List.mergeSort_cons trans total a l
  have hsorted := List.pairwise_mergeSort trans total (a :: l)
  have hlen : (ahead le (a :: l) a).length = before.length := by
    rw [← (ahead_perm (List.mergeSort_perm (a :: l) le)).length_eq, hsort, ahead,
      List.filter_append, List.filter_eq_self.2 hbefore]
    have hafter : (a :: after).filter (fun b ↦ !le a b) = [] := by
      rw [List.filter_eq_nil_iff]
      intro b hb
      rcases List.mem_cons.1 hb with rfl | hin
      · simp [le_self total]
      · rw [hsort] at hsorted
        have htail := (List.pairwise_append.1 hsorted).2.1
        simp [(List.pairwise_cons.1 htail).1 b hin]
    rw [hafter, List.append_nil]
  rw [top, List.getElem?_take, if_pos h, hsort, hlen, List.getElem?_append_right le_rfl,
    Nat.sub_self]
  rfl

/-- Lists that begin with every element and give the same first elements are settled. -/
theorem settled_of_heads (h : ∀ a ∈ l, ∃ m, l.Perm (a :: m) ∧ top le n (a :: m) = top le n l) :
    Settled le n l := by
  intro a ha b hb hab hba hne
  by_contra hlt
  obtain ⟨m, hm, htop⟩ := h a ha
  obtain ⟨m', hm', htop'⟩ := h b hb
  have htie : ahead le l a = ahead le l b := by
    refine List.filter_congr (fun c _ ↦ ?_)
    refine congrArg _ (Bool.eq_iff_iff.2 ⟨trans _ _ _ hba, trans _ _ _ hab⟩)
  have hlen := (@ahead_perm _ le _ _ a hm).length_eq
  have hlen' := (@ahead_perm _ le _ _ b hm').length_eq
  have hfirst := @top_head _ le m n a trans total (by omega)
  have hsecond := @top_head _ le m' n b trans total (by rw [← hlen', ← htie]; omega)
  rw [htop, ← hlen] at hfirst
  rw [htop', ← hlen', ← htie, hfirst] at hsecond
  exact hne (Option.some.inj hsecond)

end

end Counted.Foundations
