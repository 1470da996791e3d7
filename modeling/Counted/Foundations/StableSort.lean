import Mathlib

namespace Counted.Foundations

variable {α κ : Type} (le : κ → κ → Prop) [DecidableRel le] (key : α → κ)

/-- Sorts by a key, and leaves what has the same key in its order. -/
def sortBy (l : List α) : List α := l.insertionSort (fun a b ↦ le (key a) (key b))

theorem sortBy_perm (l : List α) : (sortBy le key l).Perm l := l.perm_insertionSort _

theorem map_sortBy {β : Type} (key' : β → κ) {f : α → β} (h : ∀ a, key' (f a) = key a)
    (l : List α) :
    (sortBy le key l).map f = sortBy le key' (l.map f) :=
  List.map_insertionSort (fun a b ↦ le (key a) (key b)) (fun a b ↦ le (key' a) (key' b)) f l
    fun a _ b _ ↦ by rw [h, h]

variable {le key} {l m : List α}

theorem filter_tail {a : α} {p : α → Bool} (h : (a :: l).filter p = (a :: m).filter p) :
    l.filter p = m.filter p := by
  by_cases hp : p a
  · rw [List.filter_cons_of_pos hp, List.filter_cons_of_pos hp] at h
    exact (List.cons.inj h).2
  · rwa [List.filter_cons_of_neg hp, List.filter_cons_of_neg hp] at h

variable [Std.Total le] [IsTrans κ le]

variable (le key) in
theorem pairwise_sortBy (l : List α) :
    (sortBy le key l).Pairwise (fun a b ↦ le (key a) (key b)) := by
  have : Std.Total (fun a b ↦ le (key a) (key b)) := ⟨fun a b ↦ Std.Total.total (key a) (key b)⟩
  have : IsTrans α (fun a b ↦ le (key a) (key b)) := ⟨fun a b c ↦ IsTrans.trans (key a) (key b) (key c)⟩
  exact l.pairwise_insertionSort _

variable [DecidableEq κ]

/-- What has the same key stays in its order. -/
theorem filter_sortBy (l : List α) (k : κ) :
    (sortBy le key l).filter (key · = k) = l.filter (key · = k) := by
  have hpair : (l.filter (key · = k)).Pairwise (fun a b ↦ le (key a) (key b)) := by
    refine List.pairwise_of_forall_mem_list fun a ha b hb ↦ ?_
    rw [of_decide_eq_true (List.mem_filter.1 ha).2, of_decide_eq_true (List.mem_filter.1 hb).2]
    exact (Std.Total.total k k).elim id id
  have hsub := List.sublist_insertionSort (r := fun a b ↦ le (key a) (key b)) hpair
    List.filter_sublist
  have hsub' := hsub.filter (key · = k)
  rw [List.filter_filter] at hsub'
  simp only [Bool.and_self] at hsub'
  exact (hsub'.eq_of_length ((sortBy_perm le key l).filter _).length_eq.symm).symm

variable [Std.Antisymm le]

/-- A sorted list is determined by what it holds under each key. -/
theorem eq_of_filter (hl : l.Pairwise (fun a b ↦ le (key a) (key b)))
    (hm : m.Pairwise (fun a b ↦ le (key a) (key b)))
    (h : ∀ k, l.filter (key · = k) = m.filter (key · = k)) : l = m := by
  induction l generalizing m with
  | nil =>
    cases m with
    | nil => rfl
    | cons b m => simpa using h (key b)
  | cons a l ih =>
    cases m with
    | nil => simpa using h (key a)
    | cons b m =>
      have hrefl (k : κ) : le k k := (Std.Total.total k k).elim id id
      have hmem (k : κ) (c : α) (hk : key c = k) : c ∈ a :: l ↔ c ∈ b :: m := by
        have := congrArg (c ∈ ·) (h k)
        simpa [List.mem_filter, hk] using this
      have hba : le (key b) (key a) := by
        rcases List.mem_cons.1 ((hmem (key a) a rfl).1 List.mem_cons_self) with heq | hin
        · exact heq ▸ hrefl _
        · exact (List.pairwise_cons.1 hm).1 a hin
      have hab : le (key a) (key b) := by
        rcases List.mem_cons.1 ((hmem (key b) b rfl).2 List.mem_cons_self) with heq | hin
        · exact heq ▸ hrefl _
        · exact (List.pairwise_cons.1 hl).1 b hin
      have hkey : key b = key a := Std.Antisymm.antisymm _ _ hba hab
      have hhead := h (key a)
      rw [List.filter_cons_of_pos (p := (key · = key a)) (decide_eq_true rfl),
        List.filter_cons_of_pos (p := (key · = key a)) (decide_eq_true hkey)] at hhead
      obtain rfl := (List.cons.inj hhead).1
      rw [ih (List.pairwise_cons.1 hl).2 (List.pairwise_cons.1 hm).2
        fun k ↦ filter_tail (h k)]

/-- Two lists sort to the same list exactly when they list the same under each key. -/
theorem sortBy_eq_iff : sortBy le key l = sortBy le key m ↔
    ∀ k, l.filter (key · = k) = m.filter (key · = k) := by
  constructor
  · intro h k
    have hstable (n : List α) : (sortBy le key n).filter (key · = k) = n.filter (key · = k) :=
      filter_sortBy n k
    rw [← hstable l, h, hstable]
  · intro h
    refine eq_of_filter (pairwise_sortBy le key l) (pairwise_sortBy le key m) fun k ↦ ?_
    rw [filter_sortBy, filter_sortBy, h]

/-- Where no key occurs twice, the order before does not matter. -/
theorem sortBy_eq_of_perm (hl : (l.map key).Nodup) (h : l.Perm m) :
    sortBy le key l = sortBy le key m := by
  refine List.Perm.eq_of_pairwise ?_ (pairwise_sortBy le key l) (pairwise_sortBy le key m)
    (((sortBy_perm le key l).trans h).trans (sortBy_perm le key m).symm)
  intro a b ha hb hab hba
  have ha' := (sortBy_perm le key l).mem_iff.1 ha
  have hb' := h.mem_iff.2 ((sortBy_perm le key m).mem_iff.1 hb)
  exact List.inj_on_of_nodup_map hl ha' hb' (Std.Antisymm.antisymm _ _ hab hba)

/-- Filtered before or after, where no key occurs twice. -/
theorem sortBy_filter (hl : (l.map key).Nodup) (p : α → Bool) :
    sortBy le key (l.filter p) = (sortBy le key l).filter p := by
  refine List.Perm.eq_of_pairwise ?_ (pairwise_sortBy le key _)
    ((pairwise_sortBy le key l).filter p)
    ((sortBy_perm le key _).trans ((sortBy_perm le key l).filter p).symm)
  intro a b ha hb hab hba
  have ha' := List.mem_of_mem_filter ((sortBy_perm le key _).mem_iff.1 ha)
  have hb' := (sortBy_perm le key l).mem_iff.1 (List.mem_of_mem_filter hb)
  exact List.inj_on_of_nodup_map hl ha' hb' (Std.Antisymm.antisymm _ _ hab hba)

end Counted.Foundations
