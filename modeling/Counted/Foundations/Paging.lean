import Mathlib

namespace Counted.Foundations

variable {α κ : Type} (key : α → κ) (before : κ → κ → Bool)

def Increasing (rows : List α) : Prop := rows.Pairwise (fun a b ↦ before (key a) (key b) = true)

/-- The rows past a cursor, the first of them. -/
def pageAfter (cursor : Option κ) (limit : ℕ) (rows : List α) : List α :=
  (rows.filter (fun r ↦ cursor.all (fun c ↦ before c (key r)))).take limit

variable {key before} {rows : List α}

theorem irrefl_of_asymm (ha : ∀ a b, before a b = true → before b a = false) (k : κ) :
    before k k = false := by
  cases hk : before k k with
  | false => rfl
  | true => exact hk.symm.trans (ha _ _ hk)

/-- The page after the last of the first `k` rows starts with the next row. -/
theorem pageAfter_eq (ha : ∀ a b, before a b = true → before b a = false)
    (h : Increasing key before rows) (k limit : ℕ) :
    pageAfter key before ((rows.take k).getLast?.map key) limit rows = (rows.drop k).take limit := by
  have hsplit := List.take_append_drop k rows
  cases hl : (rows.take k).getLast? with
  | none =>
    rw [List.getLast?_eq_none_iff] at hl
    rw [hl, List.nil_append] at hsplit
    rw [pageAfter, hsplit]
    simp
  | some r =>
    obtain ⟨l, hl⟩ := List.getLast?_eq_some_iff.1 hl
    rw [hl] at hsplit
    rw [Increasing, ← hsplit, List.pairwise_append] at h
    have hpast : (l ++ [r]).filter (fun x ↦ before (key r) (key x)) = [] := by
      rw [List.filter_eq_nil_iff]
      intro x hx
      rcases List.mem_append.1 hx with hx | hx
      · have hlr := (List.pairwise_append.1 h.1).2.2 x hx r (List.mem_singleton.2 rfl)
        rw [ha _ _ hlr]
        exact Bool.false_ne_true
      · rw [List.mem_singleton.1 hx, irrefl_of_asymm ha]
        exact Bool.false_ne_true
    have hnext : (rows.drop k).filter (fun x ↦ before (key r) (key x)) = rows.drop k := by
      rw [List.filter_eq_self]
      intro x hx
      exact h.2.2 r (List.mem_append_right _ (List.mem_singleton.2 rfl)) x hx
    have hfilter : rows.filter (fun x ↦ before (key r) (key x)) = rows.drop k := by
      conv_lhs => rw [← hsplit, List.filter_append, hpast, hnext, List.nil_append]
    rw [pageAfter, Option.map_some]
    simp only [Option.all_some]
    rw [hfilter]

theorem Increasing.nodup (ha : ∀ a b, before a b = true → before b a = false)
    (h : Increasing key before rows) : (rows.map key).Nodup := by
  rw [List.nodup_iff_pairwise_ne, List.pairwise_map]
  apply h.imp
  intro a b hab he
  rw [he, irrefl_of_asymm ha] at hab
  cases hab

/-- A row is among the first `n` where fewer than `n` rows precede it. -/
theorem Increasing.mem_take_iff (ha : ∀ a b, before a b = true → before b a = false)
    (h : Increasing key before rows) {r : α} (hr : r ∈ rows) {n : ℕ} :
    r ∈ rows.take n ↔ (rows.filter (fun x ↦ before (key x) (key r))).length < n := by
  obtain ⟨l, m, rfl⟩ := List.append_of_mem hr
  rw [Increasing, List.pairwise_append, List.pairwise_cons] at h
  have hl : l.filter (fun x ↦ before (key x) (key r)) = l := by
    rw [List.filter_eq_self]
    intro x hx
    exact h.2.2 x hx r List.mem_cons_self
  have hm : (r :: m).filter (fun x ↦ before (key x) (key r)) = [] := by
    rw [List.filter_eq_nil_iff]
    intro x hx
    rcases List.mem_cons.1 hx with rfl | hx
    · rw [irrefl_of_asymm ha]
      exact Bool.false_ne_true
    · rw [ha _ _ (h.2.1.1 x hx)]
      exact Bool.false_ne_true
  rw [List.filter_append, hl, hm, List.append_nil]
  constructor
  · intro ht
    by_contra hn
    rw [List.take_append_of_le_length (not_lt.1 hn)] at ht
    have hself := h.2.2 r (List.mem_of_mem_take ht) r List.mem_cons_self
    rw [irrefl_of_asymm ha] at hself
    cases hself
  · intro hn
    obtain ⟨d, rfl⟩ := Nat.exists_eq_add_of_lt hn
    rw [List.take_append, List.take_of_length_le (by omega)]
    apply List.mem_append_right
    rw [show l.length + d + 1 - l.length = d + 1 by omega]
    exact List.mem_cons_self

/-- A row has as many rows before it as its place says. -/
theorem Increasing.length_before (ha : ∀ a b, before a b = true → before b a = false)
    (h : Increasing key before rows) {j : ℕ} (hj : j < rows.length) :
    (rows.filter (fun x ↦ before (key x) (key rows[j]))).length = j := by
  have hmem : rows[j] ∈ rows := List.getElem_mem hj
  have hle := (h.mem_take_iff ha hmem (n := j + 1)).1 (by
    rw [List.take_succ_eq_append_getElem hj]
    exact List.mem_append_right _ (List.mem_singleton.2 rfl))
  have hge : ¬ (rows.filter (fun x ↦ before (key x) (key rows[j]))).length < j := by
    rw [← h.mem_take_iff ha hmem]
    intro htake
    obtain ⟨i, hi, heq⟩ := List.mem_take_iff_getElem.1 htake
    have hnodup : rows.Nodup := (h.nodup ha).of_map
    have hij := (hnodup.getElem_inj_iff).1 heq
    omega
  omega

end Counted.Foundations
