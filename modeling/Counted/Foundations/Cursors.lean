import Counted.Foundations.Loops
import Counted.Foundations.Paging

namespace Counted.Foundations

variable {α κ : Type} (key : α → κ) (before : κ → κ → Bool) (cut : κ → κ) (limit : ℕ) (rows : List α)

/-- A page, and a cursor where there are more rows. It holds what `cut` leaves of the last key. -/
def nextPage (cursor : Option κ) : List α × Option κ :=
  let records := pageAfter key before cursor (limit + 1) rows
  let items := records.take limit
  (items, if limit < records.length then items.getLast?.map (fun r ↦ cut (key r)) else none)

/-- Goes on from the cursor as long as there is one, with the rows so far. -/
def follow (s : Option κ × List α) : (Option κ × List α) ⊕ List α :=
  let page := nextPage key before cut limit rows s.1
  match page.2 with
  | some c => .inl (some c, s.2 ++ page.1)
  | none => .inr (s.2 ++ page.1)

/-- The key of the last of the first `k` rows. -/
def lastKey (k : ℕ) : Option κ := (rows.take k).getLast?.map key

/-- Wherever a page ends and rows are left, the cursor holds the whole key. -/
def KeysKept (k : ℕ) : Prop :=
  ∀ m, k + (m + 1) * limit < rows.length →
    (lastKey key rows (k + (m + 1) * limit)).map cut = lastKey key rows (k + (m + 1) * limit)

variable {key before cut limit rows} {s : Option κ × List α} {t : List α} {k : ℕ}

theorem take_add_drop (k limit : ℕ) (rows : List α) :
    rows.take k ++ (rows.drop k).take limit = rows.take (k + limit) := by
  rw [List.take_add]

theorem lastKey_succ (hk : k < rows.length) : lastKey key rows (k + 1) = some (key rows[k]) := by
  rw [lastKey, List.take_succ_eq_append_getElem hk, List.getLast?_concat, Option.map_some]

theorem nextPage_lastKey (ha : ∀ a b, before a b = true → before b a = false)
    (h : Increasing key before rows) (hlimit : 0 < limit) (k : ℕ) :
    nextPage key before cut limit rows (lastKey key rows k) = ((rows.drop k).take limit,
      if k + limit < rows.length then (lastKey key rows (k + limit)).map cut else none) := by
  have hitems : ((rows.drop k).take (limit + 1)).take limit = (rows.drop k).take limit := by
    rw [List.take_take, min_eq_left (Nat.le_succ limit)]
  rw [nextPage, lastKey, pageAfter_eq ha h, hitems, List.length_take, List.length_drop]
  by_cases hmore : k + limit < rows.length
  · have hlast : (rows.take (k + limit)).getLast? = ((rows.drop k).take limit).getLast? := by
      have hne : (rows.drop k).take limit ≠ [] := by
        apply List.ne_nil_of_length_pos
        rw [List.length_take, List.length_drop]
        omega
      rw [← take_add_drop, List.getLast?_append_of_ne_nil _ hne]
    rw [if_pos hmore, if_pos (by omega), lastKey, hlast, Option.map_map]
    rfl
  · rw [if_neg hmore, if_neg (by omega)]

theorem follow_lastKey (ha : ∀ a b, before a b = true → before b a = false)
    (h : Increasing key before rows) (hlimit : 0 < limit) (k : ℕ) :
    follow key before cut limit rows (lastKey key rows k, rows.take k) =
      if k + limit < rows.length then
        .inl ((lastKey key rows (k + limit)).map cut, rows.take (k + limit))
      else .inr rows := by
  rw [follow]
  dsimp only
  rw [nextPage_lastKey ha h hlimit, take_add_drop]
  by_cases hmore : k + limit < rows.length
  · have hne : rows.take (k + limit) ≠ [] := by
      apply List.ne_nil_of_length_pos
      rw [List.length_take]
      omega
    rw [if_pos hmore, if_pos hmore, lastKey, List.getLast?_eq_some_getLast hne]
    rfl
  · rw [if_neg hmore, if_neg hmore, List.take_of_length_le (not_lt.1 hmore)]

theorem follow_all (ha : ∀ a b, before a b = true → before b a = false)
    (h : Increasing key before rows) (hlimit : 0 < limit) (hkept : KeysKept key cut limit rows k) :
    Halts (follow key before cut limit rows) (lastKey key rows k, rows.take k) rows := by
  have hstep := @follow_lastKey _ _ key before cut limit rows ha h hlimit k
  induction hn : rows.length - k using Nat.strongRecOn generalizing k with
  | ind n ih =>
    by_cases hmore : k + limit < rows.length
    · have hnext := hkept 0 (by omega)
      rw [if_pos hmore] at hstep
      rw [zero_add, one_mul] at hnext
      rw [hnext] at hstep
      refine .next hstep (ih (rows.length - (k + limit)) (by omega) (fun m hm ↦ ?_)
        (follow_lastKey ha h hlimit _) rfl)
      have hlater := hkept (m + 1) (by rw [Nat.succ_mul]; omega)
      rwa [Nat.succ_mul (m + 1), show k + ((m + 1) * limit + limit) = k + limit + (m + 1) * limit by
        omega] at hlater
    · rw [if_neg hmore] at hstep
      exact .done hstep

theorem follow_extends (hhalts : Halts (follow key before cut limit rows) s t) :
    s.2 ++ (nextPage key before cut limit rows s.1).1 <+: t := by
  induction hhalts with
  | done hs =>
    rw [follow] at hs
    split at hs
    · cases hs
    · rw [Sum.inr.inj hs]
  | next hs _ ih =>
    rw [follow] at hs
    split at hs
    · rw [← Sum.inl.inj hs] at ih
      exact (List.prefix_append _ _).trans ih
    · cases hs

/-- A cursor below the key of a row that was seen brings a row again. -/
theorem follow_repeats {c : κ} {r : α} (hlimit : 0 < limit) (hr : r ∈ rows.take k)
    (hc : before c (key r) = true)
    (hhalts : Halts (follow key before cut limit rows) (some c, rows.take k) t) : ¬ t.Nodup := by
  have hpast : (rows.take k).filter (fun x ↦ before c (key x)) ≠ [] :=
    List.ne_nil_of_mem (List.mem_filter.2 ⟨hr, hc⟩)
  obtain ⟨a, l, hfilter⟩ := List.exists_cons_of_ne_nil hpast
  have ha : a ∈ rows.take k := (List.mem_filter.1 (hfilter ▸ List.mem_cons_self)).1
  have hrows : rows.filter (fun x ↦ before c (key x)) =
      a :: (l ++ (rows.drop k).filter (fun x ↦ before c (key x))) := by
    conv_lhs => rw [← List.take_append_drop k rows, List.filter_append, hfilter, List.cons_append]
  have hitem : a ∈ (nextPage key before cut limit rows (some c)).1 := by
    obtain ⟨n, rfl⟩ := Nat.exists_eq_add_of_le' hlimit
    rw [nextPage, pageAfter]
    simp only [Option.all_some]
    rw [hrows, List.take_succ_cons, List.take_succ_cons]
    exact List.mem_cons_self
  intro hnodup
  have hseen := hnodup.sublist (follow_extends hhalts).sublist
  exact (List.nodup_append.1 hseen).2.2 a ha a hitem rfl

theorem keysKept_of_nodup (ha : ∀ a b, before a b = true → before b a = false)
    (hcut : ∀ k, cut k = k ∨ before (cut k) k = true) (h : Increasing key before rows)
    (hlimit : 0 < limit)
    (hhalts : Halts (follow key before cut limit rows) (lastKey key rows k, rows.take k) t)
    (ht : t.Nodup) : KeysKept key cut limit rows k := by
  have hstep := @follow_lastKey _ _ key before cut limit rows ha h hlimit k
  induction hn : rows.length - k using Nat.strongRecOn generalizing k with
  | ind n ih =>
    intro m hm
    have hmore : k + limit < rows.length := by
      rw [Nat.succ_mul] at hm
      omega
    rw [if_pos hmore] at hstep
    have hne : rows.take (k + limit) ≠ [] := by
      apply List.ne_nil_of_length_pos
      rw [List.length_take]
      omega
    obtain ⟨r, hr, hlast⟩ : ∃ r ∈ rows.take (k + limit),
        lastKey key rows (k + limit) = some (key r) :=
      ⟨_, List.getLast_mem hne, by rw [lastKey, List.getLast?_eq_some_getLast hne]; rfl⟩
    have hrest : Halts (follow key before cut limit rows)
        ((lastKey key rows (k + limit)).map cut, rows.take (k + limit)) t := by
      cases hhalts with
      | done hs => cases hstep.symm.trans hs
      | next hs hrest => exact Sum.inl.inj (hstep.symm.trans hs) ▸ hrest
    rcases hcut (key r) with hkey | hlt
    · have hwhole : (lastKey key rows (k + limit)).map cut = lastKey key rows (k + limit) := by
        rw [hlast, Option.map_some, hkey]
      rw [hwhole] at hrest
      have hkept := ih (rows.length - (k + limit)) (by omega) hrest
        (follow_lastKey ha h hlimit _) rfl
      cases m with
      | zero => rwa [zero_add, one_mul]
      | succ m =>
        have hsum : k + (m + 1 + 1) * limit = k + limit + (m + 1) * limit := by ring
        rw [hsum] at hm ⊢
        exact hkept m hm
    · rw [hlast] at hrest
      exact absurd ht (follow_repeats hlimit hr hlt hrest)

end Counted.Foundations
