import Mathlib

namespace Counted.Foundations

section

/-- Spans laid end to end: each `(offset, length)` starts where the ones before it end. -/
inductive Tiles : List (ℕ × ℕ) → ℕ → Prop
  | nil : Tiles [] 0
  | snoc {l : List (ℕ × ℕ)} {n : ℕ} (k : ℕ) : Tiles l n → Tiles (l ++ [(n, k)]) (n + k)

variable {l : List (ℕ × ℕ)} {n : ℕ}

theorem Tiles.le (h : Tiles l n) : ∀ t ∈ l, t.1 + t.2 ≤ n := by
  induction h with
  | nil => simp
  | snoc k h ih =>
    intro t ht
    rcases List.mem_append.1 ht with ht | ht
    · exact (ih t ht).trans (Nat.le_add_right _ _)
    · rw [List.mem_singleton.1 ht]

/-- No position lies in two of the spans. -/
theorem Tiles.disjoint (h : Tiles l n) : l.Pairwise (fun s t ↦ s.1 + s.2 ≤ t.1) := by
  induction h with
  | nil => exact .nil
  | snoc k h ih =>
    refine List.pairwise_append.2 ⟨ih, List.pairwise_singleton _ _, fun s hs t ht ↦ ?_⟩
    rw [List.mem_singleton.1 ht]
    exact h.le s hs

/-- Every position below the total lies in a span. -/
theorem Tiles.cover (h : Tiles l n) : ∀ i < n, ∃ t ∈ l, t.1 ≤ i ∧ i < t.1 + t.2 := by
  induction h with
  | nil => simp
  | @snoc l n k h ih =>
    intro i hi
    by_cases hn : i < n
    · obtain ⟨t, ht, hi⟩ := ih i hn
      exact ⟨t, List.mem_append_left _ ht, hi⟩
    · exact ⟨(n, k), by simp, by omega, hi⟩

/-- The positions of a span that meet a condition. -/
def spanCount (p : ℕ → Bool) (t : ℕ × ℕ) : ℕ := ((List.range' t.1 t.2).filter p).length

/-- Counting span by span counts every position once. -/
theorem Tiles.sum_spanCount (h : Tiles l n) (p : ℕ → Bool) :
    (l.map (spanCount p)).sum = ((List.range n).filter p).length := by
  induction h with
  | nil => rfl
  | @snoc l n k h ih =>
    rw [List.map_append, List.sum_append, ih, List.range_eq_range', List.range_eq_range',
      ← List.range'_append_1, List.filter_append, List.length_append]
    simp [spanCount]

end

section

/-- From `start` on, up to the next one, the value is `label`. -/
structure Boundary (α : Type) where
  start : ℕ
  label : α
  deriving DecidableEq

variable {α : Type} {d : α} {l m : List (Boundary α)} {b c : Boundary α} {k : ℕ}

/-- The value at `k` of the function that a list of boundaries describes, `d` below them all. -/
def valueAt (d : α) : List (Boundary α) → ℕ → α
  | [], _ => d
  | b :: rest, k => if b.start ≤ k then valueAt b.label rest k else d

def Ascending (l : List (Boundary α)) : Prop := l.Pairwise (·.start < ·.start)

/-- No boundary repeats the value before it. -/
def Irredundant (l : List (Boundary α)) : Prop := l.IsChain (·.label ≠ ·.label)

theorem ascending_concat :
    Ascending (l ++ [b]) ↔ Ascending l ∧ ∀ c ∈ l, c.start < b.start := by
  simp [Ascending, List.pairwise_append]

theorem irredundant_concat :
    Irredundant (l ++ [c] ++ [b]) ↔ Irredundant (l ++ [c]) ∧ c.label ≠ b.label :=
  List.isChain_append.trans (and_congr_right fun _ ↦ by simp)

/-- A boundary above `k` says nothing of `k`. -/
theorem valueAt_concat_of_lt (hb : k < b.start) : valueAt d (l ++ [b]) k = valueAt d l k := by
  induction l generalizing d with
  | nil => simp only [List.nil_append, valueAt, if_neg (not_le.2 hb)]
  | cons c l ih => simp only [List.cons_append, valueAt, ih]

/-- The last boundary decides of everything from it on. -/
theorem valueAt_concat_of_le (hl : ∀ c ∈ l, c.start ≤ k) (hb : b.start ≤ k) :
    valueAt d (l ++ [b]) k = b.label := by
  induction l generalizing d with
  | nil => simp only [List.nil_append, valueAt, if_pos hb]
  | cons c l ih =>
    have hc : c.start ≤ k := hl c (List.mem_cons_self ..)
    simp only [List.cons_append, valueAt, if_pos hc]
    exact ih fun c' hc' ↦ hl c' (List.mem_cons_of_mem _ hc')

/-- The value at `k` is the label of the one boundary at or below `k` that has none such after
it. -/
theorem valueAt_of_split (hl : ∀ c ∈ l, c.start ≤ k) (hb : b.start ≤ k)
    (hm : ∀ c ∈ m, k < c.start) : valueAt d (l ++ b :: m) k = b.label := by
  induction m using List.reverseRecOn with
  | nil => exact valueAt_concat_of_le hl hb
  | append_singleton m c ih =>
    have hc : k < c.start := hm c (by simp)
    rw [← List.cons_append, ← List.append_assoc, valueAt_concat_of_lt hc]
    exact ih fun c' hc' ↦ hm c' (List.mem_append_left _ hc')

theorem valueAt_getElem {i : ℕ} (hi : i < l.length)
    (hle : ∀ j (hj : j < l.length), j ≤ i → l[j].start ≤ k)
    (hlt : ∀ j (hj : j < l.length), i < j → k < l[j].start) : valueAt d l k = l[i].label := by
  have hsplit : l = l.take i ++ l[i] :: l.drop (i + 1) := by
    rw [← List.drop_eq_getElem_cons hi, List.take_append_drop]
  conv_lhs => rw [hsplit]
  apply valueAt_of_split
  · intro c hc
    obtain ⟨j, hj, rfl⟩ := List.mem_iff_getElem.1 hc
    rw [List.length_take] at hj
    rw [List.getElem_take]
    exact hle j (by omega) (by omega)
  · exact hle i hi le_rfl
  · intro c hc
    obtain ⟨j, hj, rfl⟩ := List.mem_iff_getElem.1 hc
    rw [List.length_drop] at hj
    rw [List.getElem_drop]
    exact hlt (i + 1 + j) (by omega) (by omega)

/-- A boundary that repeats the value before it can go. -/
theorem valueAt_concat_repeats (h : Ascending (l ++ [c])) (hcb : c.start ≤ b.start)
    (hl : c.label = b.label) : valueAt d (l ++ [c] ++ [b]) k = valueAt d (l ++ [c]) k := by
  rcases lt_or_ge k b.start with hk | hk
  · exact valueAt_concat_of_lt hk
  · have hbelow : ∀ a ∈ l ++ [c], a.start ≤ k := by
      intro a ha
      rcases List.mem_append.1 ha with ha | ha
      · exact ((ascending_concat.1 h).2 a ha).le.trans (hcb.trans hk)
      · rw [List.mem_singleton.1 ha]
        exact hcb.trans hk
    rw [valueAt_concat_of_le hbelow hk, ← hl]
    exact (valueAt_concat_of_le (fun a ha ↦ hbelow a (List.mem_append_left _ ha))
      (hcb.trans hk)).symm

end

section

/-- A grid on the line: strictly increasing edges, and of every point the cell it is in. -/
structure Grid where
  edge : ℤ → ℤ
  index : ℤ → ℤ
  edge_index_le : ∀ t, edge (index t) ≤ t
  lt_edge_succ : ∀ t, t < edge (index t + 1)
  strictMono : StrictMono edge

namespace Grid

variable (g : Grid) {i j t u : ℤ}

def floor (t : ℤ) : ℤ := g.edge (g.index t)

theorem edge_le_iff : g.edge i ≤ t ↔ i ≤ g.index t := by
  constructor
  · intro h
    have := g.strictMono.lt_iff_lt.1 (h.trans_lt (g.lt_edge_succ t))
    omega
  · intro h
    exact (g.strictMono.le_iff_le.2 h).trans (g.edge_index_le t)

theorem lt_edge_iff : t < g.edge i ↔ g.index t < i := by
  rw [← not_le, ← not_le, edge_le_iff]

theorem index_eq_iff : g.index t = i ↔ g.edge i ≤ t ∧ t < g.edge (i + 1) := by
  rw [edge_le_iff, lt_edge_iff]
  omega

@[simp] theorem index_edge (i : ℤ) : g.index (g.edge i) = i := by
  rw [index_eq_iff]
  exact ⟨le_rfl, g.strictMono (by omega)⟩

@[simp] theorem index_floor (t : ℤ) : g.index (g.floor t) = g.index t := g.index_edge _

@[simp] theorem floor_edge (i : ℤ) : g.floor (g.edge i) = g.edge i := by
  rw [floor, index_edge]

theorem floor_le (t : ℤ) : g.floor t ≤ t := g.edge_index_le t

theorem index_mono (h : t ≤ u) : g.index t ≤ g.index u :=
  g.edge_le_iff.1 ((g.floor_le t).trans h)

theorem floor_eq_edge_iff : g.floor t = g.edge i ↔ g.index t = i := g.strictMono.injective.eq_iff

/-- Cells of one length from an origin on. -/
def uniform (stride : ℤ) (h : 0 < stride) (origin : ℤ) : Grid where
  edge i := origin + stride * i
  index t := (t - origin) / stride
  edge_index_le t := by
    have := Int.mul_ediv_self_le (x := t - origin) h.ne'
    omega
  lt_edge_succ t := by
    have := Int.lt_mul_ediv_self_add (x := t - origin) h
    rw [mul_add]
    omega
  strictMono i j hij := by
    have := mul_lt_mul_of_pos_left hij h
    exact Int.add_lt_add_left this origin

/-- The edges from the cell of one point up to another point. -/
def starts (lo hi : ℤ) : List ℤ :=
  (List.range (g.index (hi - 1) + 1 - g.index lo).toNat).map
    (fun k : ℕ ↦ g.edge (g.index lo + k))

theorem starts_length (lo hi : ℤ) :
    (g.starts lo hi).length = (g.index (hi - 1) + 1 - g.index lo).toNat := by
  simp [starts]

theorem starts_pairwise (lo hi : ℤ) : (g.starts lo hi).Pairwise (· < ·) := by
  refine List.Pairwise.map _ (fun a b h ↦ g.strictMono ?_) List.pairwise_lt_range
  omega

theorem mem_starts {lo hi s : ℤ} :
    s ∈ g.starts lo hi ↔ ∃ i, g.edge i = s ∧ g.index lo ≤ i ∧ g.edge i < hi := by
  have hhi (i : ℤ) : g.edge i < hi ↔ i ≤ g.index (hi - 1) := by
    rw [← edge_le_iff]
    omega
  simp only [starts, List.mem_map, List.mem_range, hhi]
  constructor
  · rintro ⟨k, hk, rfl⟩
    exact ⟨_, rfl, by omega, by omega⟩
  · rintro ⟨i, rfl, hi, hi'⟩
    exact ⟨(i - g.index lo).toNat, by omega, by congr 1; omega⟩

end Grid

end

end Counted.Foundations
