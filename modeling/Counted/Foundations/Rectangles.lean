import Mathlib

namespace Counted.Foundations

/-- A block of cells of a grid, from its top left corner. -/
structure Rectangle where
  x : ℤ
  y : ℤ
  width : ℤ
  height : ℤ

namespace Rectangle

variable {a b c : Rectangle}

def Proper (r : Rectangle) : Prop := 0 < r.width ∧ 0 < r.height

def Covers (r : Rectangle) (u v : ℤ) : Prop :=
  r.x ≤ u ∧ u < r.x + r.width ∧ r.y ≤ v ∧ v < r.y + r.height

def Overlaps (a b : Rectangle) : Prop :=
  a.x < b.x + b.width ∧ b.x < a.x + a.width ∧ a.y < b.y + b.height ∧ b.y < a.y + a.height

/-- From the top, and from the left within a row. -/
def Before (a b : Rectangle) : Prop := a.y < b.y ∨ a.y = b.y ∧ a.x ≤ b.x

instance : DecidableRel Before := fun a b ↦ by
  unfold Before
  infer_instance

instance : DecidableRel Overlaps := fun a b ↦ by
  unfold Overlaps
  infer_instance

theorem Overlaps.symm (h : a.Overlaps b) : b.Overlaps a := ⟨h.2.1, h.1, h.2.2.2, h.2.2.1⟩

/-- To overlap is to share a cell. -/
theorem overlaps_iff (ha : a.Proper) (hb : b.Proper) :
    a.Overlaps b ↔ ∃ u v, a.Covers u v ∧ b.Covers u v := by
  obtain ⟨haw, hah⟩ := ha
  obtain ⟨hbw, hbh⟩ := hb
  constructor
  · rintro ⟨h1, h2, h3, h4⟩
    refine ⟨max a.x b.x, max a.y b.y, ⟨le_max_left _ _, ?_, le_max_left _ _, ?_⟩,
      ⟨le_max_right _ _, ?_, le_max_right _ _, ?_⟩⟩ <;> omega
  · rintro ⟨u, v, ⟨h1, h2, h3, h4⟩, h5, h6, h7, h8⟩
    refine ⟨?_, ?_, ?_, ?_⟩ <;> omega

theorem before_total (a b : Rectangle) : a.Before b ∨ b.Before a := by
  unfold Before
  omega

theorem Before.trans (hab : a.Before b) (hbc : b.Before c) : a.Before c := by
  unfold Before at *
  omega

/-- Only one of two blocks that do not overlap comes before the other. -/
theorem overlaps_of_before (ha : a.Proper) (hb : b.Proper) (hab : a.Before b) (hba : b.Before a) :
    a.Overlaps b := by
  obtain ⟨haw, hah⟩ := ha
  obtain ⟨hbw, hbh⟩ := hb
  unfold Before at *
  refine ⟨?_, ?_, ?_, ?_⟩ <;> omega

/-- The block moved to another corner. -/
def at' (r : Rectangle) (x y : ℤ) : Rectangle := { r with x, y }

/-- A free block slides up until it rests on the top or on a block. -/
theorem exists_rest {blocks : List Rectangle} {x y : ℤ} (hy : 0 ≤ y)
    (hfree : ∀ b ∈ blocks, ¬ (a.at' x y).Overlaps b) :
    ∃ r, 0 ≤ r ∧ r ≤ y ∧ (r = 0 ∨ ∃ b ∈ blocks, r = b.y + b.height) ∧
      ∀ b ∈ blocks, ¬ (a.at' x r).Overlaps b := by
  induction hn : y.toNat generalizing y with
  | zero => exact ⟨y, hy, le_rfl, .inl (by omega), hfree⟩
  | succ n ih =>
    by_cases hup : ∀ b ∈ blocks, ¬ (a.at' x (y - 1)).Overlaps b
    · obtain ⟨r, h0, hr, hrest, hfree'⟩ := ih (by omega) hup (by omega)
      exact ⟨r, h0, by omega, hrest, hfree'⟩
    · simp only [not_forall, not_not] at hup
      obtain ⟨b, hb, hover⟩ := hup
      refine ⟨y, hy, le_rfl, .inr ⟨b, hb, ?_⟩, hfree⟩
      have hne := hfree b hb
      simp only [Overlaps, at'] at hover hne
      omega

section

variable {α : Type} {r : α → Rectangle} {l m : List α}

instance total_on (r : α → Rectangle) : Std.Total (fun a b ↦ (r a).Before (r b)) :=
  ⟨fun a b ↦ before_total (r a) (r b)⟩

instance trans_on (r : α → Rectangle) : IsTrans α (fun a b ↦ (r a).Before (r b)) :=
  ⟨fun _ _ _ ↦ Before.trans⟩

/-- Blocks that do not overlap have one order. -/
theorem sort_eq_of_perm (hp : ∀ a ∈ l, (r a).Proper)
    (hd : l.Pairwise (fun a b ↦ ¬ (r a).Overlaps (r b))) (hm : l.Perm m) :
    l.insertionSort (fun a b ↦ (r a).Before (r b)) =
      m.insertionSort (fun a b ↦ (r a).Before (r b)) := by
  have hl := List.perm_insertionSort (fun a b ↦ (r a).Before (r b)) l
  have hl' := List.perm_insertionSort (fun a b ↦ (r a).Before (r b)) m
  have hsymm : Std.Symm (fun a b ↦ ¬ (r a).Overlaps (r b)) := ⟨fun a b h hba ↦ h hba.symm⟩
  apply List.Perm.eq_of_pairwise ?_ (List.pairwise_insertionSort _ l)
    (List.pairwise_insertionSort _ m) ((hl.trans hm).trans hl'.symm)
  intro a b ha hb hab hba
  have hal := hl.mem_iff.1 ha
  have hbl := hm.mem_iff.2 (hl'.mem_iff.1 hb)
  by_contra hne
  exact hd.forall hal hbl hne (overlaps_of_before (hp a hal) (hp b hbl) hab hba)

end

end Rectangle

end Counted.Foundations
