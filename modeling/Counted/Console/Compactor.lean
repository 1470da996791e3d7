import Counted.Console.InsightLayout
import Counted.Foundations.Decoding

namespace Counted.Console

open Foundations Dashboarding

/-! How react-grid-layout compacts a layout whose cards do not overlap. -/

/-- The row a card climbs to from row `n`, past the cards that have their place. -/
def climb (fixed : Layout) (a : LayoutItem) : ℕ → ℕ
  | 0 => 0
  | n + 1 => if fixed.any (collides { a with y := n }) then n + 1 else climb fixed a n

/-- The cards from the top, each against those that have their place. -/
def compactFrom (fixed : Layout) : Layout → Layout
  | [] => []
  | a :: rest =>
    if a.static = some true then a :: compactFrom fixed rest
    else
      let raised := { a with y := (climb fixed a a.y.toNat : ℤ) }
      raised :: compactFrom (fixed ++ [raised]) rest

def compactVertically (layout : Layout) (_ : ℤ) : Layout :=
  let compacted := compactFrom (layout.filter (·.static = some true)) (layoutOrder layout)
  layout.map (fun a ↦ (compacted.find? (·.i = a.i)).getD a)

variable {fixed rest layout : Layout} {a b : LayoutItem}

theorem climb_le (fixed : Layout) (a : LayoutItem) (n : ℕ) : climb fixed a n ≤ n := by
  induction n with
  | zero => exact le_rfl
  | succ n ih =>
    rw [climb]
    split_ifs
    · exact le_rfl
    · omega

theorem climb_free {n : ℕ} (h : ∀ f ∈ fixed,
    ¬ ({ a with y := (n : ℤ) } : LayoutItem).rectangle.Overlaps f.rectangle) :
    ∀ f ∈ fixed,
      ¬ ({ a with y := (climb fixed a n : ℤ) } : LayoutItem).rectangle.Overlaps f.rectangle := by
  induction n with
  | zero => exact h
  | succ n ih =>
    rw [climb]
    split_ifs with hany
    · exact h
    · refine ih fun f hf ho ↦ hany (List.any_eq_true.2 ⟨f, hf, decide_eq_true ho⟩)

/-- A card that shares no column with those that have their place climbs to the top. -/
theorem climb_top {n : ℕ} (h : ∀ f ∈ fixed, f.x + f.w ≤ a.x ∨ a.x + a.w ≤ f.x) :
    climb fixed a n = 0 := by
  induction n with
  | zero => rfl
  | succ n ih =>
    rw [climb, if_neg, ih]
    simp only [List.any_eq_true, collides, decide_eq_true_eq, not_exists, not_and]
    intro f hf ho
    have hf := h f hf
    simp only [Rectangle.Overlaps, LayoutItem.rectangle] at ho
    omega

theorem compactFrom_top (ha : a ∈ rest) (hst : ∀ b ∈ rest, b.static ≠ some true)
    (hfixed : ∀ f ∈ fixed, f.x + f.w ≤ a.x ∨ a.x + a.w ≤ f.x)
    (hrest : ∀ b ∈ rest, b = a ∨ b.x + b.w ≤ a.x ∨ a.x + a.w ≤ b.x) :
    { a with y := 0 } ∈ compactFrom fixed rest := by
  induction rest generalizing fixed with
  | nil => cases ha
  | cons b rest ih =>
    rw [compactFrom, if_neg (hst b List.mem_cons_self)]
    by_cases hb : b = a
    · rw [hb, climb_top hfixed]
      exact List.mem_cons_self
    · have ha := (List.mem_cons.1 ha).resolve_left (Ne.symm hb)
      refine List.mem_cons_of_mem _ (ih ha (fun c hc ↦ hst c (List.mem_cons_of_mem _ hc)) ?_
        fun c hc ↦ hrest c (List.mem_cons_of_mem _ hc))
      intro f hf
      rcases List.mem_append.1 hf with hf | hf
      · exact hfixed f hf
      · rw [List.mem_singleton.1 hf]
        exact (hrest b List.mem_cons_self).resolve_left hb

/-- A card that comes after another one is not in the way of its climb. -/
theorem apart_of_climb {y : ℤ} (hb : 0 < b.h)
    (hbefore : a.rectangle.Before b.rectangle) (hapart : ¬ a.rectangle.Overlaps b.rectangle)
    (hy : y ≤ a.y) : ¬ ({ a with y } : LayoutItem).rectangle.Overlaps b.rectangle := by
  simp only [Rectangle.Overlaps, Rectangle.Before, LayoutItem.rectangle] at *
  omega

/-- Cards in order that do not overlap one another or those that have their place. -/
structure Ready (fixed rest : Layout) : Prop where
  proper : ∀ a ∈ rest, 0 < a.h ∧ 0 ≤ a.y
  order : rest.Pairwise (fun a b ↦ a.rectangle.Before b.rectangle ∧ a.i ≠ b.i ∧
    ¬ a.rectangle.Overlaps b.rectangle)
  apart : ∀ f ∈ fixed, ∀ a ∈ rest, f.i ≠ a.i → ¬ f.rectangle.Overlaps a.rectangle
  own : ∀ f ∈ fixed, ∀ a ∈ rest, f.i = a.i → a.static = some true ∧ f = a
  static : ∀ a ∈ rest, a.static = some true → a ∈ fixed

theorem compactFrom_spec (h : Ready fixed rest) :
    List.Forall₂ Raised rest (compactFrom fixed rest) ∧
      (∀ c ∈ compactFrom fixed rest, 0 ≤ c.y) ∧
      (∀ f ∈ fixed, ∀ c ∈ compactFrom fixed rest, f.i ≠ c.i →
        ¬ f.rectangle.Overlaps c.rectangle) ∧
      (compactFrom fixed rest).Pairwise (fun c d ↦ ¬ c.rectangle.Overlaps d.rectangle) := by
  induction rest generalizing fixed with
  | nil =>
    rw [compactFrom]
    exact ⟨.nil, by simp, by simp, .nil⟩
  | cons a rest ih =>
    obtain ⟨hfirst, horder⟩ := List.pairwise_cons.1 h.order
    obtain ⟨hah, hay⟩ := h.proper a List.mem_cons_self
    have hrest {b : LayoutItem} (hb : b ∈ rest) : b ∈ a :: rest := List.mem_cons_of_mem _ hb
    rw [compactFrom]
    split_ifs with hstatic
    · have hin := h.static a List.mem_cons_self hstatic
      obtain ⟨hraise, hrows, hfixed, hpair⟩ := ih ⟨fun b hb ↦ h.proper b (hrest hb), horder,
        fun f hf b hb ↦ h.apart f hf b (hrest hb), fun f hf b hb ↦ h.own f hf b (hrest hb),
        fun b hb ↦ h.static b (hrest hb)⟩
      refine ⟨.cons ⟨rfl, le_rfl, fun _ ↦ rfl⟩ hraise, ?_, ?_, ?_⟩
      · exact List.forall_mem_cons.2 ⟨hay, hrows⟩
      · intro f hf
        exact List.forall_mem_cons.2 ⟨h.apart f hf a List.mem_cons_self, hfixed f hf⟩
      · refine List.pairwise_cons.2 ⟨fun c hc ↦ hfixed a hin c hc fun hid ↦ ?_, hpair⟩
        obtain ⟨b, hb, hbc⟩ := forall₂_right hraise hc
        rw [hbc.same] at hid
        exact (hfirst b hb).2.1 hid
    · have hup : (climb fixed a a.y.toNat : ℤ) ≤ a.y := by
        have := climb_le fixed a a.y.toNat
        omega
      generalize hr : ({ a with y := (climb fixed a a.y.toNat : ℤ) } : LayoutItem) = raised
      have hraised : Raised a raised := by
        subst hr
        exact ⟨rfl, hup, fun hst ↦ absurd hst hstatic⟩
      have hfree : ∀ f ∈ fixed, ¬ raised.rectangle.Overlaps f.rectangle := by
        subst hr
        refine climb_free fun f hf ho ↦ ?_
        have hya : ((a.y.toNat : ℕ) : ℤ) = a.y := Int.toNat_of_nonneg hay
        rw [hya] at ho
        have hne : f.i ≠ a.i := fun hid ↦ hstatic (h.own f hf a List.mem_cons_self hid).1
        exact h.apart f hf a List.mem_cons_self hne ho.symm
      have hlater : ∀ b ∈ rest, ¬ raised.rectangle.Overlaps b.rectangle := by
        subst hr
        intro b hb
        obtain ⟨hbefore, -, hapart⟩ := hfirst b hb
        exact apart_of_climb (h.proper b (hrest hb)).1 hbefore hapart hup
      have hri : raised.i = a.i := by
        rw [hraised.same]
      have hready : Ready (fixed ++ [raised]) rest := by
        refine ⟨fun b hb ↦ h.proper b (hrest hb), horder, ?_, ?_,
          fun b hb hst ↦ List.mem_append_left _ (h.static b (hrest hb) hst)⟩
        · intro f hf b hb hne
          rcases List.mem_append.1 hf with hf | hf
          · exact h.apart f hf b (hrest hb) hne
          · rw [List.mem_singleton.1 hf]
            exact hlater b hb
        · intro f hf b hb hid
          rcases List.mem_append.1 hf with hf | hf
          · exact h.own f hf b (hrest hb) hid
          · rw [List.mem_singleton.1 hf, hri] at hid
            exact absurd hid (hfirst b hb).2.1
      obtain ⟨hraise, hrows, hfixed, hpair⟩ := ih hready
      refine ⟨.cons hraised hraise, List.forall_mem_cons.2 ⟨?_, hrows⟩, fun f hf ↦ ?_, ?_⟩
      · rw [← hr]
        exact Int.natCast_nonneg _
      · exact List.forall_mem_cons.2 ⟨fun _ ho ↦ hfree f hf ho.symm,
          hfixed f (List.mem_append_left _ hf)⟩
      · refine List.pairwise_cons.2 ⟨fun c hc ↦ ?_, hpair⟩
        refine hfixed raised (by simp) c hc fun hid ↦ ?_
        obtain ⟨b, hb, hbc⟩ := forall₂_right hraise hc
        rw [hri, hbc.same] at hid
        exact (hfirst b hb).2.1 hid

theorem ready_layoutOrder (h : Tidy layout) :
    Ready (layout.filter (·.static = some true)) (layoutOrder layout) := by
  have hperm : (layoutOrder layout).Perm layout := layout.perm_insertionSort _
  have hsorted : (layoutOrder layout).Pairwise
      (fun a b ↦ a.rectangle.Before b.rectangle) := List.pairwise_insertionSort _ layout
  have hids : (layoutOrder layout).Pairwise (fun a b ↦ a.i ≠ b.i) :=
    List.pairwise_map.1 ((hperm.map _).nodup_iff.2 h.ids)
  have hin {a : LayoutItem} (ha : a ∈ layoutOrder layout) : a ∈ layout := hperm.mem_iff.1 ha
  constructor
  · exact fun a ha ↦ ⟨(h.proper a (hin ha)).2, h.rows a (hin ha)⟩
  · refine (hsorted.and hids).imp_of_mem fun ha hb hab ↦
      ⟨hab.1, hab.2, h.apart _ (hin ha) _ (hin hb) hab.2⟩
  · exact fun f hf a ha hne ↦ h.apart f (List.mem_filter.1 hf).1 a (hin ha) hne
  · intro f hf a ha hid
    obtain ⟨hf, hst⟩ := List.mem_filter.1 hf
    obtain rfl : f = a := List.inj_on_of_nodup_map h.ids hf (hin ha) hid
    exact ⟨of_decide_eq_true hst, rfl⟩
  · exact fun a ha hst ↦ List.mem_filter.2 ⟨hin ha, decide_eq_true hst⟩

theorem ids_of_raised {l m : Layout} (h : List.Forall₂ Raised l m) :
    m.map (·.i) = l.map (·.i) := by
  induction h with
  | nil => rfl
  | cons hab _ ih => rw [List.map_cons, List.map_cons, ih, hab.same]

/-- What becomes of each card, whatever the order in which the cards are listed. -/
theorem compacted_spec (h : Tidy layout) (a : LayoutItem) (ha : a ∈ layout) :
    ∃ c ∈ compactFrom (layout.filter (·.static = some true)) (layoutOrder layout), Raised a c ∧
      ((compactFrom (layout.filter (·.static = some true)) (layoutOrder layout)).find?
        (·.i = a.i)).getD a = c := by
  obtain ⟨hraise, -⟩ := compactFrom_spec (ready_layoutOrder h)
  have hperm : (layoutOrder layout).Perm layout := layout.perm_insertionSort _
  obtain ⟨c, hc, hac⟩ := forall₂_left hraise (hperm.mem_iff.2 ha)
  refine ⟨c, hc, hac, ?_⟩
  have hci : c.i = a.i := by rw [hac.same]
  cases hfind : (compactFrom (layout.filter (·.static = some true)) (layoutOrder layout)).find?
      (·.i = a.i) with
  | none => exact absurd hci (by simpa using List.find?_eq_none.1 hfind c hc)
  | some d =>
    have hd := List.mem_of_find?_eq_some hfind
    have hdi : d.i = a.i := by simpa using List.find?_some hfind
    obtain ⟨b, hb, hbd⟩ := forall₂_right hraise hd
    obtain rfl : b = a := List.inj_on_of_nodup_map h.ids (hperm.mem_iff.1 hb) ha (by
      rw [← hdi, hbd.same])
    have hids : ((compactFrom (layout.filter (·.static = some true))
        (layoutOrder layout)).map (·.i)).Nodup := by
      rw [ids_of_raised hraise]
      exact (hperm.map _).nodup_iff.2 h.ids
    exact List.inj_on_of_nodup_map hids hd hc (hdi.trans hci.symm)

/-- A card alone in its columns comes to lie on row 0. -/
theorem compactVertically_top (h : Tidy layout) (ha : a ∈ layout)
    (hst : ∀ b ∈ layout, b.static ≠ some true)
    (hcolumns : ∀ b ∈ layout, b = a ∨ b.x + b.w ≤ a.x ∨ a.x + a.w ≤ b.x) (cols : ℤ) :
    { a with y := 0 } ∈ compactVertically layout cols := by
  obtain ⟨c, hc, hac, heq⟩ := compacted_spec h a ha
  have hperm : (layoutOrder layout).Perm layout := layout.perm_insertionSort _
  have hfixed : layout.filter (·.static = some true) = [] := by
    rw [List.filter_eq_nil_iff]
    exact fun b hb hbs ↦ hst b hb (of_decide_eq_true hbs)
  have htop : { a with y := 0 } ∈
      compactFrom (layout.filter (·.static = some true)) (layoutOrder layout) := by
    rw [hfixed]
    exact compactFrom_top (hperm.mem_iff.2 ha) (fun b hb ↦ hst b (hperm.mem_iff.1 hb)) nofun
      fun b hb ↦ hcolumns b (hperm.mem_iff.1 hb)
  obtain ⟨hraise, -⟩ := compactFrom_spec (ready_layoutOrder h)
  have hids : ((compactFrom (layout.filter (·.static = some true))
      (layoutOrder layout)).map (·.i)).Nodup := by
    rw [ids_of_raised hraise]
    exact (hperm.map _).nodup_iff.2 h.ids
  have hsame : c = { a with y := 0 } := by
    refine List.inj_on_of_nodup_map hids hc htop ?_
    rw [hac.same]
  rw [compactVertically, ← hsame, ← heq]
  exact List.mem_map_of_mem (f := fun b ↦ ((compactFrom (layout.filter (·.static = some true))
    (layoutOrder layout)).find? (·.i = b.i)).getD b) ha

/-- The compactor of react-grid-layout, on layouts that are tidy. -/
def verticalCompactor : VerticalCompactor where
  compact := compactVertically
  raises layout cols h := by
    rw [compactVertically, List.forall₂_map_right_iff, List.forall₂_same]
    intro a ha
    obtain ⟨c, -, hac, heq⟩ := compacted_spec h a ha
    rw [heq]
    exact hac
  tidy layout cols h := by
    obtain ⟨hraise, hrows, -, hpair⟩ := compactFrom_spec (ready_layoutOrder h)
    rw [compactVertically]
    constructor
    · have hids : (layout.map fun a ↦ ((compactFrom (layout.filter (·.static = some true))
          (layoutOrder layout)).find? (·.i = a.i)).getD a).map (·.i) = layout.map (·.i) := by
        rw [List.map_map]
        refine List.map_congr_left fun a ha ↦ ?_
        obtain ⟨c, -, hac, heq⟩ := compacted_spec h a ha
        rw [Function.comp_apply, heq, hac.same]
      rw [hids]
      exact h.ids
    · refine List.forall_mem_map.2 fun a ha ↦ ?_
      obtain ⟨c, -, hac, heq⟩ := compacted_spec h a ha
      rw [heq, hac.same]
      exact h.proper a ha
    · refine List.forall_mem_map.2 fun a ha ↦ ?_
      obtain ⟨c, hc, -, heq⟩ := compacted_spec h a ha
      rw [heq]
      exact hrows c hc
    · refine List.forall_mem_map.2 fun a ha ↦ List.forall_mem_map.2 fun b hb hne ↦ ?_
      obtain ⟨c, hc, -, hceq⟩ := compacted_spec h a ha
      obtain ⟨d, hd, -, hdeq⟩ := compacted_spec h b hb
      rw [hceq, hdeq] at hne ⊢
      have hsymm : Std.Symm (fun c d : LayoutItem ↦ ¬ c.rectangle.Overlaps d.rectangle) :=
        ⟨fun _ _ h ho ↦ h ho.symm⟩
      exact hpair.forall hc hd fun heq ↦ hne (congrArg LayoutItem.i heq)

end Counted.Console
