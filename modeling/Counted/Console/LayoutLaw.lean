import Counted.Console.Pushing

namespace Counted.Console

open Foundations Dashboarding

variable {A : Type} {d : DashboardSnapshot A} {items layout start : Layout} {a b : LayoutItem}

/-! ### How far down a settled card lies -/

/-- A settled card rests on row 0 or on another card. -/
theorem Settled.rests {cols : ℤ} (hs : Settled cols items) (h : Tidy items)
    (hw : Within cols items) (ha : a ∈ items) (hst : a.static ≠ some true) :
    a.y = 0 ∨ ∃ b ∈ items, b.i ≠ a.i ∧ a.y = b.bottom := by
  have hfree : ∀ b ∈ (items.filter (·.i ≠ a.i)).map LayoutItem.rectangle,
      ¬ (a.rectangle.at' a.x a.y).Overlaps b := by
    refine List.forall_mem_map.2 fun b hb ↦ ?_
    obtain ⟨hb, hne⟩ := List.mem_filter.1 hb
    exact h.apart a ha b hb fun heq ↦ of_decide_eq_true hne heq.symm
  obtain ⟨r, h0, hr, hrest, hfree'⟩ := Rectangle.exists_rest (h.rows a ha) hfree
  have hry : r = a.y := by
    by_contra hne
    exact exists_slot (h.proper a ha).2 h0 (fun o ho ↦ hfree' _ (List.mem_map_of_mem ho))
      (lt_of_le_of_ne hr hne) (hw a ha) (hs a ha hst)
  rcases hrest with rfl | ⟨r', hr', rfl⟩
  · exact .inl hry.symm
  · obtain ⟨b, hb, rfl⟩ := List.mem_map.1 hr'
    obtain ⟨hb, hne⟩ := List.mem_filter.1 hb
    exact .inr ⟨b, hb, of_decide_eq_true hne, hry.symm⟩

theorem sum_filter_add_le {α : Type} {f : α → ℤ} {p q : α → Bool} {l : List α} {c : α}
    (hf : ∀ b ∈ l, 0 ≤ f b) (hpq : ∀ b, p b → q b) (hc : c ∈ l) (hcq : q c) (hcp : ¬ p c) :
    ((l.filter p).map f).sum + f c ≤ ((l.filter q).map f).sum := by
  induction l with
  | nil => cases hc
  | cons b l ih =>
    have hle : ((l.filter p).map f).sum ≤ ((l.filter q).map f).sum :=
      List.Sublist.sum_le_sum ((List.monotone_filter_right l hpq).map f) (by
        refine List.forall_mem_map.2 fun b hb ↦ hf b ?_
        exact List.mem_cons_of_mem _ (List.mem_filter.1 hb).1)
    have hb := hf b List.mem_cons_self
    rcases List.mem_cons.1 hc with rfl | hc
    · rw [List.filter_cons_of_neg hcp, List.filter_cons_of_pos hcq, List.map_cons, List.sum_cons]
      omega
    · have hih := ih (fun b hb ↦ hf b (List.mem_cons_of_mem _ hb)) hc
      by_cases hbp : p b
      · rw [List.filter_cons_of_pos hbp, List.filter_cons_of_pos (hpq b hbp), List.map_cons,
          List.map_cons, List.sum_cons, List.sum_cons]
        omega
      · rw [List.filter_cons_of_neg hbp]
        by_cases hbq : q b
        · rw [List.filter_cons_of_pos hbq, List.map_cons, List.sum_cons]
          omega
        · rw [List.filter_cons_of_neg hbq]
          exact hih

/-- The cards further up are high enough together to carry a card. -/
theorem Settled.y_le {cols : ℤ} (hs : Settled cols items) (h : Tidy items) (hw : Within cols items)
    (hst : ∀ a ∈ items, a.static ≠ some true) (ha : a ∈ items) :
    a.y ≤ ((items.filter (·.y < a.y)).map (·.h)).sum := by
  have hpos : ∀ b ∈ items, 0 ≤ b.h := fun b hb ↦ (h.proper b hb).2.le
  induction hn : a.y.toNat using Nat.strongRecOn generalizing a with
  | ind n ih =>
    rcases hs.rests h hw ha (hst a ha) with h0 | ⟨b, hb, -, hab⟩
    · rw [h0]
      refine List.sum_nonneg (List.forall_mem_map.2 fun b hb ↦ ?_)
      exact hpos b (List.mem_filter.1 hb).1
    · have hbh := (h.proper b hb).2
      have hby := h.rows b hb
      simp only [LayoutItem.bottom] at hab
      have hlt : b.y < a.y := by omega
      have hih := ih b.y.toNat (by omega) hb rfl
      have hsum := sum_filter_add_le (f := fun c : LayoutItem ↦ c.h) (p := fun c ↦ c.y < b.y)
        (q := fun c ↦ c.y < a.y) hpos (fun c hc ↦ by
          rw [decide_eq_true_eq] at hc ⊢
          omega) hb (decide_eq_true hlt) (by simp)
      omega

/-! ### What every layout of the console is -/

/-- The bounds of a card, and the size it has within them. -/
structure Sane (a : LayoutItem) : Prop where
  minW : ∃ m, a.minW = some m ∧ 1 ≤ m ∧ m ≤ 12
  minH : ∃ m, a.minH = some m ∧ 3 ≤ m ∧ m ≤ 20
  width : 1 ≤ a.w
  height : 3 ≤ a.h ∧ a.h ≤ 20
  static : a.static = none

theorem Sane.of_shape (h : Sane a) (hs : b.shape = a.shape) : Sane b := by
  simp only [LayoutItem.shape, Prod.mk.injEq] at hs
  obtain ⟨-, hw, hh, hmw, hmh, hst⟩ := hs
  constructor
  · rw [hmw]
    exact h.minW
  · rw [hmh]
    exact h.minH
  · rw [hw]
    exact h.width
  · rw [hh]
    exact h.height
  · rw [hst]
    exact h.static

theorem sane_of_shapes (h : ∀ a ∈ layout, Sane a)
    (hs : items.map LayoutItem.shape = layout.map LayoutItem.shape) : ∀ a ∈ items, Sane a := by
  intro b hb
  have hmem : b.shape ∈ layout.map LayoutItem.shape := hs ▸ List.mem_map_of_mem hb
  obtain ⟨a, ha, hab⟩ := List.mem_map.1 hmem
  exact (h a ha).of_shape hab.symm

/-- The layout of a dashboard as the console holds it. -/
structure Laid (d : DashboardSnapshot A) (layout : Layout) : Prop where
  tidy : Tidy layout
  within : Within 12 layout
  ids : (layout.map (·.i)).Perm (d.tiles.map (·.id))
  sane : ∀ a ∈ layout, Sane a
  high : ∀ a ∈ layout, a.y ≤ 1000

/-- A packed layout of sane cards is one the console may hold. -/
theorem laid_of_packed (hd : Sound d) (h : Packed 12 none start layout)
    (hsane : ∀ a ∈ start, Sane a) (hids : (start.map (·.i)).Perm (d.tiles.map (·.id))) : Laid d layout := by
  have hperm : (layout.map (·.i)).Perm (d.tiles.map (·.id)) := ids_of_shapes h.shapes ▸ hids
  have hsane' := sane_of_shapes hsane h.shapes
  refine ⟨h.tidy, h.within, hperm, hsane', fun a ha ↦ ?_⟩
  have hy := (h.settled fun b _ ↦ Option.some_ne_none b.i).y_le h.tidy h.within
    (fun b hb ↦ by rw [(hsane' b hb).static]; exact nofun) ha
  have hsum : ((layout.filter (·.y < a.y)).map (·.h)).sum ≤
      ((layout.filter (·.y < a.y)).map (·.h)).length • (20 : ℤ) :=
    List.sum_le_card_nsmul _ _ (List.forall_mem_map.2 fun b hb ↦
      (hsane' b (List.mem_filter.1 hb).1).height.2)
  have hlen : (layout.filter (·.y < a.y)).length < layout.length :=
    List.length_filter_lt_length_iff_exists.2 ⟨a, ha, by simp⟩
  have hcount : layout.length ≤ 50 := by
    have hlength := hperm.length_eq
    rw [List.length_map, List.length_map] at hlength
    exact hlength ▸ hd.count
  rw [List.length_map, nsmul_eq_mul] at hsum
  omega

/-- The server takes every layout the console may hold. -/
theorem Laid.legal (h : Laid d layout) : Legal d (placementsOf layout) := by
  have hperm := layoutOrder_perm layout
  have hmem {a : LayoutItem} (ha : a ∈ layoutOrder layout) : a ∈ layout := hperm.mem_iff.1 ha
  constructor
  · rw [placementsOf, List.map_map]
    exact (hperm.map _).trans h.ids
  · refine List.forall_mem_map.2 fun a ha ↦ ?_
    have ha := hmem ha
    have hsane := h.sane a ha
    have hw := h.within a ha
    have hy := h.tidy.rows a ha
    have hhigh := h.high a ha
    have hint (m : ℤ) : (m : JsNumber).isInteger = true := JsNumber.isInteger_iff.2 ⟨m, rfl⟩
    have hwidth := hsane.width
    have hheight := hsane.height
    simp only [TilePlacement.valid, validTileWidth, validTileLayout, hint, Bool.true_and,
      JsNumber.intCast_plus, JsNumber.intCast_le, rowUnits, Bool.and_eq_true, decide_eq_true_eq, and_true]
    omega
  · rw [placementsOf, List.pairwise_map]
    have hids : (layoutOrder layout).Pairwise (fun a b ↦ a.i ≠ b.i) :=
      List.pairwise_map.1 ((hperm.map _).nodup_iff.2 h.tidy.ids)
    refine hids.imp_of_mem fun ha hb hne ↦ ?_
    have hapart := h.tidy.apart _ (hmem ha) _ (hmem hb) hne
    rw [← Bool.not_eq_true]
    intro ho
    simp only [TilePlacement.overlaps, JsNumber.intCast_plus, JsNumber.intCast_lt,
      Bool.and_eq_true, decide_eq_true_eq] at ho
    simp only [Rectangle.Overlaps, LayoutItem.rectangle] at hapart
    omega

/-! ### Editing one card -/

theorem patched_fits (patch : Patch) (h : Sane a) :
    Sane (patched patch a) ∧ 0 ≤ (patched patch a).x ∧
      (patched patch a).x + (patched patch a).w ≤ 12 ∧ 0 ≤ (patched patch a).y := by
  obtain ⟨m, hm, hm1, hm12⟩ := h.minW
  obtain ⟨n, hn, hn3, hn20⟩ := h.minH
  refine ⟨⟨h.minW, h.minH, ?_, ?_, h.static⟩, ?_, ?_, ?_⟩ <;>
    simp only [patched, hm, hn, Option.getD_some] <;> omega

theorem patched_i (patch : Patch) (a : LayoutItem) : (patched patch a).i = a.i := rfl

/-- The cards after an edit, the edited one first to push. -/
theorem pushing_patched (h : Laid d layout) (a : LayoutItem) (patch : Patch) :
    Pushing 12 (layout.map fun b ↦ if b.i = a.i then patched patch b else b)
      (layout.map (fun b ↦ if b.i = a.i then patched patch b else b), [a.i]) ∧
    (∀ b ∈ layout.map (fun b ↦ if b.i = a.i then patched patch b else b), Sane b) ∧
    (layout.map fun b ↦ if b.i = a.i then patched patch b else b).map (·.i) = layout.map (·.i) := by
  have hids : (layout.map fun b ↦ if b.i = a.i then patched patch b else b).map (·.i) =
      layout.map (·.i) := by
    rw [List.map_map]
    refine List.map_congr_left fun b _ ↦ ?_
    by_cases hid : b.i = a.i <;> simp [hid, patched_i]
  have hcases {c : LayoutItem}
      (hc : c ∈ layout.map fun b ↦ if b.i = a.i then patched patch b else b) :
      ∃ b ∈ layout, (b.i = a.i ∧ c = patched patch b) ∨ (b.i ≠ a.i ∧ c = b) := by
    obtain ⟨b, hb, rfl⟩ := List.mem_map.1 hc
    by_cases hid : b.i = a.i
    · exact ⟨b, hb, .inl ⟨hid, if_pos hid⟩⟩
    · exact ⟨b, hb, .inr ⟨hid, if_neg hid⟩⟩
  have hsane : ∀ b ∈ layout.map (fun b ↦ if b.i = a.i then patched patch b else b), Sane b := by
    intro c hc
    obtain ⟨b, hb, ⟨-, rfl⟩ | ⟨-, rfl⟩⟩ := hcases hc
    · exact (patched_fits patch (h.sane b hb)).1
    · exact h.sane _ hb
  refine ⟨⟨⟨hids ▸ h.tidy.ids, fun c hc ↦ ?_, fun c hc ↦ ?_⟩, fun c hc ↦ ?_, rfl, ?_⟩, hsane, hids⟩
  · have hc := hsane c hc
    have hwidth := hc.width
    have hheight := hc.height
    omega
  · obtain ⟨b, hb, ⟨-, rfl⟩ | ⟨-, rfl⟩⟩ := hcases hc
    · exact (patched_fits patch (h.sane b hb)).2.2.2
    · exact h.tidy.rows _ hb
  · obtain ⟨b, hb, ⟨-, rfl⟩ | ⟨-, rfl⟩⟩ := hcases hc
    · have hfits := patched_fits patch (h.sane b hb)
      exact ⟨hfits.2.1, hfits.2.2.1⟩
    · exact h.within _ hb
  · intro c hc e he hne ho
    obtain ⟨b, hb, ⟨hid, rfl⟩ | ⟨-, rfl⟩⟩ := hcases hc
    · exact .inl (by simp [patched_i, hid])
    · obtain ⟨f, hf, ⟨hid, rfl⟩ | ⟨-, rfl⟩⟩ := hcases he
      · exact .inr (by simp [patched_i, hid])
      · exact absurd ho (h.tidy.apart c hb e hf hne)

theorem adjustLayout_spec (v : VerticalCompactor) (hd : Sound d) (h : Laid d layout)
    (ha : a ∈ layout) (patch : Patch) :
    ∃ layout', (∃ least, ∀ fuel, least ≤ fuel →
      adjustLayout v fuel layout a.i patch = some layout') ∧ Laid d layout' := by
  obtain ⟨hpushing, hsane, hids⟩ := pushing_patched h a patch
  obtain ⟨pushed, hhalts, htidy, hwithin, hshapes⟩ := push_spec hpushing
  obtain ⟨least, hpush⟩ := hhalts.loop
  obtain ⟨held, ⟨least', hheld⟩, hpacked⟩ := packInsights_spec v (some a.i)
    (some ((layoutOrder layout).map (·.i))) htidy hwithin
  obtain ⟨settled, ⟨least'', hsettled⟩, hpacked'⟩ := packInsights_spec v none none hpacked.tidy
    hpacked.within
  have hsome : ∃ b, layout.find? (fun b ↦ b.i = a.i) = some b := by
    rw [← Option.isSome_iff_exists, List.find?_isSome]
    exact ⟨a, ha, decide_eq_true rfl⟩
  obtain ⟨b, hb⟩ := hsome
  refine ⟨settled, ⟨max least (max least' least''), fun fuel hf ↦ ?_⟩, ?_⟩
  · rw [adjustLayout, hb]
    dsimp only [Option.bind_eq_bind, Option.bind_some]
    rw [hpush fuel (by omega), Option.bind_some, hheld fuel (by omega), Option.bind_some,
      hsettled fuel (by omega)]
  · refine laid_of_packed hd hpacked' ?_ ?_
    · exact sane_of_shapes (sane_of_shapes hsane hshapes) hpacked.shapes
    · rw [ids_of_shapes hpacked.shapes, ids_of_shapes hshapes, hids]
      exact h.ids

/-! ### Moving on a phone -/

/-- The cards that follow are further right in the row or below it. -/
def Follows (x y height : ℤ) (placed : Layout) : Prop :=
  ∀ p ∈ placed, p.y = y ∧ x ≤ p.x ∨ y + height ≤ p.y

structure Flowed (desktop : Layout) (x y height : ℤ) (mobile placed : Layout) : Prop where
  ids : placed.map (·.i) = mobile.map (·.i)
  sane : ∀ p ∈ placed, Sane p
  within : Within 12 placed
  rows : ∀ p ∈ placed, y ≤ p.y
  follows : Follows x y height placed
  apart : placed.Pairwise (fun p q ↦ ¬ p.rectangle.Overlaps q.rectangle)

theorem flow_spec {desktop mobile : Layout} (hdesktop : ∀ a ∈ desktop, Sane a)
    (hwithin : Within 12 desktop) (hmobile : ∀ m ∈ mobile, 3 ≤ m.h ∧ m.h ≤ 20)
    (hids : ∀ m ∈ mobile, ∃ a ∈ desktop, a.i = m.i) (x y height : ℤ) (hx : 0 ≤ x)
    (hheight : 0 ≤ height) :
    ∃ placed, flow desktop x y height mobile = some placed ∧
      Flowed desktop x y height mobile placed := by
  induction mobile generalizing x y height with
  | nil => exact ⟨[], rfl, rfl, nofun, nofun, nofun, nofun, .nil⟩
  | cons m mobile ih =>
    obtain ⟨a, ha, hai⟩ := hids m List.mem_cons_self
    have hsome : ∃ b, desktop.find? (fun b ↦ b.i = m.i) = some b := by
      rw [← Option.isSome_iff_exists, List.find?_isSome]
      exact ⟨a, ha, decide_eq_true hai⟩
    obtain ⟨b, hb⟩ := hsome
    have hbi : b.i = m.i := by simpa using List.find?_some hb
    have hbl := List.mem_of_find?_eq_some hb
    have hbsane := hdesktop b hbl
    have hbwidth := hbsane.width
    have hbwithin := hwithin b hbl
    have hmh := hmobile m List.mem_cons_self
    -- the corner the card goes to, and the height of the row before it
    obtain ⟨x', y', height', hplace, hflow⟩ : ∃ x' y' height',
        (0 ≤ x' ∧ x' + b.w ≤ 12 ∧ 0 ≤ height' ∧
          (x' = x ∧ y' = y ∧ height' = height ∨ y' = y + height ∧ height' = 0)) ∧
        flow desktop x y height (m :: mobile) =
          (flow desktop (x' + b.w) y' (max height' m.h) mobile).bind
            (fun placed ↦ some ({ b with x := x', y := y', h := m.h } :: placed)) := by
      by_cases hwraps : 12 < x + b.w
      · refine ⟨0, y + height, 0, ⟨le_rfl, by omega, le_rfl, .inr ⟨rfl, rfl⟩⟩, ?_⟩
        rw [flow, hb]
        simp only [Option.bind_eq_bind, Option.bind_some, decide_eq_true hwraps, if_true]
        rfl
      · refine ⟨x, y, height, ⟨hx, by omega, hheight, .inl ⟨rfl, rfl, rfl⟩⟩, ?_⟩
        rw [flow, hb]
        simp only [Option.bind_eq_bind, Option.bind_some, decide_eq_false hwraps,
          Bool.false_eq_true, if_false]
        rfl
    obtain ⟨hx0, hx12, hh0, hcorner⟩ := hplace
    obtain ⟨placed, hp, hflowed⟩ := ih (fun c hc ↦ hmobile c (List.mem_cons_of_mem _ hc))
      (fun c hc ↦ hids c (List.mem_cons_of_mem _ hc)) (x' + b.w) y' (max height' m.h) (by omega)
      (by omega)
    rw [hflow, hp, Option.bind_some]
    refine ⟨_, rfl, ?_, ?_, ?_, ?_, ?_, ?_⟩
    · rw [List.map_cons, List.map_cons, hflowed.ids, hbi]
    · exact List.forall_mem_cons.2 ⟨⟨hbsane.minW, hbsane.minH, hbwidth, hmh, hbsane.static⟩,
        hflowed.sane⟩
    · exact List.forall_mem_cons.2 ⟨⟨hx0, hx12⟩, hflowed.within⟩
    · refine List.forall_mem_cons.2 ⟨?_, fun p hp ↦ ?_⟩
      · dsimp only
        omega
      · have := hflowed.rows p hp
        omega
    · refine List.forall_mem_cons.2 ⟨?_, fun p hp ↦ ?_⟩
      · dsimp only
        omega
      · have := hflowed.follows p hp
        omega
    · refine List.pairwise_cons.2 ⟨fun p hp ho ↦ ?_, hflowed.apart⟩
      have := hflowed.follows p hp
      simp only [Rectangle.Overlaps, LayoutItem.rectangle] at ho
      omega

theorem applyMobileLayout_spec (v : VerticalCompactor) (hd : Sound d) (h : Laid d layout)
    (mobile : Layout) (hids : (mobile.map (·.i)).Perm (layout.map (·.i)))
    (hheights : ∀ m ∈ mobile, 3 ≤ m.h ∧ m.h ≤ 20) :
    ∃ layout', (∃ least, ∀ fuel, least ≤ fuel →
      applyMobileLayout v fuel layout mobile = some layout') ∧ Laid d layout' := by
  have hperm := layoutOrder_perm mobile
  have hpresent : ∀ m ∈ layoutOrder mobile, ∃ a ∈ layout, a.i = m.i := by
    intro m hm
    have hmem := hids.mem_iff.1 (List.mem_map_of_mem (f := (·.i)) (hperm.mem_iff.1 hm))
    exact List.mem_map.1 hmem
  obtain ⟨placed, hflow, hflowed⟩ := flow_spec h.sane h.within
    (fun m hm ↦ hheights m (hperm.mem_iff.1 hm)) hpresent 0 0 0 le_rfl le_rfl
  have hplaced : (placed.map (·.i)).Perm (layout.map (·.i)) :=
    hflowed.ids ▸ (hperm.map _).trans hids
  have hsymm : Std.Symm (fun p q : LayoutItem ↦ ¬ p.rectangle.Overlaps q.rectangle) :=
    ⟨fun _ _ h ho ↦ h ho.symm⟩
  have htidy : Tidy placed := by
    refine ⟨hplaced.nodup_iff.2 h.tidy.ids, fun p hp ↦ ?_, hflowed.rows, fun p hp q hq hne ↦ ?_⟩
    · have hsane := hflowed.sane p hp
      have hwidth := hsane.width
      have hheight := hsane.height
      omega
    · exact hflowed.apart.forall hp hq fun heq ↦ hne (congrArg LayoutItem.i heq)
  obtain ⟨packed, ⟨least, hpack⟩, hpacked⟩ := packInsights_spec v none none htidy hflowed.within
  refine ⟨packed, ⟨least, fun fuel hf ↦ ?_⟩,
    laid_of_packed hd hpacked hflowed.sane (hplaced.trans h.ids)⟩
  rw [applyMobileLayout, hflow]
  exact hpack fuel hf

theorem stack_ids (y : ℤ) (layout : Layout) :
    (stack y layout).map (·.i) = layout.map (·.i) := by
  induction layout generalizing y with
  | nil => rfl
  | cons a layout ih => rw [stack, List.map_cons, List.map_cons, ih]

theorem stack_heights {y : ℤ} (h : ∀ a ∈ layout, 3 ≤ a.h ∧ a.h ≤ 20) :
    ∀ a ∈ stack y layout, 3 ≤ a.h ∧ a.h ≤ 20 := by
  induction layout generalizing y with
  | nil => exact h
  | cons a layout ih =>
    rw [stack]
    exact List.forall_mem_cons.2 ⟨h a List.mem_cons_self,
      ih fun b hb ↦ h b (List.mem_cons_of_mem _ hb)⟩

theorem entry_eq_some {ordered : Layout} {index : ℤ} (h0 : 0 ≤ index)
    (hlt : index < ordered.length) :
    ∃ n : ℕ, ∃ hn : n < ordered.length, index = n ∧ entry ordered index = some ordered[n] := by
  refine ⟨index.toNat, by omega, by omega, ?_⟩
  rw [entry, if_neg (by omega), List.getElem?_eq_getElem]

/-- Exchanging two entries leaves the same cards. -/
theorem swap_spec (ordered : Layout) (index target : ℤ) (hi0 : 0 ≤ index)
    (hi : index < ordered.length) (ht0 : 0 ≤ target) (ht : target < ordered.length) :
    ∃ swapped, swap ordered index target = some swapped ∧ swapped.Perm ordered := by
  obtain ⟨n, hn, rfl, hentry⟩ := entry_eq_some hi0 hi
  obtain ⟨m, hm, rfl, hentry'⟩ := entry_eq_some ht0 ht
  refine ⟨_, ?_, List.set_set_perm hn hm⟩
  rw [swap, hentry, hentry']
  rfl

theorem moveMobileInsight_spec (v : VerticalCompactor) (hd : Sound d) (h : Laid d layout)
    (ha : a ∈ layout) (offset : Offset) :
    ∃ layout', (∃ least, ∀ fuel, least ≤ fuel →
      moveMobileInsight v fuel layout a.i offset = some layout') ∧ Laid d layout' := by
  have hperm := layoutOrder_perm layout
  have hids : (mobileLayout layout).map (·.i) = (layoutOrder layout).map (·.i) := stack_ids 0 _
  have hheights : ∀ m ∈ mobileLayout layout, 3 ≤ m.h ∧ m.h ≤ 20 :=
    stack_heights fun b hb ↦ (h.sane b (hperm.mem_iff.1 hb)).height
  obtain ⟨n, hn⟩ : ∃ n, (mobileLayout layout).findIdx? (fun b ↦ b.i = a.i) = some n := by
    rw [← Option.isSome_iff_exists, List.findIdx?_isSome, List.any_eq_true]
    have hmem : a.i ∈ (mobileLayout layout).map (·.i) :=
      hids ▸ List.mem_map_of_mem (hperm.mem_iff.2 ha)
    obtain ⟨b, hb, hba⟩ := List.mem_map.1 hmem
    exact ⟨b, hb, decide_eq_true hba⟩
  obtain ⟨hlt, -⟩ := List.findIdx?_eq_some_iff_getElem.1 hn
  by_cases hout : (n : ℤ) + offset.value < 0 ∨
      ((mobileLayout layout).length : ℤ) ≤ n + offset.value
  · refine ⟨layout, ⟨0, fun fuel _ ↦ ?_⟩, h⟩
    simp only [moveMobileInsight, hn, Option.map_some, Option.getD_some]
    exact if_pos hout
  · obtain ⟨swapped, hswap, hswapped⟩ := swap_spec (mobileLayout layout) n (n + offset.value)
      (by omega) (by omega) (by omega) (by omega)
    have hids' : (swapped.mapIdx (fun k b ↦ { b with y := (k : ℤ) })).map (·.i) =
        swapped.map (·.i) := by
      refine List.ext_getElem (by simp) fun k hk hk' ↦ ?_
      simp
    have hmoved : ((swapped.mapIdx (fun k b ↦ { b with y := (k : ℤ) })).map (·.i)).Perm
        (layout.map (·.i)) := by
      rw [hids']
      exact ((hswapped.map _).trans (.of_eq hids)).trans (hperm.map _)
    have hheights' : ∀ m ∈ swapped.mapIdx (fun k b ↦ ({ b with y := (k : ℤ) } : LayoutItem)),
        3 ≤ m.h ∧ m.h ≤ 20 := by
      intro m hm
      obtain ⟨k, hk, rfl⟩ := List.mem_mapIdx.1 hm
      exact hheights swapped[k] (hswapped.mem_iff.1 (List.getElem_mem hk))
    obtain ⟨layout', ⟨least, hleast⟩, hlaid⟩ := applyMobileLayout_spec v hd h _ hmoved hheights'
    refine ⟨layout', ⟨least, fun fuel hf ↦ ?_⟩, hlaid⟩
    simp only [moveMobileInsight, hn, Option.map_some, Option.getD_some]
    rw [if_neg hout, hswap, Option.bind_some]
    exact hleast fuel hf

/-! ### The layout the console starts from -/

theorem mem_search_rows {y : ℤ} :
    y ∈ (List.range 1001).map (fun n : ℕ ↦ (n : ℤ)) ↔ 0 ≤ y ∧ y ≤ 1000 := by
  simp only [List.mem_map, List.mem_range]
  constructor
  · rintro ⟨n, hn, rfl⟩
    omega
  · rintro ⟨h0, h⟩
    exact ⟨y.toNat, by omega, by omega⟩

theorem search_some {placed : Layout} {x y : ℤ} (h : search placed a = some (x, y)) :
    (0 ≤ x ∧ x + a.w ≤ 12) ∧ 0 ≤ y ∧ Free placed a x y := by
  obtain ⟨y', hy', hx⟩ := List.exists_of_findSome?_eq_some h
  rw [Option.map_eq_some_iff] at hx
  obtain ⟨x', hx', hxy⟩ := hx
  obtain ⟨rfl, rfl⟩ := Prod.mk.inj hxy
  have hfound := List.find?_some hx'
  exact ⟨mem_columns.1 (List.mem_of_find?_eq_some hx'), (mem_search_rows.1 hy').1,
    free_iff.1 hfound⟩

theorem search_none {placed : Layout} : search placed a = none ↔
    ∀ x y, 0 ≤ x → x + a.w ≤ 12 → 0 ≤ y → y ≤ 1000 → ¬ Free placed a x y := by
  simp only [search, List.findSome?_eq_none_iff, Option.map_eq_none_iff, List.find?_eq_none,
    free_iff, mem_columns]
  constructor
  · intro h x y hx hw hy hy'
    exact h y (mem_search_rows.2 ⟨hy, hy'⟩) x ⟨hx, hw⟩
  · rintro h y hy x ⟨hx, hw⟩
    exact h x y hx hw (mem_search_rows.1 hy).1 (mem_search_rows.1 hy).2

/-- Each tile that needs a place finds one among the tiles before it, at row 1000 or above. -/
def Roomy (placed : Layout) : List (Tile A) → Prop
  | [] => True
  | tile :: rest =>
    (needsSearch placed tile = true → ∃ x y, 0 ≤ x ∧ x + (itemOf tile).w ≤ 12 ∧ 0 ≤ y ∧ y ≤ 1000 ∧
      Free placed (itemOf tile) x y) ∧ Roomy (placed ++ [place placed tile]) rest

theorem units_intCast (n : ℤ) : units n = n := by
  rw [units, JsNumber.whole_intCast, Option.getD_some]

/-- The card of a tile of a dashboard, where the tile says it is. -/
theorem itemOf_fits (hd : Sound d) {tile : Tile A} (ht : tile ∈ d.tiles) :
    Sane (itemOf tile) ∧ (itemOf tile).w ≤ 12 ∧ (tile.layout.isNone = false →
      0 ≤ (itemOf tile).x ∧ (itemOf tile).x + (itemOf tile).w ≤ 12 ∧ 0 ≤ (itemOf tile).y) := by
  obtain ⟨w, hw1, hw12, hw⟩ := hd.widths tile ht
  have hwidth : (itemOf tile).w = w := by
    rw [itemOf, hw]
    exact units_intCast w
  cases hl : tile.layout with
  | none =>
    refine ⟨⟨⟨_, rfl, ?_⟩, ⟨_, rfl, ?_⟩, by omega, ?_, rfl⟩, by rw [hwidth]; exact hw12, nofun⟩
    · split_ifs <;> omega
    · split_ifs <;> omega
    · simp only [itemOf, hl, Option.map_none, Option.getD_none]
      split_ifs <;> omega
  | some l =>
    have hplacement : tile.placement = some { l with id := tile.id, width := tile.width } := by
      rw [Tile.placement, hl, Option.map_some]
    have hvalid := hd.placed tile ht _ hplacement
    obtain ⟨hx, hy, -, hh⟩ := TilePlacement.whole_of_valid hvalid
    dsimp only at hx hy hh
    generalize hr : TilePlacement.rectangle { l with id := tile.id, width := tile.width } = r
      at hx hy hh
    simp only [TilePlacement.valid, validTileWidth, validTileLayout, Bool.and_eq_true, hx, hy, hh,
      hw, JsNumber.intCast_le, JsNumber.intCast_plus, decide_eq_true_eq, rowUnits] at hvalid
    have hitem : (itemOf tile).x = r.x ∧ (itemOf tile).y = r.y := by
      simp only [itemOf, hl, Option.map_some, Option.getD_some, hx, hy, units_intCast, and_self]
    refine ⟨⟨⟨_, rfl, ?_⟩, ⟨_, rfl, ?_⟩, by omega, ?_, rfl⟩, by rw [hwidth]; exact hw12, fun _ ↦ ?_⟩
    · split_ifs <;> omega
    · split_ifs <;> omega
    · simp only [itemOf, hl, Option.map_some, Option.getD_some, hh, units_intCast]
      split_ifs <;> omega
    · rw [hitem.1, hitem.2, hwidth]
      omega

/-- The tiles placed so far. -/
structure Placing (placed : Layout) : Prop where
  tidy : Tidy placed
  within : Within 12 placed
  sane : ∀ a ∈ placed, Sane a

theorem Placing.add {placed : Layout} (h : Placing placed) (hid : a.i ∉ placed.map (·.i))
    (hsane : Sane a) (hx : 0 ≤ a.x ∧ a.x + a.w ≤ 12) (hy : 0 ≤ a.y)
    (hfree : ∀ b ∈ placed, ¬ a.rectangle.Overlaps b.rectangle) : Placing (placed ++ [a]) := by
  have hforall {P : LayoutItem → Prop} (hp : ∀ b ∈ placed, P b) (hpa : P a) :
      ∀ b ∈ placed ++ [a], P b := by
    intro b hb
    rcases List.mem_append.1 hb with hb | hb
    · exact hp b hb
    · exact List.mem_singleton.1 hb ▸ hpa
  have hwidth := hsane.width
  have hheight := hsane.height
  refine ⟨⟨?_, hforall h.tidy.proper ⟨by omega, by omega⟩, hforall h.tidy.rows hy, ?_⟩,
    hforall h.within hx, hforall h.sane hsane⟩
  · rw [List.map_append, List.map_singleton, List.nodup_append]
    refine ⟨h.tidy.ids, List.nodup_singleton _, fun i hi j hj heq ↦ hid ?_⟩
    rw [← List.mem_singleton.1 hj, ← heq]
    exact hi
  · refine hforall (fun b hb ↦ hforall (h.tidy.apart b hb) fun _ ho ↦ hfree b hb ho.symm) ?_
    exact hforall (fun b hb _ ↦ hfree b hb) fun hne ↦ absurd rfl hne

theorem place_i (placed : Layout) (tile : Tile A) : (place placed tile).i = tile.id := by
  unfold place
  dsimp only
  split_ifs
  · split <;> rfl
  · rfl

theorem placing_foldl (hd : Sound d) {placed : Layout} {rest : List (Tile A)} (h : Placing placed)
    (hrest : ∀ t ∈ rest, t ∈ d.tiles) (hids : (placed.map (·.i) ++ rest.map (·.id)).Nodup)
    (hroomy : Roomy placed rest) :
    Placing (rest.foldl (fun placed tile ↦ placed ++ [place placed tile]) placed) ∧
      (rest.foldl (fun placed tile ↦ placed ++ [place placed tile]) placed).map (·.i) =
        placed.map (·.i) ++ rest.map (·.id) := by
  induction rest generalizing placed with
  | nil => exact ⟨h, by simp⟩
  | cons tile rest ih =>
    obtain ⟨hroom, hroomy⟩ := hroomy
    have ht := hrest tile List.mem_cons_self
    obtain ⟨hsane, hw, hplace⟩ := itemOf_fits hd ht
    have hnot : tile.id ∉ placed.map (·.i) := by
      rw [List.map_cons, List.nodup_append] at hids
      exact fun hmem ↦ hids.2.2 _ hmem _ List.mem_cons_self rfl
    have hadd : Placing (placed ++ [place placed tile]) := by
      by_cases hneeds : needsSearch placed tile = true
      · obtain ⟨x, y, hx, hxw, hy, hy', hfree⟩ := hroom hneeds
        cases hs : search placed (itemOf tile) with
        | none => exact absurd hfree (search_none.1 hs x y hx hxw hy hy')
        | some p =>
          obtain ⟨hpx, hpy, hpfree⟩ := search_some (x := p.1) (y := p.2) hs
          have hp : place placed tile = { itemOf tile with x := p.1, y := p.2 } := by
            rw [place, if_pos hneeds, hs]
          rw [hp]
          exact h.add hnot (hsane.of_shape rfl) hpx hpy hpfree
      · have hp : place placed tile = itemOf tile := by
          rw [place]
          exact if_neg hneeds
        rw [needsSearch, Bool.not_eq_true, Bool.or_eq_false_iff, List.any_eq_false] at hneeds
        obtain ⟨hx, hxw, hy⟩ := hplace hneeds.1
        rw [hp]
        exact h.add hnot hsane ⟨hx, hxw⟩ hy fun b hb ho ↦ hneeds.2 b hb (collides_iff.2 ho)
    rw [List.foldl_cons, List.map_cons]
    obtain ⟨hplacing, hmap⟩ := ih hadd (fun t ht ↦ hrest t (List.mem_cons_of_mem _ ht)) (by
      rwa [List.map_append, List.map_singleton, place_i, List.append_assoc,
        List.singleton_append, ← List.map_cons]) hroomy
    refine ⟨hplacing, ?_⟩
    rw [hmap, List.map_append, List.map_singleton, place_i, List.append_assoc,
      List.singleton_append]

theorem insightLayout_spec (v : VerticalCompactor) (hd : Sound d) (hroomy : Roomy [] d.tiles) :
    ∃ layout, (∃ least, ∀ fuel, least ≤ fuel → insightLayout v fuel d.tiles = some layout) ∧
      Laid d layout := by
  have hnil : Placing [] :=
    ⟨⟨List.nodup_nil, nofun, nofun, nofun⟩, nofun, nofun⟩
  obtain ⟨hplacing, hids⟩ := placing_foldl hd hnil (fun _ ht ↦ ht) (by simpa using hd.ids) hroomy
  obtain ⟨layout, hends, hpacked⟩ := packInsights_spec v none none hplacing.tidy hplacing.within
  refine ⟨layout, hends, laid_of_packed hd hpacked hplacing.sane ?_⟩
  rw [hids]
  exact .rfl

/-! ### Sequences of operations -/

/-- What the console does to the layout of a dashboard. -/
inductive Operation (d : DashboardSnapshot A)
  | adjust (id : TileId) (present : id ∈ d.tiles.map (·.id)) (patch : Patch)
  | move (id : TileId) (present : id ∈ d.tiles.map (·.id)) (offset : Offset)

def Operation.apply (v : VerticalCompactor) (fuel : ℕ) (layout : Layout) :
    Operation d → Option Layout
  | .adjust id _ patch => adjustLayout v fuel layout id patch
  | .move id _ offset => moveMobileInsight v fuel layout id offset

/-- Every operation on a layout of the console ends in another one. -/
theorem Operation.apply_spec (v : VerticalCompactor) (hd : Sound d) (h : Laid d layout)
    (op : Operation d) :
    ∃ layout', (∃ least, ∀ fuel, least ≤ fuel → op.apply v fuel layout = some layout') ∧
      Laid d layout' := by
  have hcard {id : TileId} (hid : id ∈ d.tiles.map (·.id)) : ∃ a ∈ layout, a.i = id :=
    List.mem_map.1 (h.ids.mem_iff.2 hid)
  cases op with
  | adjust id present patch =>
    obtain ⟨a, ha, rfl⟩ := hcard present
    exact adjustLayout_spec v hd h ha patch
  | move id present offset =>
    obtain ⟨a, ha, rfl⟩ := hcard present
    exact moveMobileInsight_spec v hd h ha offset

theorem run_operations_spec (v : VerticalCompactor) (hd : Sound d) (h : Laid d layout)
    (ops : List (Operation d)) :
    ∃ layout', (∃ least, ∀ fuel, least ≤ fuel →
      run (Operation.apply v fuel) layout ops = some layout') ∧ Laid d layout' := by
  induction ops generalizing layout with
  | nil => exact ⟨layout, ⟨0, fun _ _ ↦ rfl⟩, h⟩
  | cons op ops ih =>
    obtain ⟨next, ⟨least, hnext⟩, hlaid⟩ := op.apply_spec v hd h
    obtain ⟨layout', ⟨least', hrest⟩, hlaid'⟩ := ih hlaid
    refine ⟨layout', ⟨max least least', fun fuel hf ↦ ?_⟩, hlaid'⟩
    rw [run, hnext fuel (by omega), Option.bind_some, hrest fuel (by omega)]

/-- Where each tile that needs a place finds one, every layout the console comes to is one the
server takes. -/
theorem console_layouts_legal (v : VerticalCompactor) (d : DashboardSnapshot A) (hd : Sound d)
    (hroomy : Roomy [] d.tiles) (ops : List (Operation d)) :
    ∃ layout, (∃ least, ∀ fuel, least ≤ fuel →
        (insightLayout v fuel d.tiles).bind
          (fun start ↦ run (Operation.apply v fuel) start ops) = some layout) ∧
      (layout.map (·.i)).Perm (d.tiles.map (·.id)) ∧ Legal d (placementsOf layout) ∧
      ∀ at', ∃ r, d.setLayout (placementsOf layout) at' = .ok r := by
  obtain ⟨start, ⟨least, hstart⟩, hlaid⟩ := insightLayout_spec v hd hroomy
  obtain ⟨layout, ⟨least', hrun⟩, hlaid'⟩ := run_operations_spec v hd hlaid ops
  refine ⟨layout, ⟨max least least', fun fuel hf ↦ ?_⟩, hlaid'.ids, hlaid'.legal, fun at' ↦ ?_⟩
  · rw [hstart fuel (by omega), Option.bind_some, hrun fuel (by omega)]
  · obtain ⟨events, hok, -⟩ := DashboardSnapshot.setLayout_legal hd.ids hlaid'.legal at'
    exact ⟨_, hok⟩

/-! ### A card that juts out of the grid -/

/-- A card on row 0, with a card from the corner over all columns on its left. -/
structure Jam (corner card : LayoutItem) : Prop where
  origin : corner.x = 0 ∧ corner.y = 0
  top : card.y = 0
  left : card.x ≤ corner.w
  apart : corner.i ≠ card.i

structure Jammed (corner card : LayoutItem) (items : Layout) : Prop where
  tidy : Tidy items
  left : ∀ a ∈ items, 0 ≤ a.x
  corner : corner ∈ items
  card : card ∈ items

section Jammed

variable {corner card : LayoutItem} {cols : ℤ}

/-- Neither the jammed card nor the one in the corner has a slot to go to. -/
theorem Jammed.no_slot (hj : Jam corner card) (h : Jammed corner card items) :
    freeSlot (items.filter (·.i ≠ card.i)) cols card = none ∧
      freeSlot (items.filter (·.i ≠ corner.i)) cols corner = none := by
  have hrow {a : LayoutItem} (ha : a.y = 0) {x y : ℤ} {id : TileId}
      (hy : y = 0 ∨ y = a.y ∨ ∃ o ∈ items.filter (·.i ≠ id), y = o.bottom)
      (hearlier : Earlier a x y) : y = 0 ∧ x < a.x := by
    have hy0 : 0 ≤ y := by
      rcases hy with rfl | rfl | ⟨o, ho, rfl⟩
      · exact le_rfl
      · exact ha.ge
      · have ho := (List.mem_filter.1 ho).1
        exact add_nonneg (h.tidy.rows o ho) (h.tidy.proper o ho).2.le
    unfold Earlier at hearlier
    omega
  refine ⟨freeSlot_none.2 fun x y hx _ hy hearlier hfree ↦ ?_,
    freeSlot_none.2 fun x y hx _ hy hearlier _ ↦ ?_⟩
  · obtain ⟨rfl, hlt⟩ := hrow hj.top hy hearlier
    have hin : corner ∈ items.filter (·.i ≠ card.i) :=
      List.mem_filter.2 ⟨h.corner, decide_eq_true hj.apart⟩
    have hcorner := h.tidy.proper corner h.corner
    have hcard := h.tidy.proper card h.card
    have hleft := hj.left
    obtain ⟨hcx, hcy⟩ := hj.origin
    refine hfree corner hin ?_
    simp only [Rectangle.Overlaps, LayoutItem.rectangle]
    omega
  · obtain ⟨-, hlt⟩ := hrow hj.origin.2 hy hearlier
    have hcx := hj.origin.1
    omega

theorem Jammed.moved (hj : Jam corner card) (h : Jammed corner card items) (ha : a ∈ items) {x y : ℤ}
    (hslot : freeSlot (items.filter (·.i ≠ a.i)) cols a = some (x, y)) :
    Jammed corner card (moveTo items a.i x y) := by
  obtain ⟨hcard, hcorner⟩ : freeSlot (items.filter (·.i ≠ card.i)) cols card = none ∧
      freeSlot (items.filter (·.i ≠ corner.i)) cols corner = none := h.no_slot hj
  obtain ⟨hx, hrow, -, hfree⟩ := freeSlot_some hslot
  have hstay {b : LayoutItem} (hb : b ∈ items)
      (hnone : freeSlot (items.filter (·.i ≠ b.i)) cols b = none) : b ∈ moveTo items a.i x y := by
    refine List.mem_map.2 ⟨b, hb, if_neg fun hid ↦ ?_⟩
    rw [eq_of_id h.tidy.ids hb ha hid, hslot] at hnone
    cases hnone
  have hy : 0 ≤ y := by
    rcases hrow with rfl | rfl | ⟨o, ho, rfl⟩
    · exact le_rfl
    · exact h.tidy.rows a ha
    · have ho := (List.mem_filter.1 ho).1
      exact add_nonneg (h.tidy.rows o ho) (h.tidy.proper o ho).2.le
  refine ⟨h.tidy.moveTo ha hy hfree, fun b hb ↦ ?_, hstay h.corner hcorner, hstay h.card hcard⟩
  obtain ⟨c, hc, -, ⟨-, rfl⟩ | ⟨-, rfl⟩⟩ := mem_moveTo hb
  · exact hx.1
  · exact h.left _ hc

theorem Jammed.foldl (hj : Jam corner card) {rest : Layout} {s : Layout × Bool}
    (h : Jammed corner card s.1) (hrest : ∀ r ∈ rest, r ∈ s.1) (hids : (rest.map (·.i)).Nodup) :
    Jammed corner card (rest.foldl (settle cols) s).1 := by
  induction rest generalizing s with
  | nil => exact h
  | cons a rest ih =>
    rw [List.map_cons, List.nodup_cons] at hids
    have hrest' : ∀ r ∈ rest, r ∈ s.1 := fun r hr ↦ hrest r (List.mem_cons_of_mem _ hr)
    rw [List.foldl_cons]
    rcases settle_cases cols s a with ⟨hsame, -⟩ | ⟨x, y, -, hslot, hmove⟩
    · rw [hsame]
      exact ih h hrest' hids.2
    · rw [hmove]
      refine ih (s := (moveTo s.1 a.i x y, true)) (h.moved hj (hrest a List.mem_cons_self) hslot)
        (fun r hr ↦ ?_) hids.2
      have hne : r.i ≠ a.i := fun hid ↦ hids.1 (hid ▸ List.mem_map_of_mem hr)
      exact List.mem_map.2 ⟨r, hrest' r hr, if_neg hne⟩

theorem Jammed.pass (hj : Jam corner card) (order : Option (List TileId))
    (h : Jammed corner card items) :
    Jammed corner card ((settlingOrder order items).foldl (settle cols) (items, false)).1 := by
  have hperm := settlingOrder_perm order items
  exact Jammed.foldl hj h (fun r hr ↦ hperm.mem_iff.1 hr) ((hperm.map _).nodup_iff.2 h.tidy.ids)

/-- Packing leaves a jammed card where it is. -/
theorem Jammed.packInsights {v : VerticalCompactor} (hj : Jam corner card) {fuel : ℕ}
    {order : Option (List TileId)} (h : Jammed corner card (v.compact layout cols))
    (hp : packInsights v fuel layout cols none order = some items) : Jammed corner card items := by
  have hhold : hold none layout = layout := by
    rw [hold, List.map_congr_left fun a _ ↦ if_neg (Option.some_ne_none a.i), List.map_id']
  have hnone : layout.find? (fun a ↦ some a.i = none) = none := by
    rw [List.find?_eq_none]
    simp
  rw [Console.packInsights, hhold] at hp
  obtain ⟨settled, hloop, hrelease⟩ := Option.map_eq_some_iff.1 hp
  rw [release, hnone] at hrelease
  dsimp only at hrelease
  subst hrelease
  refine (halts_of_loop hloop).invariant (P := Jammed corner card) ?_ ?_ h
  · intro s s' hs hbody
    rw [Console.pass] at hbody
    split_ifs at hbody
    exact Sum.inl.inj hbody ▸ hs.pass hj order
  · intro s t hs hbody
    rw [Console.pass] at hbody
    split_ifs at hbody
    exact Sum.inr.inj hbody ▸ hs.pass hj order

/-- The card in the corner is the first, so that it cannot move up. -/
theorem Jammed.moveMobileInsight {v : VerticalCompactor} {fuel : ℕ} (hj : Jam corner card)
    (h : Jammed corner card layout) :
    moveMobileInsight v fuel layout corner.i .up = some layout := by
  have hperm := layoutOrder_perm layout
  have hsorted : (layoutOrder layout).Pairwise
      (fun a b ↦ a.rectangle.Before b.rectangle) := List.pairwise_insertionSort _ layout
  have hcorner := hperm.mem_iff.2 h.corner
  have hfirst : (mobileLayout layout).findIdx? (fun b ↦ b.i = corner.i) = some 0 := by
    rw [mobileLayout]
    cases hl : layoutOrder layout with
    | nil =>
      rw [hl] at hcorner
      cases hcorner
    | cons a rest =>
      have ha : a ∈ layout := hperm.mem_iff.1 (hl ▸ List.mem_cons_self)
      rw [hl] at hcorner hsorted
      have hid : a.i = corner.i := by
        by_contra hne
        have hrest := (List.mem_cons.1 hcorner).resolve_left fun heq ↦ hne (heq ▸ rfl)
        have hbefore := (List.pairwise_cons.1 hsorted).1 corner hrest
        have hapart := h.tidy.apart a ha corner h.corner hne
        have hsize := h.tidy.proper a ha
        have hsize' := h.tidy.proper corner h.corner
        have hleft := h.left a ha
        have hrow := h.tidy.rows a ha
        obtain ⟨hx, hy⟩ := hj.origin
        simp only [Rectangle.Before, Rectangle.Overlaps, LayoutItem.rectangle] at hbefore hapart
        omega
      rw [stack, List.findIdx?_cons, if_pos (decide_eq_true hid)]
  simp only [Console.moveMobileInsight, hfirst, Option.map_some, Option.getD_some, Offset.value]
  exact if_pos (.inl (by decide))

end Jammed

/-- The server refuses a layout with a card that juts out of the columns. -/
theorem setLayout_refuses (ha : a ∈ layout) (hout : 12 < a.x + a.w) (at' : Instant) :
    ∀ r, d.setLayout (placementsOf layout) at' ≠ .ok r := by
  intro r hr
  have hmem : (⟨⟨a.x, a.y, a.h⟩, a.i, a.w⟩ : TilePlacement) ∈ placementsOf layout :=
    List.mem_map_of_mem (f := fun b : LayoutItem ↦ (⟨⟨b.x, b.y, b.h⟩, b.i, b.w⟩ : TilePlacement))
      ((layoutOrder_perm layout).mem_iff.2 ha)
  have hbad : (placementsOf layout).any
      (fun p ↦ !validTileWidth p.width || !validTileLayout p.toTileLayout p.width) = true := by
    rw [List.any_eq_true]
    refine ⟨_, hmem, ?_⟩
    have hwide : ¬ a.x + a.w ≤ rowUnits := by
      rw [rowUnits]
      omega
    rw [Bool.or_eq_true]
    right
    simp [validTileLayout, JsNumber.intCast_plus, JsNumber.intCast_le, hwide]
  rw [DashboardSnapshot.setLayout, hbad] at hr
  simp only [if_true] at hr
  split_ifs at hr

section Samples

def sampleTile (id : TileId) (width : ℤ) (layout : Option TileLayout) : Tile Unit :=
  ⟨id, js "Visits", js "pr_1", (), .line, (width : JsNumber), layout⟩

def sampleBoard (tiles : List (Tile Unit)) : DashboardSnapshot Unit :=
  ⟨js "db_1", js "ws_1", js "Traffic", tiles, false, none⟩

def row (y : ℤ) : TileLayout := ⟨(0 : ℤ), (y : JsNumber), (20 : ℤ)⟩

theorem sampleBoard_sound {tiles : List (Tile Unit)} (hids : (tiles.map (·.id)).Nodup)
    (hcount : tiles.length ≤ maxTiles)
    (htiles : ∀ t ∈ tiles, ∃ w : ℤ, 1 ≤ w ∧ w ≤ rowUnits ∧
      (t = sampleTile t.id w none ∨
        ∃ y : ℤ, 0 ≤ y ∧ y ≤ 1000 ∧ t = sampleTile t.id w (some (row y))))
    (hapart : ∀ t ∈ tiles, ∀ u ∈ tiles, t.id ≠ u.id → ∀ y z w w' : ℤ,
      t = sampleTile t.id w (some (row y)) → u = sampleTile u.id w' (some (row z)) →
      y + 20 ≤ z ∨ z + 20 ≤ y) : Sound (sampleBoard tiles) := by
  have hplaced {t : Tile Unit} (ht : t ∈ tiles) {p : TilePlacement} (hp : t.placement = some p) :
      ∃ w y : ℤ, 1 ≤ w ∧ w ≤ rowUnits ∧ 0 ≤ y ∧ y ≤ 1000 ∧ t = sampleTile t.id w (some (row y)) ∧
        p = ⟨row y, t.id, (w : JsNumber)⟩ := by
    obtain ⟨w, hw, hw', hnone | ⟨y, hy, hy', hsome⟩⟩ := htiles t ht
    · rw [hnone] at hp
      cases hp
    · refine ⟨w, y, hw, hw', hy, hy', hsome, ?_⟩
      rw [hsome] at hp
      exact (Option.some.inj hp).symm
  constructor
  · exact hids
  · exact hcount
  · intro t ht
    obtain ⟨w, -, -, h | ⟨y, -, -, h⟩⟩ := htiles t ht <;>
    · rw [h]
      exact (by decide : (js "Visits").trim ≠ [])
  · intro t ht
    obtain ⟨w, hw, hw', h | ⟨y, -, -, h⟩⟩ := htiles t ht <;>
    · rw [h]
      exact ⟨w, hw, hw', rfl⟩
  · intro t ht p hp
    obtain ⟨w, y, hw, hw', hy, hy', -, rfl⟩ := hplaced ht hp
    have hint (m : ℤ) : (m : JsNumber).isInteger = true := JsNumber.isInteger_iff.2 ⟨m, rfl⟩
    rw [rowUnits] at hw'
    simp only [TilePlacement.valid, validTileWidth, validTileLayout, row, hint, Bool.true_and,
      JsNumber.intCast_plus, JsNumber.intCast_le, rowUnits, Bool.and_eq_true, decide_eq_true_eq,
      and_true]
    omega
  · intro t ht u hu hne p q hp hq
    obtain ⟨w, y, -, -, -, -, hty, rfl⟩ := hplaced ht hp
    obtain ⟨w', z, -, -, -, -, huz, rfl⟩ := hplaced hu hq
    have hrows := hapart t ht u hu hne y z w w' hty huz
    simp only [TilePlacement.overlaps, row, JsNumber.intCast_plus, JsNumber.intCast_lt,
      Bool.and_eq_false_iff, decide_eq_false_iff_not]
    omega

/-- Bars of twenty rows with five free ones between them. -/
def bar (k : ℕ) : Tile Unit := sampleTile [UInt16.ofNat k] 10 (some (row (25 * k)))

def wall : DashboardSnapshot Unit :=
  sampleBoard ((List.range 41).map bar ++ [sampleTile [41] 3 none])

def barCard (k : ℕ) : LayoutItem := ⟨[UInt16.ofNat k], 0, 25 * k, 10, 20, some 3, some 5, none⟩

def lastCard (y : ℤ) : LayoutItem := ⟨[41], 10, y, 3, 6, some 3, some 5, none⟩

theorem wall_sound : Sound wall := by
  have hbar {t : Tile Unit} (ht : t ∈ (List.range 41).map bar ++ [sampleTile [41] 3 none]) :
      (∃ k < 41, t = bar k) ∨ t = sampleTile [41] 3 none := by
    rcases List.mem_append.1 ht with ht | ht
    · obtain ⟨k, hk, rfl⟩ := List.mem_map.1 ht
      exact .inl ⟨k, List.mem_range.1 hk, rfl⟩
    · exact .inr (List.mem_singleton.1 ht)
  refine sampleBoard_sound (by decide) (by decide) (fun t ht ↦ ?_) fun t ht u hu hne y z w w' hy hz ↦ ?_
  · obtain ⟨k, hk, rfl⟩ | rfl := hbar ht
    · exact ⟨10, by decide, by decide, .inr ⟨25 * k, by omega, by omega, rfl⟩⟩
    · exact ⟨3, by decide, by decide, .inl rfl⟩
  · have hcast {y y' : ℤ} (h : some (row y) = some (row y')) : y = y' :=
      JsNumber.intCast_inj.1 (congrArg TileLayout.y (Option.some.inj h))
    obtain ⟨k, hk, rfl⟩ | rfl := hbar ht
    · obtain ⟨m, hm, rfl⟩ | rfl := hbar hu
      · have hky := hcast (congrArg Tile.layout hy)
        have hmz := hcast (congrArg Tile.layout hz)
        have hkm : k ≠ m := fun h ↦ hne (h ▸ rfl)
        omega
      · cases congrArg Tile.layout hz
    · cases congrArg Tile.layout hy

theorem itemOf_bar (k : ℕ) : itemOf (bar k) = barCard k := by
  simp only [itemOf, bar, sampleTile, row, Option.map_some, Option.getD_some, units_intCast, barCard]
  rfl

theorem placeAll_bars (n : ℕ) :
    ((List.range n).map bar).foldl (fun placed tile ↦ placed ++ [place placed tile]) [] =
      (List.range n).map barCard := by
  induction n with
  | zero => rfl
  | succ n ih =>
    have hneeds : ¬ needsSearch ((List.range n).map barCard) (bar n) = true := by
      rw [needsSearch, Bool.not_eq_true, Bool.or_eq_false_iff, List.any_eq_false]
      refine ⟨rfl, List.forall_mem_map.2 fun k hk ho ↦ ?_⟩
      rw [itemOf_bar, collides_iff] at ho
      have hk := List.mem_range.1 hk
      simp only [Rectangle.Overlaps, LayoutItem.rectangle, barCard] at ho
      omega
    have hplace : place ((List.range n).map barCard) (bar n) = barCard n := by
      rw [place]
      exact (if_neg hneeds).trans (itemOf_bar n)
    rw [List.range_succ, List.map_append, List.map_append, List.foldl_append, ih]
    exact congrArg (fun a ↦ (List.range n).map barCard ++ [a]) hplace

theorem itemOf_last :
    itemOf (sampleTile [41] 3 none) = ⟨[41], 0, 0, 3, 6, some 3, some 5, none⟩ := by
  simp only [itemOf, sampleTile, Option.map_none, Option.getD_none, units_intCast]
  rfl

/-- The search finds no place between the bars. -/
theorem placeAll_wall :
    placeAll wall.tiles = (List.range 41).map barCard ++ [lastCard 1001] := by
  have hsearch : search ((List.range 41).map barCard)
      (itemOf (sampleTile [41] 3 none)) = none := by
    refine search_none.2 fun x y hx hw hy hy' hfree ↦ ?_
    -- the bar the six rows run into
    obtain ⟨k, hk⟩ : ∃ k : ℕ, (k : ℤ) = (y + 5) / 25 := ⟨((y + 5) / 25).toNat, by omega⟩
    have hlt : k < 41 := by omega
    rw [itemOf_last] at hw hfree
    dsimp only at hw
    refine hfree (barCard k) (List.mem_map_of_mem (List.mem_range.2 hlt)) ?_
    simp only [Rectangle.Overlaps, LayoutItem.rectangle, barCard]
    omega
  rw [placeAll, wall, sampleBoard]
  dsimp only
  rw [List.foldl_append, placeAll_bars, List.foldl_cons, List.foldl_nil, place]
  rw [hsearch, itemOf_last]
  rfl

theorem mem_placeAll_wall : a ∈ placeAll wall.tiles ↔
    (∃ k < 41, a = barCard k) ∨ a = lastCard 1001 := by
  rw [placeAll_wall, List.mem_append, List.mem_map, List.mem_singleton]
  simp only [List.mem_range, eq_comm]

theorem placeAll_wall_tidy : Tidy (placeAll wall.tiles) := by
  have hids : ((placeAll wall.tiles).map (·.i)) =
      (List.range 41).map (fun k ↦ [UInt16.ofNat k]) ++ [[41]] := by
    rw [placeAll_wall, List.map_append, List.map_map]
    rfl
  constructor
  · rw [hids]
    decide
  · intro a ha
    obtain ⟨k, -, rfl⟩ | rfl := mem_placeAll_wall.1 ha
    · exact ⟨(by decide : (0 : ℤ) < 10), (by decide : (0 : ℤ) < 20)⟩
    · decide
  · intro a ha
    obtain ⟨k, -, rfl⟩ | rfl := mem_placeAll_wall.1 ha
    · exact Int.mul_nonneg (by decide) (Int.natCast_nonneg k)
    · decide
  · intro a ha b hb hne ho
    obtain ⟨k, -, rfl⟩ | rfl := mem_placeAll_wall.1 ha <;>
      obtain ⟨m, -, rfl⟩ | rfl := mem_placeAll_wall.1 hb
    · have hkm : k ≠ m := fun h ↦ hne (h ▸ rfl)
      simp only [Rectangle.Overlaps, LayoutItem.rectangle, barCard] at ho
      omega
    · simp only [Rectangle.Overlaps, LayoutItem.rectangle, barCard, lastCard] at ho
      omega
    · simp only [Rectangle.Overlaps, LayoutItem.rectangle, barCard, lastCard] at ho
      omega
    · exact hne rfl

theorem wall_jam : Jam (barCard 0) (lastCard 0) := ⟨⟨rfl, rfl⟩, rfl, by decide, by decide⟩

/-- Compacted, the last card is next to the first bar. -/
theorem wall_jammed : Jammed (barCard 0) (lastCard 0)
    (verticalCompactor.compact (placeAll wall.tiles) 12) := by
  have htidy := placeAll_wall_tidy
  have hraise := verticalCompactor.raises _ 12 htidy
  have hcompacted := verticalCompactor.tidy _ 12 htidy
  refine ⟨hcompacted, fun b hb ↦ ?_, ?_, ?_⟩
  · obtain ⟨a, ha, hab⟩ := forall₂_right hraise hb
    rw [hab.same]
    obtain ⟨k, -, rfl⟩ | rfl := mem_placeAll_wall.1 ha
    · exact le_rfl
    · exact (by decide : (0 : ℤ) ≤ 10)
  · obtain ⟨b, hb, hab⟩ := forall₂_left hraise (mem_placeAll_wall.2 (.inl ⟨0, by decide, rfl⟩))
    have hup : b.y ≤ 0 := hab.up
    have hrow : 0 = b.y := le_antisymm (hcompacted.rows b hb) hup
    have hsame : b = barCard 0 := by
      rw [hab.same, ← hrow]
      rfl
    rwa [hsame] at hb
  · refine compactVertically_top (a := lastCard 1001) htidy (mem_placeAll_wall.2 (.inr rfl))
      (fun b hb ↦ ?_) (fun b hb ↦ ?_) 12
    · obtain ⟨k, -, rfl⟩ | rfl := mem_placeAll_wall.1 hb <;> exact nofun
    · obtain ⟨k, -, rfl⟩ | rfl := mem_placeAll_wall.1 hb
      · exact .inr (.inl (by decide : (0 : ℤ) + 10 ≤ 10))
      · exact .inl rfl

/-- The console's layout of a wall with no room for one more card is refused. -/
theorem wall_refused :
    Sound wall ∧ ¬ ∃ (fuel : ℕ) (layout : Layout) (at' : Instant) (r : DashboardApplied Unit),
      (insightLayout verticalCompactor fuel wall.tiles).bind
        (fun start ↦ run (Operation.apply verticalCompactor fuel) start
          [(.move [0] (by decide) .up : Operation wall)]) = some layout ∧
      wall.setLayout (placementsOf layout) at' = .ok r := by
  refine ⟨wall_sound, ?_⟩
  rintro ⟨fuel, layout, at', r, hrun, hok⟩
  obtain ⟨start, hstart, hrun⟩ := Option.bind_eq_some_iff.1 hrun
  have hjammed := wall_jammed.packInsights wall_jam hstart
  have hmove : (Operation.move [0] (by decide) .up : Operation wall).apply verticalCompactor fuel
      start = some start := hjammed.moveMobileInsight wall_jam
  rw [run, hmove] at hrun
  obtain rfl : start = layout := Option.some.inj hrun
  exact setLayout_refuses hjammed.card (by decide) at' r hok

def pair : DashboardSnapshot Unit :=
  sampleBoard [sampleTile (js "a") 6 (some (row 0)), sampleTile (js "b") 6 none]

theorem pair_legal : Sound pair ∧ Roomy [] pair.tiles ∧
    ∃ layout, (∃ least, ∀ fuel, least ≤ fuel →
        (insightLayout verticalCompactor fuel pair.tiles).bind
          (fun start ↦ run (Operation.apply verticalCompactor fuel) start
            [(.adjust (js "b") (by decide) ⟨none, none, some 12, none⟩ : Operation pair),
              .move (js "a") (by decide) .down]) = some layout) ∧
      (layout.map (·.i)).Perm (pair.tiles.map (·.id)) ∧ Legal pair (placementsOf layout) ∧
      ∀ at', ∃ r, pair.setLayout (placementsOf layout) at' = .ok r := by
  have hsound : Sound pair := by
    refine sampleBoard_sound (by decide) (by decide) ?_ ?_
    · refine List.forall_mem_cons.2 ⟨⟨6, by decide, by decide, .inr ⟨0, le_rfl, by decide, rfl⟩⟩,
        List.forall_mem_singleton.2 ⟨6, by decide, by decide, .inl rfl⟩⟩
    · intro t ht u hu hne y z w w' hy hz
      rcases List.mem_cons.1 ht with rfl | ht
      · rcases List.mem_cons.1 hu with rfl | hu
        · exact absurd rfl hne
        · rw [List.mem_singleton.1 hu] at hz
          cases congrArg Tile.layout hz
      · rw [List.mem_singleton.1 ht] at hy
        cases congrArg Tile.layout hy
  have hroomy : Roomy [] pair.tiles := by
    refine ⟨fun h ↦ absurd h (by decide), fun _ ↦ ⟨6, 0, by decide, by decide, by decide, by decide, ?_⟩,
      trivial⟩
    exact (by decide : ∀ o ∈ [place [] (sampleTile (js "a") 6 (some (row 0)))],
      ¬ ({ itemOf (sampleTile (js "b") 6 none) with x := 6, y := 0 } : LayoutItem).rectangle.Overlaps
        o.rectangle)
  exact ⟨hsound, hroomy, console_layouts_legal verticalCompactor pair hsound hroomy _⟩

end Samples

end Counted.Console
