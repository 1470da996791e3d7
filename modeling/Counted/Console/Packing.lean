import Counted.Console.Compactor

namespace Counted.Console

open Foundations Dashboarding

variable {cols x y : ℤ} {items others layout : Layout} {item a b : LayoutItem}

theorem collides_iff : collides a b = true ↔ a.rectangle.Overlaps b.rectangle := decide_eq_true_iff

/-! ### Slots -/

theorem mem_columns : x ∈ columns cols item ↔ 0 ≤ x ∧ x + item.w ≤ cols := by
  simp only [columns, List.mem_map, List.mem_range]
  constructor
  · rintro ⟨n, hn, rfl⟩
    omega
  · rintro ⟨h0, hw⟩
    exact ⟨x.toNat, by omega, by omega⟩

theorem mem_rows : y ∈ rows item others ↔
    (y = 0 ∨ y = item.y ∨ ∃ o ∈ others, y = o.bottom) ∧ y ≤ item.y := by
  simp only [rows, List.mem_insertionSort, List.mem_filter, List.mem_dedup, List.mem_cons,
    List.mem_map, decide_eq_true_eq]
  simp only [eq_comm (a := y)]

/-- The place is none of the card's own or later ones. -/
def Earlier (item : LayoutItem) (x y : ℤ) : Prop := y < item.y ∨ y = item.y ∧ x < item.x

def Free (others : Layout) (item : LayoutItem) (x y : ℤ) : Prop :=
  ∀ o ∈ others, ¬ ({ item with x, y } : LayoutItem).rectangle.Overlaps o.rectangle

theorem free_iff : (!others.any (collides { item with x, y })) = true ↔ Free others item x y := by
  simp only [Bool.not_eq_true', ← Bool.not_eq_true, List.any_eq_true, not_exists, not_and,
    collides_iff]
  rfl

theorem takeWhile_eq_filter {α : Type} {p : α → Bool} {l : List α}
    (h : l.Pairwise (fun a b ↦ p b → p a)) : l.takeWhile p = l.filter p := by
  induction l with
  | nil => rfl
  | cons a l ih =>
    rw [List.pairwise_cons] at h
    by_cases ha : p a
    · rw [List.takeWhile_cons_of_pos ha, List.filter_cons_of_pos ha, ih h.2]
    · rw [List.takeWhile_cons_of_neg ha, List.filter_cons_of_neg ha, eq_comm,
        List.filter_eq_nil_iff]
      exact fun b hb hpb ↦ ha (h.1 b hb hpb)

theorem columns_pairwise (cols : ℤ) (item : LayoutItem) :
    (columns cols item).Pairwise (· < ·) := by
  rw [columns, List.pairwise_map]
  exact List.pairwise_lt_range.imp fun h ↦ by exact_mod_cast h

theorem mem_takeWhile_columns {p : ℤ → Bool} (hp : ∀ x x', x < x' → p x' → p x) :
    x ∈ (columns cols item).takeWhile p ↔ (0 ≤ x ∧ x + item.w ≤ cols) ∧ p x := by
  rw [takeWhile_eq_filter ((columns_pairwise cols item).imp fun h ↦ hp _ _ h), List.mem_filter,
    mem_columns]

theorem earlier_columns {x x' : ℤ} (h : x < x')
    (hx : (!(decide (y = item.y) && decide (item.x ≤ x'))) = true) :
    (!(decide (y = item.y) && decide (item.x ≤ x))) = true := by
  simp only [Bool.not_eq_true', Bool.and_eq_false_iff, decide_eq_false_iff_not] at hx ⊢
  omega

theorem freeSlot_some (h : freeSlot others cols item = some (x, y)) :
    (0 ≤ x ∧ x + item.w ≤ cols) ∧ (y = 0 ∨ y = item.y ∨ ∃ o ∈ others, y = o.bottom) ∧
      Earlier item x y ∧ Free others item x y := by
  obtain ⟨y', hy', hx⟩ := List.exists_of_findSome?_eq_some h
  rw [Option.map_eq_some_iff] at hx
  obtain ⟨x', hx', hxy⟩ := hx
  obtain ⟨rfl, rfl⟩ := Prod.mk.inj hxy
  obtain ⟨hrow, hle⟩ := mem_rows.1 hy'
  rw [freeColumn] at hx'
  obtain ⟨hcol, hbefore⟩ := (mem_takeWhile_columns fun _ _ ↦ earlier_columns).1
    (List.mem_of_find?_eq_some hx')
  have hfound := List.find?_some hx'
  refine ⟨hcol, hrow, ?_, free_iff.1 hfound⟩
  simp only [Bool.not_eq_true', Bool.and_eq_false_iff, decide_eq_false_iff_not] at hbefore
  unfold Earlier
  omega

/-- No slot is found where no place is free on row 0, at the bottom of another card or in the
card's own row. -/
theorem freeSlot_none : freeSlot others cols item = none ↔
    ∀ x y, 0 ≤ x → x + item.w ≤ cols → (y = 0 ∨ y = item.y ∨ ∃ o ∈ others, y = o.bottom) →
      Earlier item x y → ¬ Free others item x y := by
  simp only [freeSlot, List.findSome?_eq_none_iff, Option.map_eq_none_iff, freeColumn,
    List.find?_eq_none, free_iff, mem_takeWhile_columns fun _ _ ↦ earlier_columns]
  constructor
  · intro h x y h0 hw hrow hearlier
    have hle : y ≤ item.y := by
      unfold Earlier at hearlier
      omega
    refine h y (mem_rows.2 ⟨hrow, hle⟩) x ⟨⟨h0, hw⟩, ?_⟩
    simp only [Bool.not_eq_true', Bool.and_eq_false_iff, decide_eq_false_iff_not]
    unfold Earlier at hearlier
    omega
  · rintro h y hy x ⟨⟨h0, hw⟩, hbefore⟩
    obtain ⟨hrow, hle⟩ := mem_rows.1 hy
    refine h x y h0 hw hrow ?_
    simp only [Bool.not_eq_true', Bool.and_eq_false_iff, decide_eq_false_iff_not] at hbefore
    unfold Earlier
    omega

/-! ### One card of a pass -/

theorem mem_moveTo {id : TileId} (h : a ∈ moveTo items id x y) :
    ∃ b ∈ items, a.i = b.i ∧ ((b.i = id ∧ a = { b with x, y }) ∨ (b.i ≠ id ∧ a = b)) := by
  obtain ⟨b, hb, rfl⟩ := List.mem_map.1 h
  by_cases hid : b.i = id
  · exact ⟨b, hb, by rw [if_pos hid], .inl ⟨hid, if_pos hid⟩⟩
  · exact ⟨b, hb, by rw [if_neg hid], .inr ⟨hid, if_neg hid⟩⟩

theorem shapes_moveTo (id : TileId) (x y : ℤ) :
    (moveTo items id x y).map LayoutItem.shape = items.map LayoutItem.shape := by
  rw [moveTo, List.map_map]
  refine List.map_congr_left fun a _ ↦ ?_
  by_cases h : a.i = id <;> simp [LayoutItem.shape, h]

theorem ids_of_shapes {l m : Layout} (h : l.map LayoutItem.shape = m.map LayoutItem.shape) :
    l.map (·.i) = m.map (·.i) := by
  have := congrArg (List.map Prod.fst) h
  rwa [List.map_map, List.map_map] at this

theorem eq_of_id (h : (items.map (·.i)).Nodup) (ha : a ∈ items) (hb : b ∈ items)
    (hid : a.i = b.i) : a = b := List.inj_on_of_nodup_map h ha hb hid

/-- A card that moves to a free place of the columns leaves the layout tidy. -/
theorem Tidy.moveTo (h : Tidy items) (ha : a ∈ items) (hy : 0 ≤ y)
    (hfree : Free (items.filter (·.i ≠ a.i)) a x y) : Tidy (moveTo items a.i x y) := by
  have hother {b : LayoutItem} (hb : b ∈ items) (hne : b.i ≠ a.i) :
      b ∈ items.filter (·.i ≠ a.i) := List.mem_filter.2 ⟨hb, decide_eq_true hne⟩
  constructor
  · rw [ids_of_shapes (shapes_moveTo ..)]
    exact h.ids
  · intro b hb
    obtain ⟨c, hc, -, ⟨-, rfl⟩ | ⟨-, rfl⟩⟩ := mem_moveTo hb
    · exact h.proper c hc
    · exact h.proper _ hc
  · intro b hb
    obtain ⟨c, hc, -, ⟨-, rfl⟩ | ⟨-, rfl⟩⟩ := mem_moveTo hb
    · exact hy
    · exact h.rows _ hc
  · intro b hb c hc hne
    obtain ⟨b', hb', hbi, ⟨hba, rfl⟩ | ⟨hba, rfl⟩⟩ := mem_moveTo hb <;>
      obtain ⟨c', hc', hci, ⟨hca, rfl⟩ | ⟨hca, rfl⟩⟩ := mem_moveTo hc
    · exact absurd (hba.trans hca.symm) hne
    · obtain rfl := eq_of_id h.ids hb' ha hba
      exact hfree c (hother hc' hca)
    · obtain rfl := eq_of_id h.ids hc' ha hca
      exact fun ho ↦ hfree b (hother hb' hba) ho.symm
    · exact h.apart b hb' c hc' hne

theorem Within.moveTo {id : TileId} (h : Within cols items)
    (hx : ∀ a ∈ items, a.i = id → 0 ≤ x ∧ x + a.w ≤ cols) : Within cols (moveTo items id x y) := by
  intro b hb
  obtain ⟨c, hc, -, ⟨hid, rfl⟩ | ⟨-, rfl⟩⟩ := mem_moveTo hb
  · exact hx c hc hid
  · exact h _ hc

/-- How far the cards are from the top left corner. -/
def distance (cols : ℤ) (items : Layout) : ℕ :=
  (items.map (fun a ↦ (a.y * (cols + 1) + a.x).toNat)).sum

theorem distance_moveTo (h : Tidy items) (hw : Within cols items) (ha : a ∈ items)
    (hx : 0 ≤ x ∧ x + a.w ≤ cols) (hy : 0 ≤ y) (hearlier : Earlier a x y) :
    distance cols (moveTo items a.i x y) < distance cols items := by
  have hless : (y * (cols + 1) + x).toNat < (a.y * (cols + 1) + a.x).toNat := by
    have hax := hw a ha
    have haw := (h.proper a ha).1
    have hay := h.rows a ha
    have hlt : y * (cols + 1) + x < a.y * (cols + 1) + a.x := by
      rcases hearlier with hlt | ⟨rfl, hlt⟩
      · nlinarith
      · omega
    have hnn : 0 ≤ y * (cols + 1) + x := by nlinarith
    omega
  have hlist (l : Layout) (hl : ∀ b ∈ l, b ∈ items) :
      distance cols (Console.moveTo l a.i x y) ≤ distance cols l ∧
        (a ∈ l → distance cols (Console.moveTo l a.i x y) < distance cols l) := by
    induction l with
    | nil => exact ⟨le_rfl, nofun⟩
    | cons b l ih =>
      obtain ⟨hle, hlt⟩ := ih fun c hc ↦ hl c (List.mem_cons_of_mem _ hc)
      simp only [distance, Console.moveTo, List.map_cons, List.sum_cons] at hle hlt ⊢
      by_cases hid : b.i = a.i
      · obtain rfl := eq_of_id h.ids (hl b List.mem_cons_self) ha hid
        rw [if_pos rfl]
        dsimp only
        exact ⟨by omega, fun _ ↦ by omega⟩
      · rw [if_neg hid]
        refine ⟨by omega, fun hmem ↦ ?_⟩
        rcases List.mem_cons.1 hmem with rfl | hmem
        · exact absurd rfl hid
        · have := hlt hmem
          omega
  exact (hlist items fun _ h ↦ h).2 ha

/-! ### A pass -/

/-- What packing keeps of a layout. -/
structure Kept (cols : ℤ) (start items : Layout) : Prop where
  tidy : Tidy items
  within : Within cols items
  shapes : items.map LayoutItem.shape = start.map LayoutItem.shape
  static : ∀ a ∈ start, a.static = some true → a ∈ items

/-- No card that may move has an earlier place to go to. -/
def Settled (cols : ℤ) (items : Layout) : Prop :=
  ∀ a ∈ items, a.static ≠ some true → freeSlot (items.filter (·.i ≠ a.i)) cols a = none

theorem settle_cases (cols : ℤ) (s : Layout × Bool) (item : LayoutItem) :
    (settle cols s item = s ∧ (item.static ≠ some true →
      freeSlot (s.1.filter (·.i ≠ item.i)) cols item = none)) ∨
    ∃ x y, item.static ≠ some true ∧ freeSlot (s.1.filter (·.i ≠ item.i)) cols item = some (x, y) ∧
      settle cols s item = (moveTo s.1 item.i x y, true) := by
  by_cases hstatic : item.static = some true
  · exact .inl ⟨by rw [settle, if_pos hstatic], fun h ↦ absurd hstatic h⟩
  · cases hslot : freeSlot (s.1.filter (·.i ≠ item.i)) cols item with
    | none => exact .inl ⟨by rw [settle, if_neg hstatic, hslot], fun _ ↦ rfl⟩
    | some p => exact .inr ⟨p.1, p.2, hstatic, rfl, by rw [settle, if_neg hstatic, hslot]⟩

theorem Kept.moved {start : Layout} (h : Kept cols start items) (ha : a ∈ items)
    (hstatic : a.static ≠ some true)
    (hslot : freeSlot (items.filter (·.i ≠ a.i)) cols a = some (x, y)) :
    Kept cols start (moveTo items a.i x y) ∧
      distance cols (moveTo items a.i x y) < distance cols items := by
  obtain ⟨hx, hrow, hearlier, hfree⟩ := freeSlot_some hslot
  have hy : 0 ≤ y := by
    rcases hrow with rfl | rfl | ⟨o, ho, rfl⟩
    · exact le_rfl
    · exact h.tidy.rows a ha
    · have ho := (List.mem_filter.1 ho).1
      exact add_nonneg (h.tidy.rows o ho) (h.tidy.proper o ho).2.le
  refine ⟨⟨h.tidy.moveTo ha hy hfree, h.within.moveTo ?_, ?_, ?_⟩,
    distance_moveTo h.tidy h.within ha hx hy hearlier⟩
  · intro b hb hid
    rwa [eq_of_id h.tidy.ids hb ha hid]
  · rw [shapes_moveTo, h.shapes]
  · intro b hb hbs
    have hmem := h.static b hb hbs
    have hne : b.i ≠ a.i := by
      intro hid
      exact hstatic (eq_of_id h.tidy.ids hmem ha hid ▸ hbs)
    exact List.mem_map.2 ⟨b, hmem, if_neg hne⟩

theorem fold_settle {start rest : Layout} {s : Layout × Bool} (h : Kept cols start s.1)
    (hrest : ∀ r ∈ rest, r ∈ s.1) (hids : (rest.map (·.i)).Nodup) :
    Kept cols start (rest.foldl (settle cols) s).1 ∧
      (rest.foldl (settle cols) s = s ∧ (∀ a ∈ rest, a.static ≠ some true →
          freeSlot (s.1.filter (·.i ≠ a.i)) cols a = none) ∨
        (rest.foldl (settle cols) s).2 = true ∧
          distance cols (rest.foldl (settle cols) s).1 < distance cols s.1) := by
  induction rest generalizing s with
  | nil => exact ⟨h, .inl ⟨rfl, nofun⟩⟩
  | cons a rest ih =>
    rw [List.map_cons, List.nodup_cons] at hids
    have ha := hrest a List.mem_cons_self
    have hrest' : ∀ r ∈ rest, r ∈ s.1 := fun r hr ↦ hrest r (List.mem_cons_of_mem _ hr)
    rw [List.foldl_cons]
    rcases settle_cases cols s a with ⟨hsame, hnone⟩ | ⟨x, y, hstatic, hslot, hmove⟩
    · rw [hsame]
      obtain ⟨hkept, ⟨heq, hall⟩ | hmoved⟩ := ih h hrest' hids.2
      · refine ⟨hkept, .inl ⟨heq, fun b hb ↦ ?_⟩⟩
        rcases List.mem_cons.1 hb with rfl | hb
        · exact hnone
        · exact hall b hb
      · exact ⟨hkept, .inr hmoved⟩
    · rw [hmove]
      obtain ⟨hkept, hless⟩ := h.moved ha hstatic hslot
      have hrest'' : ∀ r ∈ rest, r ∈ moveTo s.1 a.i x y := by
        intro r hr
        have hne : r.i ≠ a.i := fun hid ↦ hids.1 (hid ▸ List.mem_map_of_mem hr)
        exact List.mem_map.2 ⟨r, hrest' r hr, if_neg hne⟩
      obtain ⟨hkept', ⟨heq, -⟩ | ⟨htrue, hless'⟩⟩ :=
        ih (s := (moveTo s.1 a.i x y, true)) hkept hrest'' hids.2
      · rw [heq]
        exact ⟨hkept, .inr ⟨rfl, hless⟩⟩
      · exact ⟨hkept', .inr ⟨htrue, hless'.trans hless⟩⟩

theorem layoutOrder_perm (layout : Layout) : (layoutOrder layout).Perm layout :=
  layout.perm_insertionSort _

theorem settlingOrder_perm (order : Option (List TileId)) (items : Layout) :
    (settlingOrder order items).Perm items := by
  cases order with
  | none => exact layoutOrder_perm items
  | some order => exact (sortBy_perm _ _ _).trans (layoutOrder_perm items)

/-- A pass that moves a card brings the cards closer, and one that moves none has found them
settled. -/
theorem pass_spec {start : Layout} (order : Option (List TileId)) (h : Kept cols start items) :
    (pass cols order items = .inr items ∧ Settled cols items) ∨
      ∃ items', pass cols order items = .inl items' ∧ Kept cols start items' ∧
        distance cols items' < distance cols items := by
  have hperm := settlingOrder_perm order items
  have hids : ((settlingOrder order items).map (·.i)).Nodup := (hperm.map _).nodup_iff.2 h.tidy.ids
  obtain ⟨hkept, ⟨heq, hall⟩ | ⟨htrue, hless⟩⟩ :=
    fold_settle (s := (items, false)) h (fun r hr ↦ hperm.mem_iff.1 hr) hids
  · refine .inl ⟨by rw [pass, heq]; rfl, fun a ha ↦ hall a (hperm.mem_iff.2 ha)⟩
  · exact .inr ⟨_, by rw [pass, if_pos htrue], hkept, hless⟩

theorem pass_settled {start : Layout} (order : Option (List TileId)) (h : Kept cols start items)
    (hs : Settled cols items) : pass cols order items = .inr items := by
  have hperm := settlingOrder_perm order items
  have hfix (rest : Layout) (hrest : ∀ r ∈ rest, r ∈ items) :
      rest.foldl (settle cols) (items, false) = (items, false) := by
    induction rest with
    | nil => rfl
    | cons a rest ih =>
      have ha : settle cols (items, false) a = (items, false) := by
        rcases settle_cases cols (items, false) a with ⟨hsame, -⟩ | ⟨x, y, hstatic, hslot, -⟩
        · exact hsame
        · rw [hs a (hrest a List.mem_cons_self) hstatic] at hslot
          cases hslot
      rw [List.foldl_cons, ha]
      exact ih fun r hr ↦ hrest r (List.mem_cons_of_mem _ hr)
  rw [pass, hfix _ fun r hr ↦ hperm.mem_iff.1 hr]
  rfl

/-- The loop of packing ends, with the cards settled. -/
theorem halts_pass {start : Layout} (order : Option (List TileId)) (h : Kept cols start items) :
    ∃ settled, Halts (pass cols order) items settled ∧ Kept cols start settled ∧
      Settled cols settled := by
  have hstep (s s' : Layout) (hs : Kept cols start s) (hp : pass cols order s = .inl s') :
      Kept cols start s' ∧ distance cols s' < distance cols s := by
    rcases pass_spec order hs with ⟨hr, -⟩ | ⟨t, ht, hkept, hless⟩
    · rw [hr] at hp
      cases hp
    · rw [ht] at hp
      obtain rfl := Sum.inl.inj hp
      exact ⟨hkept, hless⟩
  have hend (s t : Layout) (hs : Kept cols start s) (hp : pass cols order s = .inr t) :
      Kept cols start t ∧ Settled cols t := by
    rcases pass_spec order hs with ⟨hr, hsettled⟩ | ⟨t', ht, -⟩
    · rw [hr] at hp
      exact Sum.inr.inj hp ▸ ⟨hs, hsettled⟩
    · rw [ht] at hp
      cases hp
  obtain ⟨settled, hhalts⟩ := halts_of_measure hstep h
  exact ⟨settled, hhalts, hhalts.invariant (Q := fun t ↦ Kept cols start t ∧ Settled cols t)
    (fun s s' hs hp ↦ (hstep s s' hs hp).1) hend h⟩

/-! ### Compacting a settled layout -/

/-- A card that is free further up in its column is free at the bottom of a card or in row 0. -/
theorem exists_slot (ha : 0 < a.h) (hy : 0 ≤ y) (hfree : Free others a a.x y) (hlt : y < a.y)
    (hx : 0 ≤ a.x ∧ a.x + a.w ≤ cols) : freeSlot others cols a ≠ none := by
  have hblocks : ∀ b ∈ others.map LayoutItem.rectangle, ¬ (a.rectangle.at' a.x y).Overlaps b :=
    List.forall_mem_map.2 hfree
  obtain ⟨r, h0, hr, hrest, hfree'⟩ := Rectangle.exists_rest hy hblocks
  intro hnone
  refine freeSlot_none.1 hnone a.x r hx.1 hx.2 ?_ (.inl (by omega))
    fun o ho ↦ hfree' _ (List.mem_map_of_mem ho)
  rcases hrest with rfl | ⟨b, hb, rfl⟩
  · exact .inl rfl
  · obtain ⟨o, ho, rfl⟩ := List.mem_map.1 hb
    exact .inr (.inr ⟨o, ho, rfl⟩)

theorem Raised.i_eq (h : Raised a b) : b.i = a.i := by rw [h.same]

theorem eq_of_raised {l m : Layout} (h : List.Forall₂ Raised l m)
    (hstay : ∀ a ∈ l, ∀ b ∈ m, Raised a b → b.y = a.y) : m = l := by
  induction h with
  | nil => rfl
  | @cons a b l m hab _ ih =>
    have hb : b = a := by
      rw [hab.same, hstay a List.mem_cons_self b List.mem_cons_self hab]
    rw [hb, ih fun a ha b hb ↦ hstay a (List.mem_cons_of_mem _ ha) b (List.mem_cons_of_mem _ hb)]

/-- The compactor leaves a settled layout as it is. -/
theorem compact_settled (v : VerticalCompactor) (h : Tidy items) (hw : Within cols items)
    (hs : Settled cols items) : v.compact items cols = items := by
  have hraise := v.raises items cols h
  have htidy := v.tidy items cols h
  refine eq_of_raised hraise fun a ha b hb hab ↦ ?_
  -- a card that had moved furthest up would have found its new place free before
  induction hn : b.y.toNat using Nat.strongRecOn generalizing a b with
  | ind n ih =>
    by_contra hne
    have hlt : b.y < a.y := lt_of_le_of_ne hab.up hne
    have hstatic : a.static ≠ some true := fun hst ↦ hne (congrArg LayoutItem.y (hab.static hst))
    refine exists_slot (h.proper a ha).2 (htidy.rows b hb) (fun o ho hover ↦ ?_) hlt (hw a ha)
      (hs a ha hstatic)
    obtain ⟨ho, hid⟩ := List.mem_filter.1 ho
    obtain ⟨o', ho', hoo⟩ := forall₂_left hraise ho
    have hapart := htidy.apart b hb o' ho' (by
      rw [hab.i_eq, hoo.i_eq]
      exact fun heq ↦ of_decide_eq_true hid heq.symm)
    have hpos := h.proper o ho
    have hup := hoo.up
    have hb0 := htidy.rows o' ho'
    rw [hab.same, hoo.same] at hapart
    simp only [Rectangle.Overlaps, LayoutItem.rectangle] at hapart hover
    have hmoved : o'.y.toNat < n := by omega
    have hstay := ih _ hmoved o ho o' ho' hoo rfl
    omega

/-! ### Packing -/

theorem shapes_of_raised {l m : Layout} (h : List.Forall₂ Raised l m) :
    m.map LayoutItem.shape = l.map LayoutItem.shape := by
  induction h with
  | nil => rfl
  | @cons a b l m hab _ ih =>
    have hb : b.shape = a.shape := by
      rw [hab.same]
      rfl
    rw [List.map_cons, List.map_cons, ih, hb]

theorem Within.raised {l m : Layout} (hw : Within cols l) (h : List.Forall₂ Raised l m) :
    Within cols m := by
  induction h with
  | nil => exact hw
  | @cons a b l m hab _ ih =>
    intro c hc
    rcases List.mem_cons.1 hc with rfl | hc
    · rw [hab.same]
      exact hw a List.mem_cons_self
    · exact ih (fun d hd ↦ hw d (List.mem_cons_of_mem _ hd)) c hc

/-- Compacting keeps what packing keeps. -/
theorem kept_compact (v : VerticalCompactor) (h : Tidy layout) (hw : Within cols layout) :
    Kept cols layout (v.compact layout cols) := by
  have hraise := v.raises layout cols h
  refine ⟨v.tidy layout cols h, hw.raised hraise, shapes_of_raised hraise, fun a ha hst ↦ ?_⟩
  obtain ⟨b, hb, hab⟩ := forall₂_left hraise ha
  exact hab.static hst ▸ hb

/-- Only the flag may change. -/
structure Flagged (f : LayoutItem → LayoutItem) : Prop where
  i : ∀ a, (f a).i = a.i
  rectangle : ∀ a, (f a).rectangle = a.rectangle

theorem Flagged.tidy {f : LayoutItem → LayoutItem} (hf : Flagged f) (h : Tidy layout) :
    Tidy (layout.map f) := by
  have hw (a : LayoutItem) : (f a).w = a.w := congrArg Rectangle.width (hf.rectangle a)
  have hh (a : LayoutItem) : (f a).h = a.h := congrArg Rectangle.height (hf.rectangle a)
  have hy (a : LayoutItem) : (f a).y = a.y := congrArg Rectangle.y (hf.rectangle a)
  constructor
  · rw [List.map_map]
    exact (List.map_congr_left fun a _ ↦ hf.i a) ▸ h.ids
  · refine List.forall_mem_map.2 fun a ha ↦ ?_
    rw [hw, hh]
    exact h.proper a ha
  · refine List.forall_mem_map.2 fun a ha ↦ ?_
    rw [hy]
    exact h.rows a ha
  · refine List.forall_mem_map.2 fun a ha ↦ List.forall_mem_map.2 fun b hb hne ↦ ?_
    rw [hf.i, hf.i] at hne
    rw [hf.rectangle, hf.rectangle]
    exact h.apart a ha b hb hne

theorem Flagged.within {f : LayoutItem → LayoutItem} (hf : Flagged f) (h : Within cols layout) :
    Within cols (layout.map f) := by
  have hw (a : LayoutItem) : (f a).w = a.w := congrArg Rectangle.width (hf.rectangle a)
  have hx (a : LayoutItem) : (f a).x = a.x := congrArg Rectangle.x (hf.rectangle a)
  refine List.forall_mem_map.2 fun a ha ↦ ?_
  rw [hw, hx]
  exact h a ha

theorem flagged_static (p : LayoutItem → Prop) [DecidablePred p] (flag : Option Bool) :
    Flagged (fun a ↦ if p a then { a with static := flag } else a) := by
  constructor
  · intro a
    split_ifs <;> rfl
  · intro a
    split_ifs <;> rfl

/-- What packing returns. -/
structure Packed (cols : ℤ) (held : Option TileId) (layout packed : Layout) : Prop where
  tidy : Tidy packed
  within : Within cols packed
  shapes : packed.map LayoutItem.shape = layout.map LayoutItem.shape
  stays : ∀ a ∈ layout, some a.i = held → a ∈ packed
  static : ∀ a ∈ layout, a.static = some true → a ∈ packed
  settled : (∀ a ∈ layout, some a.i ≠ held) → Settled cols packed

theorem release_shapes {held : Option TileId} (h : (layout.map (·.i)).Nodup)
    (hshapes : items.map LayoutItem.shape = (hold held layout).map LayoutItem.shape) :
    (release held layout items).map LayoutItem.shape = layout.map LayoutItem.shape := by
  rw [hold, List.map_map] at hshapes
  unfold release
  split
  · rename_i hnone
    rw [hshapes]
    refine List.map_congr_left fun a ha ↦ ?_
    have hne : some a.i ≠ held := by simpa using List.find?_eq_none.1 hnone a ha
    rw [Function.comp_apply, if_neg hne]
  · rename_i card hcard
    have hid : some card.i = held := by simpa using List.find?_some hcard
    have hrel (a : LayoutItem) :
        (if some a.i = held then { a with static := card.static } else a).shape =
          (a.shape.1, a.shape.2.1, a.shape.2.2.1, a.shape.2.2.2.1, a.shape.2.2.2.2.1,
            if some a.shape.1 = held then card.static else a.shape.2.2.2.2.2) := by
      by_cases hc : some a.i = held <;> simp [LayoutItem.shape, hc]
    have hcomp := congrArg (List.map fun s : TileId × ℤ × ℤ × Option ℤ × Option ℤ × Option Bool ↦
      (s.1, s.2.1, s.2.2.1, s.2.2.2.1, s.2.2.2.2.1,
        if some s.1 = held then card.static else s.2.2.2.2.2)) hshapes
    rw [List.map_map, List.map_map] at hcomp
    rw [List.map_map]
    refine ((List.map_congr_left fun a _ ↦ hrel a).trans hcomp).trans
      (List.map_congr_left fun a ha ↦ ?_)
    by_cases hc : some a.i = held
    · obtain rfl := eq_of_id h ha (List.mem_of_find?_eq_some hcard)
        (Option.some.inj (hc.trans hid.symm))
      simp [LayoutItem.shape, hc]
    · simp [LayoutItem.shape, hc]

/-- Packing ends, and gives a layout of the same cards with the held one in its place. -/
theorem packInsights_spec (v : VerticalCompactor) (held : Option TileId)
    (order : Option (List TileId)) (h : Tidy layout) (hw : Within cols layout) :
    ∃ packed, (∃ least, ∀ fuel, least ≤ fuel →
      packInsights v fuel layout cols held order = some packed) ∧
      Packed cols held layout packed := by
  have hflag := flagged_static (fun a ↦ some a.i = held) (some true)
  have hstart := kept_compact v (hflag.tidy h) (hflag.within hw)
  obtain ⟨settled, hhalts, hkept, hsettled⟩ := halts_pass order hstart
  obtain ⟨least, hleast⟩ := hhalts.loop
  refine ⟨release held layout settled, ⟨least, fun fuel hf ↦ ?_⟩, ?_⟩
  · change (loop _ fuel (v.compact (hold held layout) cols)).map _ = _
    rw [hold, hleast fuel hf, Option.map_some]
  have hmem {a : LayoutItem} (ha : a ∈ layout) : (if some a.i = held then
      { a with static := some true } else a) ∈ hold held layout := List.mem_map_of_mem ha
  have hshapes := release_shapes h.ids hkept.shapes
  cases hcard : layout.find? (fun a ↦ some a.i = held) with
  | none =>
    have hne {a : LayoutItem} (ha : a ∈ layout) : some a.i ≠ held := by
      simpa using List.find?_eq_none.1 hcard a ha
    have hrel : release held layout settled = settled := by rw [release, hcard]
    have hhold : hold held layout = layout := by
      rw [hold, List.map_congr_left fun a ha ↦ if_neg (hne ha), List.map_id']
    rw [hrel] at hshapes ⊢
    refine ⟨hkept.tidy, hkept.within, hshapes, fun a ha hid ↦ absurd hid (hne ha), ?_, fun _ ↦ hsettled⟩
    intro a ha hst
    refine hkept.static a ?_ hst
    change a ∈ hold held layout
    rwa [hhold]
  | some card =>
    have hid : some card.i = held := by simpa using List.find?_some hcard
    have hcl := List.mem_of_find?_eq_some hcard
    have hrel : release held layout settled = settled.map
        (fun a ↦ if some a.i = held then { a with static := card.static } else a) := by
      rw [release, hcard]
    have hflag' := flagged_static (fun a ↦ some a.i = held) card.static
    have hstays : ∀ a ∈ layout, some a.i = held → a ∈ release held layout settled := by
      intro a ha hheld
      obtain rfl := eq_of_id h.ids ha hcl (Option.some.inj (hheld.trans hid.symm))
      have hin := hmem ha
      rw [if_pos hheld] at hin
      have hin := hkept.static _ hin rfl
      rw [hrel]
      exact List.mem_map.2 ⟨_, hin, if_pos hheld⟩
    refine ⟨hrel ▸ hflag'.tidy hkept.tidy, hrel ▸ hflag'.within hkept.within, hshapes, hstays, ?_,
      fun hnot ↦ absurd hid (hnot card hcl)⟩
    intro a ha hst
    by_cases hheld : some a.i = held
    · exact hstays a ha hheld
    · have hin := hmem ha
      rw [if_neg hheld] at hin
      rw [hrel]
      exact List.mem_map.2 ⟨a, hkept.static a hin hst, if_neg hheld⟩

/-- Packing a settled layout changes nothing. -/
theorem packInsights_settled (v : VerticalCompactor) (order : Option (List TileId))
    (h : Tidy layout) (hw : Within cols layout) (hs : Settled cols layout) {fuel : ℕ}
    (hfuel : 0 < fuel) : packInsights v fuel layout cols none order = some layout := by
  have hkept : Kept cols layout layout := ⟨h, hw, rfl, fun _ ha _ ↦ ha⟩
  have hhold : hold none layout = layout := by
    rw [hold, List.map_congr_left fun a _ ↦ if_neg (Option.some_ne_none a.i), List.map_id']
  have hnone : layout.find? (fun a ↦ some a.i = none) = none := by
    rw [List.find?_eq_none]
    simp
  obtain ⟨n, rfl⟩ := Nat.exists_eq_add_of_le' hfuel
  rw [packInsights, hhold, compact_settled v h hw hs, loop_inr (pass_settled order hkept hs),
    Option.map_some, release, hnone]

/-- A layout without overlaps within the columns. -/
structure Grid (cols : ℤ) where
  layout : Layout
  tidy : Tidy layout
  within : Within cols layout

/-- A free place for a card on an earlier row where it could rest, or further left on its own. -/
def HasSlot (cols : ℤ) (layout : Layout) (a : LayoutItem) : Prop :=
  ∃ x y, 0 ≤ x ∧ x + a.w ≤ cols ∧ Free (layout.filter (·.i ≠ a.i)) a x y ∧
    (y < a.y ∧ (y = 0 ∨ ∃ o ∈ layout, o.i ≠ a.i ∧ y = o.bottom) ∨ y = a.y ∧ x < a.x)

theorem Settled.no_slot (h : Settled cols items) (ha : a ∈ items) (hst : a.static ≠ some true) :
    ¬ HasSlot cols items a := by
  rintro ⟨x, y, h0, hw, hfree, hplace⟩
  refine freeSlot_none.1 (h a ha hst) x y h0 hw ?_ ?_ hfree
  · rcases hplace with ⟨-, rfl | ⟨o, ho, hne, rfl⟩⟩ | ⟨rfl, -⟩
    · exact .inl rfl
    · exact .inr (.inr ⟨o, List.mem_filter.2 ⟨ho, decide_eq_true hne⟩, rfl⟩)
    · exact .inr (.inl rfl)
  · exact hplace.imp (·.1) id

/-- Packing ends with the same cards, still apart and within the columns, the held one where it was.
With nothing held it settles every card that is not static, and packing again changes nothing. -/
theorem packing_settles (v : VerticalCompactor) (g : Grid cols) (held : Option TileId)
    (order : Option (List TileId)) :
    ∃ packed, (∃ least, ∀ fuel, least ≤ fuel →
        packInsights v fuel g.layout cols held order = some packed) ∧
      packed.map (fun a ↦ (a.i, a.w, a.h)) = g.layout.map (fun a ↦ (a.i, a.w, a.h)) ∧
      Tidy packed ∧ Within cols packed ∧ (∀ a ∈ g.layout, some a.i = held → a ∈ packed) ∧
      ((∀ a ∈ g.layout, some a.i ≠ held) →
        (∀ order', ∃ least, ∀ fuel, least ≤ fuel →
          packInsights v fuel packed cols none order' = some packed) ∧
        ∀ a ∈ packed, a.static ≠ some true → ¬ HasSlot cols packed a) := by
  obtain ⟨packed, hends, hpacked⟩ := packInsights_spec v held order g.tidy g.within
  refine ⟨packed, hends, ?_, hpacked.tidy, hpacked.within, hpacked.stays, fun hnone ↦ ⟨?_, ?_⟩⟩
  · have := congrArg (List.map fun s : TileId × ℤ × ℤ × Option ℤ × Option ℤ × Option Bool ↦
      (s.1, s.2.1, s.2.2.1)) hpacked.shapes
    rwa [List.map_map, List.map_map] at this
  · intro order'
    exact ⟨1, fun fuel hf ↦ packInsights_settled v order' hpacked.tidy hpacked.within
      (hpacked.settled hnone) hf⟩
  · exact fun a ha hst ↦ (hpacked.settled hnone).no_slot ha hst

section Samples

def staticCard : LayoutItem := ⟨js "a", 0, 5, 1, 1, none, none, some true⟩

/-- A static card stays where it is, with all rows above it free. -/
theorem static_card_stays :
    packInsights verticalCompactor 1 [staticCard] 12 none none = some [staticCard] ∧
      Tidy [staticCard] ∧ Within 12 [staticCard] ∧ HasSlot 12 [staticCard] staticCard := by
  have hwithin : ∀ a ∈ [staticCard], 0 ≤ a.x ∧ a.x + a.w ≤ 12 := by decide
  have hfree : ∀ o ∈ [staticCard].filter (·.i ≠ staticCard.i),
      ¬ ({ staticCard with x := 0, y := 0 } : LayoutItem).rectangle.Overlaps o.rectangle := by
    decide
  exact ⟨rfl, ⟨by decide, by decide, by decide, by decide⟩, hwithin, 0, 0, by decide, by decide,
    hfree, .inl ⟨by decide, .inl rfl⟩⟩

end Samples

end Counted.Console
