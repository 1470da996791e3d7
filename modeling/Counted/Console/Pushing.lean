import Counted.Console.Packing

namespace Counted.Console

open Foundations Dashboarding

variable {items : Layout} {a b c changed : LayoutItem} {id : TileId} {pending : List TileId}

/-! ### One card pushes the others down -/

theorem hit_iff : hit a b = true ↔ b.i ≠ a.i ∧ a.rectangle.Overlaps b.rectangle := by
  rw [hit, Bool.and_eq_true, decide_eq_true_eq, collides_iff]

theorem bump_cases (a b : LayoutItem) :
    (hit a b = true ∧ bump a b = { b with y := a.bottom }) ∨
      (¬ hit a b = true ∧ bump a b = b) := by
  by_cases h : hit a b = true
  · exact .inl ⟨h, if_pos h⟩
  · exact .inr ⟨h, if_neg h⟩

@[simp] theorem bump_i (a b : LayoutItem) : (bump a b).i = b.i := by
  obtain ⟨-, h⟩ | ⟨-, h⟩ := bump_cases a b <;> rw [h]

@[simp] theorem bump_shape (a b : LayoutItem) : (bump a b).shape = b.shape := by
  obtain ⟨-, h⟩ | ⟨-, h⟩ := bump_cases a b <;> rw [h] <;> rfl

@[simp] theorem bump_x (a b : LayoutItem) : (bump a b).x = b.x := by
  obtain ⟨-, h⟩ | ⟨-, h⟩ := bump_cases a b <;> rw [h]

theorem bump_self (a : LayoutItem) : bump a a = a := if_neg fun h ↦ (hit_iff.1 h).1 rfl

theorem mem_bumped (hc : c ∈ items.map (bump a)) :
    ∃ b ∈ items, c.i = b.i ∧ ((hit a b = true ∧ c = { b with y := a.bottom }) ∨
      (¬ hit a b = true ∧ c = b)) := by
  obtain ⟨b, hb, rfl⟩ := List.mem_map.1 hc
  exact ⟨b, hb, bump_i a b, bump_cases a b⟩

/-- Cards of positive size, none below row 0. -/
structure Sized (items : Layout) : Prop where
  ids : (items.map (·.i)).Nodup
  proper : ∀ a ∈ items, 0 < a.w ∧ 0 < a.h
  rows : ∀ a ∈ items, 0 ≤ a.y

theorem Sized.bumped (h : Sized items) (ha : a ∈ items) : Sized (items.map (bump a)) := by
  refine ⟨?_, ?_, ?_⟩
  · rw [List.map_map]
    exact (List.map_congr_left fun b _ ↦ bump_i a b) ▸ h.ids
  · intro c hc
    obtain ⟨b, hb, -, ⟨-, rfl⟩ | ⟨-, rfl⟩⟩ := mem_bumped hc
    · exact h.proper b hb
    · exact h.proper _ hb
  · intro c hc
    obtain ⟨b, hb, -, ⟨-, rfl⟩ | ⟨-, rfl⟩⟩ := mem_bumped hc
    · exact add_nonneg (h.rows a ha) (h.proper a ha).2.le
    · exact h.rows _ hb

/-- A card that overlaps no other one. -/
def Clear (items : Layout) (a : LayoutItem) : Prop :=
  ∀ b ∈ items, b.i ≠ a.i → ¬ a.rectangle.Overlaps b.rectangle

theorem Clear.bumps_none (h : Clear items a) : items.map (bump a) = items := by
  refine (List.map_congr_left fun b hb ↦ ?_).trans (List.map_id _)
  exact if_neg fun hhit ↦ h b hb (hit_iff.1 hhit).1 (hit_iff.1 hhit).2

theorem Clear.hits_none (h : Clear items a) : items.filter (hit a) = [] := by
  rw [List.filter_eq_nil_iff]
  exact fun b hb hhit ↦ h b hb (hit_iff.1 hhit).1 (hit_iff.1 hhit).2

/-- The card that pushes is clear afterwards. -/
theorem clear_bumped (ha : 0 < a.h) : Clear (items.map (bump a)) a := by
  intro c hc hne
  obtain ⟨b, -, hci, ⟨-, rfl⟩ | ⟨hno, rfl⟩⟩ := mem_bumped hc
  · simp only [Rectangle.Overlaps, LayoutItem.rectangle, LayoutItem.bottom]
    omega
  · exact fun ho ↦ hno (hit_iff.2 ⟨hne, ho⟩)

/-- A clear card further up stays clear of what another card pushes. -/
theorem Clear.bumped (h : Clear items c) (hc : c.bottom ≤ a.bottom) : Clear (items.map (bump a)) c := by
  intro d hd hne
  obtain ⟨b, hb, hdi, ⟨-, rfl⟩ | ⟨-, rfl⟩⟩ := mem_bumped hd
  · simp only [Rectangle.Overlaps, LayoutItem.rectangle, LayoutItem.bottom] at hc ⊢
    omega
  · exact h _ hb hne

theorem Clear.not_hit (h : Clear items c) (ha : a ∈ items) : ¬ hit a c = true := by
  intro hhit
  obtain ⟨hne, ho⟩ := hit_iff.1 hhit
  exact h a ha hne.symm ho.symm

/-! ### The cards that have found their place -/

/-- The cards of `F` have found their place above the line `L`, and what is still to push starts
below it. -/
structure Calm (F : List TileId) (L : ℤ) (items : Layout) (pending : List TileId) : Prop where
  clear : ∀ f ∈ items, f.i ∈ F → f.bottom ≤ L ∧ Clear items f
  below : ∀ c ∈ items, c.i ∈ pending → c.i ∉ F → L ≤ c.y

/-- The card that reaches least far down of those that have pushed in this round, if any has. What
was pushed in it is to push in the next one. -/
inductive Lowest (F : List TileId) (L : ℤ) (items : Layout) (next : List TileId) : Prop
  | none : next = [] → Lowest F L items next
  | some (m : LayoutItem) : m ∈ items → m.i ∉ F → L ≤ m.y → Clear items m →
      (∀ c ∈ items, c.i ∈ next → c.i ∉ F → m.bottom ≤ c.y) → Lowest F L items next

theorem Calm.bumped {F : List TileId} {L : ℤ} (h : Calm F L items pending) (ha : a ∈ items)
    (hs : Sized items) (hL : L ≤ a.y) (haF : a.i ∉ F) : Calm F L (items.map (bump a)) pending := by
  have hah := (hs.proper a ha).2
  constructor
  · intro f hf hfF
    obtain ⟨b, hb, hfi, ⟨hhit, rfl⟩ | ⟨-, rfl⟩⟩ := mem_bumped hf
    · exact absurd hhit ((h.clear b hb hfF).2.not_hit ha)
    · obtain ⟨hbot, hclear⟩ := h.clear _ hb hfF
      refine ⟨hbot, hclear.bumped ?_⟩
      simp only [LayoutItem.bottom] at hbot ⊢
      omega
  · intro c hc hcp hcF
    obtain ⟨b, hb, hci, ⟨-, rfl⟩ | ⟨-, rfl⟩⟩ := mem_bumped hc
    · simp only [LayoutItem.bottom]
      omega
    · exact h.below _ hb hcp hcF

theorem push_found (hs : Sized items) (ha : a ∈ items) : push (items, a.i :: pending) =
    .inl (items.map (bump a), pending ++ (items.filter (hit a)).map (·.i)) := by
  cases hfind : items.find? (fun b ↦ b.i = a.i) with
  | none =>
    have hne := List.find?_eq_none.1 hfind a ha
    simp at hne
  | some b =>
    have hb : b.i = a.i := by simpa using List.find?_some hfind
    obtain rfl := eq_of_id hs.ids (List.mem_of_find?_eq_some hfind) ha hb
    simp only [push, hfind]

theorem push_absent (h : ∀ a ∈ items, a.i ≠ id) :
    push (items, id :: pending) = .inl (items, pending) := by
  have hfind : items.find? (fun b ↦ b.i = id) = none := by
    rw [List.find?_eq_none]
    exact fun a ha ↦ by simpa using h a ha
  simp only [push, hfind]

/-- A card that was hit has been put below the one that pushed it. -/
theorem bumped_of_hit (hs : Sized items) (hc : c ∈ items.map (bump a))
    (hid : c.i ∈ (items.filter (hit a)).map (·.i)) : c.y = a.bottom := by
  obtain ⟨b, hb, hci, hbump⟩ := mem_bumped hc
  obtain ⟨d, hd, hdi⟩ := List.mem_map.1 hid
  obtain ⟨hd, hhit⟩ := List.mem_filter.1 hd
  obtain rfl := eq_of_id hs.ids hd hb (hdi.trans hci)
  obtain ⟨-, rfl⟩ | ⟨hno, -⟩ := hbump
  · rfl
  · exact absurd hhit hno

/-- After a push the lowest reach of the round is that of the card before or of the one that has
just pushed. -/
theorem Lowest.bumped {F : List TileId} {L : ℤ} {next : List TileId}
    (h : Lowest F L items next) (hs : Sized items) (ha : a ∈ items) (haF : a.i ∉ F) (hL : L ≤ a.y) :
    Lowest F L (items.map (bump a)) (next ++ (items.filter (hit a)).map (·.i)) := by
  have hself : a ∈ items.map (bump a) := List.mem_map.2 ⟨a, ha, bump_self a⟩
  have hclear : Clear (items.map (bump a)) a := clear_bumped (hs.proper a ha).2
  have hbelow {β : ℤ} (hβ : β ≤ a.bottom) (hold : ∀ c ∈ items, c.i ∈ next → c.i ∉ F → β ≤ c.y) :
      ∀ c ∈ items.map (bump a), c.i ∈ next ++ (items.filter (hit a)).map (·.i) → c.i ∉ F →
        β ≤ c.y := by
    intro c hc hid hcF
    rcases List.mem_append.1 hid with hnext | hhit
    · obtain ⟨b, hb, hci, ⟨-, rfl⟩ | ⟨-, rfl⟩⟩ := mem_bumped hc
      · exact hβ
      · exact hold _ hb hnext hcF
    · exact hβ.trans (bumped_of_hit hs hc hhit).ge
  cases h with
  | none hnil => exact .some a hself haF hL hclear (hbelow le_rfl (by simp [hnil]))
  | some m hm hmF hmL hmclear hmnext =>
    by_cases hle : m.bottom ≤ a.bottom
    · have hkeep : m ∈ items.map (bump a) :=
        List.mem_map.2 ⟨m, hm, if_neg (hmclear.not_hit ha)⟩
      exact .some m hkeep hmF hmL (hmclear.bumped hle) (hbelow hle hmnext)
    · refine .some a hself haF hL hclear (hbelow le_rfl fun c hc hid hcF ↦ ?_)
      have := hmnext c hc hid hcF
      omega

/-- The card that reached least far down in a round has found its place. -/
theorem Calm.next {F : List TileId} {L : ℤ} {m : LayoutItem} (h : Calm F L items [])
    (hs : Sized items) (hm : m ∈ items) (hL : L ≤ m.y) (hclear : Clear items m)
    (hnext : ∀ c ∈ items, c.i ∈ pending → c.i ∉ F → m.bottom ≤ c.y) :
    Calm (m.i :: F) m.bottom items pending := by
  constructor
  · intro f hf hfF
    rcases List.mem_cons.1 hfF with hid | hfF
    · obtain rfl := eq_of_id hs.ids hf hm hid
      exact ⟨le_rfl, hclear⟩
    · obtain ⟨hbot, hfclear⟩ := h.clear f hf hfF
      have hmh := (hs.proper m hm).2
      refine ⟨?_, hfclear⟩
      simp only [LayoutItem.bottom] at hbot ⊢
      omega
  · intro c hc hid hcF
    exact hnext c hc hid fun hF ↦ hcF (List.mem_cons_of_mem _ hF)

/-- The cards that have not found their place yet. -/
def restless (F : List TileId) (items : Layout) : ℕ :=
  ((items.map (·.i)).toFinset \ F.toFinset).card

theorem restless_bumped (F : List TileId) (a : LayoutItem) (items : Layout) :
    restless F (items.map (bump a)) = restless F items := by
  have hids : (items.map (bump a)).map (·.i) = items.map (·.i) := by
    rw [List.map_map]
    exact List.map_congr_left fun b _ ↦ bump_i a b
  rw [restless, restless, hids]

theorem restless_cons {F : List TileId} {m : LayoutItem} (hm : m ∈ items) (hmF : m.i ∉ F) :
    restless (m.i :: F) items < restless F items := by
  refine Finset.card_lt_card ⟨fun id hid ↦ ?_, fun hsub ↦ ?_⟩
  · simp only [Finset.mem_sdiff, List.mem_toFinset, List.mem_cons, not_or] at hid ⊢
    exact ⟨hid.1, hid.2.2⟩
  · have hmem : m.i ∈ (items.map (·.i)).toFinset \ F.toFinset :=
      Finset.mem_sdiff.2 ⟨List.mem_toFinset.2 (List.mem_map_of_mem hm), by simpa using hmF⟩
    have hnot := (Finset.mem_sdiff.1 (hsub hmem)).2
    exact hnot (by simp)

/-- The loop ends. In each round one more card finds its place. -/
theorem halts_push {F : List TileId} {L : ℤ} (hs : Sized items) (h : Calm F L items pending) :
    ∃ t, Halts push (items, pending) t := by
  induction hn : restless F items using Nat.strongRecOn generalizing F L items pending with
  | ind n ih =>
    have hround (cur next : List TileId) (items : Layout) (hs : Sized items)
        (hcalm : Calm F L items cur) (hlow : Lowest F L items next) (hn : restless F items = n) :
        ∃ t, Halts push (items, cur ++ next) t := by
      induction cur generalizing next items with
      | nil =>
        cases hlow with
        | none hnil => exact ⟨items, .done (by rw [hnil]; rfl)⟩
        | some m hm hmF hmL hmclear hmnext =>
          exact ih _ (hn ▸ restless_cons hm hmF) hs (hcalm.next hs hm hmL hmclear hmnext) rfl
      | cons id cur ihcur =>
        have hcalm' : Calm F L items cur :=
          ⟨hcalm.clear, fun c hc hid ↦ hcalm.below c hc (List.mem_cons_of_mem _ hid)⟩
        by_cases hin : ∃ a ∈ items, a.i = id
        · obtain ⟨a, ha, rfl⟩ := hin
          have hstep : push (items, a.i :: (cur ++ next)) = .inl (items.map (bump a),
              cur ++ next ++ (items.filter (hit a)).map (·.i)) := push_found hs ha
          by_cases haF : a.i ∈ F
          · have hclear := (hcalm.clear a ha haF).2
            rw [hclear.bumps_none, hclear.hits_none, List.map_nil, List.append_nil] at hstep
            obtain ⟨t, ht⟩ := ihcur next items hs hcalm' hlow hn
            exact ⟨t, .next hstep ht⟩
          · have haL := hcalm.below a ha List.mem_cons_self haF
            obtain ⟨t, ht⟩ := ihcur _ _ (hs.bumped ha) (hcalm'.bumped ha hs haL haF)
              (hlow.bumped hs ha haF haL) ((restless_bumped F a items).trans hn)
            rw [← List.append_assoc] at ht
            exact ⟨t, .next hstep ht⟩
        · obtain ⟨t, ht⟩ := ihcur next items hs hcalm' hlow hn
          refine ⟨t, .next (push_absent fun a ha hid ↦ hin ⟨a, ha, hid⟩) ht⟩
    have hstart := hround pending [] items hs h (.none rfl) hn
    rwa [List.append_nil] at hstart

/-! ### Nothing overlaps in the end -/

/-- Of two cards that overlap, one is still to push. -/
def Covered (items : Layout) (pending : List TileId) : Prop :=
  ∀ a ∈ items, ∀ b ∈ items, a.i ≠ b.i → a.rectangle.Overlaps b.rectangle →
    a.i ∈ pending ∨ b.i ∈ pending

theorem Covered.bumped (h : Covered items (a.i :: pending)) (hs : Sized items) (ha : a ∈ items) :
    Covered (items.map (bump a)) (pending ++ (items.filter (hit a)).map (·.i)) := by
  have hhits {b : LayoutItem} (hb : b ∈ items) (hhit : hit a b = true) :
      b.i ∈ pending ++ (items.filter (hit a)).map (·.i) :=
    List.mem_append_right _ (List.mem_map_of_mem (List.mem_filter.2 ⟨hb, hhit⟩))
  intro c hc d hd hne ho
  obtain ⟨b, hb, hci, ⟨hhit, -⟩ | ⟨hno, rfl⟩⟩ := mem_bumped hc
  · exact .inl (hci ▸ hhits hb hhit)
  obtain ⟨e, he, hdi, ⟨hhit, -⟩ | ⟨hno', rfl⟩⟩ := mem_bumped hd
  · exact .inr (hdi ▸ hhits he hhit)
  rcases h c hb d he hne ho with hin | hin
  · rcases List.mem_cons.1 hin with hid | hin
    · obtain rfl := eq_of_id hs.ids hb ha hid
      exact absurd (hit_iff.2 ⟨hne.symm, ho⟩) hno'
    · exact .inl (List.mem_append_left _ hin)
  · rcases List.mem_cons.1 hin with hid | hin
    · obtain rfl := eq_of_id hs.ids he ha hid
      exact absurd (hit_iff.2 ⟨hne, ho.symm⟩) hno
    · exact .inr (List.mem_append_left _ hin)

structure Pushing (cols : ℤ) (start : Layout) (s : Layout × List TileId) : Prop where
  sized : Sized s.1
  within : Within cols s.1
  shapes : s.1.map LayoutItem.shape = start.map LayoutItem.shape
  covered : Covered s.1 s.2

theorem Pushing.step {cols : ℤ} {start : Layout} {s s' : Layout × List TileId}
    (h : Pushing cols start s) (hstep : push s = .inl s') : Pushing cols start s' := by
  obtain ⟨items, queue⟩ := s
  cases queue with
  | nil => cases hstep
  | cons id pending =>
    by_cases hin : ∃ a ∈ items, a.i = id
    · obtain ⟨a, ha, rfl⟩ := hin
      rw [push_found h.sized ha] at hstep
      obtain rfl := Sum.inl.inj hstep
      refine ⟨h.sized.bumped ha, fun c hc ↦ ?_, ?_, h.covered.bumped h.sized ha⟩
      · obtain ⟨b, hb, -, ⟨-, rfl⟩ | ⟨-, rfl⟩⟩ := mem_bumped hc
        · exact h.within b hb
        · exact h.within _ hb
      · rw [← h.shapes, List.map_map]
        exact List.map_congr_left fun b _ ↦ bump_shape a b
    · rw [push_absent fun a ha hid ↦ hin ⟨a, ha, hid⟩] at hstep
      obtain rfl := Sum.inl.inj hstep
      refine ⟨h.sized, h.within, h.shapes, fun a ha b hb hne ho ↦ ?_⟩
      have hnot {c : LayoutItem} (hc : c ∈ items) (hcin : c.i ∈ id :: pending) : c.i ∈ pending :=
        (List.mem_cons.1 hcin).resolve_left fun hid ↦ hin ⟨c, hc, hid⟩
      exact (h.covered a ha b hb hne ho).imp (hnot ha) (hnot hb)

/-- The loop ends with the same cards in the columns, and none overlaps another. -/
theorem push_spec {cols : ℤ} {start : Layout} (h : Pushing cols start (items, pending)) :
    ∃ pushed, Halts push (items, pending) pushed ∧ Tidy pushed ∧ Within cols pushed ∧
      pushed.map LayoutItem.shape = start.map LayoutItem.shape := by
  have hcalm : Calm [] 0 items pending :=
    ⟨fun _ _ hF ↦ absurd hF List.not_mem_nil, fun c hc _ _ ↦ h.sized.rows c hc⟩
  obtain ⟨pushed, hhalts⟩ := halts_push h.sized hcalm
  refine ⟨pushed, hhalts, hhalts.invariant (P := Pushing cols start)
    (Q := fun t ↦ Tidy t ∧ Within cols t ∧ t.map LayoutItem.shape = start.map LayoutItem.shape)
    (fun s s' hs hstep ↦ hs.step hstep) ?_ h⟩
  intro s t hs hdone
  obtain ⟨items, queue⟩ := s
  cases queue with
  | nil =>
    obtain rfl := Sum.inr.inj hdone
    refine ⟨⟨hs.sized.ids, hs.sized.proper, hs.sized.rows, fun a ha b hb hne ho ↦ ?_⟩, hs.within,
      hs.shapes⟩
    rcases hs.covered a ha b hb hne ho with hin | hin <;> cases hin
  | cons id pending =>
    unfold push at hdone
    dsimp only at hdone
    split at hdone <;> cases hdone

end Counted.Console
