import Counted.Dashboarding.Arrangement

namespace Counted.Dashboarding

open Foundations

variable {A : Type}

def Tile.placement (t : Tile A) : Option TilePlacement :=
  t.layout.map (fun l ↦ { l with id := t.id, width := t.width })

/-- What every dashboard is. -/
structure Sound (d : DashboardSnapshot A) : Prop where
  ids : (d.tiles.map (·.id)).Nodup
  count : d.tiles.length ≤ maxTiles
  titles : ∀ t ∈ d.tiles, t.title.trim ≠ []
  widths : ∀ t ∈ d.tiles, ∃ n : ℤ, 1 ≤ n ∧ n ≤ rowUnits ∧ t.width = (n : JsNumber)
  placed : ∀ t ∈ d.tiles, ∀ p, t.placement = some p → p.valid
  apart : ∀ t ∈ d.tiles, ∀ u ∈ d.tiles, t.id ≠ u.id → ∀ p q, t.placement = some p →
    u.placement = some q → p.overlaps q = false

theorem validTileWidth_iff {n : JsNumber} :
    validTileWidth n = true ↔ ∃ m : ℤ, 1 ≤ m ∧ m ≤ rowUnits ∧ n = (m : JsNumber) := by
  rw [validTileWidth, Bool.and_eq_true, Bool.and_eq_true, JsNumber.isInteger_iff]
  constructor
  · rintro ⟨⟨⟨m, rfl⟩, hlow⟩, hhigh⟩
    rw [JsNumber.intCast_le, decide_eq_true_eq] at hlow hhigh
    exact ⟨m, hlow, hhigh, rfl⟩
  · rintro ⟨m, hlow, hhigh, rfl⟩
    rw [JsNumber.intCast_le, JsNumber.intCast_le]
    exact ⟨⟨⟨m, rfl⟩, decide_eq_true hlow⟩, decide_eq_true hhigh⟩

theorem wellFormed_ok {t : Tile A} : DashboardSnapshot.wellFormed t = .ok () ↔
    t.title.trim ≠ [] ∧ validTileWidth t.width = true := by
  rw [DashboardSnapshot.wellFormed]
  by_cases ht : t.title.trim = []
  · simp [ht]
  · cases hw : validTileWidth t.width <;> simp [ht]

/-- No cell of the grid belongs to two tiles. -/
theorem Sound.cells {d : DashboardSnapshot A} (h : Sound d) {t u : Tile A} {p q : TilePlacement}
    (ht : t ∈ d.tiles) (hu : u ∈ d.tiles) (hne : t.id ≠ u.id) (hp : t.placement = some p)
    (hq : u.placement = some q) (x y : ℤ) :
    ¬ (p.rectangle.Covers x y ∧ q.rectangle.Covers x y) := by
  intro hc
  have hpv := h.placed t ht p hp
  have hqv := h.placed u hu q hq
  have ho := (Rectangle.overlaps_iff (TilePlacement.proper_of_valid hpv)
    (TilePlacement.proper_of_valid hqv)).2 ⟨x, y, hc⟩
  have hapart := h.apart t ht u hu hne p q hp hq
  rw [(TilePlacement.overlaps_iff hpv hqv).2 ho] at hapart
  cases hapart

namespace Sound

variable {d : DashboardSnapshot A} {tiles : List (Tile A)} {r : DashboardApplied A} {at' : Instant}

/-- Tiles that have lost their place on the grid or kept the one they had. -/
theorem retiled (h : Sound d) (hids : (tiles.map (·.id)).Nodup) (hcount : tiles.length ≤ maxTiles)
    (hshaped : ∀ u ∈ tiles, DashboardSnapshot.wellFormed u = .ok ())
    (hkept : ∀ u ∈ tiles, u.layout = none ∨
      ∃ t ∈ d.tiles, t.id = u.id ∧ t.width = u.width ∧ t.layout = u.layout) :
    Sound { d with tiles } := by
  have hplace {u : Tile A} (hu : u ∈ tiles) {p : TilePlacement} (hp : u.placement = some p) :
      ∃ t ∈ d.tiles, t.id = u.id ∧ t.placement = some p := by
    rcases hkept u hu with hnone | ⟨t, ht, hid, hwidth, hlayout⟩
    · rw [Tile.placement, hnone] at hp
      cases hp
    · refine ⟨t, ht, hid, ?_⟩
      rw [Tile.placement, hlayout, hid, hwidth]
      exact hp
  constructor
  · exact hids
  · exact hcount
  · exact fun u hu ↦ (wellFormed_ok.1 (hshaped u hu)).1
  · exact fun u hu ↦ validTileWidth_iff.1 (wellFormed_ok.1 (hshaped u hu)).2
  · intro u hu p hp
    obtain ⟨t, ht, -, htp⟩ := hplace hu hp
    exact h.placed t ht p htp
  · intro u hu v hv hne p q hp hq
    obtain ⟨t, ht, hid, htp⟩ := hplace hu hp
    obtain ⟨t', ht', hid', htq⟩ := hplace hv hq
    exact h.apart t ht t' ht' (hid ▸ hid' ▸ hne) p q htp htq

theorem shaped (h : Sound d) {t : Tile A} (ht : t ∈ d.tiles) :
    DashboardSnapshot.wellFormed t = .ok () :=
  wellFormed_ok.2 ⟨h.titles t ht, validTileWidth_iff.2 (h.widths t ht)⟩

/-- The same tiles in another order, without their places. -/
theorem flowed (h : Sound d) {next : List (Tile A)} (hn : ∀ t ∈ next, t ∈ d.tiles)
    (hids : (next.map (·.id)).Nodup) (hlength : next.length = d.tiles.length) :
    Sound { d with tiles := next.map (·.withoutLayout) } := by
  apply h.retiled
  · rw [List.map_map]
    exact hids
  · rw [List.length_map, hlength]
    exact h.count
  · exact List.forall_mem_map.2 (fun t ht ↦ @shaped _ _ h t (hn t ht))
  · exact List.forall_mem_map.2 (fun t _ ↦ .inl rfl)

theorem replaced (h : Sound d) {id : TileId} {f : Tile A → Tile A}
    (hid : ∀ t ∈ d.tiles, t.id = id → (f t).id = id)
    (hf : ∀ t ∈ d.tiles, t.id = id → DashboardSnapshot.wellFormed (f t) = .ok () ∧
      ((f t).layout = none ∨ t.width = (f t).width ∧ t.layout = (f t).layout)) :
    Sound { d with tiles := d.replaceTile id f } := by
  have hids : (d.replaceTile id f).map (·.id) = d.tiles.map (·.id) := by
    rw [DashboardSnapshot.replaceTile, List.map_map]
    refine List.map_congr_left fun t ht ↦ ?_
    simp only [Function.comp_apply]
    split_ifs with he
    · exact (hid t ht he).trans he.symm
    · rfl
  apply h.retiled
  · rw [hids]
    exact h.ids
  · rw [DashboardSnapshot.replaceTile, List.length_map]
    exact h.count
  · refine List.forall_mem_map.2 fun t ht ↦ ?_
    split_ifs with he
    · exact (hf t ht he).1
    · exact h.shaped ht
  · refine List.forall_mem_map.2 fun t ht ↦ ?_
    split_ifs with he
    · refine (hf t ht he).2.imp (fun hnone ↦ hnone) fun hk ↦ ⟨t, ht, ?_, hk⟩
      exact he.trans (hid t ht he).symm
    · exact .inr ⟨t, ht, rfl, rfl, rfl⟩

theorem addTile (h : Sound d) {tile : Tile A} (hl : tile.layout = none)
    (hr : d.addTile tile at' = .ok r) : Sound r.dashboard := by
  obtain ⟨he, hmax, hnew, hshaped⟩ := DashboardSnapshot.addTile_ok hr
  rw [he]
  apply h.retiled
  · rw [List.map_append, List.map_singleton, List.nodup_append]
    refine ⟨h.ids, List.nodup_singleton _, fun a ha b hb ↦ ?_⟩
    obtain ⟨t, ht, rfl⟩ := List.mem_map.1 ha
    rw [List.mem_singleton.1 hb]
    exact hnew t ht
  · rw [List.length_append, List.length_singleton]
    exact hmax
  · intro u hu
    rcases List.mem_append.1 hu with hu | hu
    · exact h.shaped hu
    · rw [List.mem_singleton.1 hu]
      exact hshaped
  · intro u hu
    rcases List.mem_append.1 hu with hu | hu
    · exact .inr ⟨u, hu, rfl, rfl, rfl⟩
    · rw [List.mem_singleton.1 hu]
      exact .inl hl

/-- A tile is replaced by one that has the layout of the tile that is here. -/
theorem updateTile (h : Sound d) {tile existing : Tile A} (he : d.tile tile.id = some existing)
    (hl : tile.layout = existing.layout) (hr : d.updateTile tile at' = .ok r) :
    Sound r.dashboard := by
  obtain ⟨hd, hshaped⟩ := DashboardSnapshot.updateTile_ok hr
  obtain ⟨hmem, hid⟩ := DashboardSnapshot.tile_some he
  rw [hd]
  apply h.replaced
  · intro t _ _
    split_ifs
    · rfl
    · rfl
  · intro t ht hti
    obtain rfl := DashboardSnapshot.eq_of_id h.ids ht hmem (hti.trans hid.symm)
    split_ifs with hw
    · exact ⟨hshaped, .inr ⟨hw, hl.symm⟩⟩
    · exact ⟨hshaped, .inl rfl⟩

theorem resizeTile (h : Sound d) {id : TileId} {width : JsNumber}
    (hr : d.resizeTile id width at' = .ok r) : Sound r.dashboard := by
  obtain ⟨hd, hwidth⟩ := DashboardSnapshot.resizeTile_ok hr
  rw [hd]
  exact h.replaced (fun t _ ht ↦ ht)
    (fun t ht _ ↦ ⟨wellFormed_ok.2 ⟨h.titles t ht, hwidth⟩, .inl rfl⟩)

theorem moveTile (h : Sound d) {id : TileId} {toIndex : JsNumber}
    (hr : d.moveTile id toIndex at' = .ok r) : Sound r.dashboard := by
  obtain ⟨next, hd, hp⟩ := DashboardSnapshot.moveTile_ok hr
  rw [hd]
  exact h.flowed (fun t ht ↦ hp.mem_iff.1 ht) ((hp.map _).nodup_iff.2 h.ids) hp.length_eq

theorem reorderTiles (h : Sound d) {order : List TileId}
    (hr : d.reorderTiles order at' = .ok r) : Sound r.dashboard := by
  obtain ⟨next, hd, hn, rfl, hnodup, hlength⟩ := DashboardSnapshot.reorderTiles_ok hr
  rw [hd]
  rw [List.length_map] at hlength
  exact h.flowed hn hnodup hlength

theorem removeTile (h : Sound d) {id : TileId} (hr : d.removeTile id at' = .ok r) :
    Sound r.dashboard := by
  rw [DashboardSnapshot.removeTile] at hr
  split_ifs at hr
  obtain rfl := Except.ok.inj hr
  apply h.retiled
  · exact h.ids.sublist (List.filter_sublist.map _)
  · exact (List.length_filter_le _ _).trans h.count
  · exact fun u hu ↦ h.shaped (List.mem_filter.1 hu).1
  · exact fun u hu ↦ .inr ⟨u, (List.mem_filter.1 hu).1, rfl, rfl, rfl⟩

theorem setLayout (h : Sound d) {placements : List TilePlacement}
    (hr : d.setLayout placements at' = .ok r) : Sound r.dashboard := by
  obtain ⟨hlegal, he⟩ := DashboardSnapshot.legal_of_ok h.ids hr
  rw [he]
  have hplacement {p : TilePlacement} {t : Tile A} (ht : d.tile p.id = some t) :
      (t.placed p).placement = some p := by
    rw [Tile.placement, Tile.placed, Option.map_some, (DashboardSnapshot.tile_some ht).2]
  constructor
  · exact hlegal.ids_arranged.nodup_iff.2 h.ids
  · have hl := hlegal.ids_arranged.length_eq
    rw [List.length_map, List.length_map] at hl
    exact hl.trans_le h.count
  · intro u hu
    obtain ⟨p, -, t, ht, rfl⟩ := Legal.mem_arranged.1 hu
    exact h.titles t (DashboardSnapshot.tile_some ht).1
  · intro u hu
    obtain ⟨p, hp, t, ht, rfl⟩ := Legal.mem_arranged.1 hu
    have hv := hlegal.valid p hp
    rw [TilePlacement.valid, Bool.and_eq_true] at hv
    exact validTileWidth_iff.1 hv.1
  · intro u hu p hp
    obtain ⟨q, hq, t, ht, rfl⟩ := Legal.mem_arranged.1 hu
    rw [hplacement ht] at hp
    exact Option.some.inj hp ▸ hlegal.valid q hq
  · intro u hu v hv hne p q hp hq
    obtain ⟨p', hp', t, ht, rfl⟩ := Legal.mem_arranged.1 hu
    obtain ⟨q', hq', t', ht', rfl⟩ := Legal.mem_arranged.1 hv
    rw [hplacement ht] at hp
    rw [hplacement ht'] at hq
    obtain rfl := Option.some.inj hp
    obtain rfl := Option.some.inj hq
    have hsymm : Std.Symm (fun a b : TilePlacement ↦ a.overlaps b = false) :=
      ⟨fun a b hab ↦ (TilePlacement.overlaps_comm _ _).trans hab⟩
    refine hlegal.apart.forall hp' hq' fun hpq ↦ hne ?_
    rw [hpq, ht'] at ht
    exact hpq ▸ Option.some.inj ht ▸ rfl

theorem apply (h : Sound d) {command : DashboardCommand A}
    (hr : command.apply d at' = .ok r) : Sound r.dashboard := by
  cases command with
  | rename name =>
    rw [DashboardCommand.apply, DashboardSnapshot.rename] at hr
    split_ifs at hr
    obtain rfl := Except.ok.inj hr
    exact ⟨h.ids, h.count, h.titles, h.widths, h.placed, h.apart⟩
  | addTile id title project analysis view width => exact h.addTile rfl hr
  | updateTile patch =>
    rw [DashboardCommand.apply] at hr
    cases ht : d.tile patch.tile with
    | none =>
      rw [ht] at hr
      cases hr
    | some existing =>
      rw [ht] at hr
      have hid := (DashboardSnapshot.tile_some ht).2
      refine @updateTile _ _ _ _ h (patch.apply existing) existing ?_ rfl hr
      change d.tile existing.id = _
      rw [hid]
      exact ht
  | resizeTile tile width => exact h.resizeTile hr
  | moveTile tile position => exact h.moveTile hr
  | reorderTiles order => exact h.reorderTiles hr
  | removeTile tile => exact h.removeTile hr
  | setLayout placements => exact h.setLayout hr
  | share digest ttl =>
    rw [DashboardCommand.apply, DashboardSnapshot.grantShare] at hr
    split_ifs at hr
    obtain rfl := Except.ok.inj hr
    exact ⟨h.ids, h.count, h.titles, h.widths, h.placed, h.apart⟩
  | unshare =>
    rw [DashboardCommand.apply, DashboardSnapshot.unshare] at hr
    split_ifs at hr
    obtain rfl := Except.ok.inj hr
    exact ⟨h.ids, h.count, h.titles, h.widths, h.placed, h.apart⟩

end Sound

theorem sound_step {s t : DashboardApplied A} {a : DashboardCommand A × Instant}
    (h : Sound s.dashboard) (hs : s.step a = some t) : Sound t.dashboard := by
  rw [DashboardApplied.step] at hs
  cases ha : a.1.apply s.dashboard a.2 with
  | error e =>
    rw [ha] at hs
    exact Option.some.inj hs ▸ h
  | ok r =>
    rw [ha] at hs
    obtain rfl := Option.some.inj hs
    have hr := h.apply ha
    exact hr

/-- Whatever is done to a dashboard after it is created, it stays sound, and what is refused
changes nothing. -/
theorem dashboard_sound {id : DashboardId} {workspace : Tenancy.WorkspaceId} {name : JsString}
    {at' : Instant} {isDefault : Bool} {r : DashboardApplied A}
    (h : createDashboard id workspace name at' isDefault = .ok r)
    (commands : List (DashboardCommand A × Instant)) :
    Throughout DashboardApplied.step (fun s ↦ Sound s.dashboard) r commands ∧
      Along DashboardApplied.step (fun s a ↦ ∀ e, a.1.apply s.dashboard a.2 = .error e →
        ∀ t, s.step a = some t → t = s) r commands := by
  have hcreated : Sound r.dashboard := by
    rw [createDashboard] at h
    split_ifs at h
    obtain rfl := Except.ok.inj h
    have hnil {P : Tile A → Prop} : ∀ t ∈ ([] : List (Tile A)), P t := List.forall_mem_nil _
    exact ⟨List.nodup_nil, Nat.zero_le _, hnil, hnil, hnil, hnil⟩
  have hstep (s : DashboardApplied A) (a : DashboardCommand A × Instant) (t : DashboardApplied A)
      (hs : Sound s.dashboard) (ht : s.step a = some t) : Sound t.dashboard := sound_step hs ht
  exact ⟨throughout_of_invariant hstep hcreated commands,
    along_of_invariant hstep (fun s a _ e he t ht ↦ refused_unchanged he ht) hcreated commands⟩

def sampleCreated : DashboardApplied Unit where
  dashboard := ⟨js "db_1", js "ws_1", js "Traffic", [], false, none⟩
  events := [.created (js "db_1") (js "ws_1") (js "Traffic") 0]

/-- A tile is added, laid out, and widened. -/
def sampleCommands : List (DashboardCommand Unit × Instant) :=
  [(.addTile (js "t1") (js "Visits") (js "pr_1") () .line (6 : ℤ), 1),
    (.setLayout [⟨⟨(0 : ℤ), (0 : ℤ), (4 : ℤ)⟩, js "t1", (6 : ℤ)⟩], 2),
    (.resizeTile (js "t1") (8 : ℤ), 3)]

theorem dashboard_sound_sample :
    Throughout DashboardApplied.step (fun s ↦ Sound s.dashboard) sampleCreated sampleCommands ∧
      Along DashboardApplied.step (fun s a ↦ ∀ e, a.1.apply s.dashboard a.2 = .error e →
        ∀ t, s.step a = some t → t = s) sampleCreated sampleCommands := by
  have hcreated : createDashboard (js "db_1") (js "ws_1") (js " Traffic ") 0 false =
      .ok sampleCreated := rfl
  exact dashboard_sound hcreated sampleCommands

end Counted.Dashboarding
