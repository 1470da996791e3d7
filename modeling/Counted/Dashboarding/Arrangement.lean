import Counted.Dashboarding.Dashboard
import Counted.Foundations.Rectangles
import Counted.Foundations.Run

namespace Counted.Dashboarding

open Foundations

variable {A : Type}

def TilePlacement.valid (p : TilePlacement) : Bool :=
  validTileWidth p.width && validTileLayout p.toTileLayout p.width

/-- The cells of the grid that a placement takes up. -/
def TilePlacement.rectangle (p : TilePlacement) : Rectangle where
  x := p.x.whole.getD 0
  y := p.y.whole.getD 0
  width := p.width.whole.getD 0
  height := p.height.whole.getD 0

/-- Placements of exactly the tiles that are here, in their bounds and apart from each other. -/
structure Legal (d : DashboardSnapshot A) (placements : List TilePlacement) : Prop where
  names : (placements.map (·.id)).Perm (d.tiles.map (·.id))
  valid : ∀ p ∈ placements, p.valid
  apart : placements.Pairwise (fun a b ↦ a.overlaps b = false)

/-- The tiles at their placements, from the top. -/
def arranged (d : DashboardSnapshot A) (placements : List TilePlacement) : List (Tile A) :=
  (placements.insertionSort TilePlacement.before).filterMap (fun p ↦ (d.tile p.id).map (·.placed p))

namespace TilePlacement

variable {p q : TilePlacement}

theorem overlaps_comm (p q : TilePlacement) : p.overlaps q = q.overlaps p := by
  simp only [overlaps, Bool.and_assoc, Bool.and_comm, Bool.and_left_comm]

theorem whole_of_valid (h : p.valid) : p.x = (p.rectangle.x : JsNumber) ∧
    p.y = (p.rectangle.y : JsNumber) ∧ p.width = (p.rectangle.width : JsNumber) ∧
      p.height = (p.rectangle.height : JsNumber) := by
  simp only [valid, validTileWidth, validTileLayout, Bool.and_eq_true] at h
  have hw {n : JsNumber} (hn : n.isInteger = true) : n = ((n.whole.getD 0 : ℤ) : JsNumber) := by
    obtain ⟨m, rfl⟩ := JsNumber.isInteger_iff.1 hn
    rw [JsNumber.whole_intCast]
    rfl
  exact ⟨hw (by tauto), hw (by tauto), hw (by tauto), hw (by tauto)⟩

theorem proper_of_valid (h : p.valid) : p.rectangle.Proper := by
  obtain ⟨hx, hy, hw, hh⟩ := whole_of_valid h
  simp only [valid, validTileWidth, validTileLayout, Bool.and_eq_true, hx, hy, hw, hh,
    JsNumber.intCast_le, decide_eq_true_eq] at h
  constructor <;> omega

theorem overlaps_iff (hp : p.valid) (hq : q.valid) :
    p.overlaps q = true ↔ p.rectangle.Overlaps q.rectangle := by
  obtain ⟨hx, hy, hw, hh⟩ := whole_of_valid hp
  obtain ⟨hx', hy', hw', hh'⟩ := whole_of_valid hq
  simp only [overlaps, Bool.and_eq_true, hx, hy, hw, hh, hx', hy', hw', hh', JsNumber.intCast_plus,
    JsNumber.intCast_lt, decide_eq_true_eq, Rectangle.Overlaps]
  tauto

theorem before_iff (hp : p.valid) (hq : q.valid) :
    p.before q ↔ p.rectangle.Before q.rectangle := by
  obtain ⟨hx, hy, hw, hh⟩ := whole_of_valid hp
  obtain ⟨hx', hy', hw', hh'⟩ := whole_of_valid hq
  simp only [before, hx, hy, hx', hy', JsNumber.intCast_lt, JsNumber.intCast_le,
    JsNumber.intCast_inj, decide_eq_true_eq, Rectangle.Before]

end TilePlacement

namespace Legal

variable {d : DashboardSnapshot A} {ps qs : List TilePlacement} {at' : Instant}

theorem perm (h : Legal d ps) (hp : qs.Perm ps) : Legal d qs where
  names := (hp.map _).trans h.names
  valid p hq := h.valid p (hp.mem_iff.1 hq)
  apart := (hp.pairwise_iff (fun hab ↦ (TilePlacement.overlaps_comm _ _).trans hab)).2 h.apart

/-- Placements that are legal have one order on the page. -/
theorem sort_eq (h : Legal d ps) (hp : qs.Perm ps) :
    qs.insertionSort TilePlacement.before = ps.insertionSort TilePlacement.before := by
  have hcorners {l : List TilePlacement} (hv : ∀ p ∈ l, p.valid) :
      l.insertionSort TilePlacement.before =
        l.insertionSort (fun a b ↦ a.rectangle.Before b.rectangle) := by
    have hmap := List.map_insertionSort TilePlacement.before
      (fun a b : TilePlacement ↦ a.rectangle.Before b.rectangle) id l
      (fun a ha b hb ↦ TilePlacement.before_iff (hv a ha) (hv b hb))
    rwa [List.map_id, List.map_id] at hmap
  rw [hcorners h.valid, hcorners (h.perm hp).valid]
  refine (Rectangle.sort_eq_of_perm (fun p hm ↦ TilePlacement.proper_of_valid (h.valid p hm)) ?_
    hp.symm).symm
  refine h.apart.imp_of_mem fun ha hb hab ho ↦ ?_
  rw [(TilePlacement.overlaps_iff (h.valid _ ha) (h.valid _ hb)).2 ho] at hab
  cases hab

theorem arranged_eq (h : Legal d ps) (hp : qs.Perm ps) : arranged d qs = arranged d ps := by
  rw [arranged, h.sort_eq hp]
  rfl

theorem exists_tile (h : Legal d ps) {p : TilePlacement} (hp : p ∈ ps) :
    ∃ t, d.tile p.id = some t ∧ t ∈ d.tiles ∧ t.id = p.id := by
  obtain ⟨t, ht, hid⟩ := List.mem_map.1 (h.names.mem_iff.1 (List.mem_map_of_mem hp))
  obtain ⟨u, hu, -⟩ := DashboardSnapshot.exists_tile ht
  rw [hid] at hu
  exact ⟨u, hu, DashboardSnapshot.tile_some hu⟩

theorem mem_arranged {u : Tile A} :
    u ∈ arranged d ps ↔ ∃ p ∈ ps, ∃ t, d.tile p.id = some t ∧ u = t.placed p := by
  simp only [arranged, List.mem_filterMap, List.mem_insertionSort, Option.map_eq_some_iff]
  constructor
  · rintro ⟨p, hp, t, ht, rfl⟩
    exact ⟨p, hp, t, ht, rfl⟩
  · rintro ⟨p, hp, t, ht, rfl⟩
    exact ⟨p, hp, t, ht, rfl⟩

theorem ids_arranged (h : Legal d ps) : ((arranged d ps).map (·.id)).Perm (d.tiles.map (·.id)) := by
  have hids {l : List TilePlacement} (hl : ∀ p ∈ l, p ∈ ps) :
      (l.filterMap (fun p ↦ (d.tile p.id).map (·.placed p))).map (·.id) = l.map (·.id) := by
    induction l with
    | nil => rfl
    | cons p l ih =>
      rw [List.forall_mem_cons] at hl
      obtain ⟨t, ht, -, hid⟩ := h.exists_tile hl.1
      rw [List.filterMap_cons, ht, Option.map_some, List.map_cons, List.map_cons, ih hl.2]
      exact congrArg (· :: _) hid
  rw [arranged, hids (fun p hp ↦ (List.mem_insertionSort _).1 hp)]
  exact ((List.perm_insertionSort _ ps).map _).trans h.names

end Legal

namespace DashboardSnapshot

variable {d : DashboardSnapshot A} {ps qs : List TilePlacement} {at' : Instant}

theorem eq_of_id (hd : (d.tiles.map (·.id)).Nodup) {t u : Tile A} (ht : t ∈ d.tiles)
    (hu : u ∈ d.tiles) (h : t.id = u.id) : t = u := List.inj_on_of_nodup_map hd ht hu h

/-- Tiles that are where they were are the tiles that were there. -/
theorem arranged_of_unchanged (hd : (d.tiles.map (·.id)).Nodup) (h : Legal d ps)
    (hu : ((arranged d ps).zip d.tiles).all
      (fun p ↦ p.2.id = p.1.id && p.2.width = p.1.width && p.2.layout = p.1.layout) = true) :
    arranged d ps = d.tiles := by
  have hlength := h.ids_arranged.length_eq
  rw [List.length_map, List.length_map] at hlength
  apply List.ext_getElem hlength
  intro i hi hi'
  have hmem : ((arranged d ps)[i], d.tiles[i]) ∈ (arranged d ps).zip d.tiles := by
    rw [List.mem_iff_getElem]
    exact ⟨i, by rw [List.length_zip]; omega, List.getElem_zip⟩
  have hsame := List.all_eq_true.1 hu _ hmem
  simp only [Bool.and_eq_true, decide_eq_true_eq] at hsame
  obtain ⟨⟨hid, hwidth⟩, hlayout⟩ := hsame
  obtain ⟨p, -, t, ht, he⟩ := Legal.mem_arranged.1 (List.getElem_mem hi)
  have htile : t = d.tiles[i] := by
    apply eq_of_id hd (tile_some ht).1 (List.getElem_mem hi')
    rw [hid, he]
    rfl
  rw [he] at hwidth hlayout ⊢
  rw [← htile] at hwidth hlayout ⊢
  cases t
  obtain rfl : _ = p.width := hwidth
  obtain rfl : _ = some p.toTileLayout := hlayout
  rfl

theorem names_iff (hd : (d.tiles.map (·.id)).Nodup) :
    ¬ (ps.length ≠ d.tiles.length ∨ (ps.map (·.id)).dedup.length ≠ d.tiles.length ∨
      d.tiles.any (fun t ↦ t.id ∉ ps.map (·.id))) ↔
        (ps.map (·.id)).Perm (d.tiles.map (·.id)) := by
  rw [not_or, not_or, not_not, not_not, Bool.not_eq_true, List.any_eq_false]
  constructor
  · rintro ⟨hlength, -, hmem⟩
    have hsub : d.tiles.map (·.id) ⊆ ps.map (·.id) := by
      intro id hid
      obtain ⟨t, ht, rfl⟩ := List.mem_map.1 hid
      simpa using hmem t ht
    exact ((hd.subperm hsub).perm_of_length_le (by simp [hlength])).symm
  · intro hp
    have hlength := hp.length_eq
    rw [List.length_map, List.length_map] at hlength
    refine ⟨hlength, ?_, fun t ht ↦ ?_⟩
    · rw [List.Nodup.dedup (hp.nodup_iff.2 hd), List.length_map, hlength]
    · have := hp.mem_iff.2 (List.mem_map_of_mem ht)
      simpa using this

theorem setLayout_legal (hd : (d.tiles.map (·.id)).Nodup) (h : Legal d ps) (at' : Instant) :
    ∃ events, d.setLayout ps at' = .ok ⟨{ d with tiles := arranged d ps }, events⟩ ∧
      (arranged d ps = d.tiles → events = []) := by
  have hvalid : ps.any (fun p ↦ !validTileWidth p.width ||
      !validTileLayout p.toTileLayout p.width) = false := by
    rw [List.any_eq_false]
    intro p hp
    have := h.valid p hp
    rw [TilePlacement.valid, Bool.and_eq_true] at this
    simp [this.1, this.2]
  rw [setLayout]
  dsimp only
  rw [if_neg ((names_iff hd).2 h.names), hvalid, if_neg Bool.false_ne_true, if_neg (not_not.2 h.apart)]
  change ∃ events, Except.ok (if ((arranged d ps).zip d.tiles).all _ = true then _ else _) = _ ∧ _
  split_ifs with hu
  · refine ⟨[], ?_, fun _ ↦ rfl⟩
    rw [arranged_of_unchanged hd h hu]
  · refine ⟨_, rfl, fun he ↦ absurd ?_ hu⟩
    rw [he, List.all_eq_true]
    intro p hp
    have hsame : p.1 = p.2 := by
      have := List.mem_iff_getElem.1 hp
      obtain ⟨i, hi, rfl⟩ := this
      rw [List.getElem_zip]
    simp [hsame]

theorem setLayout_illegal (hd : (d.tiles.map (·.id)).Nodup) (h : ¬ Legal d ps) (at' : Instant) :
    ∃ detail, d.setLayout ps at' = .error (.invalidLayout detail) := by
  rw [setLayout]
  dsimp only
  by_cases hnames : ps.length ≠ d.tiles.length ∨ (ps.map (·.id)).dedup.length ≠ d.tiles.length ∨
      d.tiles.any (fun t ↦ t.id ∉ ps.map (·.id))
  · exact ⟨_, if_pos hnames⟩
  rw [if_neg hnames]
  by_cases hvalid : ps.any (fun p ↦ !validTileWidth p.width ||
      !validTileLayout p.toTileLayout p.width) = true
  · exact ⟨_, if_pos hvalid⟩
  rw [if_neg hvalid]
  by_cases hover : ps.Pairwise (fun a b ↦ a.overlaps b = false)
  · refine absurd ⟨(names_iff hd).1 hnames, fun p hp ↦ ?_, hover⟩ h
    rw [Bool.not_eq_true, List.any_eq_false] at hvalid
    simpa [TilePlacement.valid] using hvalid p hp
  · exact ⟨_, if_pos hover⟩

theorem legal_of_ok (hd : (d.tiles.map (·.id)).Nodup) {r : DashboardApplied A}
    (h : d.setLayout ps at' = .ok r) :
    Legal d ps ∧ r.dashboard = { d with tiles := arranged d ps } := by
  have hlegal : Legal d ps := by
    by_contra hn
    obtain ⟨detail, he⟩ := setLayout_illegal hd hn at'
    rw [he] at h
    cases h
  obtain ⟨events, he, -⟩ := setLayout_legal hd hlegal at'
  rw [he] at h
  exact ⟨hlegal, Except.ok.inj h ▸ rfl⟩

end DashboardSnapshot

/-- The same layout once more. -/
theorem Legal.setLayout_again {d : DashboardSnapshot A} {ps : List TilePlacement}
    (hd : (d.tiles.map (·.id)).Nodup) (h : Legal d ps) (later : Instant) :
    ({ d with tiles := arranged d ps } : DashboardSnapshot A).setLayout ps later =
      .ok ⟨{ d with tiles := arranged d ps }, []⟩ := by
  have hd' : ((arranged d ps).map (·.id)).Nodup := h.ids_arranged.nodup_iff.2 hd
  have hlegal : Legal ({ d with tiles := arranged d ps } : DashboardSnapshot A) ps :=
    ⟨h.names.trans h.ids_arranged.symm, h.valid, h.apart⟩
  have hsame : arranged ({ d with tiles := arranged d ps } : DashboardSnapshot A) ps =
      arranged d ps := by
    refine List.filterMap_congr fun p hp ↦ ?_
    have hp := (List.mem_insertionSort _).1 hp
    obtain ⟨u, hu, hmem, hid⟩ := hlegal.exists_tile hp
    obtain ⟨q, hq, t, ht, rfl⟩ := Legal.mem_arranged.1 hmem
    -- the tile that is found is the one that was placed
    have hqp : q.id = p.id := (DashboardSnapshot.tile_some ht).2.symm.trans hid
    rw [hqp] at ht
    rw [hu, ht]
    rfl
  obtain ⟨events, he, hnone⟩ := DashboardSnapshot.setLayout_legal hd' hlegal later
  rw [he, hnone hsame, hsame]

/-- A command on what has been loaded: a refusal leaves it and its pending events as they were. -/
def DashboardApplied.step (s : DashboardApplied A) (a : DashboardCommand A × Instant) :
    Option (DashboardApplied A) :=
  match a.1.apply s.dashboard a.2 with
  | .ok r => some ⟨r.dashboard, s.events ++ r.events⟩
  | .error _ => some s

theorem refused_unchanged {s t : DashboardApplied A} {a : DashboardCommand A × Instant}
    {e : DashboardError} (h : a.1.apply s.dashboard a.2 = .error e) (hs : s.step a = some t) :
    t = s := by
  rw [DashboardApplied.step, h] at hs
  exact (Option.some.inj hs).symm

/-- The tiles of a dashboard after a layout: each at its placement, otherwise what it was. -/
structure LaidOut (d : DashboardSnapshot A) (placements : List TilePlacement)
    (e : DashboardSnapshot A) : Prop where
  rest : e = { d with tiles := e.tiles }
  ids : (e.tiles.map (·.id)).Perm (d.tiles.map (·.id))
  placed : ∀ p ∈ placements, ∃ t ∈ d.tiles, t.id = p.id ∧
    { t with width := p.width, layout := some p.toTileLayout } ∈ e.tiles

/-- A layout is accepted exactly if it is legal. In whatever order the placements come, the tiles
are then the same, and the same layout once more changes nothing. -/
theorem setLayout_spec {d : DashboardSnapshot A} (hd : (d.tiles.map (·.id)).Nodup)
    (placements : List TilePlacement) (at' : Instant) :
    ((∃ r, d.setLayout placements at' = .ok r) ↔ Legal d placements) ∧
      (∀ r, d.setLayout placements at' = .ok r →
        LaidOut d placements r.dashboard ∧
        (∀ others, others.Perm placements → ∃ r', d.setLayout others at' = .ok r' ∧
          r'.dashboard.tiles = r.dashboard.tiles) ∧
        ∀ later, r.dashboard.setLayout placements later = .ok ⟨r.dashboard, []⟩) ∧
      ∀ e, d.setLayout placements at' = .error e → ∀ events,
        DashboardApplied.step ⟨d, events⟩ (.setLayout placements, at') = some ⟨d, events⟩ := by
  have hiff : (∃ r, d.setLayout placements at' = .ok r) ↔ Legal d placements := by
    constructor
    · rintro ⟨r, hr⟩
      exact (DashboardSnapshot.legal_of_ok hd hr).1
    · intro h
      obtain ⟨events, he, -⟩ := DashboardSnapshot.setLayout_legal hd h at'
      exact ⟨_, he⟩
  refine ⟨hiff, fun r hr ↦ ?_, fun e he events ↦ ?_⟩
  · obtain ⟨h, he⟩ := DashboardSnapshot.legal_of_ok hd hr
    rw [he]
    refine ⟨⟨rfl, h.ids_arranged, fun p hp ↦ ?_⟩, fun others ho ↦ ?_, fun later ↦ ?_⟩
    · obtain ⟨t, ht, hmem, hid⟩ := h.exists_tile hp
      exact ⟨t, hmem, hid, Legal.mem_arranged.2 ⟨p, hp, t, ht, rfl⟩⟩
    · obtain ⟨events', he', -⟩ := DashboardSnapshot.setLayout_legal hd (h.perm ho) at'
      exact ⟨_, he', h.arranged_eq ho⟩
    · exact h.setLayout_again hd later
  · rw [DashboardApplied.step, DashboardCommand.apply, he]

def sampleTile (id : TileId) : Tile Unit := ⟨id, js "Visits", js "pr_1", (), .line, (6 : ℤ), none⟩

def sampleDashboard : DashboardSnapshot Unit where
  id := js "db_1"
  workspace := js "ws_1"
  name := js "Traffic"
  tiles := [sampleTile (js "t1"), sampleTile (js "t2")]
  isDefault := false
  share := none

def placementAt (id : TileId) (x : ℤ) : TilePlacement := ⟨⟨x, (0 : ℤ), (4 : ℤ)⟩, id, (6 : ℤ)⟩

/-- Two tiles side by side, the right one first. -/
def sampleLayout : List TilePlacement := [placementAt (js "t2") 6, placementAt (js "t1") 0]

theorem setLayout_spec_sample :
    ((∃ r, sampleDashboard.setLayout sampleLayout 5 = .ok r) ↔ Legal sampleDashboard sampleLayout) ∧
      (∀ r, sampleDashboard.setLayout sampleLayout 5 = .ok r →
        LaidOut sampleDashboard sampleLayout r.dashboard ∧
        (∀ others, others.Perm sampleLayout → ∃ r', sampleDashboard.setLayout others 5 = .ok r' ∧
          r'.dashboard.tiles = r.dashboard.tiles) ∧
        ∀ later, r.dashboard.setLayout sampleLayout later = .ok ⟨r.dashboard, []⟩) ∧
      ∀ e, sampleDashboard.setLayout sampleLayout 5 = .error e → ∀ events,
        DashboardApplied.step ⟨sampleDashboard, events⟩ (.setLayout sampleLayout, 5) =
          some ⟨sampleDashboard, events⟩ :=
  setLayout_spec (by decide) sampleLayout 5

example : (sampleDashboard.setLayout sampleLayout 5).toOption.map
    (fun r ↦ r.dashboard.tiles.map (fun t ↦ (t.id, t.layout.bind (fun l ↦ l.x.whole)))) =
      some [(js "t1", some 0), (js "t2", some 6)] := by decide

end Counted.Dashboarding
