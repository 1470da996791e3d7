import Counted.Foundations.Decoding
import Counted.Kernel.Whole
import Counted.Tenancy.Workspace

namespace Counted.Dashboarding

open Foundations
open Ingestion (ProjectId)
open Tenancy (WorkspaceId)

abbrev DashboardId := JsString

abbrev TileId := JsString

/-- A row is twelve units wide. -/
def rowUnits : ℤ := 12

def maxTiles : ℕ := 50

structure TileLayout where
  x : JsNumber
  y : JsNumber
  height : JsNumber
  deriving DecidableEq

structure TilePlacement extends TileLayout where
  id : TileId
  width : JsNumber

inductive TileView | number | line | bar | table | funnel | retention
  deriving DecidableEq

/-- `A` is the analysis, which means nothing here. -/
structure Tile (A : Type) where
  id : TileId
  title : JsString
  project : ProjectId
  analysis : A
  view : TileView
  width : JsNumber
  layout : Option TileLayout

/-- A capability to read one dashboard. -/
structure ShareGrant where
  dashboard : DashboardId
  digest : JsString
  expiresAt : Instant
  deriving DecidableEq

inductive DashboardError
  | invalidLayout (detail : JsString)
  | nameRequired
  | nameUnchanged
  | tileTitleRequired
  | tileExists (tile : TileId)
  | noSuchTile (tile : TileId)
  | tooManyTiles (max : ℕ)
  | invalidWidth (width : JsNumber)
  | widthUnchanged (tile : TileId)
  | indexOutOfRange (index : JsNumber) (size : ℕ)
  | positionUnchanged (tile : TileId)
  | notAPermutation (expected received : ℕ)
  | orderUnchanged
  | shareGrantExpired
  | shareGrantMismatch
  | notShared
  deriving DecidableEq

inductive DashboardEvent
  | created (dashboard : DashboardId) (workspace : WorkspaceId) (name : JsString) (at' : Instant)
  | layoutChanged (dashboard : DashboardId) (at' : Instant)
  | renamed (dashboard : DashboardId) (name : JsString) (at' : Instant)
  | tileAdded (dashboard : DashboardId) (tile : TileId) (project : ProjectId) (at' : Instant)
  | tileUpdated (dashboard : DashboardId) (tile : TileId) (at' : Instant)
  | tileRemoved (dashboard : DashboardId) (tile : TileId) (at' : Instant)
  | tileResized (dashboard : DashboardId) (tile : TileId) (width : JsNumber) (at' : Instant)
  | tileMoved (dashboard : DashboardId) (tile : TileId) (position : JsNumber) (at' : Instant)
  | tilesReordered (dashboard : DashboardId) (order : List TileId) (at' : Instant)
  | shared (dashboard : DashboardId) (expiresAt : Instant) (at' : Instant)
  | unshared (dashboard : DashboardId) (at' : Instant)

structure DashboardSnapshot (A : Type) where
  id : DashboardId
  workspace : WorkspaceId
  name : JsString
  tiles : List (Tile A)
  isDefault : Bool
  share : Option ShareGrant

structure DashboardApplied (A : Type) where
  dashboard : DashboardSnapshot A
  events : List DashboardEvent

abbrev DashboardResult (A : Type) := Except DashboardError (DashboardApplied A)

def validTileWidth (n : JsNumber) : Bool := n.isInteger && JsNumber.le (1 : ℤ) n && n.le rowUnits

def validTileLayout (l : TileLayout) (width : JsNumber) : Bool :=
  l.x.isInteger && JsNumber.le (0 : ℤ) l.x && (l.x.plus width).le rowUnits &&
  l.y.isInteger && JsNumber.le (0 : ℤ) l.y && l.y.le (1000 : ℤ) &&
  l.height.isInteger && JsNumber.le (3 : ℤ) l.height && l.height.le (20 : ℤ)

def TilePlacement.overlaps (a b : TilePlacement) : Bool :=
  a.x.lt (b.x.plus b.width) && b.x.lt (a.x.plus a.width) &&
  a.y.lt (b.y.plus b.height) && b.y.lt (a.y.plus a.height)

/-- From the top, and from the left within a row. -/
def TilePlacement.before (a b : TilePlacement) : Prop := a.y.lt b.y = true ∨ a.y = b.y ∧ a.x.le b.x = true

instance (a b : TilePlacement) : Decidable (a.before b) := by
  unfold TilePlacement.before
  infer_instance

variable {A : Type}

/-- `Dashboard.create`. -/
def createDashboard (id : DashboardId) (workspace : WorkspaceId) (name : JsString) (at' : Instant)
    (isDefault : Bool) : DashboardResult A :=
  if name.trim = [] then .error .nameRequired
  else .ok ⟨⟨id, workspace, name.trim, [], isDefault, none⟩, [.created id workspace name.trim at']⟩

def Tile.withoutLayout (t : Tile A) : Tile A := { t with layout := none }

def Tile.withWidth (t : Tile A) (width : JsNumber) : Tile A := { t with width, layout := none }

def Tile.placed (t : Tile A) (p : TilePlacement) : Tile A :=
  { t with width := p.width, layout := some p.toTileLayout }

namespace DashboardSnapshot

variable (d : DashboardSnapshot A)

def tile (id : TileId) : Option (Tile A) := d.tiles.find? (fun t ↦ t.id = id)

def has (id : TileId) : Bool := d.tiles.any (fun t ↦ t.id = id)

def replaceTile (id : TileId) (f : Tile A → Tile A) : List (Tile A) :=
  d.tiles.map (fun t ↦ if t.id = id then f t else t)

def wellFormed (tile : Tile A) : Except DashboardError Unit :=
  if tile.title.trim = [] then .error .tileTitleRequired
  else if !validTileWidth tile.width then .error (.invalidWidth tile.width)
  else .ok ()

def addTile (tile : Tile A) (at' : Instant) : DashboardResult A :=
  if maxTiles ≤ d.tiles.length then .error (.tooManyTiles maxTiles)
  else if d.has tile.id then .error (.tileExists tile.id)
  else (wellFormed tile).map fun _ ↦
    ⟨{ d with tiles := d.tiles ++ [tile] }, [.tileAdded d.id tile.id tile.project at']⟩

/-- Keeps the place on the grid only where the width stays. -/
def updateTile (tile : Tile A) (at' : Instant) : DashboardResult A :=
  if !d.has tile.id then .error (.noSuchTile tile.id)
  else (wellFormed tile).map fun _ ↦
    ⟨{ d with
        tiles := d.replaceTile tile.id
          (fun t ↦ if t.width = tile.width then tile else tile.withoutLayout) },
      [.tileUpdated d.id tile.id at']⟩

def resizeTile (id : TileId) (width : JsNumber) (at' : Instant) : DashboardResult A :=
  match d.tile id with
  | none => .error (.noSuchTile id)
  | some existing =>
    if !validTileWidth width then .error (.invalidWidth width)
    else if existing.width = width then .error (.widthUnchanged id)
    else .ok ⟨{ d with tiles := d.replaceTile id (·.withWidth width) },
      [.tileResized d.id id width at']⟩

/-- The whole grid at once. Repeating the same layout is a success. -/
def setLayout (placements : List TilePlacement) (at' : Instant) : DashboardResult A :=
  let ids := placements.map (·.id)
  if placements.length ≠ d.tiles.length ∨ ids.dedup.length ≠ d.tiles.length ∨
      d.tiles.any (fun t ↦ t.id ∉ ids) then
    .error (.invalidLayout (js "The layout must contain every insight exactly once. Reload the dashboard and try again."))
  else if placements.any (fun p ↦ !validTileWidth p.width || !validTileLayout p.toTileLayout p.width) then
    .error (.invalidLayout (js "An insight lies outside the grid or has an invalid size."))
  else if ¬ placements.Pairwise (fun a b ↦ a.overlaps b = false) then
    .error (.invalidLayout (js "Insights cannot overlap."))
  else
    let tiles := (placements.insertionSort TilePlacement.before).filterMap
      (fun p ↦ (d.tile p.id).map (·.placed p))
    let unchanged := (tiles.zip d.tiles).all
      (fun p ↦ p.2.id = p.1.id && p.2.width = p.1.width && p.2.layout = p.1.layout)
    .ok (if unchanged then ⟨d, []⟩ else ⟨{ d with tiles }, [.layoutChanged d.id at']⟩)

/-- Order is the layout. -/
def moveTile (id : TileId) (toIndex : JsNumber) (at' : Instant) : DashboardResult A :=
  match d.tiles.findIdx? (fun t ↦ t.id = id), toIndex.whole with
  | none, _ => .error (.noSuchTile id)
  | some _, none => .error (.indexOutOfRange toIndex d.tiles.length)
  | some fromIndex, some index =>
    if index < 0 ∨ (d.tiles.length : ℤ) ≤ index then
      .error (.indexOutOfRange toIndex d.tiles.length)
    else if (fromIndex : ℤ) = index then .error (.positionUnchanged id)
    else
      let next := match d.tiles[fromIndex]? with
        | none => d.tiles
        | some moved => (d.tiles.eraseIdx fromIndex).insertIdx index.toNat moved
      .ok ⟨{ d with tiles := next.map (·.withoutLayout) }, [.tileMoved d.id id toIndex at']⟩

/-- A permutation of exactly the tiles that are here. -/
def reorderTiles (order : List TileId) (at' : Instant) : DashboardResult A :=
  match order.find? (fun id ↦ !d.has id) with
  | some id => .error (.noSuchTile id)
  | none =>
    if order.dedup.length ≠ d.tiles.length ∨ order.length ≠ d.tiles.length then
      .error (.notAPermutation d.tiles.length order.dedup.length)
    else if d.tiles.map (·.id) = order then .error .orderUnchanged
    else .ok ⟨{ d with tiles := (order.filterMap d.tile).map (·.withoutLayout) },
      [.tilesReordered d.id order at']⟩

def removeTile (id : TileId) (at' : Instant) : DashboardResult A :=
  if !d.has id then .error (.noSuchTile id)
  else .ok ⟨{ d with tiles := d.tiles.filter (fun t ↦ t.id ≠ id) }, [.tileRemoved d.id id at']⟩

def rename (name : JsString) (at' : Instant) : DashboardResult A :=
  if name.trim = [] then .error .nameRequired
  else if name.trim = d.name then .error .nameUnchanged
  else .ok ⟨{ d with name := name.trim }, [.renamed d.id name.trim at']⟩

/-- Replacing a grant revokes it. -/
def grantShare (grant : ShareGrant) (at' : Instant) : DashboardResult A :=
  if grant.dashboard ≠ d.id then .error .shareGrantMismatch
  else if ¬ at' < grant.expiresAt then .error .shareGrantExpired
  else .ok ⟨{ d with share := some grant }, [.shared d.id grant.expiresAt at']⟩

def unshare (at' : Instant) : DashboardResult A :=
  if d.share = none then .error .notShared
  else .ok ⟨{ d with share := none }, [.unshared d.id at']⟩

end DashboardSnapshot

/-- A patch, not a replacement. -/
structure TilePatch (A : Type) where
  tile : TileId
  title : Option JsString
  project : Option ProjectId
  analysis : Option A
  view : Option TileView
  width : Option JsNumber

def TilePatch.apply (p : TilePatch A) (t : Tile A) : Tile A where
  id := t.id
  title := p.title.getD t.title
  project := p.project.getD t.project
  analysis := p.analysis.getD t.analysis
  view := p.view.getD t.view
  width := p.width.getD t.width
  layout := t.layout

/-- The use cases that load one dashboard and save it. The id of a new tile and the digest of a
share token have been minted. -/
inductive DashboardCommand (A : Type)
  | rename (name : JsString)
  | addTile (id : TileId) (title : JsString) (project : ProjectId) (analysis : A) (view : TileView)
      (width : JsNumber)
  | updateTile (patch : TilePatch A)
  | resizeTile (tile : TileId) (width : JsNumber)
  | moveTile (tile : TileId) (position : JsNumber)
  | reorderTiles (order : List TileId)
  | removeTile (tile : TileId)
  | setLayout (placements : List TilePlacement)
  | share (digest : JsString) (ttl : Duration)
  | unshare

def DashboardCommand.apply (d : DashboardSnapshot A) (at' : Instant) :
    DashboardCommand A → DashboardResult A
  | .rename name => d.rename name at'
  | .addTile id title project analysis view width =>
    d.addTile ⟨id, title, project, analysis, view, width, none⟩ at'
  | .updateTile patch =>
    match d.tile patch.tile with
    | none => .error (.noSuchTile patch.tile)
    | some existing => d.updateTile (patch.apply existing) at'
  | .resizeTile tile width => d.resizeTile tile width at'
  | .moveTile tile position => d.moveTile tile position at'
  | .reorderTiles order => d.reorderTiles order at'
  | .removeTile tile => d.removeTile tile at'
  | .setLayout placements => d.setLayout placements at'
  | .share digest ttl => d.grantShare ⟨d.id, digest, at' + ttl⟩ at'
  | .unshare => d.unshare at'

namespace DashboardCommand

def adds : DashboardCommand A → Option TileId
  | .addTile id .. => some id
  | _ => none

def removes : DashboardCommand A → Option TileId
  | .removeTile id => some id
  | _ => none

/-- The grant that a command leaves behind. -/
def shareAfter (d : DashboardSnapshot A) (at' : Instant) : DashboardCommand A → Option ShareGrant
  | .share digest ttl => some ⟨d.id, digest, at' + ttl⟩
  | .unshare => none
  | _ => d.share

end DashboardCommand

/-- What a command that is accepted leaves of the share and of the tiles. -/
structure Accepts (d : DashboardSnapshot A) (command : DashboardCommand A) (at' : Instant)
    (e : DashboardSnapshot A) : Prop where
  id : e.id = d.id
  share : e.share = command.shareAfter d at'
  keeps : ∀ t ∈ d.tiles, command.removes ≠ some t.id → ∃ u ∈ e.tiles, u.id = t.id
  adds : ∀ id, command.adds = some id → ∃ u ∈ e.tiles, u.id = id

namespace DashboardSnapshot

variable {d : DashboardSnapshot A} {r : DashboardApplied A} {at' : Instant} {t : Tile A}

theorem tile_some {id : TileId} (h : d.tile id = some t) : t ∈ d.tiles ∧ t.id = id := by
  refine ⟨List.mem_of_find?_eq_some h, ?_⟩
  simpa using List.find?_some h

theorem exists_tile (ht : t ∈ d.tiles) : ∃ u, d.tile t.id = some u ∧ u.id = t.id := by
  cases hf : d.tile t.id with
  | none => exact absurd (decide_eq_true rfl) (List.find?_eq_none.1 hf t ht)
  | some u => exact ⟨u, rfl, (tile_some hf).2⟩

theorem replaceTile_keeps (ht : t ∈ d.tiles) {id : TileId} {f : Tile A → Tile A}
    (hf : ∀ u, u.id = id → (f u).id = id) : ∃ u ∈ d.replaceTile id f, u.id = t.id := by
  refine ⟨_, List.mem_map_of_mem ht, ?_⟩
  split_ifs with h
  · exact (hf t h).trans h.symm
  · rfl

theorem addTile_ok {tile : Tile A} (h : d.addTile tile at' = .ok r) :
    r.dashboard = { d with tiles := d.tiles ++ [tile] } ∧ d.tiles.length < maxTiles ∧
      (∀ t ∈ d.tiles, t.id ≠ tile.id) ∧ wellFormed tile = .ok () := by
  rw [addTile] at h
  split_ifs at h with hmax hhas
  obtain ⟨_, hshaped, rfl⟩ := map_ok.1 h
  rw [has, Bool.not_eq_true, List.any_eq_false] at hhas
  exact ⟨rfl, not_le.1 hmax, fun t ht ↦ by simpa using hhas t ht, hshaped⟩

theorem updateTile_ok {tile : Tile A} (h : d.updateTile tile at' = .ok r) :
    r.dashboard = { d with
      tiles := d.replaceTile tile.id
        (fun t ↦ if t.width = tile.width then tile else tile.withoutLayout) } ∧
      wellFormed tile = .ok () := by
  rw [updateTile] at h
  split_ifs at h
  obtain ⟨_, hshaped, rfl⟩ := map_ok.1 h
  exact ⟨rfl, hshaped⟩

theorem resizeTile_ok {id : TileId} {width : JsNumber} (h : d.resizeTile id width at' = .ok r) :
    r.dashboard = { d with tiles := d.replaceTile id (·.withWidth width) } ∧
      validTileWidth width = true := by
  rw [resizeTile] at h
  cases ht : d.tile id with
  | none =>
    rw [ht] at h
    cases h
  | some existing =>
    rw [ht] at h
    dsimp only at h
    split_ifs at h with hwidth
    obtain rfl := Except.ok.inj h
    exact ⟨rfl, by simpa using hwidth⟩

theorem setLayout_ok {placements : List TilePlacement} (h : d.setLayout placements at' = .ok r) :
    ∃ tiles, r.dashboard = { d with tiles } ∧ ∀ t ∈ d.tiles, ∃ u ∈ tiles, u.id = t.id := by
  rw [setLayout] at h
  dsimp only at h
  split_ifs at h with hids hvalid hover hsame
  · exact ⟨d.tiles, Except.ok.inj h ▸ rfl, fun t ht ↦ ⟨t, ht, rfl⟩⟩
  · obtain rfl := Except.ok.inj h
    refine ⟨_, rfl, fun t ht ↦ ?_⟩
    rw [not_or, not_or, Bool.not_eq_true, List.any_eq_false] at hids
    have hmem : t.id ∈ placements.map (·.id) := by simpa using hids.2.2 t ht
    obtain ⟨p, hp, hid⟩ := List.mem_map.1 hmem
    obtain ⟨u, hu, -⟩ := exists_tile ht
    refine ⟨u.placed p, List.mem_filterMap.2 ⟨p, (List.mem_insertionSort _).2 hp, ?_⟩, ?_⟩
    · rw [hid, hu]
      rfl
    · exact (tile_some hu).2

theorem moveTile_ok {id : TileId} {toIndex : JsNumber} (h : d.moveTile id toIndex at' = .ok r) :
    ∃ next : List (Tile A), r.dashboard = { d with tiles := next.map (·.withoutLayout) } ∧ next.Perm d.tiles := by
  rw [moveTile] at h
  cases hf : d.tiles.findIdx? (fun t ↦ t.id = id) with
  | none =>
    rw [hf] at h
    cases h
  | some fromIndex =>
    cases hw : toIndex.whole with
    | none =>
      rw [hf, hw] at h
      cases h
    | some index =>
      rw [hf, hw] at h
      dsimp only at h
      split_ifs at h with hindex hsame
      obtain rfl := Except.ok.inj h
      refine ⟨_, rfl, ?_⟩
      cases hm : d.tiles[fromIndex]? with
      | none => exact .refl _
      | some moved =>
        obtain ⟨hlt, rfl⟩ := List.getElem?_eq_some_iff.1 hm
        have hle : index.toNat ≤ (d.tiles.eraseIdx fromIndex).length := by
          rw [List.length_eraseIdx_of_lt hlt]
          omega
        exact (List.perm_insertIdx d.tiles[fromIndex] _ hle).trans
          (List.getElem_cons_eraseIdx_perm hlt)

theorem ids_filterMap {order : List TileId} (h : order.find? (fun id ↦ !d.has id) = none) :
    (order.filterMap d.tile).map (·.id) = order := by
  induction order with
  | nil => rfl
  | cons id order ih =>
    rw [List.find?_cons] at h
    cases hh : d.has id with
    | false =>
      rw [hh] at h
      cases h
    | true =>
      rw [hh] at h
      obtain ⟨t, ht, hid⟩ := List.any_eq_true.1 hh
      obtain ⟨u, hu, hid'⟩ := exists_tile ht
      rw [of_decide_eq_true hid] at hu hid'
      rw [List.filterMap_cons, hu, List.map_cons, ih h, hid']

theorem reorderTiles_ok {order : List TileId} (h : d.reorderTiles order at' = .ok r) :
    ∃ next : List (Tile A), r.dashboard = { d with tiles := next.map (·.withoutLayout) } ∧
      (∀ t ∈ next, t ∈ d.tiles) ∧ next.map (·.id) = order ∧ order.Nodup ∧
        order.length = d.tiles.length := by
  rw [reorderTiles] at h
  cases hf : order.find? (fun id ↦ !d.has id) with
  | some id =>
    rw [hf] at h
    cases h
  | none =>
    rw [hf] at h
    dsimp only at h
    split_ifs at h with hperm hsame
    obtain rfl := Except.ok.inj h
    rw [not_or, not_not, not_not] at hperm
    refine ⟨_, rfl, fun t ht ↦ ?_, ids_filterMap hf, ?_, hperm.2⟩
    · obtain ⟨id, -, hid⟩ := List.mem_filterMap.1 ht
      exact (tile_some hid).1
    · exact List.dedup_eq_self.1 ((List.dedup_sublist order).eq_of_length (hperm.1.trans hperm.2.symm))

/-- As many distinct ids as there are tiles, all of them ids of tiles, are all their ids. -/
theorem mem_order {next : List (Tile A)} (hn : ∀ t ∈ next, t ∈ d.tiles)
    (hnodup : (next.map (·.id)).Nodup) (hlength : next.length = d.tiles.length) (ht : t ∈ d.tiles) :
    ∃ u ∈ next, u.id = t.id := by
  have hsub : next.map (·.id) ⊆ d.tiles.map (·.id) := List.map_subset _ hn
  have hperm := (hnodup.subperm hsub).perm_of_length_le (by simp [hlength])
  exact List.mem_map.1 (hperm.mem_iff.2 (List.mem_map_of_mem ht))

end DashboardSnapshot

/-- A command that only rearranges or rewrites the tiles. -/
theorem accepts_retiled {d e : DashboardSnapshot A} {command : DashboardCommand A} {at' : Instant}
    {tiles : List (Tile A)} (he : e = { d with tiles })
    (hk : ∀ t ∈ d.tiles, ∃ u ∈ tiles, u.id = t.id) (hs : command.shareAfter d at' = d.share)
    (ha : command.adds = none) : Accepts d command at' e := by
  subst he
  refine ⟨rfl, hs.symm, fun t ht _ ↦ hk t ht, fun id hid ↦ ?_⟩
  rw [ha] at hid
  cases hid

theorem apply_accepts {d : DashboardSnapshot A} {command : DashboardCommand A} {at' : Instant}
    {r : DashboardApplied A} (h : command.apply d at' = .ok r) :
    Accepts d command at' r.dashboard := by
  cases command with
  | rename name =>
    rw [DashboardCommand.apply, DashboardSnapshot.rename] at h
    split_ifs at h
    obtain rfl := Except.ok.inj h
    exact ⟨rfl, rfl, fun t ht _ ↦ ⟨t, ht, rfl⟩, fun id hid ↦ by cases hid⟩
  | addTile id title project analysis view width =>
    rw [(DashboardSnapshot.addTile_ok h).1]
    refine ⟨rfl, rfl, fun t ht _ ↦ ⟨t, List.mem_append_left _ ht, rfl⟩, fun id hid ↦ ?_⟩
    exact ⟨_, List.mem_append_right _ (List.mem_singleton.2 rfl), Option.some.inj hid⟩
  | updateTile patch =>
    rw [DashboardCommand.apply] at h
    cases hp : d.tile patch.tile with
    | none =>
      rw [hp] at h
      cases h
    | some existing =>
      rw [hp] at h
      refine accepts_retiled (DashboardSnapshot.updateTile_ok h).1 (fun t ht ↦ ?_) rfl rfl
      apply DashboardSnapshot.replaceTile_keeps ht
      intro u hu
      split_ifs
      · rfl
      · rfl
  | resizeTile tile width =>
    exact accepts_retiled (DashboardSnapshot.resizeTile_ok h).1
      (fun t ht ↦ DashboardSnapshot.replaceTile_keeps ht (fun u hu ↦ hu)) rfl rfl
  | moveTile tile position =>
    obtain ⟨next, he, hp⟩ := DashboardSnapshot.moveTile_ok h
    refine accepts_retiled he (fun t ht ↦ ⟨t.withoutLayout, ?_, rfl⟩) rfl rfl
    exact List.mem_map_of_mem (hp.mem_iff.2 ht)
  | reorderTiles order =>
    obtain ⟨next, he, hn, hids, hnodup, hlength⟩ := DashboardSnapshot.reorderTiles_ok h
    refine accepts_retiled he (fun t ht ↦ ?_) rfl rfl
    have hl := congrArg List.length hids
    rw [List.length_map] at hl
    obtain ⟨u, hu, hid⟩ := DashboardSnapshot.mem_order hn (hids ▸ hnodup) (hl.trans hlength) ht
    exact ⟨u.withoutLayout, List.mem_map_of_mem hu, hid⟩
  | removeTile tile =>
    rw [DashboardCommand.apply, DashboardSnapshot.removeTile] at h
    split_ifs at h
    obtain rfl := Except.ok.inj h
    refine ⟨rfl, rfl, fun t ht hr ↦ ⟨t, List.mem_filter.2 ⟨ht, ?_⟩, rfl⟩, fun id hid ↦ by cases hid⟩
    exact decide_eq_true fun he ↦ hr (congrArg some he.symm)
  | setLayout placements =>
    obtain ⟨tiles, he, hk⟩ := DashboardSnapshot.setLayout_ok h
    exact accepts_retiled he hk rfl rfl
  | share digest ttl =>
    rw [DashboardCommand.apply, DashboardSnapshot.grantShare] at h
    split_ifs at h
    obtain rfl := Except.ok.inj h
    exact ⟨rfl, rfl, fun t ht _ ↦ ⟨t, ht, rfl⟩, fun id hid ↦ by cases hid⟩
  | unshare =>
    rw [DashboardCommand.apply, DashboardSnapshot.unshare] at h
    split_ifs at h
    obtain rfl := Except.ok.inj h
    exact ⟨rfl, rfl, fun t ht _ ↦ ⟨t, ht, rfl⟩, fun id hid ↦ by cases hid⟩

end Counted.Dashboarding
