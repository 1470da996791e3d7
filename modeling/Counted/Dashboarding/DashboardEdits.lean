import Counted.Dashboarding.Dashboard
import Counted.Foundations.Concurrency
import Counted.Foundations.Run

namespace Counted.Dashboarding

open Foundations
open Tenancy (WorkspaceId)

variable {A : Type}

/-- The columns of a row of `dashboards`. A grant is for the dashboard of its row. -/
structure DashboardColumns where
  id : DashboardId
  workspace : WorkspaceId
  name : JsString
  isDefault : Bool
  share : Option (JsString × Instant)

/-- A command and the clock it is decided at. -/
structure DashboardEdit (A : Type) where
  command : DashboardCommand A
  at' : Instant

/-- What is committed of one dashboard, its tiles in the order of their positions, and the commands
that were accepted, in the order of their commits. -/
structure DashboardTable (A : Type) where
  columns : DashboardColumns
  tiles : List (Tile A)
  commits : ℕ := 0
  accepted : List (DashboardEdit A) := []

def DashboardColumns.rehydrate (columns : DashboardColumns) (tiles : List (Tile A)) : DashboardSnapshot A where
  id := columns.id
  workspace := columns.workspace
  name := columns.name
  tiles := tiles
  isDefault := columns.isDefault
  share := columns.share.map (fun p ↦ ⟨columns.id, p.1, p.2⟩)

def DashboardSnapshot.columns (d : DashboardSnapshot A) : DashboardColumns where
  id := d.id
  workspace := d.workspace
  name := d.name
  isDefault := d.isDefault
  share := d.share.map (fun g ↦ (g.digest, g.expiresAt))

def DashboardTable.load (t : DashboardTable A) : DashboardSnapshot A := t.columns.rehydrate t.tiles

/-- The next statement of a command in its transaction: the two reads, the three writes of the
save, and the commit. `seen` counts the commits there had been at the first read. -/
inductive EditProcess (A : Type)
  | readRow (e : DashboardEdit A)
  | readTiles (e : DashboardEdit A) (columns : DashboardColumns) (seen : ℕ)
  | upsertRow (e : DashboardEdit A) (d : DashboardSnapshot A) (seen : ℕ)
  | deleteTiles (e : DashboardEdit A) (d : DashboardSnapshot A)
  | insertTiles (e : DashboardEdit A) (d : DashboardSnapshot A) (deleted : List TileId)
  | commit (e : DashboardEdit A) (d : DashboardSnapshot A) (deleted : List TileId) (inserted : List (Tile A))
  | ended

abbrev EditSystem (A : Type) := Guarded ℕ (EditProcess A) (DashboardTable A)

inductive EditAction (A : Type)
  | start (i : ℕ) (e : DashboardEdit A)
  | proceed (i : ℕ)
  | fail (i : ℕ)

/-- A transaction ends: what it wrote takes the place of what is committed. -/
def DashboardTable.commit (t : DashboardTable A) (e : DashboardEdit A) (d : DashboardSnapshot A)
    (deleted : List TileId) (inserted : List (Tile A)) : DashboardTable A where
  columns := d.columns
  tiles := t.tiles.filter (fun tile ↦ tile.id ∉ deleted) ++ inserted
  commits := t.commits + 1
  accepted := t.accepted ++ [e]

namespace EditSystem

def initial (columns : DashboardColumns) (tiles : List (Tile A)) : EditSystem A :=
  ⟨{ columns, tiles }, none, fun _ ↦ none⟩

/-- The upsert locks the row to the end of the transaction, and waits for whoever holds it. The
reads lock nothing. -/
def proceed (s : EditSystem A) (i : ℕ) : EditProcess A → Option (EditSystem A)
  | .readRow e => some (s.move i (.readTiles e s.shared.columns s.shared.commits) s.shared s.holder)
  | .readTiles e columns seen =>
    match e.command.apply (columns.rehydrate s.shared.tiles) e.at' with
    | .error _ => some (s.move i .ended s.shared s.holder)
    | .ok r => some (s.move i (.upsertRow e r.dashboard seen) s.shared s.holder)
  | .upsertRow e d _ =>
    if s.holder = none then some (s.move i (.deleteTiles e d) s.shared (some i)) else none
  | .deleteTiles e d =>
    some (s.move i (.insertTiles e d (s.shared.tiles.map (·.id))) s.shared s.holder)
  | .insertTiles e d deleted =>
    some (s.move i (.commit e d deleted d.tiles) s.shared s.holder)
  | .commit e d deleted inserted =>
    some (s.move i .ended (s.shared.commit e d deleted inserted) none)
  | .ended => none

def step (s : EditSystem A) : EditAction A → Option (EditSystem A)
  | .start i e =>
    match s.process i with
    | none => some (s.move i (.readRow e) s.shared s.holder)
    | some _ => none
  | .proceed i => (s.process i).bind (s.proceed i)
  | .fail i => (s.process i).map fun _ ↦
    s.move i .ended s.shared (if s.holder = some i then none else s.holder)

end EditSystem

/-- One command after the other. -/
def accept (d : DashboardSnapshot A) (e : DashboardEdit A) : Option (DashboardSnapshot A) :=
  match e.command.apply d e.at' with
  | .ok r => some r.dashboard
  | .error _ => none

/-- The committed dashboard is what the accepted commands make of it in some order; a link that was
revoked is not resolved unless it was granted again; and a tile that was added is there until it is
removed. -/
structure EditsKept (d : DashboardSnapshot A) (s : EditSystem A) : Prop where
  serial : ∃ order : List (DashboardEdit A), order.Perm s.shared.accepted ∧
    run accept d order = some s.shared.load
  revoked : ∀ before e after, s.shared.accepted = before ++ e :: after → e.command = .unshare →
    ∀ g, s.shared.load.share = some g → ∃ l ∈ after, ∃ ttl, l.command = .share g.digest ttl
  added : ∀ before e after id, s.shared.accepted = before ++ e :: after →
    e.command.adds = some id → (∀ l ∈ after, l.command.removes ≠ some id) →
      ∃ t ∈ s.shared.load.tiles, t.id = id

/-- A command saves only if nothing has been committed since it began to load. -/
def LoadedLatest (s : EditSystem A) : EditAction A → Prop
  | .proceed i => ∀ e d seen, s.process i = some (.upsertRow e d seen) → s.shared.commits = seen
  | .start .. | .fail _ => True

theorem accept_some {d e : DashboardSnapshot A} {edit : DashboardEdit A} (h : accept d edit = some e) :
    Accepts d edit.command edit.at' e := by
  rw [accept] at h
  cases ha : edit.command.apply d edit.at' with
  | error err =>
    rw [ha] at h
    cases h
  | ok r =>
    rw [ha] at h
    obtain rfl := Option.some.inj h
    exact apply_accepts ha

/-- A link that is there has been there all along, or was granted on the way. -/
theorem share_of_run {d e : DashboardSnapshot A} {l : List (DashboardEdit A)} (h : run accept d l = some e)
    {g : ShareGrant} (hg : e.share = some g) :
    d.share = some g ∨ ∃ x ∈ l, ∃ ttl, x.command = .share g.digest ttl := by
  induction l generalizing d with
  | nil => exact .inl (Option.some.inj h ▸ hg)
  | cons x l ih =>
    obtain ⟨u, hu, he⟩ := run_cons h
    rcases ih he with hs | ⟨y, hy, hs⟩
    · rw [(accept_some hu).share] at hs
      cases hc : x.command with
      | share digest ttl =>
        rw [hc] at hs
        obtain rfl := Option.some.inj hs
        exact .inr ⟨x, List.mem_cons_self, ttl, hc⟩
      | unshare =>
        rw [hc] at hs
        cases hs
      | rename | addTile | updateTile | resizeTile | moveTile | reorderTiles | removeTile
      | setLayout =>
        rw [hc] at hs
        exact .inl hs
    · exact .inr ⟨y, List.mem_cons_of_mem x hy, hs⟩

theorem tile_of_run {d e : DashboardSnapshot A} {l : List (DashboardEdit A)} (h : run accept d l = some e)
    {id : TileId} (hd : ∃ t ∈ d.tiles, t.id = id) (hl : ∀ x ∈ l, x.command.removes ≠ some id) :
    ∃ t ∈ e.tiles, t.id = id := by
  induction l generalizing d with
  | nil => exact Option.some.inj h ▸ hd
  | cons x l ih =>
    rw [List.forall_mem_cons] at hl
    obtain ⟨u, hu, he⟩ := run_cons h
    obtain ⟨t, ht, rfl⟩ := hd
    exact ih he ((accept_some hu).keeps t ht hl.1) hl.2

/-- What the accepted commands make of a dashboard, one after the other in the order of their
commits, keeps them all. -/
theorem kept_of_run {d : DashboardSnapshot A} {s : EditSystem A}
    (h : run accept d s.shared.accepted = some s.shared.load) : EditsKept d s := by
  refine ⟨⟨_, .refl _, h⟩, ?_, ?_⟩
  · intro before e after hs hc g hg
    rw [hs, run_append, Option.bind_eq_some_iff] at h
    obtain ⟨u, -, h⟩ := h
    obtain ⟨v, hv, h⟩ := run_cons h
    rcases share_of_run h hg with hn | hx
    · rw [(accept_some hv).share, hc] at hn
      cases hn
    · exact hx
  · intro before e after id hs hc hr
    rw [hs, run_append, Option.bind_eq_some_iff] at h
    obtain ⟨u, -, h⟩ := h
    obtain ⟨v, hv, h⟩ := run_cons h
    exact tile_of_run h ((accept_some hv).adds id hc) hr

def NamesSelf (d : DashboardSnapshot A) : Prop := ∀ g, d.share = some g → g.dashboard = d.id

theorem load_namesSelf (t : DashboardTable A) : NamesSelf t.load := by
  intro g hg
  obtain ⟨p, -, rfl⟩ := Option.map_eq_some_iff.1 hg
  rfl

theorem Accepts.namesSelf {d e : DashboardSnapshot A} {command : DashboardCommand A} {at' : Instant}
    (h : Accepts d command at' e) (hd : NamesSelf d) : NamesSelf e := by
  intro g hg
  rw [h.share] at hg
  rw [h.id]
  cases command with
  | share digest ttl => exact Option.some.inj hg ▸ rfl
  | unshare => cases hg
  | rename | addTile | updateTile | resizeTile | moveTile | reorderTiles | removeTile | setLayout =>
    exact hd g hg

theorem rehydrate_columns {d : DashboardSnapshot A} (h : NamesSelf d) :
    d.columns.rehydrate d.tiles = d := by
  obtain ⟨id, workspace, name, tiles, isDefault, share⟩ := d
  cases share with
  | none => rfl
  | some g =>
    obtain ⟨dashboard, digest, expiresAt⟩ := g
    have hid : dashboard = id := h _ rfl
    subst hid
    rfl

/-- A save leaves what was saved: the row was held from the delete of the tiles on. -/
theorem load_commit {t : DashboardTable A} {e : DashboardEdit A} {d : DashboardSnapshot A}
    (h : accept t.load e = some d) :
    (t.commit e d (t.tiles.map (·.id)) d.tiles).load = d := by
  have htiles : t.tiles.filter (fun tile ↦ tile.id ∉ t.tiles.map (·.id)) = [] := by
    rw [List.filter_eq_nil_iff]
    intro tile ht hn
    exact of_decide_eq_true hn (List.mem_map_of_mem ht)
  rw [DashboardTable.load, DashboardTable.commit]
  dsimp only
  rw [htiles, List.nil_append]
  exact rehydrate_columns ((accept_some h).namesSelf (load_namesSelf t))

namespace EditSystem

/-- Past the upsert of the row. -/
def Past : EditProcess A → Prop
  | .deleteTiles .. | .insertTiles .. | .commit .. => True
  | .readRow _ | .readTiles .. | .upsertRow .. | .ended => False

/-- What a command has read and made of it is of the committed dashboard, as long as nothing is
committed. -/
def Stands (t : DashboardTable A) : EditProcess A → Prop
  | .readRow _ | .ended => True
  | .readTiles _ columns seen => seen ≤ t.commits ∧ (t.commits = seen → columns = t.columns)
  | .upsertRow e d seen => seen ≤ t.commits ∧ (t.commits = seen → accept t.load e = some d)
  | .deleteTiles e d => accept t.load e = some d
  | .insertTiles e d deleted => accept t.load e = some d ∧ deleted = t.tiles.map (·.id)
  | .commit e d deleted inserted =>
    accept t.load e = some d ∧ deleted = t.tiles.map (·.id) ∧ inserted = d.tiles

def Replays (d : DashboardSnapshot A) (t : DashboardTable A) : Prop :=
  run accept d t.accepted = some t.load

def Inv (d : DashboardSnapshot A) (s : EditSystem A) : Prop :=
  Guarded.Inv Past (Replays d) Stands s

variable {d : DashboardSnapshot A} {s t : EditSystem A} {i : ℕ}

theorem inv_initial (columns : DashboardColumns) (tiles : List (Tile A)) :
    Inv (columns.rehydrate tiles) (initial columns tiles) := by
  refine ⟨fun i p h ↦ ?_, rfl, fun i p h ↦ ?_⟩ <;> cases h

theorem stands_outdated {x y : DashboardTable A} {p : EditProcess A} (hp : ¬ Past p)
    (h : Stands x p) (hc : y.commits = x.commits + 1) : Stands y p := by
  cases p with
  | readRow | ended => trivial
  | readTiles e columns seen =>
    have hle := h.1
    exact ⟨by omega, fun he ↦ by omega⟩
  | upsertRow e d seen =>
    have hle := h.1
    exact ⟨by omega, fun he ↦ by omega⟩
  | deleteTiles | insertTiles | commit => exact absurd trivial hp

theorem replays_commit {x : DashboardTable A} {e : DashboardEdit A} {r : DashboardSnapshot A}
    (h : Replays d x) (hr : accept x.load e = some r) :
    Replays d (x.commit e r (x.tiles.map (·.id)) r.tiles) := by
  rw [Replays, load_commit hr, DashboardTable.commit]
  dsimp only
  rw [run_append, show run accept d x.accepted = some x.load from h, Option.bind_some]
  exact Option.bind_eq_some_iff.2 ⟨r, hr, rfl⟩

theorem inv_proceed {p : EditProcess A} (hs : Inv d s) (hp : s.process i = some p)
    (hl : ∀ e r seen, p = .upsertRow e r seen → s.shared.commits = seen)
    (h : s.proceed i p = some t) : Inv d t := by
  have hst := hs.process i p hp
  have hheld := hs.held i p hp
  cases p with
  | readRow e =>
    obtain rfl := Option.some.inj h
    exact Guarded.Inv.keep hs False.elim ⟨le_rfl, fun _ ↦ rfl⟩
  | readTiles e columns seen =>
    rw [proceed] at h
    cases ha : e.command.apply (columns.rehydrate s.shared.tiles) e.at' with
    | error err =>
      rw [ha] at h
      obtain rfl := Option.some.inj h
      exact Guarded.Inv.keep hs False.elim trivial
    | ok r =>
      rw [ha] at h
      obtain rfl := Option.some.inj h
      refine Guarded.Inv.keep hs False.elim ⟨hst.1, fun hc ↦ ?_⟩
      rw [accept, DashboardTable.load, ← hst.2 hc, ha]
  | upsertRow e r seen =>
    rw [proceed] at h
    split_ifs at h with hf
    obtain rfl := Option.some.inj h
    exact Guarded.Inv.acquire hs hf (hst.2 (hl e r seen rfl))
  | deleteTiles e r =>
    obtain rfl := Option.some.inj h
    exact Guarded.Inv.keep hs (fun _ ↦ hheld trivial) ⟨hst, rfl⟩
  | insertTiles e r deleted =>
    obtain rfl := Option.some.inj h
    exact Guarded.Inv.keep hs (fun _ ↦ hheld trivial) ⟨hst.1, hst.2, rfl⟩
  | commit e r deleted inserted =>
    obtain rfl := Option.some.inj h
    obtain ⟨hr, rfl, rfl⟩ := hst
    exact Guarded.Inv.release hs (hheld trivial) id (replays_commit hs.shared hr) trivial
      (fun q hq hst ↦ stands_outdated hq hst rfl)
  | ended => cases h

theorem inv_step {a : EditAction A} (hs : Inv d s) (hl : LoadedLatest s a) (h : s.step a = some t) :
    Inv d t := by
  cases a with
  | start i e =>
    rw [step] at h
    cases hp : s.process i with
    | some p =>
      rw [hp] at h
      cases h
    | none =>
      rw [hp] at h
      obtain rfl := Option.some.inj h
      exact Guarded.Inv.keep hs False.elim trivial
  | proceed i =>
    obtain ⟨p, hp, h⟩ := Option.bind_eq_some_iff.1 h
    exact inv_proceed hs hp (fun e r seen he ↦ hl e r seen (he ▸ hp)) h
  | fail i =>
    obtain ⟨p, hp, rfl⟩ := Option.map_eq_some_iff.1 h
    exact Guarded.Inv.leave hs id trivial

def sharedColumns : DashboardColumns := ⟨js "db_1", js "ws_1", js "Traffic", false, some (js "d1", 1000)⟩

def sampleRename : DashboardEdit Unit := ⟨.rename (js "Sales"), 1⟩

def sampleUnshare : DashboardEdit Unit := ⟨.unshare, 1⟩

def sampleAdd : DashboardEdit Unit := ⟨.addTile (js "t1") (js "Visits") (js "pr_1") () .line (6 : ℤ), 1⟩

/-- A rename has loaded the dashboard; its link is revoked and a tile added; then the rename is
saved. -/
def staleRename : List (EditAction Unit) :=
  .start 0 sampleRename :: List.replicate 2 (.proceed 0) ++
    .start 1 sampleUnshare :: List.replicate 6 (.proceed 1) ++
      .start 2 sampleAdd :: List.replicate 6 (.proceed 2) ++ List.replicate 4 (.proceed 0)

end EditSystem

end Counted.Dashboarding
