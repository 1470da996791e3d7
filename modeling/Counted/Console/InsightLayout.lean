import Counted.Dashboarding.DashboardSound
import Counted.Foundations.Loops
import Counted.Foundations.StableSort

namespace Counted.Console

open Foundations Dashboarding

/-- A card of the grid, in grid units. -/
structure LayoutItem where
  i : TileId
  x : ℤ
  y : ℤ
  w : ℤ
  h : ℤ
  minW : Option ℤ
  minH : Option ℤ
  static : Option Bool
  deriving DecidableEq

namespace LayoutItem

def rectangle (a : LayoutItem) : Rectangle := ⟨a.x, a.y, a.w, a.h⟩

def bottom (a : LayoutItem) : ℤ := a.y + a.h

/-- What does not change when a card moves. -/
def shape (a : LayoutItem) : TileId × ℤ × ℤ × Option ℤ × Option ℤ × Option Bool :=
  (a.i, a.w, a.h, a.minW, a.minH, a.static)

end LayoutItem

abbrev Layout := List LayoutItem

/-- The overlap test of react-grid-layout. -/
def collides (a b : LayoutItem) : Bool := decide (a.rectangle.Overlaps b.rectangle)

/-- Cards of positive size, none below row 0, that do not overlap. -/
structure Tidy (layout : Layout) : Prop where
  ids : (layout.map (·.i)).Nodup
  proper : ∀ a ∈ layout, 0 < a.w ∧ 0 < a.h
  rows : ∀ a ∈ layout, 0 ≤ a.y
  apart : ∀ a ∈ layout, ∀ b ∈ layout, a.i ≠ b.i → ¬ a.rectangle.Overlaps b.rectangle

/-- The cards stay within the columns. -/
def Within (cols : ℤ) (layout : Layout) : Prop := ∀ a ∈ layout, 0 ≤ a.x ∧ a.x + a.w ≤ cols

/-- `b` is the card `a`, in its row or further up. -/
structure Raised (a b : LayoutItem) : Prop where
  same : b = { a with y := b.y }
  up : b.y ≤ a.y
  static : a.static = some true → b = a

/-- `verticalCompactor` of react-grid-layout. It moves cards straight up. -/
structure VerticalCompactor where
  compact : Layout → ℤ → Layout
  raises : ∀ layout cols, Tidy layout → List.Forall₂ Raised layout (compact layout cols)
  tidy : ∀ layout cols, Tidy layout → Tidy (compact layout cols)

def layoutOrder (layout : Layout) : Layout :=
  layout.insertionSort (fun a b ↦ a.rectangle.Before b.rectangle)

def placementsOf (layout : Layout) : List TilePlacement :=
  (layoutOrder layout).map (fun a ↦ ⟨⟨a.x, a.y, a.h⟩, a.i, a.w⟩)

/-! ### Packing -/

/-- Row 0, the card's own and those the other cards end at, up to the card's own. -/
def rows (item : LayoutItem) (others : Layout) : List ℤ :=
  ((0 :: item.y :: others.map LayoutItem.bottom).dedup.filter (· ≤ item.y)).insertionSort (· ≤ ·)

def columns (cols : ℤ) (item : LayoutItem) : List ℤ :=
  (List.range (cols - item.w + 1).toNat).map (fun n : ℕ ↦ (n : ℤ))

/-- The first free column in a row. In the card's own row only those before it count. -/
def freeColumn (others : Layout) (cols : ℤ) (item : LayoutItem) (y : ℤ) : Option ℤ :=
  ((columns cols item).takeWhile (fun x ↦ !(decide (y = item.y) && decide (item.x ≤ x)))).find?
    (fun x ↦ !others.any (collides { item with x, y }))

/-- The earliest free rectangle, rows before columns. -/
def freeSlot (others : Layout) (cols : ℤ) (item : LayoutItem) : Option (ℤ × ℤ) :=
  (rows item others).findSome? (fun y ↦ (freeColumn others cols item y).map (fun x ↦ (x, y)))

def moveTo (items : Layout) (id : TileId) (x y : ℤ) : Layout :=
  items.map (fun a ↦ if a.i = id then { a with x, y } else a)

/-- One card of a pass. The flag says whether any card has moved. -/
def settle (cols : ℤ) (s : Layout × Bool) (item : LayoutItem) : Layout × Bool :=
  if item.static = some true then s
  else
    match freeSlot (s.1.filter (·.i ≠ item.i)) cols item with
    | some (x, y) => (moveTo s.1 item.i x y, true)
    | none => s

/-- The index the priority map holds for a card, or one after all of them. -/
def priority (order : List TileId) (a : LayoutItem) : ℕ :=
  if a.i ∈ order then order.length - 1 - order.reverse.idxOf a.i else order.length

def settlingOrder (order : Option (List TileId)) (items : Layout) : Layout :=
  match order with
  | none => layoutOrder items
  | some order => sortBy (· ≤ ·) (priority order) (layoutOrder items)

/-- The body of the `do` loop. -/
def pass (cols : ℤ) (order : Option (List TileId)) (items : Layout) : Layout ⊕ Layout :=
  let s := (settlingOrder order items).foldl (settle cols) (items, false)
  if s.2 then .inl s.1 else .inr s.1

def hold (held : Option TileId) (layout : Layout) : Layout :=
  layout.map (fun a ↦ if some a.i = held then { a with static := some true } else a)

/-- Gives the held card its own flag back. -/
def release (held : Option TileId) (layout items : Layout) : Layout :=
  match layout.find? (fun a ↦ some a.i = held) with
  | none => items
  | some card => items.map (fun a ↦ if some a.i = held then { a with static := card.static } else a)

variable (v : VerticalCompactor) (fuel : ℕ)

def packInsights (layout : Layout) (cols : ℤ) (held : Option TileId)
    (order : Option (List TileId)) : Option Layout :=
  (loop (pass cols order) fuel (v.compact (hold held layout) cols)).map (release held layout)

/-! ### The layout of a dashboard -/

variable {A : Type}

def units (n : JsNumber) : ℤ := n.whole.getD 0

def itemOf (tile : Tile A) : LayoutItem :=
  let minH : ℤ := if tile.view = .number then 3 else 5
  let height : ℤ := (tile.layout.map (fun l ↦ units l.height)).getD (if tile.view = .number then 3 else 6)
  { i := tile.id
    x := (tile.layout.map (fun l ↦ units l.x)).getD 0
    y := (tile.layout.map (fun l ↦ units l.y)).getD 0
    w := units tile.width
    h := max minH height
    minW := some (if tile.view = .number then 2 else 3)
    minH := some minH
    static := none }

/-- The first free place from the top, up to row 1000. -/
def search (placed : Layout) (item : LayoutItem) : Option (ℤ × ℤ) :=
  ((List.range 1001).map (fun n : ℕ ↦ (n : ℤ))).findSome? (fun y ↦
    ((columns 12 item).find? (fun x ↦ !placed.any (collides { item with x, y }))).map
      (fun x ↦ (x, y)))

def needsSearch (placed : Layout) (tile : Tile A) : Bool :=
  tile.layout.isNone || placed.any (collides (itemOf tile))

/-- Where the search ends without a place, both counters have run past their bounds. -/
def place (placed : Layout) (tile : Tile A) : LayoutItem :=
  let item := itemOf tile
  if needsSearch placed tile then
    match search placed item with
    | some (x, y) => { item with x, y }
    | none => { item with x := max 0 (13 - item.w), y := 1001 }
  else item

def placeAll (tiles : List (Tile A)) : Layout :=
  tiles.foldl (fun placed tile ↦ placed ++ [place placed tile]) []

def insightLayout (tiles : List (Tile A)) : Option Layout :=
  packInsights v fuel (placeAll tiles) 12 none none

/-! ### Editing it -/

/-- `Partial<Pick<LayoutItem, "x" | "y" | "w" | "h">>`, in grid units. -/
structure Patch where
  x : Option ℤ
  y : Option ℤ
  w : Option ℤ
  h : Option ℤ

def patched (patch : Patch) (item : LayoutItem) : LayoutItem :=
  let w := max (item.minW.getD 1) (min 12 (patch.w.getD item.w))
  let h := max (item.minH.getD 3) (min 20 (patch.h.getD item.h))
  { item with
    x := max 0 (min (12 - w) (patch.x.getD item.x))
    y := max 0 (min 1000 (patch.y.getD item.y))
    w
    h }

def hit (changed other : LayoutItem) : Bool :=
  decide (other.i ≠ changed.i) && collides changed other

def bump (changed other : LayoutItem) : LayoutItem :=
  if hit changed other then { other with y := changed.bottom } else other

/-- The body of the `while` loop: the cards, and those that push others away. -/
def push (s : Layout × List TileId) : (Layout × List TileId) ⊕ Layout :=
  match s.2 with
  | [] => .inr s.1
  | id :: pending =>
    match s.1.find? (·.i = id) with
    | none => .inl (s.1, pending)
    | some changed =>
      .inl (s.1.map (bump changed), pending ++ (s.1.filter (hit changed)).map (·.i))

def adjustLayout (layout : Layout) (id : TileId) (patch : Patch) : Option Layout := do
  let _ ← layout.find? (·.i = id)
  let items := layout.map (fun a ↦ if a.i = id then patched patch a else a)
  let pushed ← loop push fuel (items, [id])
  let settled ← packInsights v fuel pushed 12 (some id) (some ((layoutOrder layout).map (·.i)))
  packInsights v fuel settled 12 none none

/-- A phone's single column. -/
def stack (y : ℤ) : Layout → Layout
  | [] => []
  | item :: rest =>
    { item with x := 0, y, w := 1, minW := some 1 } :: stack (y + item.h) rest

def mobileLayout (layout : Layout) : Layout := stack 0 (layoutOrder layout)

/-- The widths of the desktop flow into rows, in the order of the phone. -/
def flow (desktop : Layout) (x y height : ℤ) : Layout → Option Layout
  | [] => some []
  | item :: rest => do
    let original ← desktop.find? (·.i = item.i)
    let wraps := decide (12 < x + original.w)
    let x := if wraps then 0 else x
    let y := if wraps then y + height else y
    let height := if wraps then 0 else height
    let placed ← flow desktop (x + original.w) y (max height item.h) rest
    return { original with x, y, h := item.h } :: placed

def applyMobileLayout (desktop mobile : Layout) : Option Layout := do
  let placed ← flow desktop 0 0 0 (layoutOrder mobile)
  packInsights v fuel placed 12 none none

inductive Offset
  | up
  | down

def Offset.value : Offset → ℤ
  | .up => -1
  | .down => 1

/-- `ordered[index]`. -/
def entry (ordered : Layout) (index : ℤ) : Option LayoutItem :=
  if index < 0 then none else ordered[index.toNat]?

/-- `[ordered[index], ordered[target]] = [ordered[target], ordered[index]]`. -/
def swap (ordered : Layout) (index target : ℤ) : Option Layout := do
  let a ← entry ordered index
  let b ← entry ordered target
  return (ordered.set index.toNat b).set target.toNat a

def moveMobileInsight (layout : Layout) (id : TileId) (offset : Offset) : Option Layout :=
  let ordered := mobileLayout layout
  let index : ℤ := ((ordered.findIdx? (·.i = id)).map (fun n : ℕ ↦ (n : ℤ))).getD (-1)
  let target := index + offset.value
  if target < 0 ∨ (ordered.length : ℤ) ≤ target then some layout
  else
    (swap ordered index target).bind (fun swapped ↦
      applyMobileLayout v fuel layout (swapped.mapIdx (fun n a ↦ { a with y := (n : ℤ) })))

end Counted.Console
