import Mathlib.Data.Rat.Defs
import Mathlib.Algebra.Order.Ring.Unbundled.Rat
import Mathlib.Algebra.Order.Group.Unbundled.Abs
import PolyTerm.Champion
import PolyTerm.Tiles

/-!
# The pane next to a pane

Directional focus. Coordinates are exact rationals: the choice is among
differences, halves and comparisons of coordinates, and no rounding is
modelled.
-/

namespace PolyTerm

structure Rect where
  left : ℚ
  right : ℚ
  top : ℚ
  bottom : ℚ
deriving DecidableEq

namespace Rect

def centerX (r : Rect) : ℚ := (r.left + r.right) / 2
def centerY (r : Rect) : ℚ := (r.top + r.bottom) / 2

end Rect

inductive FocusDir where
  | left
  | right
  | up
  | down
deriving DecidableEq, Repr

def rangesOverlap (a₀ a₁ b₀ b₁ : ℚ) : Bool := a₀ < b₁ && b₀ < a₁

/-- A pane on the right side of the origin, measured from it. -/
structure Candidate where
  id : TileId
  /-- the cross-axis ranges overlap -/
  overlap : Bool
  gap : ℚ
  cross : ℚ
deriving DecidableEq

/-- `none` when the pane is not on that side. -/
def measure (origin : Rect) (dir : FocusDir) (id : TileId) (r : Rect) : Option Candidate :=
  let (eligible, gap, overlap, cross) := match dir with
    | .right =>
        (decide (origin.centerX + 1 < r.centerX), max (r.left - origin.right) 0,
          rangesOverlap r.top r.bottom origin.top origin.bottom, |r.centerY - origin.centerY|)
    | .left =>
        (decide (r.centerX < origin.centerX - 1), max (origin.left - r.right) 0,
          rangesOverlap r.top r.bottom origin.top origin.bottom, |r.centerY - origin.centerY|)
    | .down =>
        (decide (origin.centerY + 1 < r.centerY), max (r.top - origin.bottom) 0,
          rangesOverlap r.left r.right origin.left origin.right, |r.centerX - origin.centerX|)
    | .up =>
        (decide (r.centerY < origin.centerY - 1), max (origin.top - r.bottom) 0,
          rangesOverlap r.left r.right origin.left origin.right, |r.centerX - origin.centerX|)
  if eligible then some ⟨id, overlap, gap, cross⟩ else none

/-- Overlap first, then the gap up to half a pixel, then the cross distance. -/
def Candidate.better (c best : Candidate) : Bool :=
  match c.overlap, best.overlap with
  | true, false => true
  | false, true => false
  | _, _ =>
      c.gap < best.gap - 1 / 2 || (|c.gap - best.gap| ≤ 1 / 2 && c.cross < best.cross)

def keepBetter (best : Option Candidate) (c : Candidate) : Option Candidate :=
  match best with
  | none => some c
  | some b => if c.better b then some c else some b

def candidates (panes : List (TileId × Rect)) (origin : Rect) (dir : FocusDir) : List Candidate :=
  panes.filterMap fun (id, r) => measure origin dir id r

/-- The pane to move focus to from `origin`. -/
def pickNeighbor (panes : List (TileId × Rect)) (origin : Rect) (dir : FocusDir) :
    Option TileId :=
  ((candidates panes origin dir).foldl keepBetter none).map Candidate.id

theorem keepBetter_eq : keepBetter = Champion.keep Candidate.better := by
  funext best c
  cases best <;> rfl

theorem pickNeighbor_eq (panes : List (TileId × Rect)) (origin : Rect) (dir : FocusDir) :
    pickNeighbor panes origin dir =
      (Champion.champion Candidate.better (candidates panes origin dir)).map Candidate.id := by
  rw [pickNeighbor, keepBetter_eq]
  rfl

theorem measure_id {origin : Rect} {dir : FocusDir} {id : TileId} {r : Rect} {c : Candidate}
    (h : measure origin dir id r = some c) : c.id = id := by
  unfold measure at h
  split at h
  split at h
  · obtain rfl := Option.some.inj h
    rfl
  · cases h

/-- The pick is one of the panes. -/
theorem pickNeighbor_mem {panes : List (TileId × Rect)} {origin : Rect} {dir : FocusDir}
    {id : TileId} (h : pickNeighbor panes origin dir = some id) :
    ∃ r, (id, r) ∈ panes := by
  rw [pickNeighbor_eq] at h
  obtain ⟨c, hc, rfl⟩ := Option.map_eq_some_iff.mp h
  obtain ⟨⟨id, r⟩, hpane, hmeasure⟩ := List.mem_filterMap.mp (Champion.champion_mem hc)
  exact ⟨r, measure_id hmeasure ▸ hpane⟩

end PolyTerm
