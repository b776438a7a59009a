import PolyTerm.PaneFrames
import PolyTerm.WideText

/-!
# What a frame is drawn from

The engine keeps a grid of lines, those of the scrollback at negative numbers,
and a cursor in it. A snapshot is the part of the grid in view, in the
terminal's own words.
-/

namespace PolyTerm

inductive VCursorShape where
  | block
  | underline
  | beam
  | hollowBlock
  | hidden
deriving DecidableEq, Repr

inductive CursorShape where
  | block
  | underline
  | beam
  | hidden
deriving DecidableEq, Repr

structure Cursor where
  line : UInt16
  col : UInt16
  visible : Bool
  shape : CursorShape
deriving DecidableEq, Repr

/-- A snapshot with all of its cells and its cursor. -/
structure FullSnapshot where
  size : GridSize
  lines : List (List Cell)
  cursor : Cursor
  displayOffset : Nat
deriving DecidableEq, Repr

/-- The row and the column the cursor is in. -/
def Cursor.place (cursor : Cursor) : Nat × Nat := (cursor.line.toNat, cursor.col.toNat)

/-- The cell under the cursor. -/
def FullSnapshot.under (s : FullSnapshot) : Option Cell :=
  (s.lines[s.cursor.place.1]?).bind (·[s.cursor.place.2]?)

/-- What the engine shows of itself. -/
structure Engine where
  grid : Int → Nat → TermCell
  displayOffset : Nat
  cursorLine : Int
  cursorCol : Nat
  cursorShape : VCursorShape

def mapCursorShape : VCursorShape → CursorShape
  | .block => .block
  | .underline => .underline
  | .beam => .beam
  | .hidden => .hidden
  | .hollowBlock => .block

namespace Engine

variable (e : Engine) (size : GridSize)

/-- The row of the view that the cursor is in, if it is in view. -/
def cursorRow : Int := e.cursorLine + e.displayOffset

def snapshot : FullSnapshot where
  size := size
  lines := (List.range size.rows.toNat).map fun row : Nat =>
    (List.range size.cols.toNat).map fun col : Nat =>
      mapCell (e.grid ((row : Int) - e.displayOffset) col)
  cursor :=
    let shape := mapCursorShape e.cursorShape
    { line := UInt16.ofNat (max 0 (min e.cursorRow (size.rows.toNat - 1 : Nat))).toNat
      col := UInt16.ofNat e.cursorCol
      visible := shape ≠ .hidden && 0 ≤ e.cursorRow && e.cursorRow < size.rows.toNat
      shape := shape }
  displayOffset := e.displayOffset

variable {e size}

theorem snapshot_line {row : Nat} (h : row < size.rows.toNat) :
    (e.snapshot size).lines[row]? =
      some ((List.range size.cols.toNat).map fun col =>
        mapCell (e.grid (row - e.displayOffset) col)) := by
  simp [snapshot, h]

/-- The cursor is shown exactly when its line is in view, and then in the row
that shows that line. -/
theorem snapshot_cursor (e : Engine) (size : GridSize) :
    ((e.snapshot size).cursor.visible = true ↔
        mapCursorShape e.cursorShape ≠ .hidden ∧ 0 ≤ e.cursorRow ∧
          e.cursorRow < size.rows.toNat) ∧
      ((e.snapshot size).cursor.visible = true →
        ((e.snapshot size).cursor.line.toNat : Int) - e.displayOffset = e.cursorLine) := by
  have hvisible : (e.snapshot size).cursor.visible = true ↔
      mapCursorShape e.cursorShape ≠ .hidden ∧ 0 ≤ e.cursorRow ∧
        e.cursorRow < size.rows.toNat := by
    simp [snapshot, and_assoc]
  refine ⟨hvisible, fun h => ?_⟩
  obtain ⟨-, hlow, hhigh⟩ := hvisible.mp h
  have hrows : size.rows.toNat < 65536 := size.rows.toNat_lt
  have hclamp : (max 0 (min e.cursorRow ((size.rows.toNat - 1 : Nat) : Int))).toNat =
      e.cursorRow.toNat := by omega
  have hline : (e.snapshot size).cursor.line.toNat = e.cursorRow.toNat := by
    change (UInt16.ofNat (max 0 (min e.cursorRow ((size.rows.toNat - 1 : Nat) : Int))).toNat).toNat
      = _
    rw [hclamp]
    exact UInt16.toNat_ofNat_of_lt' (by change e.cursorRow.toNat < 65536; omega)
  rw [hline, Int.toNat_of_nonneg hlow, cursorRow]
  omega

end Engine

end PolyTerm
