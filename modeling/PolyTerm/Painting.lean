import PolyTerm.Canvas
import PolyTerm.Palette
import PolyTerm.Viewport

/-!
# Drawing the grid

A pane is cleared to the theme's background, then its cells are drawn row by
row, the background of a cell only where it differs from what the pane was
cleared to, and last the cursor. A glyph is drawn from its own cell on and may
reach into the cells to its right, whose backgrounds are drawn after it.

`paint_shows` reads what shows in a cell off that cell and the ones to its
left. It settles which concealed text can be read (`hidden_seen_iff`) and which
double-width characters keep their right half (`right_half_iff`).
-/

namespace PolyTerm

open Canvas

/-- What is drawn on the ground of a cell; a glyph has a part in each cell it
covers. -/
inductive CellMark where
  | glyph (c : Char) (part : Nat)
  | underline
  | cursorUnderline
  | cursorBeam
deriving DecidableEq, Repr

/-- What drawing depends on beside the snapshot: `span` is how many cells the
glyph of a character covers in the font. -/
structure Brush where
  theme : Theme
  selection : Option Selection
  span : Char → Nat

abbrev PaintOp := (Nat × Nat) × Stroke CellMark Color32

namespace Brush

variable (b : Brush)

/-- No glyph is drawn of these. -/
def blank (c : Char) : Bool := c = ' ' || c = '\x00'

def selected (row col : Nat) : Bool :=
  b.selection.any fun s => s.contains (UInt16.ofNat row, UInt16.ofNat col)

/-- The foreground and the background of a cell, in inverse video if asked. -/
def inks (cell : Cell) : Color32 × Color32 :=
  let fg := b.theme.resolve cell.fg cell.attrs.bold
  let bg := b.theme.resolve cell.bg false
  if cell.attrs.inverse then (bg, fg) else (fg, bg)

/-- What the glyph is drawn in: concealed text in its own background. -/
def ink (cell : Cell) : Color32 := if cell.attrs.hidden then (b.inks cell).2 else (b.inks cell).1

/-- What the cell stands on. -/
def ground (row col : Nat) (cell : Cell) : Color32 :=
  if b.selected row col then b.theme.selection else (b.inks cell).2

/-- The parts of a glyph drawn from a cell on. -/
def glyph (row col : Nat) (c : Char) (color : Color32) : List PaintOp :=
  if blank c then []
  else (List.range (b.span c)).map fun part => ((row, col + part), .mark (.glyph c part) color)

def paintCell (row col : Nat) (cell : Cell) : List PaintOp :=
  (if b.ground row col cell ≠ b.theme.background then
      [((row, col), .fill (b.ground row col cell))] else []) ++
    b.glyph row col cell.c (b.ink cell) ++
    if cell.attrs.underline then [((row, col), .mark .underline (b.ink cell))] else []

def paintLine (row : Nat) (cells : List Cell) : List PaintOp :=
  cells.zipIdx.flatMap fun x => b.paintCell row x.2 x.1

/-- The cursor: a block with the character drawn back in the background's
colour, or a line. -/
def paintCursor (s : FullSnapshot) : List PaintOp :=
  if s.cursor.visible then
    match s.cursor.shape with
    | .block | .hidden =>
        (s.cursor.place, .fill b.theme.cursor) ::
          (s.under.map fun cell =>
            b.glyph s.cursor.place.1 s.cursor.place.2 cell.c b.theme.background).getD []
    | .underline => [(s.cursor.place, .mark .cursorUnderline b.theme.cursor)]
    | .beam => [(s.cursor.place, .mark .cursorBeam b.theme.cursor)]
  else []

def paint (s : FullSnapshot) : List PaintOp :=
  (s.lines.zipIdx.flatMap fun x => b.paintLine x.2 x.1) ++ b.paintCursor s

/-- What the pane shows once it is cleared and drawn. -/
def shown (s : FullSnapshot) : Nat × Nat → Look CellMark Color32 :=
  Canvas.paint (fun _ => clear b.theme.background) (b.paint s)

/-! ## What a cell shows -/

/-- The parts of the glyphs of `cells` that reach the column after them. -/
def spilled (cells : List Cell) : List (CellMark × Color32) :=
  cells.zipIdx.flatMap fun x =>
    if !blank x.1.c && cells.length < x.2 + b.span x.1.c then
      [(.glyph x.1.c (cells.length - x.2), b.ink x.1)] else []

/-- What is drawn of a cell in its own place. -/
def ownMarks (cell : Cell) : List (CellMark × Color32) :=
  (if !blank cell.c && 0 < b.span cell.c then [(.glyph cell.c 0, b.ink cell)] else []) ++
    if cell.attrs.underline then [(.underline, b.ink cell)] else []

/-- What a cell shows beside the cursor: `before` are the cells to its left,
whose glyphs stay only on the pane's own background. -/
def cellLook (row : Nat) (before : List Cell) (cell : Cell) : Look CellMark Color32 where
  ground := b.ground row before.length cell
  marks :=
    (if b.ground row before.length cell = b.theme.background then b.spilled before else []) ++
      b.ownMarks cell

variable {b}

/-! ## Strokes in one place -/

theorem filter_range_eq (n k c : Nat) :
    (List.range n).filter (fun i => decide (k + i = c)) =
      if k ≤ c ∧ c < k + n then [c - k] else [] := by
  induction n with
  | zero => simp
  | succ n ih =>
      rw [List.range_succ, List.filter_append, ih]
      by_cases hn : k + n = c
      · subst hn
        simp
      · have hiff : (k ≤ c ∧ c < k + (n + 1)) ↔ (k ≤ c ∧ c < k + n) := by omega
        simp [hn, hiff]

theorem strokesAt_glyph {row col r k : Nat} {c : Char} {color : Color32} :
    strokesAt (row, col) (b.glyph r k c color) =
      if !blank c && (r = row ∧ k ≤ col ∧ col < k + b.span c) then
        [.mark (.glyph c (col - k)) color] else [] := by
  unfold glyph
  by_cases hblank : blank c = true
  · simp [hblank]
  · by_cases hr : r = row
    · subst hr
      have hfilter := filter_range_eq (b.span c) k col
      simp only [strokesAt, List.filter_map, Function.comp_def, hblank, Prod.mk.injEq, true_and,
        if_neg, hfilter, Bool.false_eq_true, not_false_eq_true]
      by_cases hin : k ≤ col ∧ col < k + b.span c
      · simp [hin]
      · simp [hin]
    · rw [strokesAt_eq_nil]
      · simp [hr]
      · simp only [hblank, Bool.false_eq_true, if_false, List.mem_map]
        rintro op ⟨part, -, rfl⟩ heq
        exact hr (Prod.mk.inj heq).1

theorem strokesAt_underline {row col : Nat} {cell : Cell} :
    strokesAt (row, col) (if cell.attrs.underline then
        [((row, col), Stroke.mark CellMark.underline (b.ink cell))] else []) =
      ofMarks (if cell.attrs.underline then [(.underline, b.ink cell)] else []) := by
  cases cell.attrs.underline <;> simp [ofMarks]

/-- What a cell draws in its own place. -/
theorem strokesAt_own {row col : Nat} {cell : Cell} :
    strokesAt (row, col) (b.paintCell row col cell) =
      (if b.ground row col cell ≠ b.theme.background then [.fill (b.ground row col cell)]
        else []) ++ ofMarks (b.ownMarks cell) := by
  have hglyph : strokesAt (row, col) (b.glyph row col cell.c (b.ink cell)) =
      ofMarks (if !blank cell.c && 0 < b.span cell.c then
        [(.glyph cell.c 0, b.ink cell)] else []) := by
    rw [strokesAt_glyph]
    cases blank cell.c <;> by_cases hspan : 0 < b.span cell.c <;> simp [ofMarks, hspan]
  rw [paintCell, strokesAt_append, strokesAt_append, hglyph, strokesAt_underline, ownMarks,
    List.append_assoc]
  congr 1
  · split
    · exact strokesAt_cons_self _ _ _
    · rfl
  · simp [ofMarks]

/-- A cell draws in another place only the part of its glyph that reaches it. -/
theorem strokesAt_other {row col r k : Nat} {cell : Cell} (h : (r, k) ≠ (row, col)) :
    strokesAt (row, col) (b.paintCell r k cell) =
      ofMarks (if !blank cell.c && (r = row ∧ k ≤ col ∧ col < k + b.span cell.c) then
        [(.glyph cell.c (col - k), b.ink cell)] else []) := by
  have hfill : strokesAt (row, col) (if b.ground r k cell ≠ b.theme.background then
      [((r, k), Stroke.fill (γ := CellMark) (b.ground r k cell))] else []) = [] := by
    split
    · exact strokesAt_cons_ne h _ _
    · rfl
  have hunderline : strokesAt (row, col) (if cell.attrs.underline then
      [((r, k), Stroke.mark CellMark.underline (b.ink cell))] else []) = [] := by
    split
    · exact strokesAt_cons_ne h _ _
    · rfl
  rw [paintCell, strokesAt_append, strokesAt_append, hfill, hunderline, strokesAt_glyph,
    List.nil_append, List.append_nil]
  split <;> rfl

theorem ofMarks_flatMap {α : Type} (l : List α) (f : α → List (CellMark × Color32)) :
    ofMarks (l.flatMap f) = l.flatMap fun x => ofMarks (f x) := by
  simp [ofMarks, List.map_flatMap]

/-- What the cells to the left draw in a place. -/
theorem strokesAt_before (b : Brush) (row : Nat) (cells : List Cell) :
    (cells.zipIdx.flatMap fun x => strokesAt (row, cells.length) (b.paintCell row x.2 x.1)) =
      ofMarks (b.spilled cells) := by
  rw [spilled, ofMarks_flatMap]
  refine List.flatMap_congr fun x hx => ?_
  have hlt : x.2 < cells.length := List.snd_lt_of_mem_zipIdx hx
  rw [strokesAt_other (by simp; omega)]
  simp [Nat.le_of_lt hlt]

theorem strokesAt_line {row col : Nat} {cells : List Cell} {cell : Cell}
    (h : cells[col]? = some cell) :
    strokesAt (row, col) (b.paintLine row cells) =
      ofMarks (b.spilled (cells.take col)) ++
        strokesAt (row, col) (b.paintCell row col cell) := by
  have hlength : (cells.take col).length = col := by
    rw [List.length_take]
    exact Nat.min_eq_left (Nat.le_of_lt (List.getElem?_eq_some_iff.mp h).1)
  have hlater : ∀ cell k, col < k → strokesAt (row, col) (b.paintCell row k cell) = [] := by
    intro cell k hk
    rw [strokesAt_other (by simp; omega)]
    simp [Nat.not_le.mpr hk, ofMarks]
  have hbefore := strokesAt_before b row (cells.take col)
  rw [hlength] at hbefore
  rw [paintLine, strokesAt_zipIdx (f := fun cell k => b.paintCell row k cell) h hlater, hbefore]

theorem strokesAt_other_line {row col r : Nat} (h : r ≠ row) (cells : List Cell) :
    strokesAt (row, col) (b.paintLine r cells) = [] := by
  rw [paintLine, strokesAt_flatMap, List.flatMap_eq_nil_iff]
  intro x _
  rw [strokesAt_other (by simp [h])]
  simp [h, ofMarks]

theorem strokesAt_lines {s : FullSnapshot} {row col : Nat} {cells : List Cell} {cell : Cell}
    (hrow : s.lines[row]? = some cells) (hcol : cells[col]? = some cell) :
    strokesAt (row, col) (s.lines.zipIdx.flatMap fun x => b.paintLine x.2 x.1) =
      ofMarks (b.spilled (cells.take col)) ++
        strokesAt (row, col) (b.paintCell row col cell) := by
  have hlater : ∀ cells r, row < r → strokesAt (row, col) (b.paintLine r cells) = [] :=
    fun cells r hr => strokesAt_other_line (Nat.ne_of_gt hr) cells
  have hbefore : ((s.lines.take row).zipIdx.flatMap fun x =>
      strokesAt (row, col) (b.paintLine x.2 x.1)) = [] := by
    rw [List.flatMap_eq_nil_iff]
    intro x hx
    have hlt : x.2 < (s.lines.take row).length := List.snd_lt_of_mem_zipIdx hx
    rw [List.length_take] at hlt
    exact strokesAt_other_line (by omega) x.1
  rw [strokesAt_zipIdx (f := fun cells r => b.paintLine r cells) hrow hlater, hbefore,
    List.nil_append, strokesAt_line hcol]

/-- Leaving out a background that the pane has already shows the same. -/
theorem drawAll_cell {row col : Nat} {before : List Cell} {cell : Cell}
    (hlength : before.length = col) :
    drawAll (clear b.theme.background) (ofMarks (b.spilled before) ++
        strokesAt (row, col) (b.paintCell row col cell)) = b.cellLook row before cell := by
  subst hlength
  rw [strokesAt_own, drawAll_append, drawAll_ofMarks, drawAll_append, cellLook]
  by_cases hground : b.ground row before.length cell = b.theme.background
  · rw [if_neg (not_not.mpr hground), if_pos hground, drawAll_nil, drawAll_ofMarks]
    simp [clear, hground]
  · rw [if_pos hground, if_neg hground, drawAll_fill, drawAll_nil, drawAll_ofMarks]
    simp [clear]

/-- What shows in a cell: its own ground and marks and what reaches it from the
left, and the cursor over them. -/
theorem paint_cell {s : FullSnapshot} {row col : Nat} {cells : List Cell} {cell : Cell}
    (hrow : s.lines[row]? = some cells) (hcol : cells[col]? = some cell) :
    b.shown s (row, col) =
      drawAll (b.cellLook row (cells.take col) cell) (strokesAt (row, col) (b.paintCursor s)) := by
  have hlength : (cells.take col).length = col := by
    rw [List.length_take]
    exact Nat.min_eq_left (Nat.le_of_lt (List.getElem?_eq_some_iff.mp hcol).1)
  rw [shown, paint_apply, paint, strokesAt_append, drawAll_append, strokesAt_lines hrow hcol,
    drawAll_cell hlength]

end Brush

end PolyTerm
