import PolyTerm.Painting

/-!
# What the screen shows

From the engine to the pane: a place shows the cell of the grid line in view
there, and the cursor stands on the very cell the engine has it on
(`screen_shows`). Two things follow that the order of drawing decides: when
concealed text can be read in its own cell (`hidden_seen_iff`), and when a
double-width character keeps its right half (`right_half_iff`).
-/

namespace PolyTerm

open Canvas

namespace Brush

variable {b : Brush} {s : FullSnapshot} {row col : Nat} {cells : List Cell} {cell : Cell}

/-! ## The cursor -/

/-- The block cursor covers the place. -/
def BlockOn (s : FullSnapshot) (row col : Nat) : Prop :=
  s.cursor.visible = true ∧ (s.cursor.shape = .block ∨ s.cursor.shape = .hidden) ∧
    s.cursor.place = (row, col)

instance (s : FullSnapshot) (row col : Nat) : Decidable (BlockOn s row col) :=
  inferInstanceAs (Decidable (_ ∧ _))

/-- The part that reaches a place of the character under the block. -/
def blockMarks (b : Brush) (s : FullSnapshot) (row col : Nat) (under : Cell) :
    List (CellMark × Color32) :=
  if !blank under.c && (s.cursor.place.1 = row ∧ s.cursor.place.2 ≤ col ∧
      col < s.cursor.place.2 + b.span under.c) then
    [(.glyph under.c (col - s.cursor.place.2), b.theme.background)]
  else []

/-- The marks that the cursor makes in a place. -/
def cursorMarks (b : Brush) (s : FullSnapshot) (row col : Nat) : List (CellMark × Color32) :=
  if s.cursor.visible then
    match s.cursor.shape with
    | .block | .hidden => (s.under.map (b.blockMarks s row col)).getD []
    | .underline =>
        if s.cursor.place = (row, col) then [(.cursorUnderline, b.theme.cursor)] else []
    | .beam => if s.cursor.place = (row, col) then [(.cursorBeam, b.theme.cursor)] else []
  else []

theorem strokesAt_single {k k' : Nat × Nat} {mark : CellMark} {color : Color32} :
    strokesAt k [(k', Stroke.mark mark color)] =
      ofMarks (if k' = k then [(mark, color)] else []) := by
  by_cases hk : k' = k
  · rw [if_pos hk, hk]
    exact strokesAt_cons_self _ _ _
  · rw [if_neg hk]
    exact strokesAt_cons_ne hk _ _

/-- What the block draws in a place. -/
theorem strokesAt_block :
    strokesAt (row, col) ((s.cursor.place, .fill b.theme.cursor) ::
        (s.under.map fun cell =>
          b.glyph s.cursor.place.1 s.cursor.place.2 cell.c b.theme.background).getD []) =
      (if s.cursor.place = (row, col) then [.fill b.theme.cursor] else []) ++
        ofMarks ((s.under.map (b.blockMarks s row col)).getD []) := by
  have hunder : strokesAt (row, col) ((s.under.map fun cell =>
      b.glyph s.cursor.place.1 s.cursor.place.2 cell.c b.theme.background).getD []) =
        ofMarks ((s.under.map (b.blockMarks s row col)).getD []) := by
    cases s.under with
    | none => rfl
    | some cell =>
        rw [Option.map_some, Option.getD_some, Option.map_some, Option.getD_some, strokesAt_glyph,
          blockMarks]
        split <;> rfl
  rw [← hunder]
  by_cases hplace : s.cursor.place = (row, col)
  · rw [if_pos hplace, hplace, strokesAt_cons_self]
    rfl
  · rw [if_neg hplace, strokesAt_cons_ne hplace]
    rfl

theorem strokesAt_cursor :
    strokesAt (row, col) (b.paintCursor s) =
      (if BlockOn s row col then [.fill b.theme.cursor] else []) ++
        ofMarks (b.cursorMarks s row col) := by
  by_cases hvisible : s.cursor.visible = true
  · have hcases : (s.cursor.shape = .block ∨ s.cursor.shape = .hidden) ∨
        s.cursor.shape = .underline ∨ s.cursor.shape = .beam := by
      cases s.cursor.shape <;> simp
    rcases hcases with hshape | hshape | hshape
    · have hiff : BlockOn s row col ↔ s.cursor.place = (row, col) :=
        ⟨fun h => h.2.2, fun h => ⟨hvisible, hshape, h⟩⟩
      simp only [hiff]
      rcases hshape with hshape | hshape <;>
        simp only [paintCursor, cursorMarks, hvisible, hshape, if_true, strokesAt_block]
    · have hoff : ¬BlockOn s row col := fun h => by simp [BlockOn, hshape] at h
      simp [paintCursor, cursorMarks, hvisible, hshape, hoff, strokesAt_single]
    · have hoff : ¬BlockOn s row col := fun h => by simp [BlockOn, hshape] at h
      simp [paintCursor, cursorMarks, hvisible, hshape, hoff, strokesAt_single]
  · have hoff : ¬BlockOn s row col := fun h => hvisible h.1
    simp [paintCursor, cursorMarks, hvisible, hoff, ofMarks]

/-- What a place shows with the cursor over it. -/
def withCursor (b : Brush) (s : FullSnapshot) (row col : Nat) (look : Look CellMark Color32) :
    Look CellMark Color32 :=
  if BlockOn s row col then ⟨b.theme.cursor, b.cursorMarks s row col⟩
  else ⟨look.ground, look.marks ++ b.cursorMarks s row col⟩

/-- Every cell of the snapshot shows its own look, under the cursor. -/
theorem paint_shows (hrow : s.lines[row]? = some cells) (hcol : cells[col]? = some cell) :
    b.shown s (row, col) = b.withCursor s row col (b.cellLook row (cells.take col) cell) := by
  rw [paint_cell hrow hcol, strokesAt_cursor, withCursor]
  split
  · rw [List.singleton_append, drawAll_fill, drawAll_ofMarks]
    rfl
  · rw [List.nil_append, drawAll_ofMarks]

/-- A glyph that the cursor draws is of the character under the block. -/
theorem mem_cursorMarks {c : Char} {part : Nat} {color : Color32}
    (h : (.glyph c part, color) ∈ b.cursorMarks s row col) :
    part ≤ col ∧ BlockOn s row (col - part) ∧ color = b.theme.background := by
  unfold cursorMarks at h
  split at h
  · rename_i hvisible
    have hblock : (s.cursor.shape = .block ∨ s.cursor.shape = .hidden) →
        (CellMark.glyph c part, color) ∈ (s.under.map (b.blockMarks s row col)).getD [] →
        part ≤ col ∧ BlockOn s row (col - part) ∧ color = b.theme.background := by
      intro hshape hmem
      cases hunder : s.under with
      | none =>
          rw [hunder] at hmem
          cases hmem
      | some under =>
          rw [hunder, Option.map_some, Option.getD_some, blockMarks] at hmem
          split at hmem
          · rename_i hreach
            simp only [Bool.and_eq_true, decide_eq_true_eq] at hreach
            obtain ⟨-, hline, hle, -⟩ := hreach
            obtain ⟨hmark, rfl⟩ := Prod.mk.inj (List.mem_singleton.mp hmem)
            obtain rfl := (CellMark.glyph.inj hmark).2
            refine ⟨Nat.sub_le _ _, ⟨hvisible, hshape, ?_⟩, rfl⟩
            rw [Nat.sub_sub_self hle, ← hline]
          · cases hmem
    split at h
    · exact hblock (.inl ‹_›) h
    · exact hblock (.inr ‹_›) h
    · split at h
      · cases (Prod.mk.inj (List.mem_singleton.mp h)).1
      · cases h
    · split at h
      · cases (Prod.mk.inj (List.mem_singleton.mp h)).1
      · cases h
  · cases h

/-! ## From the engine -/

/-- The block stands where the engine has its cursor. -/
theorem blockOn_snapshot {e : Engine} {size : GridSize} (hrow : row < size.rows.toNat)
    (hcursor : e.cursorCol < size.cols.toNat) :
    BlockOn (e.snapshot size) row col ↔
      mapCursorShape e.cursorShape = .block ∧ (row : Int) - e.displayOffset = e.cursorLine ∧
        col = e.cursorCol := by
  obtain ⟨hvisible, hline⟩ := e.snapshot_cursor size
  have hcol : (e.snapshot size).cursor.col.toNat = e.cursorCol :=
    UInt16.toNat_ofNat_of_lt' (Nat.lt_trans hcursor size.cols.toNat_lt)
  have hshape : (e.snapshot size).cursor.shape = mapCursorShape e.cursorShape := rfl
  constructor
  · rintro ⟨hshown, hblock, hplace⟩
    obtain ⟨hr, hc⟩ := Prod.mk.inj hplace
    have hat := hline hshown
    refine ⟨?_, ?_, ?_⟩
    · rw [hshape] at hblock
      exact hblock.resolve_right (hvisible.mp hshown).1
    · rw [← hat, hr]
    · rw [← hc, hcol]
  · rintro ⟨hblock, hat, rfl⟩
    have hshown : (e.snapshot size).cursor.visible = true := by
      rw [hvisible, hblock, Engine.cursorRow]
      exact ⟨by decide, by omega, by omega⟩
    have hl := hline hshown
    refine ⟨hshown, .inl (hshape.trans hblock), ?_⟩
    rw [Cursor.place, hcol]
    exact congrArg (fun n => (n, e.cursorCol)) (by omega)

/-- A place shows the engine's cell of the line in view there, with what reaches
it from the left, and the block cursor is on the cell the engine has it on. -/
theorem screen_shows (b : Brush) (e : Engine) (size : GridSize) (row col : Nat)
    (hrow : row < size.rows.toNat) (hcol : col < size.cols.toNat)
    (hcursor : e.cursorCol < size.cols.toNat) :
    b.shown (e.snapshot size) (row, col) =
        b.withCursor (e.snapshot size) row col
          (b.cellLook row
            ((List.range col).map fun c => mapCell (e.grid ((row : Int) - e.displayOffset) c))
            (mapCell (e.grid ((row : Int) - e.displayOffset) col))) ∧
      (BlockOn (e.snapshot size) row col ↔
        mapCursorShape e.cursorShape = .block ∧ (row : Int) - e.displayOffset = e.cursorLine ∧
          col = e.cursorCol) := by
  refine ⟨?_, blockOn_snapshot hrow hcursor⟩
  have hcell : ((List.range size.cols.toNat).map fun c =>
      mapCell (e.grid ((row : Int) - e.displayOffset) c))[col]? =
        some (mapCell (e.grid ((row : Int) - e.displayOffset) col)) := by
    simp [hcol]
  rw [paint_shows (Engine.snapshot_line hrow) hcell, ← List.map_take, List.take_range,
    Nat.min_eq_left (Nat.le_of_lt hcol)]

/-- A font in which only `漢` covers two cells. -/
def twoCellBrush (selection : Option Selection) : Brush :=
  ⟨.muted, selection, fun c => if c = '漢' then 2 else 1⟩

/-- The view scrolled up by one line over a grid of `x`, the block cursor on the
first line of the screen. -/
def scrolledEngine : Engine where
  grid := fun line _ => { TermCell.blank with c := if line = 0 then 'x' else ' ' }
  displayOffset := 1
  cursorLine := 0
  cursorCol := 1
  cursorShape := .block

theorem screen_shows_scrolled :
    (twoCellBrush none).shown (scrolledEngine.snapshot ⟨2, 2⟩) (1, 1) =
        ⟨Theme.muted.cursor, [(.glyph 'x' 0, Theme.muted.background)]⟩ ∧
      BlockOn (scrolledEngine.snapshot ⟨2, 2⟩) 1 1 := by
  obtain ⟨hlook, hblock⟩ := screen_shows (twoCellBrush none) scrolledEngine ⟨2, 2⟩ 1 1
    (by decide) (by decide) (by decide)
  exact ⟨hlook.trans (by decide), hblock.mpr ⟨rfl, by decide, rfl⟩⟩

/-! ## Concealed text -/

/-- The first cell of the character is drawn in another colour than what it stands on. -/
def Legible (look : Look CellMark Color32) (c : Char) : Prop :=
  ∃ color, (.glyph c 0, color) ∈ look.marks ∧ color ≠ look.ground

/-- What reaches a cell from the left is never the first part of a glyph. -/
theorem mem_spilled {before : List Cell} {c : Char} {part : Nat} {color : Color32}
    (h : (.glyph c part, color) ∈ b.spilled before) :
    0 < part ∧ ∃ left, before[before.length - part]? = some left ∧ left.c = c ∧
      color = b.ink left := by
  rw [spilled, List.mem_flatMap] at h
  obtain ⟨⟨left, k⟩, hx, hmem⟩ := h
  have hk : k < before.length := List.snd_lt_of_mem_zipIdx hx
  have hleft : before[k]? = some left := List.mem_zipIdx_iff_getElem?.mp hx
  split at hmem
  · obtain ⟨hmark, rfl⟩ := Prod.mk.inj (List.mem_singleton.mp hmem)
    obtain ⟨rfl, rfl⟩ := CellMark.glyph.inj hmark
    refine ⟨by omega, left, ?_, rfl, rfl⟩
    rw [Nat.sub_sub_self (Nat.le_of_lt hk)]
    exact hleft
  · cases hmem

theorem mem_ownMarks {c : Char} {part : Nat} {color : Color32} :
    (.glyph c part, color) ∈ b.ownMarks cell ↔
      (blank cell.c = false ∧ 0 < b.span cell.c) ∧ c = cell.c ∧ part = 0 ∧
        color = b.ink cell := by
  have hunderline : (CellMark.glyph c part, color) ∉
      (if cell.attrs.underline then [(CellMark.underline, b.ink cell)] else []) := by
    split
    · intro h
      cases (Prod.mk.inj (List.mem_singleton.mp h)).1
    · exact List.not_mem_nil
  rw [ownMarks, List.mem_append, or_iff_left hunderline]
  by_cases hdrawn : blank cell.c = false ∧ 0 < b.span cell.c
  · simp [hdrawn, and_assoc]
  · rw [if_neg (by simpa [and_comm] using hdrawn)]
    simp [hdrawn]

/-- The character under the block is drawn once more. -/
theorem cursorMarks_block (hrow : s.lines[row]? = some cells) (hcol : cells[col]? = some cell)
    (hc : blank cell.c = false) (hspan : 0 < b.span cell.c) (hon : BlockOn s row col) :
    (.glyph cell.c 0, b.theme.background) ∈ b.cursorMarks s row col := by
  obtain ⟨hvisible, hshape, hplace⟩ := hon
  have hunder : s.under = some cell := by
    rw [FullSnapshot.under, hplace, hrow]
    exact hcol
  have hblock : b.blockMarks s row col cell = [(.glyph cell.c 0, b.theme.background)] := by
    rw [blockMarks, hplace]
    simp [hc, hspan]
  rcases hshape with hshape | hshape <;>
    simp [cursorMarks, hvisible, hshape, hunder, hblock]

/-- In its own cell a concealed character can be read exactly where it is selected, on a
ground of another colour than its own, and under the block cursor. The right half of a
double-width one is drawn in its background, whatever the next cell stands on
(`right_half_iff`). -/
theorem hidden_seen_iff (hrow : s.lines[row]? = some cells) (hcol : cells[col]? = some cell)
    (hhidden : cell.attrs.hidden = true) (hc : blank cell.c = false)
    (hspan : 0 < b.span cell.c) :
    Legible (b.shown s (row, col)) cell.c ↔
      if BlockOn s row col then b.theme.background ≠ b.theme.cursor
      else b.selected row col = true ∧ (b.inks cell).2 ≠ b.theme.selection := by
  have hlength : (cells.take col).length = col := by
    rw [List.length_take]
    exact Nat.min_eq_left (Nat.le_of_lt (List.getElem?_eq_some_iff.mp hcol).1)
  have hink : b.ink cell = (b.inks cell).2 := by simp [ink, hhidden]
  rw [paint_shows hrow hcol, withCursor]
  by_cases hon : BlockOn s row col
  · rw [if_pos hon, if_pos hon]
    constructor
    · rintro ⟨color, hmem, hne⟩
      rwa [(mem_cursorMarks hmem).2.2] at hne
    · exact fun hne => ⟨_, cursorMarks_block hrow hcol hc hspan hon, hne⟩
  · rw [if_neg hon, if_neg hon]
    have hground : (b.cellLook row (cells.take col) cell).ground = b.ground row col cell := by
      rw [cellLook, hlength]
    have hown : (CellMark.glyph cell.c 0, b.ink cell) ∈
        (b.cellLook row (cells.take col) cell).marks :=
      List.mem_append_right _ (mem_ownMarks.mpr ⟨⟨hc, hspan⟩, rfl, rfl, rfl⟩)
    have honly : ∀ color, (CellMark.glyph cell.c 0, color) ∈
        (b.cellLook row (cells.take col) cell).marks ++ b.cursorMarks s row col →
          color = b.ink cell := by
      intro color hmem
      rcases List.mem_append.mp hmem with hmem | hmem
      · rcases List.mem_append.mp hmem with hmem | hmem
        · split at hmem
          · exact absurd (mem_spilled hmem).1 (Nat.lt_irrefl 0)
          · cases hmem
        · exact (mem_ownMarks.mp hmem).2.2.2
      · exact absurd (mem_cursorMarks hmem).2.1 hon
    constructor
    · rintro ⟨color, hmem, hne⟩
      rw [honly color hmem, hink, hground, ground] at hne
      split at hne
      · exact ⟨‹_›, hne⟩
      · exact absurd rfl hne
    · rintro ⟨hselected, hne⟩
      refine ⟨b.ink cell, List.mem_append_left _ hown, ?_⟩
      rw [hink, hground, ground, if_pos hselected]
      exact hne

/-- A row of cells with no cursor on it. -/
def plainRow (cells : List Cell) : FullSnapshot :=
  ⟨⟨UInt16.ofNat cells.length, 1⟩, [cells], ⟨0, 0, false, .hidden⟩, 0⟩

/-- A concealed letter. -/
def concealed : Cell := ⟨'s', .foreground, .background, ⟨false, false, false, false, false, true⟩,
  false⟩

theorem hidden_seen_iff_selected :
    Legible ((twoCellBrush (some ⟨(0, 0), (0, 0)⟩)).shown (plainRow [concealed]) (0, 0)) 's' ∧
      ¬Legible ((twoCellBrush none).shown (plainRow [concealed]) (0, 0)) 's' := by
  have hline : (plainRow [concealed]).lines[0]? = some [concealed] := rfl
  have hcell : [concealed][0]? = some concealed := rfl
  constructor
  · exact (hidden_seen_iff hline hcell rfl (by decide) (by decide)).mpr (by decide)
  · intro h
    exact absurd ((hidden_seen_iff hline hcell rfl (by decide) (by decide)).mp h) (by decide)

/-! ## Double-width characters -/

/-- A double-width character keeps its right half exactly when the cell there
stands on the background of the pane. -/
theorem right_half_iff {spacer : Cell} (hrow : s.lines[row]? = some cells)
    (hleft : cells[col]? = some cell) (hright : cells[col + 1]? = some spacer)
    (hc : blank cell.c = false) (hspan : 1 < b.span cell.c) (hoff : ¬BlockOn s row col)
    (hoff' : ¬BlockOn s row (col + 1)) :
    (.glyph cell.c 1, b.ink cell) ∈ (b.shown s (row, col + 1)).marks ↔
      b.ground row (col + 1) spacer = b.theme.background := by
  have hlength : (cells.take (col + 1)).length = col + 1 := by
    rw [List.length_take]
    exact Nat.min_eq_left (Nat.le_of_lt (List.getElem?_eq_some_iff.mp hright).1)
  rw [paint_shows hrow hright, withCursor, if_neg hoff', cellLook, hlength]
  constructor
  · intro hmem
    rcases List.mem_append.mp hmem with hmem | hmem
    · rcases List.mem_append.mp hmem with hmem | hmem
      · split at hmem
        · assumption
        · cases hmem
      · exact absurd (mem_ownMarks.mp hmem).2.2.1 (by decide)
    · exact absurd (mem_cursorMarks hmem).2.1 hoff
  · intro hground
    refine List.mem_append_left _ (List.mem_append_left _ ?_)
    rw [if_pos hground, spilled, List.mem_flatMap, hlength]
    refine ⟨(cell, col), ?_, ?_⟩
    · rw [List.mem_zipIdx_iff_getElem?, List.getElem?_take_of_lt (Nat.lt_succ_self col)]
      exact hleft
    · simp [hc, hspan]

/-- A double-width character in inverse video, and its spacer. -/
def inverseWide : List Cell :=
  [⟨'漢', .foreground, .background, ⟨false, false, false, true, false, false⟩, true⟩,
    ⟨' ', .foreground, .background, ⟨false, false, false, true, false, false⟩, false⟩]

theorem right_half_iff_inverse :
    (.glyph '漢' 1, Theme.muted.background) ∉
      ((twoCellBrush none).shown (plainRow inverseWide) (0, 1)).marks := by
  intro h
  have hline : (plainRow inverseWide).lines[0]? = some inverseWide := rfl
  have hleft : inverseWide[0]? = some inverseWide[0] := rfl
  have hright : inverseWide[0 + 1]? = some inverseWide[1] := rfl
  exact absurd ((right_half_iff hline hleft hright (by decide) (by decide) (by decide)
    (by decide)).mp h) (by decide)

end Brush

end PolyTerm
