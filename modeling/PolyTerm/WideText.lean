import PolyTerm.SelectedText

/-!
# Copying wide characters

The terminal lays a double-width character out in two cells: the first holds
the character and is marked wide, the second is a blank spacer. A copy takes the
character of every cell, the spacers' blanks with them, so it gives the text
back only when no wide character stands before more text.
-/

namespace PolyTerm

/-! ## Cells -/

inductive Color where
  | foreground
  | background
  | cursor
  | indexed (i : UInt8)
  | rgb (r g b : UInt8)
deriving DecidableEq, Repr

structure Attrs where
  bold : Bool
  italic : Bool
  underline : Bool
  inverse : Bool
  dim : Bool
  hidden : Bool
deriving DecidableEq, Repr

/-- One cell of a snapshot. -/
structure Cell where
  c : Char
  fg : Color
  bg : Color
  attrs : Attrs
  /-- the left half of a double-width character -/
  wide : Bool
deriving DecidableEq, Repr

inductive NamedColor where
  | black | red | green | yellow | blue | magenta | cyan | white
  | brightBlack | brightRed | brightGreen | brightYellow
  | brightBlue | brightMagenta | brightCyan | brightWhite
  | foreground | background | cursor
  | dimBlack | dimRed | dimGreen | dimYellow | dimBlue | dimMagenta | dimCyan | dimWhite
  | brightForeground | dimForeground
deriving DecidableEq, Repr

/-- A colour of the engine. -/
inductive VColor where
  | named (color : NamedColor)
  | spec (r g b : UInt8)
  | indexed (i : UInt8)
deriving DecidableEq, Repr

/-- The engine's flags that a snapshot tells of. -/
structure Flags where
  bold : Bool
  italic : Bool
  underline : Bool
  inverse : Bool
  dim : Bool
  hidden : Bool
  wideChar : Bool
deriving DecidableEq, Repr

def Flags.none : Flags := ⟨false, false, false, false, false, false, false⟩

/-- A cell of the engine's grid. -/
structure TermCell where
  c : Char
  fg : VColor
  bg : VColor
  flags : Flags
deriving DecidableEq, Repr

/-- An empty cell. -/
def TermCell.blank : TermCell := ⟨' ', .named .foreground, .named .background, .none⟩

/-- A dim colour keeps its hue; the flag tells that it is dim. -/
def mapNamed : NamedColor → Color
  | .black | .dimBlack => .indexed 0
  | .red | .dimRed => .indexed 1
  | .green | .dimGreen => .indexed 2
  | .yellow | .dimYellow => .indexed 3
  | .blue | .dimBlue => .indexed 4
  | .magenta | .dimMagenta => .indexed 5
  | .cyan | .dimCyan => .indexed 6
  | .white | .dimWhite => .indexed 7
  | .brightBlack => .indexed 8
  | .brightRed => .indexed 9
  | .brightGreen => .indexed 10
  | .brightYellow => .indexed 11
  | .brightBlue => .indexed 12
  | .brightMagenta => .indexed 13
  | .brightCyan => .indexed 14
  | .brightWhite => .indexed 15
  | .background => .background
  | .cursor => .cursor
  | .foreground | .brightForeground | .dimForeground => .foreground

def mapColor : VColor → Color
  | .spec r g b => .rgb r g b
  | .indexed i => .indexed i
  | .named named => mapNamed named

def mapCell (cell : TermCell) : Cell where
  c := cell.c
  fg := mapColor cell.fg
  bg := mapColor cell.bg
  attrs := ⟨cell.flags.bold, cell.flags.italic, cell.flags.underline, cell.flags.inverse,
    cell.flags.dim, cell.flags.hidden⟩
  wide := cell.flags.wideChar

/-- The grid of these rows of cells, as copying sees it. -/
def Snapshot.ofCells (cols : UInt16) (rows : List (List Cell)) : Snapshot :=
  ⟨cols, rows.map (·.map Cell.c)⟩

/-! ## Laying text out -/

/-- Text in a row of the engine's grid. -/
inductive LaidOut (width : Char → Bool) : List Char → List TermCell → Prop where
  | nil : LaidOut width [] []
  | narrow (cell : TermCell) {text : List Char} {cells : List TermCell} :
      width cell.c = false → cell.flags.wideChar = false → LaidOut width text cells →
        LaidOut width (cell.c :: text) (cell :: cells)
  /-- the character's own cell, and the spacer -/
  | wide (cell spacer : TermCell) {text : List Char} {cells : List TermCell} :
      width cell.c = true → cell.flags.wideChar = true → spacer.c = ' ' →
        spacer.flags.wideChar = false → LaidOut width text cells →
          LaidOut width (cell.c :: text) (cell :: spacer :: cells)

/-- The characters of the cells. -/
def spread (width : Char → Bool) : List Char → List Char
  | [] => []
  | c :: text => if width c then c :: ' ' :: spread width text else c :: spread width text

/-- No double-width character stands before one that is not white space. -/
def WideLast (width : Char → Bool) : List Char → Prop
  | [] => True
  | c :: text => (width c = true → trimEnd text = []) ∧ WideLast width text

instance WideLast.decidable (width : Char → Bool) : ∀ text, Decidable (WideLast width text)
  | [] => .isTrue trivial
  | c :: text =>
      have := WideLast.decidable width text
      inferInstanceAs (Decidable ((width c = true → trimEnd text = []) ∧ WideLast width text))

/-- The text a copy of it gives: right-trimmed, and none if it is blank. -/
def copiedText (text : List Char) : Option String :=
  if (trimEnd text).isEmpty then none else some (String.ofList (trimEnd text))

variable {width : Char → Bool}

theorem LaidOut.chars {text : List Char} {cells : List TermCell} (h : LaidOut width text cells) :
    cells.map (fun cell => (mapCell cell).c) = spread width text := by
  induction h with
  | nil => rfl
  | narrow _ hwidth _ _ ih =>
      rw [List.map_cons, ih, spread, hwidth]
      rfl
  | wide _ _ hwidth _ hspacer _ _ ih =>
      rw [List.map_cons, List.map_cons, ih, spread, hwidth, if_pos rfl]
      exact congrArg₂ _ rfl (congrArg₂ _ hspacer rfl)

/-! ## Trimming what was laid out -/

theorem trimEnd_cons (c : Char) (cs : List Char) :
    trimEnd (c :: cs) =
      if trimEnd cs = [] ∧ isWhitespace c = true then [] else c :: trimEnd cs := by
  have hnil : trimEnd cs = [] ↔ (cs.reverse.dropWhile isWhitespace).isEmpty = true := by
    rw [trimEnd, List.rdropWhile, List.reverse_eq_nil_iff, List.isEmpty_iff]
  rw [trimEnd, List.rdropWhile, List.reverse_cons, List.dropWhile_append]
  by_cases hblank : trimEnd cs = []
  · rw [if_pos (hnil.mp hblank)]
    by_cases hc : isWhitespace c = true <;> simp [hblank, hc]
  · rw [if_neg fun h => hblank (hnil.mpr h), if_neg fun h => hblank h.1, List.reverse_append]
    rfl

theorem trimEnd_replicate (blanks : Nat) : trimEnd (List.replicate blanks ' ') = [] := by
  rw [trimEnd, List.rdropWhile_eq_nil_iff]
  intro c hc
  rw [List.eq_of_mem_replicate hc]
  decide

theorem isWhitespace_blank : isWhitespace ' ' = true := by decide

theorem mem_spread {c : Char} {text : List Char} (h : c ∈ text) : c ∈ spread width text := by
  induction text with
  | nil => cases h
  | cons d text ih =>
      rw [spread]
      rcases List.mem_cons.mp h with rfl | h
      · split <;> simp
      · split <;> simp [ih h]

theorem of_mem_spread {c : Char} {text : List Char} (h : c ∈ spread width text) :
    c ∈ text ∨ c = ' ' := by
  induction text with
  | nil => cases h
  | cons d text ih =>
      rw [spread] at h
      split at h
      · rcases List.mem_cons.mp h with rfl | h
        · exact Or.inl List.mem_cons_self
        · rcases List.mem_cons.mp h with rfl | h
          · exact Or.inr rfl
          · exact (ih h).imp_left (List.mem_cons_of_mem d)
      · rcases List.mem_cons.mp h with rfl | h
        · exact Or.inl List.mem_cons_self
        · exact (ih h).imp_left (List.mem_cons_of_mem d)

section Row

variable (width : Char → Bool) (blanks : Nat)

/-- What a copy gives of a row that holds the text and then blanks. -/
def rowCopy (text : List Char) : List Char :=
  trimEnd (spread width text ++ List.replicate blanks ' ')

theorem rowCopy_nil : rowCopy width blanks [] = [] := trimEnd_replicate blanks

theorem rowCopy_eq_nil_iff (text : List Char) :
    rowCopy width blanks text = [] ↔ trimEnd text = [] := by
  rw [rowCopy, trimEnd, trimEnd, List.rdropWhile_eq_nil_iff, List.rdropWhile_eq_nil_iff]
  constructor
  · exact fun h c hc => h c (List.mem_append_left _ (mem_spread hc))
  · intro h c hc
    rcases List.mem_append.mp hc with hc | hc
    · rcases of_mem_spread hc with hc | rfl
      · exact h c hc
      · exact isWhitespace_blank
    · rw [List.eq_of_mem_replicate hc]
      exact isWhitespace_blank

theorem rowCopy_narrow {c : Char} (hc : width c = false) (text : List Char) :
    rowCopy width blanks (c :: text) =
      if trimEnd text = [] ∧ isWhitespace c = true then [] else c :: rowCopy width blanks text := by
  have hrow : rowCopy width blanks (c :: text) =
      trimEnd (c :: (spread width text ++ List.replicate blanks ' ')) := by
    rw [rowCopy, spread, hc]
    rfl
  have hnil : trimEnd (spread width text ++ List.replicate blanks ' ') = [] ↔ trimEnd text = [] :=
    rowCopy_eq_nil_iff width blanks text
  simp only [hrow, trimEnd_cons, hnil]
  rfl

/-- A wide character's spacer goes if nothing stands behind it. -/
theorem rowCopy_wide {c : Char} (hc : width c = true) (text : List Char) :
    rowCopy width blanks (c :: text) =
      if trimEnd text = [] then if isWhitespace c = true then [] else [c]
      else c :: ' ' :: rowCopy width blanks text := by
  have hrow : rowCopy width blanks (c :: text) =
      trimEnd (c :: ' ' :: (spread width text ++ List.replicate blanks ' ')) := by
    rw [rowCopy, spread, hc]
    rfl
  have hnil : trimEnd (spread width text ++ List.replicate blanks ' ') = [] ↔ trimEnd text = [] :=
    rowCopy_eq_nil_iff width blanks text
  simp only [hrow, trimEnd_cons, hnil, isWhitespace_blank, and_true]
  by_cases hrest : trimEnd text = []
  · simp [hrest]
  · simp only [hrest, if_false, List.cons_ne_nil, false_and]
    rfl

/-- A copy is never shorter than the text. -/
theorem length_trimEnd_le (text : List Char) :
    (trimEnd text).length ≤ (rowCopy width blanks text).length := by
  induction text with
  | nil => exact Nat.zero_le _
  | cons c text ih =>
      rw [trimEnd_cons]
      cases hc : width c with
      | false =>
          rw [rowCopy_narrow width blanks hc]
          split
          · exact Nat.le_refl _
          · exact Nat.succ_le_succ ih
      | true =>
          rw [rowCopy_wide width blanks hc]
          by_cases hrest : trimEnd text = []
          · rw [if_pos hrest]
            by_cases hblank : isWhitespace c = true <;> simp [hrest, hblank]
          · rw [if_neg hrest, if_neg fun h => hrest h.1]
            exact Nat.succ_le_succ (ih.trans (Nat.le_succ _))

theorem rowCopy_eq_iff (text : List Char) :
    rowCopy width blanks text = trimEnd text ↔ WideLast width text := by
  induction text with
  | nil => exact iff_of_true (rowCopy_nil width blanks) trivial
  | cons c text ih =>
      rw [WideLast, trimEnd_cons]
      cases hc : width c with
      | false =>
          rw [rowCopy_narrow width blanks hc]
          simp only [Bool.false_eq_true, false_implies, true_and, ← ih]
          split
          · rename_i hblank
            simp [(rowCopy_eq_nil_iff width blanks text).mpr hblank.1, hblank.1]
          · simp
      | true =>
          rw [rowCopy_wide width blanks hc]
          by_cases hrest : trimEnd text = []
          · -- nothing but white space behind: the spacer is trimmed with it
            have hlast : WideLast width text :=
              ih.mp (((rowCopy_eq_nil_iff width blanks text).mpr hrest).trans hrest.symm)
            rw [if_pos hrest]
            by_cases hblank : isWhitespace c = true <;> simp [hrest, hblank, hlast]
          · rw [if_neg hrest, if_neg fun h => hrest h.1]
            refine iff_of_false (fun heq => ?_) fun h => hrest (h.1 rfl)
            have hlength := congrArg List.length (List.cons.inj heq).2
            have hle := length_trimEnd_le width blanks text
            rw [List.length_cons] at hlength
            omega

end Row

/-! ## Copying a row -/

theorem copiedText_eq_iff {text text' : List Char} :
    copiedText text = copiedText text' ↔ trimEnd text = trimEnd text' := by
  refine ⟨fun h => ?_, fun h => by rw [copiedText, copiedText, h]⟩
  unfold copiedText at h
  split at h <;> split at h
  · rename_i hnil hnil'
    rw [List.isEmpty_iff.mp hnil, List.isEmpty_iff.mp hnil']
  · cases h
  · cases h
  · exact String.ofList_injective (Option.some.inj h)

/-- A selection in one row, from its first cell on. -/
theorem selectionText_row {s : Selection} {snapshot : Snapshot} {row last : UInt16}
    {line : List Char} (hselected : s.ordered = ((row, 0), (row, last)))
    (hline : snapshot.lines[row.toNat]? = some line) :
    selectionText s snapshot = copiedText (line.take (last.toNat + 1)) := by
  have hrows : s.rows = [row.toNat] := by
    rw [Selection.rows, hselected, Nat.add_sub_cancel_left]
    rfl
  have hfirst : s.firstCol row.toNat = 0 := by
    rw [Selection.firstCol, hselected, if_pos rfl]
    rfl
  have hlast : s.lastCol snapshot.cols.toNat row.toNat = last.toNat := by
    rw [Selection.lastCol, hselected, if_pos rfl]
  rw [Selection.selectionText_eq, hrows]
  simp [hline, hfirst, hlast, rowText, copiedText]

/-- A copy of laid-out text is the text, right-trimmed, exactly if no wide
character stands before one that is not white space. -/
theorem copied_wide_iff {width : Char → Bool} {text : List Char} {cells : List TermCell}
    (hlaid : LaidOut width text cells) {cols : UInt16} {rows : List (List Cell)}
    {row last : UInt16} {blanks : Nat}
    (hrow : rows[row.toNat]? = some ((cells ++ List.replicate blanks TermCell.blank).map mapCell))
    {s : Selection} (hselected : s.ordered = ((row, 0), (row, last)))
    (hcovers : cells.length ≤ last.toNat + 1) :
    selectionText s (.ofCells cols rows) = copiedText text ↔ WideLast width text := by
  have hchars : ((cells ++ List.replicate blanks TermCell.blank).map mapCell).map Cell.c =
      spread width text ++ List.replicate blanks ' ' := by
    rw [List.map_map, List.map_append, List.map_replicate]
    exact congrArg (· ++ _) hlaid.chars
  have hline : (Snapshot.ofCells cols rows).lines[row.toNat]? =
      some (spread width text ++ List.replicate blanks ' ') := by
    rw [Snapshot.ofCells, List.getElem?_map, hrow, Option.map_some, hchars]
  have hlength : (spread width text).length ≤ last.toNat + 1 := by
    rw [← hlaid.chars, List.length_map]
    exact hcovers
  have htaken : (spread width text ++ List.replicate blanks ' ').take (last.toNat + 1) =
      spread width text ++
        List.replicate (min (last.toNat + 1 - (spread width text).length) blanks) ' ' := by
    rw [List.take_append, List.take_of_length_le hlength, List.take_replicate]
  rw [selectionText_row hselected hline, htaken, copiedText_eq_iff]
  exact rowCopy_eq_iff width _ text

/-- As an engine lays it out that counts ideographs double. -/
def cjk (c : Char) : Bool := 0x4e00 ≤ c.toNat && c.toNat ≤ 0x9fff

/-- A cell without attributes. -/
def plainCell (c : Char) : TermCell := { TermCell.blank with c := c }

def wideCell (c : Char) : TermCell :=
  { plainCell c with flags := { Flags.none with wideChar := true } }

/-- An ideograph at the end of a row of four. -/
def lastIdeograph : List Cell :=
  ([plainCell 'X', wideCell '世', plainCell ' '] ++ List.replicate 1 TermCell.blank).map mapCell

theorem copied_wide_last :
    selectionText ⟨(0, 3), (0, 0)⟩ (.ofCells 4 [lastIdeograph]) = some "X世" := by
  have hlaid : LaidOut cjk ['X', '世'] [plainCell 'X', wideCell '世', plainCell ' '] :=
    .narrow (plainCell 'X') (by decide) rfl
      (.wide (wideCell '世') (plainCell ' ') (by decide) rfl rfl rfl .nil)
  have hrow : [lastIdeograph][(0 : UInt16).toNat]? = some
      (([plainCell 'X', wideCell '世', plainCell ' '] ++ List.replicate 1 TermCell.blank).map
        mapCell) := rfl
  have hselected : Selection.ordered ⟨(0, 3), (0, 0)⟩ = ((0, 0), (0, 3)) := by decide
  exact (copied_wide_iff hlaid hrow hselected (by decide)).mpr (by decide)

/-- A copy of an ideograph and a letter has a blank between them. -/
theorem spacer_copied :
    LaidOut cjk ['世', 'X'] [wideCell '世', plainCell ' ', plainCell 'X'] ∧
      selectionText ⟨(0, 0), (0, 2)⟩
        (.ofCells 3 [[wideCell '世', plainCell ' ', plainCell 'X'].map mapCell]) = some "世 X" ∧
      copiedText ['世', 'X'] = some "世X" :=
  ⟨.wide (wideCell '世') (plainCell ' ') (by decide) rfl rfl rfl
      (.narrow (plainCell 'X') (by decide) rfl .nil),
    by decide, by decide⟩

end PolyTerm
