import PolyTerm.Pane

/-!
# Highlighting and copying

Painting asks of each cell whether the selection contains it; copying takes a
range of columns from each selected row. In a grid whose rows are as long as it
is wide the two agree: what is copied is what is highlighted.
-/

namespace PolyTerm

/-- A span of a list, picked out place by place. -/
theorem take_drop_eq_filter {α : Type*} (l : List α) (first last : Nat) :
    (l.take (last + 1)).drop first =
      (l.zipIdx.filter fun x => first ≤ x.2 ∧ x.2 ≤ last).map Prod.fst := by
  have hfrom : ∀ (l : List α) (k : Nat), (l.take (last + 1 - k)).drop (first - k) =
      ((l.zipIdx k).filter fun x => first ≤ x.2 ∧ x.2 ≤ last).map Prod.fst := by
    intro l
    induction l with
    | nil => simp
    | cons a l ih =>
        intro k
        rw [List.zipIdx_cons, List.filter_cons]
        by_cases hlast : k ≤ last
        · obtain ⟨n, hn⟩ : ∃ n, last + 1 - k = n + 1 := ⟨last - k, by omega⟩
          have ih := ih (k + 1)
          rw [show last + 1 - (k + 1) = n by omega] at ih
          rw [hn, List.take_succ_cons]
          by_cases hfirst : first ≤ k
          · rw [Nat.sub_eq_zero_of_le (by omega), List.drop_zero] at ih
            simp [hfirst, hlast, ih]
          · obtain ⟨m, hm⟩ : ∃ m, first - k = m + 1 := ⟨first - k - 1, by omega⟩
            rw [show first - (k + 1) = m by omega] at ih
            simp [hm, hfirst, ih]
        · rw [Nat.sub_eq_zero_of_le (show last + 1 ≤ k by omega), List.take_zero, List.drop_nil]
          have ih := ih (k + 1)
          rw [Nat.sub_eq_zero_of_le (show last + 1 ≤ k + 1 by omega), List.take_zero,
            List.drop_nil] at ih
          rw [if_neg (by simp [hlast]), ← ih]
  simpa using hfrom l 0

/-- A pass that never fails is a map. -/
theorem mapM_of_forall_some {α β : Type*} {f : α → Option β} {g : α → β} {l : List α}
    (h : ∀ x ∈ l, f x = some (g x)) : l.mapM f = some (l.map g) := by
  induction l with
  | nil => rfl
  | cons x l ih =>
      rw [List.forall_mem_cons] at h
      rw [List.mapM_cons, h.1, ih h.2]
      rfl

/-- A pass that fails once gives nothing. -/
theorem mapM_of_mem_none {α β : Type*} {f : α → Option β} {l : List α} {x : α} (hx : x ∈ l)
    (h : f x = none) : l.mapM f = none := by
  induction l with
  | nil => cases hx
  | cons y l ih =>
      rw [List.mapM_cons]
      rcases List.mem_cons.mp hx with rfl | hx
      · rw [h]
        rfl
      · rw [ih hx]
        cases f y <;> rfl

theorem mem_intersperse {α : Type*} {x sep : α} {l : List α} (h : x ∈ l) :
    x ∈ l.intersperse sep := by
  induction l with
  | nil => cases h
  | cons y l ih =>
      cases l with
      | nil => exact h
      | cons z l =>
          rw [List.intersperse_cons_cons]
          rcases List.mem_cons.mp h with rfl | h
          · exact List.mem_cons_self
          · exact List.mem_cons_of_mem y (List.mem_cons_of_mem sep (ih h))

/-! ## Cells in reading order -/

theorem cellLe_iff {a b : UInt16 × UInt16} :
    cellLe a b = true ↔
      a.1.toNat < b.1.toNat ∨ (a.1.toNat = b.1.toNat ∧ a.2.toNat ≤ b.2.toNat) := by
  simp [cellLe, UInt16.lt_iff_toNat_lt, UInt16.le_iff_toNat_le, ← UInt16.toNat_inj]

theorem cellLe_total (a b : UInt16 × UInt16) : cellLe a b = true ∨ cellLe b a = true := by
  simp only [cellLe_iff]
  omega

theorem cellLe_antisymm {a b : UInt16 × UInt16} (h : cellLe a b = true) (h' : cellLe b a = true) :
    a = b := by
  rw [cellLe_iff] at h h'
  exact Prod.ext (UInt16.toNat_inj.mp (by omega)) (UInt16.toNat_inj.mp (by omega))

namespace Selection

variable {s : Selection}

def swap (s : Selection) : Selection := ⟨s.head, s.anchor⟩

theorem ordered_swap (s : Selection) : s.swap.ordered = s.ordered := by
  unfold ordered swap
  rcases cellLe_total s.anchor s.head with h | h
  · by_cases h' : cellLe s.head s.anchor = true
    · rw [cellLe_antisymm h h']
    · simp [h, h']
  · by_cases h' : cellLe s.anchor s.head = true
    · rw [cellLe_antisymm h h']
    · simp [h, h']

theorem ordered_le (s : Selection) : cellLe s.ordered.1 s.ordered.2 = true := by
  unfold ordered
  split
  · assumption
  · exact (cellLe_total s.anchor s.head).resolve_left ‹_›

/-- One of the two ends is the last cell, and the other the first. -/
theorem ordered_cases (s : Selection) :
    s.ordered = (s.anchor, s.head) ∨ s.ordered = (s.head, s.anchor) := by
  unfold ordered
  split
  · exact Or.inl rfl
  · exact Or.inr rfl

/-- The rows that the selection goes over. -/
def rows (s : Selection) : List Nat :=
  List.range' s.ordered.1.1.toNat (s.ordered.2.1.toNat + 1 - s.ordered.1.1.toNat)

theorem mem_rows {row : Nat} :
    row ∈ s.rows ↔ s.ordered.1.1.toNat ≤ row ∧ row ≤ s.ordered.2.1.toNat := by
  have hrows := cellLe_iff.mp s.ordered_le
  rw [rows, List.mem_range'_1]
  omega

/-- The first selected column of a selected row. -/
def firstCol (s : Selection) (row : Nat) : Nat :=
  if row = s.ordered.1.1.toNat then s.ordered.1.2.toNat else 0

/-- The last selected column of a selected row, among `cols`. -/
def lastCol (s : Selection) (cols row : Nat) : Nat :=
  if row = s.ordered.2.1.toNat then s.ordered.2.2.toNat else cols - 1

/-- In a selected row the highlighted cells are a range of columns. -/
theorem contains_iff {cols row col : Nat} (hrow : row ∈ s.rows) (hcol : col < cols)
    (hcols : cols ≤ 65535) :
    s.contains (UInt16.ofNat row, UInt16.ofNat col) = true ↔
      s.firstCol row ≤ col ∧ col ≤ s.lastCol cols row := by
  have hsize : UInt16.size = 65536 := rfl
  have hlast : s.ordered.2.1.toNat < 65536 := s.ordered.2.1.toNat_lt
  rw [mem_rows] at hrow
  have hrow' : (UInt16.ofNat row).toNat = row := UInt16.toNat_ofNat_of_lt' (by omega)
  have hcol' : (UInt16.ofNat col).toNat = col := UInt16.toNat_ofNat_of_lt' (by omega)
  rw [contains, Bool.and_eq_true, cellLe_iff, cellLe_iff, hrow', hcol', firstCol, lastCol]
  split <;> split <;> omega

/-- What is highlighted of a row. -/
def highlighted (s : Selection) (row : Nat) (line : List Char) : List Char :=
  (line.zipIdx.filter fun cell => s.contains (UInt16.ofNat row, UInt16.ofNat cell.2)).map Prod.fst

theorem highlighted_eq {cols row : Nat} {line : List Char} (hline : line.length = cols)
    (hcols : cols ≤ 65535) (hrow : row ∈ s.rows) :
    s.highlighted row line = (line.take (s.lastCol cols row + 1)).drop (s.firstCol row) := by
  rw [take_drop_eq_filter, highlighted]
  congr 1
  refine List.filter_congr fun cell hcell => ?_
  have hcol : cell.2 < cols := hline ▸ List.snd_lt_of_mem_zipIdx hcell
  rw [Bool.eq_iff_iff, contains_iff hrow hcol hcols, decide_eq_true_eq]

end Selection

/-- Every row is as long as the grid is wide. -/
def Snapshot.Rectangular (snapshot : Snapshot) : Prop :=
  ∀ line ∈ snapshot.lines, line.length = snapshot.cols.toNat

instance (snapshot : Snapshot) : Decidable snapshot.Rectangular :=
  inferInstanceAs (Decidable (∀ _ ∈ _, _))

namespace Selection

variable {s : Selection} {snapshot : Snapshot}

/-- Both ends are cells of the grid. -/
structure Inside (s : Selection) (snapshot : Snapshot) : Prop where
  anchor : s.anchor.1.toNat < snapshot.lines.length ∧ s.anchor.2.toNat < snapshot.cols.toNat
  head : s.head.1.toNat < snapshot.lines.length ∧ s.head.2.toNat < snapshot.cols.toNat

/-- The last selected row is a row of the grid. -/
def EndsInside (s : Selection) (snapshot : Snapshot) : Prop :=
  s.ordered.2.1.toNat < snapshot.lines.length

instance (s : Selection) (snapshot : Snapshot) : Decidable (s.EndsInside snapshot) :=
  inferInstanceAs (Decidable (_ < _))

theorem Inside.endsInside (h : s.Inside snapshot) : s.EndsInside snapshot := by
  unfold EndsInside
  rcases s.ordered_cases with hordered | hordered
  · rw [hordered]
    exact h.head.1
  · rw [hordered]
    exact h.anchor.1

/-- What is highlighted of each selected row, right-trimmed. -/
def highlightedRows (s : Selection) (snapshot : Snapshot) : List (List Char) :=
  s.rows.map fun row => trimEnd (s.highlighted row (snapshot.lines[row]?.getD []))

/-- The highlighted text, row by row; `none` when there is none. -/
def highlightedText (s : Selection) (snapshot : Snapshot) : Option String :=
  let joined := ((s.highlightedRows snapshot).intersperse ['\n']).flatten
  if joined.isEmpty then none else some (String.ofList joined)

/-- A selected row is what is highlighted of it, right-trimmed. -/
theorem rowText_eq (hrect : snapshot.Rectangular) {row : Nat} (hrow : row ∈ s.rows)
    {line : List Char} (hline : snapshot.lines[row]? = some line) :
    rowText line (s.firstCol row) (s.lastCol snapshot.cols.toNat row) =
      trimEnd (s.highlighted row line) := by
  have hcols : snapshot.cols.toNat ≤ 65535 := Nat.lt_succ_iff.mp snapshot.cols.toNat_lt
  rw [highlighted_eq (hrect line (List.mem_of_getElem? hline)) hcols hrow, rowText]

/-- What is copied, in the words of this file. -/
theorem selectionText_eq (s : Selection) (snapshot : Snapshot) :
    selectionText s snapshot =
      (s.rows.mapM fun row => (snapshot.lines[row]?).map fun line =>
          rowText line (s.firstCol row) (s.lastCol snapshot.cols.toNat row)).bind fun texts =>
        let joined := (texts.intersperse ['\n']).flatten
        if joined.isEmpty then none else some (String.ofList joined) := rfl

theorem selectionText_of_endsInside (hrect : snapshot.Rectangular)
    (hend : s.EndsInside snapshot) :
    selectionText s snapshot = s.highlightedText snapshot := by
  have hrow : ∀ row ∈ s.rows, ((snapshot.lines[row]?).map fun line =>
      rowText line (s.firstCol row) (s.lastCol snapshot.cols.toNat row)) =
      some (trimEnd (s.highlighted row (snapshot.lines[row]?.getD []))) := by
    intro row hrow
    have hline := List.getElem?_eq_getElem ((mem_rows.mp hrow).2.trans_lt hend)
    rw [hline, Option.map_some, Option.getD_some, rowText_eq hrect hrow hline]
  rw [selectionText_eq, mapM_of_forall_some hrow]
  rfl

/-- A selection that ends below the grid copies nothing. -/
theorem selectionText_of_not_endsInside (hend : ¬s.EndsInside snapshot) :
    selectionText s snapshot = none := by
  have hlast : s.ordered.2.1.toNat ∈ s.rows := by
    have hrows := cellLe_iff.mp s.ordered_le
    rw [mem_rows]
    omega
  rw [selectionText_eq, mapM_of_mem_none hlast]
  · rfl
  · rw [List.getElem?_eq_none (Nat.not_lt.mp hend), Option.map_none]

theorem selectionText_swap (s : Selection) (snapshot : Snapshot) :
    selectionText s.swap snapshot = selectionText s snapshot := by
  simp only [selectionText, ordered_swap]

theorem mem_highlighted {row col : Nat} {cells : List Char} {c : Char}
    (hcol : cells[col]? = some c)
    (hcontains : s.contains (UInt16.ofNat row, UInt16.ofNat col) = true) :
    c ∈ s.highlighted row cells :=
  List.mem_map.mpr ⟨(c, col), List.mem_filter.mpr
    ⟨List.mem_zipIdx_iff_getElem?.mpr hcol, hcontains⟩, rfl⟩

theorem mem_rows_of_contains {cell : UInt16 × UInt16} (h : s.contains cell = true) :
    cell.1.toNat ∈ s.rows := by
  rw [contains, Bool.and_eq_true, cellLe_iff, cellLe_iff] at h
  rw [mem_rows]
  omega

/-- A highlighted character that is not blank is some text. -/
theorem highlightedText_of_mem {row : Nat} {c : Char} (hrow : row ∈ s.rows)
    (hc : c ∈ s.highlighted row (snapshot.lines[row]?.getD [])) (hblank : isWhitespace c = false) :
    ∃ text, s.highlightedText snapshot = some text := by
  have htrimmed : trimEnd (s.highlighted row (snapshot.lines[row]?.getD [])) ≠ [] := by
    rw [trimEnd, ne_eq, List.rdropWhile_eq_nil_iff]
    intro hall
    rw [hall c hc] at hblank
    cases hblank
  have hmem : trimEnd (s.highlighted row (snapshot.lines[row]?.getD [])) ∈
      s.highlightedRows snapshot := List.mem_map_of_mem hrow
  have hjoined : ((s.highlightedRows snapshot).intersperse ['\n']).flatten ≠ [] := by
    rw [ne_eq, List.flatten_eq_nil_iff]
    exact fun hnil => htrimmed (hnil _ (mem_intersperse hmem))
  refine ⟨_, if_neg ?_⟩
  rw [List.isEmpty_iff]
  exact hjoined

/-- Of a selection inside a rectangular grid, what is copied is the highlighted
text, whichever end the drag began at; no cell outside the selected rows is
highlighted. -/
theorem copied_eq_highlighted (hrect : snapshot.Rectangular) (hinside : s.Inside snapshot) :
    selectionText s snapshot = s.highlightedText snapshot ∧
      selectionText s.swap snapshot = selectionText s snapshot ∧
      ∀ cell, s.contains cell = true → cell.1.toNat ∈ s.rows :=
  ⟨selectionText_of_endsInside hrect hinside.endsInside, selectionText_swap s snapshot,
    fun _ hcell => mem_rows_of_contains hcell⟩

/-- A drag upward from the last row into the first. -/
theorem copied_eq_highlighted_upward :
    selectionText ⟨(1, 1), (0, 1)⟩ ⟨3, [['a', 'b', ' '], ['c', 'd', 'e']]⟩ = some "b\ncd" := by
  have hrect : Snapshot.Rectangular ⟨3, [['a', 'b', ' '], ['c', 'd', 'e']]⟩ := by decide
  have hinside : Inside ⟨(1, 1), (0, 1)⟩ ⟨3, [['a', 'b', ' '], ['c', 'd', 'e']]⟩ :=
    ⟨by decide, by decide⟩
  exact (copied_eq_highlighted hrect hinside).1.trans (by decide)

end Selection

end PolyTerm
