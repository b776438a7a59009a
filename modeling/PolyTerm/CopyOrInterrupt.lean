import PolyTerm.PaneFrames
import PolyTerm.Pastes

/-!
# Copying over a selection

Ctrl+C copies what is selected and interrupts when there is nothing to copy.
The selection outlives a resize, and one that ends below the grid copies
nothing though its cells are still highlighted. So a copy interrupts over
highlighted text exactly when the grid has lost the selection's last row, which
only a drawing in a smaller place can bring about.
-/

namespace PolyTerm

open Runs

/-! ## The screen of a pane -/

namespace LivePane

variable {p : LivePane}

/-- The grid, and the selection over it. -/
def screen (p : LivePane) : Snapshot × Option Selection := (p.snapshot, p.selection)

theorem sendBestEffort_screen (p : LivePane) (bytes : Bytes) :
    (p.sendBestEffort bytes).screen = p.screen := by
  unfold sendBestEffort
  split <;> rfl

theorem reportMouse_screen (p : LivePane) (out : Bytes) :
    (p.reportMouse out).screen = p.screen := by
  unfold reportMouse
  split
  · rfl
  · exact p.sendBestEffort_screen out

theorem pump_screen (p : LivePane) (fed : Fed) :
    (p.pump fed).1.screen = (fed.snapshot, p.selection) := by
  have hreplies : ∀ (replies : List Bytes) (p : LivePane),
      (replies.foldl sendBestEffort p).screen = p.screen := by
    intro replies
    induction replies with
    | nil => exact fun _ => rfl
    | cons bytes replies ih =>
        intro p
        rw [List.foldl_cons, ih, sendBestEffort_screen]
  have hevents : ∀ (events : List TransportEvent) (p : LivePane),
      (events.foldl applyEvent p).selection = p.selection := by
    intro events
    induction events with
    | nil => exact fun _ => rfl
    | cons e events ih =>
        intro p
        rw [List.foldl_cons, ih]
        cases e <;> rfl
  rw [pump_eq, hreplies]
  exact congrArg (fed.snapshot, ·) (hevents p.drainInput.events p.drainInput)

end LivePane

/-! ## Selected rows -/

theorem posToCell_row {size : GridSize} (hrows : size.rows ≠ 0) (pos : Int × Int) :
    (posToCell pos size).1.toNat < size.rows.toNat := by
  have hpos : 0 < size.rows.toNat := by
    rw [Nat.pos_iff_ne_zero]
    exact fun h => hrows (UInt16.toNat_inj.mp h)
  have hlt := size.rows.toNat_lt
  have hsize : UInt16.size = 65536 := rfl
  rw [posToCell, UInt16.toNat_ofNat_of_lt' (by omega)]
  omega

theorem Drawing.size_rows_ne_zero (drawing : Drawing) : drawing.size.rows ≠ 0 := by
  change (if drawing.rows ≤ 1 then 1 else drawing.rows) ≠ 0
  split
  · decide
  · rename_i hrows
    rintro hzero
    rw [hzero] at hrows
    exact hrows (by decide)

namespace Selection

variable {s : Selection} {snapshot : Snapshot}

/-- The last row is the greater of the two ends'. -/
theorem endsInside_iff :
    s.EndsInside snapshot ↔
      s.anchor.1.toNat < snapshot.lines.length ∧ s.head.1.toNat < snapshot.lines.length := by
  have hle := cellLe_iff.mp s.ordered_le
  unfold EndsInside
  rcases s.ordered_cases with hordered | hordered
  all_goals
    rw [hordered] at hle ⊢
    dsimp only at hle ⊢
    omega

end Selection

namespace PaneFrame

variable {x y : PaneFrame} {op : PaneOp}

/-- The grid has a size, and its rows are all there. -/
def Gridded (x : PaneFrame) : Prop := x.pane.snapshot.Fits x.pane.snapshot.size

/-- What a step other than a drawing does to the screen. -/
structure Undrawn (x y : PaneFrame) : Prop where
  snapshot : y.pane.snapshot.Fits x.pane.snapshot.size
  selection : y.pane.selection = x.pane.selection ∨ y.pane.selection = none

/-- The selections a drawing can leave. -/
structure Drawn (x y : PaneFrame) (drawing : Drawing) : Prop where
  snapshot : y.pane.snapshot.Fits drawing.size
  selection : ∀ s, y.pane.selection = some s → drawing.reporting = false ∧
    (x.pane.selection = some s ∨ ∃ pos, let cell := posToCell pos drawing.size
      s = ⟨cell, cell⟩ ∨ ∃ s', x.pane.selection = some s' ∧ s = { s' with head := cell })

theorem given_undrawn {bytes : Bytes} {bottom : Snapshot} (h : x.given bytes bottom = some y) :
    x.Undrawn y := by
  unfold given at h
  split at h
  · rename_i hfits
    obtain rfl := Option.some.inj h
    exact ⟨hfits, Or.inr rfl⟩
  · cases h

/-- The selections that the pointer can leave. -/
theorem handlePointer_selection (p : LivePane) (pointer : Pointer) {s : Selection}
    (h : (p.handlePointer pointer).1.selection = some s) :
    p.selection = some s ∨ ∃ pos, let cell := posToCell pos p.snapshot.size
      s = ⟨cell, cell⟩ ∨ ∃ s', p.selection = some s' ∧ s = { s' with head := cell } := by
  have hdrag : (p.dragSelection pointer).1.selection = some s := by
    rw [LivePane.handlePointer] at h
    dsimp only at h
    split at h
    · cases h
    · exact h
  unfold LivePane.dragSelection at hdrag
  split at hdrag
  · split at hdrag
    · rename_i pos hpos
      exact Or.inr ⟨pos, Or.inl (Option.some.inj hdrag).symm⟩
    · exact Or.inl hdrag
  · split at hdrag
    · rename_i pos sel _ _ hsel
      exact Or.inr ⟨pos, Or.inr ⟨sel, hsel, (Option.some.inj hdrag).symm⟩⟩
    · exact Or.inl hdrag

theorem draw_drawn {drawing : Drawing} (hfits : drawing.scrolled.Fits drawing.size)
    (hcleared : drawing.size ≠ x.pane.snapshot.size → drawing.cleared.Fits drawing.size) :
    x.Drawn ⟨.dialogs, (x.pane.show drawing).1, false⟩ drawing := by
  obtain ⟨hsize, hselection⟩ :
      (x.pane.resize drawing.size drawing.cleared).snapshot.size = drawing.size ∧
        (x.pane.resize drawing.size drawing.cleared).selection = x.pane.selection := by
    unfold LivePane.resize
    split
    · rename_i hsame
      exact ⟨hsame.symm, rfl⟩
    · rename_i hother
      exact ⟨(hcleared hother).size_eq, rfl⟩
  refine ⟨hfits, fun s hs => ?_⟩
  simp only [LivePane.show] at hs
  cases hreporting : drawing.reporting with
  | true =>
      rw [hreporting, if_pos rfl] at hs
      have hnone := congrArg Prod.snd (LivePane.reportMouse_screen
        { x.pane.resize drawing.size drawing.cleared with selection := none } drawing.report)
      cases hs.symm.trans hnone
  | false =>
      rw [hreporting, if_neg Bool.false_ne_true] at hs
      have hpointer := handlePointer_selection
        (x.pane.resize drawing.size drawing.cleared) drawing.pointer hs
      rw [hsize, hselection] at hpointer
      exact ⟨rfl, hpointer⟩

theorem step_screen (h : x.Gridded) (hstep : x.step op = some y) :
    x.Undrawn y ∨ ∃ drawing, op = .draw drawing ∧ x.Drawn y drawing := by
  rcases step_cases hstep with ⟨bytes, bottom, hgiven⟩ | ⟨fed, rfl, hfits, rfl⟩ |
    ⟨drawing, rfl, hfits, hcleared, rfl⟩ | ⟨hquiet, -⟩
  · exact Or.inl (given_undrawn hgiven)
  · obtain ⟨hsnapshot, hselection⟩ := Prod.mk.inj (x.pane.pump_screen fed)
    exact Or.inl ⟨hsnapshot ▸ hfits, Or.inl hselection⟩
  · exact Or.inr ⟨drawing, rfl, draw_drawn hfits hcleared⟩
  · refine Or.inl ⟨?_, hquiet.selection⟩
    rw [hquiet.snapshot]
    exact h

/-! ## Runs -/

theorem gridded_start (onExit : ExitAction) (stage : PaneStage) : (start onExit stage).Gridded := by
  refine ⟨rfl, rfl, fun line hline => ?_⟩
  rw [List.eq_of_mem_replicate hline, List.length_replicate]
  rfl

theorem step_gridded (h : x.Gridded) (hstep : x.step op = some y) : y.Gridded := by
  rcases step_screen h hstep with hundrawn | ⟨drawing, -, hdrawn⟩
  · rw [Gridded, hundrawn.snapshot.size_eq]
    exact hundrawn.snapshot
  · rw [Gridded, hdrawn.snapshot.size_eq]
    exact hdrawn.snapshot

/-- No drawing takes away the last row of a selection that it does not drop. -/
def KeepsRows (x : PaneFrame) : PaneOp → Prop
  | .draw drawing => drawing.reporting = true ∨
      ∀ s ∈ x.pane.selection, s.ordered.2.1.toNat < drawing.size.rows.toNat
  | _ => True

instance (x : PaneFrame) : (op : PaneOp) → Decidable (x.KeepsRows op)
  | .draw _ => inferInstanceAs (Decidable (_ ∨ _))
  | .pump _ | .typed _ _ | .pasted _ _ | .copy | .toggleLogging _ | .hide | .confirmed _ _
  | .addForward _ _ | .removeForward _ | .endFrame | .backend _ => .isTrue trivial

/-- The last selected row is there. -/
def SelectionEndsInside (x : PaneFrame) : Prop :=
  ∀ s, x.pane.selection = some s → s.EndsInside x.pane.snapshot

theorem step_endsInside (h : x.Gridded) (hends : x.SelectionEndsInside) (hkeeps : x.KeepsRows op)
    (hstep : x.step op = some y) : y.SelectionEndsInside := by
  intro s hs
  rcases step_screen h hstep with hundrawn | ⟨drawing, rfl, hdrawn⟩
  · rcases hundrawn.selection with hsame | hnone
    · have hend := hends s (hsame ▸ hs)
      rw [Selection.EndsInside, hundrawn.snapshot.rows, ← h.rows]
      exact hend
    · cases hs.symm.trans hnone
  · have hrows := drawing.size_rows_ne_zero
    obtain ⟨hreporting, hselection⟩ := hdrawn.selection s hs
    have hold := hkeeps.resolve_left (by simp [hreporting])
    rw [Selection.endsInside_iff, hdrawn.snapshot.rows]
    rcases hselection with hsame | ⟨pos, rfl | ⟨s', hs', rfl⟩⟩
    · have hend := hold s hsame
      rw [← hdrawn.snapshot.rows] at hend ⊢
      exact Selection.endsInside_iff.mp hend
    · exact ⟨posToCell_row hrows pos, posToCell_row hrows pos⟩
    · -- the anchor is where it was
      have hend := hold s' hs'
      rw [← hdrawn.snapshot.rows] at hend
      have hanchor := (Selection.endsInside_iff.mp hend).1
      rw [hdrawn.snapshot.rows] at hanchor
      exact ⟨hanchor, posToCell_row hrows pos⟩

end PaneFrame

/-! ## A copy -/

namespace LivePane

/-- A highlighted cell of the grid is not blank. -/
def Highlights (p : LivePane) (s : Selection) : Prop :=
  ∃ row cells col c, p.snapshot.lines[row]? = some cells ∧ cells[col]? = some c ∧
    s.contains (UInt16.ofNat row, UInt16.ofNat col) = true ∧ isWhitespace c = false

/-- Over highlighted text a copy takes that text, and its event makes the frame
send no interrupt. -/
def CopiesHighlighted (p : LivePane) : Prop :=
  ∀ s, p.selection = some s → p.Highlights s →
    (∃ text, s.highlightedText p.snapshot = some text ∧ p.copySelection.2 = some text) ∧
      ∀ logStarts (app : App) events focused i e, app.focusedSession = some focused →
        events[i]? = some e → e.isCopy = true →
          (Routing.events logStarts focused app (events.take i)).app.live.lookup focused =
            some p →
            ∀ x ∈ app.keyboardSends logStarts events, (i, [0x03]) ∉ x.pieces

theorem copySelection_snd (p : LivePane) : p.copySelection.2 = p.copyText := by
  rw [copySelection_eq]
  cases p.copyText <;> rfl

/-- A copy that takes a text makes the frame send no interrupt. -/
theorem interrupt_not_sent (hcopy : p.copyText ≠ none) {logStarts : Bool} {app : App}
    {events : List InputEvent} {focused : SessionId} {i : Nat} {e : InputEvent}
    (hfocused : app.focusedSession = some focused) (hevent : events[i]? = some e)
    (he : e.isCopy = true)
    (hp : (Routing.events logStarts focused app (events.take i)).app.live.lookup focused = some p)
    {x : Send} (hx : x ∈ app.keyboardSends logStarts events) : (i, [0x03]) ∉ x.pieces := by
  intro hpiece
  unfold App.keyboardSends at hx
  rw [hfocused] at hx
  dsimp only at hx
  split at hx
  · cases hx
  · have hpass := passed_events logStarts focused app events
    rcases List.mem_append.mp hx with hx | hx
    · rw [App.pieces_of_mem_outSends hx, hpass.out] at hpiece
      obtain ⟨e', he', hgathers⟩ := hpiece
      obtain rfl := Option.some.inj (hevent.symm.trans he')
      have hinterrupts : app.Interrupts focused (events.take i) := by
        cases e <;> first | exact hgathers.2 | cases he
      obtain ⟨q, hq, hnone⟩ :=
        (passed_events logStarts focused app (events.take i)).interrupts_iff.mp hinterrupts
      obtain rfl := Option.some.inj (hp.symm.trans hq)
      exact hcopy hnone
    · -- what stands at place `i` is no paste
      rw [App.pasteSends_events hpass] at hx
      obtain ⟨⟨j, text⟩, hpaste, hx⟩ := List.mem_flatMap.mp hx
      obtain ⟨s, -, q, -, rfl⟩ := App.mem_pasteSend.mp hx
      obtain ⟨rfl, -⟩ := Prod.mk.inj (List.mem_singleton.mp hpiece)
      obtain ⟨⟨e', k⟩, he', heq⟩ := List.mem_filterMap.mp hpaste
      obtain ⟨t, ht, heq⟩ := Option.map_eq_some_iff.mp heq
      obtain ⟨rfl, rfl⟩ := Prod.mk.inj heq
      have hat := unheld_getElem? (List.mem_zipIdx_iff_getElem?.mp he')
      obtain rfl := Option.some.inj (hevent.symm.trans hat)
      have hpasted : e.pasted = none := by cases e <;> first | rfl | cases he
      cases hpasted.symm.trans ht

end LivePane

namespace PaneFrame

variable {x : PaneFrame}

/-- Highlighted text is copied, unless the grid has lost the selection's last
row. -/
theorem copiesHighlighted_iff (h : x.Gridded) :
    x.pane.CopiesHighlighted ↔
      ∀ s, x.pane.selection = some s → x.pane.Highlights s → s.EndsInside x.pane.snapshot := by
  have hcopy : ∀ s, x.pane.selection = some s →
      x.pane.copySelection.2 = selectionText s x.pane.snapshot := by
    intro s hs
    rw [LivePane.copySelection_snd, LivePane.copyText, hs, Option.bind_some]
  constructor
  · intro hcopies s hs hhighlights
    obtain ⟨⟨text, -, htext⟩, -⟩ := hcopies s hs hhighlights
    by_contra hend
    rw [hcopy s hs, Selection.selectionText_of_not_endsInside hend] at htext
    cases htext
  · intro hends s hs hhighlights
    have hend := hends s hs hhighlights
    obtain ⟨row, line, col, c, hline, hcol, hcontains, hblank⟩ := hhighlights
    have hrow : row < 65536 :=
      ((List.getElem?_eq_some_iff.mp hline).1.trans_eq h.rows).trans (UInt16.toNat_lt _)
    have hmem := Selection.mem_rows_of_contains hcontains
    rw [UInt16.toNat_ofNat_of_lt' hrow] at hmem
    obtain ⟨text, htext⟩ := Selection.highlightedText_of_mem hmem
      (by rw [hline]; exact Selection.mem_highlighted hcol hcontains) hblank
    have hcopied : x.pane.copySelection.2 = some text := by
      rw [hcopy s hs, Selection.selectionText_of_endsInside h.rectangular hend, htext]
    have hsome : x.pane.copyText ≠ none := by
      rw [← LivePane.copySelection_snd, hcopied]
      exact Option.some_ne_none text
    exact ⟨⟨text, htext, hcopied⟩, fun _ _ _ _ _ _ hfocused hevent he hp _ hy =>
      LivePane.interrupt_not_sent hsome hfocused hevent he hp hy⟩

/-- In every state of a run a copy takes the highlighted text exactly when the
last selected row of highlighted text is there; it always is while no drawing
takes it away. -/
theorem copies_highlighted {onExit : ExitAction} {stage : PaneStage} {ops : List PaneOp}
    (hrun : run step (start onExit stage) ops = some x) :
    (x.pane.CopiesHighlighted ↔
        ∀ s, x.pane.selection = some s → x.pane.Highlights s → s.EndsInside x.pane.snapshot) ∧
      (Along step KeepsRows (start onExit stage) ops → x.pane.CopiesHighlighted) := by
  have hgridded : x.Gridded :=
    Runs.invariant (fun _ _ _ => step_gridded) (gridded_start onExit stage) hrun
  refine ⟨copiesHighlighted_iff hgridded, fun hkeeps => (copiesHighlighted_iff hgridded).mpr ?_⟩
  have hstep : ∀ (y : PaneFrame) (op : PaneOp) (z : PaneFrame),
      y.Gridded ∧ y.SelectionEndsInside → y.KeepsRows op → y.step op = some z →
      z.Gridded ∧ z.SelectionEndsInside := by
    intro y op z h hop hstep
    exact ⟨step_gridded h.1 hstep, step_endsInside h.1 h.2 hop hstep⟩
  have hstart : (start onExit stage).SelectionEndsInside := fun s hs => by cases hs
  have hinvariant := Runs.run_invariant hstep ⟨gridded_start onExit stage, hstart⟩ hkeeps hrun
  exact fun s hs _ => hinvariant.2 s hs

/-- A frame of a pane that shows `lines`, four cells wide, and is drawn with the
pointer. -/
def shown (lines : List (List Char)) (pointer : Pointer) : List PaneOp :=
  let size : GridSize := ⟨4, UInt16.ofNat lines.length⟩
  let drawing : Drawing := ⟨size.cols, size.rows, ⟨4, lines⟩, false, [], pointer, ⟨4, lines⟩⟩
  [.draw drawing, .endFrame, .pump ⟨⟨4, lines⟩, false, []⟩]

def twoLines : List (List Char) := [['a', 'b', ' ', ' '], ['c', 'd', ' ', ' ']]

/-- A drag from the first cell of two lines to the last. -/
def dragOver : List PaneOp :=
  shown twoLines ⟨true, false, false, false, some (0, 0)⟩ ++
    shown twoLines ⟨false, true, false, false, some (1, 3)⟩

/-- Then the pane is made one row high, and the far end repaints it. -/
def dragThenShrink : List PaneOp :=
  dragOver ++ shown [['x', 'y', ' ', ' ']] ⟨false, false, false, false, none⟩

/-- Both lines are copied. -/
theorem copies_highlighted_two_lines :
    ∃ x, run step (start .prompt .keyboard) dragOver = some x ∧ x.pane.CopiesHighlighted := by
  have hkeeps : Along step KeepsRows (start .prompt .keyboard) dragOver := by decide +kernel
  have hrun : (run step (start .prompt .keyboard) dragOver).isSome = true := by decide +kernel
  obtain ⟨x, hx⟩ := Option.isSome_iff_exists.mp hrun
  exact ⟨x, hx, (copies_highlighted hx).2 hkeeps⟩

/-- With both lines selected and one left, `xy` is highlighted, and a copy
interrupts. -/
theorem interrupt_over_highlight :
    ∃ x, run step (start .prompt .keyboard) dragThenShrink = some x ∧
      ¬x.pane.CopiesHighlighted ∧
      ({ sideBySide with live := sideBySide.live.insert ⟨0⟩ x.pane } : App).keyboardSends false
        [.copy] = [⟨⟨0⟩, [(0, [0x03])]⟩] := by
  have hend : (run step (start .prompt .keyboard) dragThenShrink).any (fun x =>
      decide (x.pane.selection = some ⟨(0, 0), (1, 3)⟩ ∧
        x.pane.snapshot.lines = [['x', 'y', ' ', ' ']] ∧ x.pane.copySelection.2 = none ∧
        ({ sideBySide with live := sideBySide.live.insert ⟨0⟩ x.pane } : App).keyboardSends false
          [.copy] = [⟨⟨0⟩, [(0, [0x03])]⟩])) = true := by
    decide +kernel
  obtain ⟨x, hrun, hx⟩ := (Option.any_eq_true _ _).mp hend
  obtain ⟨hselection, hlines, hnone, hsends⟩ := of_decide_eq_true hx
  refine ⟨x, hrun, fun hcopies => ?_, hsends⟩
  obtain ⟨⟨text, -, htext⟩, -⟩ := hcopies _ hselection
    ⟨0, _, 0, 'x', by rw [hlines]; rfl, rfl, by decide, by decide⟩
  cases hnone.symm.trans htext

end PaneFrame

end PolyTerm
