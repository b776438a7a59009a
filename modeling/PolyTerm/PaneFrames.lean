import PolyTerm.Frames
import PolyTerm.InputLine
import PolyTerm.SelectedText

/-!
# A pane through the frames

What one pane goes through while the application runs: each frame pumps it,
routes the keyboard to it, draws it unless another tab is in front of it, and
may deliver a confirmed paste to it from a dialog. The backend acts at any
point.

`LivePane.show` is the drawing: a pane that has got another size is resized and
cleared, and then the pointer is the application's or makes a selection. What
the terminal shows is given by the label, as long as it has the grid's size.
-/

namespace PolyTerm

structure GridSize where
  cols : UInt16
  rows : UInt16
deriving DecidableEq, Repr

namespace Snapshot

def size (snapshot : Snapshot) : GridSize := ⟨snapshot.cols, UInt16.ofNat snapshot.lines.length⟩

/-- The grid of a terminal of this size. -/
structure Fits (snapshot : Snapshot) (size : GridSize) : Prop where
  cols : snapshot.cols = size.cols
  rows : snapshot.lines.length = size.rows.toNat
  rectangular : snapshot.Rectangular

instance (snapshot : Snapshot) (size : GridSize) : Decidable (snapshot.Fits size) :=
  decidable_of_iff (snapshot.cols = size.cols ∧ snapshot.lines.length = size.rows.toNat ∧
      snapshot.Rectangular)
    ⟨fun h => ⟨h.1, h.2.1, h.2.2⟩, fun h => ⟨h.cols, h.rows, h.rectangular⟩⟩

theorem Fits.size_eq {snapshot : Snapshot} {size : GridSize} (h : snapshot.Fits size) :
    snapshot.size = size := by
  rw [Snapshot.size, h.cols, h.rows, UInt16.ofNat_toNat]

end Snapshot

/-! ## Drawing -/

/-- The cell under the pointer: `row` and `col` are its place in cells, which
may lie outside the grid. -/
def posToCell (pos : Int × Int) (size : GridSize) : UInt16 × UInt16 :=
  (UInt16.ofNat (min pos.1.toNat (size.rows.toNat - 1)),
    UInt16.ofNat (min pos.2.toNat (size.cols.toNat - 1)))

/-- The pointer's part in a pane's drawing. -/
structure Pointer where
  dragStarted : Bool
  dragged : Bool
  dragStopped : Bool
  clicked : Bool
  pos : Option (Int × Int)
deriving DecidableEq, Repr

/-- What a pane is drawn with. -/
structure Drawing where
  /-- whole cells in its place on the screen -/
  cols : UInt16
  rows : UInt16
  /-- the grid, once resized and cleared -/
  cleared : Snapshot
  /-- the application has the mouse -/
  reporting : Bool
  /-- what is reported to it -/
  report : Bytes
  pointer : Pointer
  /-- the grid, once the wheel has moved the view -/
  scrolled : Snapshot

/-- At least one cell. -/
def Drawing.size (drawing : Drawing) : GridSize := ⟨max drawing.cols 1, max drawing.rows 1⟩

namespace LivePane

/-- A drag makes the selection, and its end copies what is selected. -/
def dragSelection (p : LivePane) (pointer : Pointer) : LivePane × Option String :=
  if pointer.dragStarted then
    match pointer.pos with
    | some pos =>
        let cell := posToCell pos p.snapshot.size
        ({ p with selection := some ⟨cell, cell⟩ }, none)
    | none => (p, none)
  else
    match pointer.dragged, pointer.pos, p.selection with
    | true, some pos, some sel =>
        ({ p with selection := some { sel with head := posToCell pos p.snapshot.size } }, none)
    | _, _, _ =>
        (p, if pointer.dragStopped then p.selection.bind fun s => selectionText s p.snapshot
          else none)

/-- The selection the pointer leaves, and the text it copies. A plain click
leaves none. -/
def handlePointer (p : LivePane) (pointer : Pointer) : LivePane × Option String :=
  let (p, copied) := p.dragSelection pointer
  (if pointer.clicked then { p with selection := none } else p, copied)

/-- Tell the far end of another size, and clear the grid. -/
def resize (p : LivePane) (size : GridSize) (cleared : Snapshot) : LivePane :=
  if size = p.snapshot.size then p
  else
    let control := (p.control.trySend (.resize size.cols size.rows)).toOption.getD p.control
    { p with control := control, snapshot := cleared }

def «show» (p : LivePane) (drawing : Drawing) : LivePane × Option String :=
  let p := p.resize drawing.size drawing.cleared
  let (p, copied) :=
    if drawing.reporting then ({ p with selection := none }.reportMouse drawing.report, none)
    else p.handlePointer drawing.pointer
  ({ p with snapshot := drawing.scrolled }, copied)

end LivePane

/-! ## The stages of a frame -/

inductive PaneStage where
  /-- between two frames -/
  | pump
  | keyboard
  | dialogs
deriving DecidableEq, Repr

inductive PaneOp where
  | pump (fed : LivePane.Fed)
  /-- keystrokes; the view goes to the bottom -/
  | typed (bytes : Bytes) (bottom : Snapshot)
  | pasted (text : Bytes) (bottom : Snapshot)
  | copy
  | toggleLogging (started : Bool)
  | draw (drawing : Drawing)
  /-- another tab is in front -/
  | hide
  | confirmed (text : Bytes) (bottom : Snapshot)
  | addForward (id : ForwardId) (spec : ForwardSpec)
  | removeForward (id : ForwardId)
  | endFrame
  | backend (op : BackendOp)

/-- Input of these bytes is discarded. -/
def LivePane.Discards (p : LivePane) (bytes : Bytes) : Prop :=
  bytes ≠ [] ∧ inputPendingCap ≤ p.pendingInput.length

instance (p : LivePane) (bytes : Bytes) : Decidable (p.Discards bytes) :=
  inferInstanceAs (Decidable (_ ∧ _))

structure PaneFrame where
  stage : PaneStage
  pane : LivePane
  /-- input was discarded, and the pane not drawn since -/
  unseen : Bool

namespace PaneFrame

/-- A pane is opened within a frame or between two. -/
def start (onExit : ExitAction) (stage : PaneStage) : PaneFrame := ⟨stage, .new onExit, false⟩

/-- Input for the pane, which shows its last lines again. -/
def given (x : PaneFrame) (bytes : Bytes) (bottom : Snapshot) : Option PaneFrame :=
  if bottom.Fits x.pane.snapshot.size then
    some { x with
      pane := { (x.pane.sendInput bytes).onTyped with snapshot := bottom }
      unseen := x.unseen || decide (x.pane.Discards bytes) }
  else none

def step (x : PaneFrame) : PaneOp → Option PaneFrame
  | .pump fed =>
      if x.stage = .pump ∧ fed.snapshot.Fits x.pane.snapshot.size then
        some { x with stage := .keyboard, pane := (x.pane.pump fed).1 }
      else none
  | .typed bytes bottom => if x.stage = .keyboard then x.given bytes bottom else none
  | .pasted text bottom =>
      if x.stage = .keyboard then
        x.given (LivePane.wrapPaste text x.pane.bracketedPaste) bottom
      else none
  | .copy =>
      if x.stage = .keyboard then some { x with pane := x.pane.copySelection.1 } else none
  | .toggleLogging started =>
      if x.stage = .keyboard then some { x with pane := x.pane.toggleLogging started } else none
  | .draw drawing =>
      if x.stage = .keyboard ∧ drawing.scrolled.Fits drawing.size ∧
          (drawing.size ≠ x.pane.snapshot.size → drawing.cleared.Fits drawing.size) then
        some ⟨.dialogs, (x.pane.show drawing).1, false⟩
      else none
  | .hide => if x.stage = .keyboard then some { x with stage := .dialogs } else none
  | .confirmed text bottom =>
      if x.stage = .dialogs then
        x.given (LivePane.wrapPaste text x.pane.bracketedPaste) bottom
      else none
  | .addForward id spec =>
      if x.stage = .dialogs then some { x with pane := x.pane.addForward id spec } else none
  | .removeForward id =>
      if x.stage = .dialogs then some { x with pane := x.pane.removeForward id } else none
  | .endFrame => if x.stage = .dialogs then some { x with stage := .pump } else none
  | .backend op => some { x with pane := x.pane.backend op }

end PaneFrame

/-! ## What a step can do -/

/-- A change that leaves the grid and the mark alone, and the selection, unless
it is dropped. -/
structure LivePane.Quiet (p q : LivePane) : Prop where
  snapshot : q.snapshot = p.snapshot
  selection : q.selection = p.selection ∨ q.selection = none
  dropping : q.droppingInput = p.droppingInput

namespace LivePane

theorem copySelection_quiet (p : LivePane) : p.Quiet p.copySelection.1 := by
  unfold copySelection
  split
  · exact ⟨rfl, Or.inr rfl, rfl⟩
  · exact ⟨rfl, Or.inl rfl, rfl⟩

theorem toggleLogging_quiet (p : LivePane) (started : Bool) :
    p.Quiet (p.toggleLogging started) := by
  unfold toggleLogging
  split <;> exact ⟨rfl, Or.inl rfl, rfl⟩

theorem backend_quiet (p : LivePane) (op : BackendOp) : p.Quiet (p.backend op) := by
  cases op with
  | report e =>
      simp only [backend]
      split <;> exact ⟨rfl, Or.inl rfl, rfl⟩
  | _ => exact ⟨rfl, Or.inl rfl, rfl⟩

end LivePane

namespace PaneFrame

variable {x y : PaneFrame} {op : PaneOp}

/-- A step gives the pane input, pumps it, draws it, or is quiet. -/
theorem step_cases (h : x.step op = some y) :
    (∃ bytes bottom, x.given bytes bottom = some y) ∨
      (∃ fed, op = .pump fed ∧ fed.snapshot.Fits x.pane.snapshot.size ∧
        y = { x with stage := .keyboard, pane := (x.pane.pump fed).1 }) ∨
      (∃ drawing, op = .draw drawing ∧ drawing.scrolled.Fits drawing.size ∧
        (drawing.size ≠ x.pane.snapshot.size → drawing.cleared.Fits drawing.size) ∧
        y = ⟨.dialogs, (x.pane.show drawing).1, false⟩) ∨
      (x.pane.Quiet y.pane ∧ y.unseen = x.unseen) := by
  cases op with
  | backend op =>
      obtain rfl := Option.some.inj h
      exact Or.inr (Or.inr (Or.inr ⟨x.pane.backend_quiet op, rfl⟩))
  | pump fed =>
      simp only [step] at h
      split at h
      · rename_i hpump
        exact Or.inr (Or.inl ⟨fed, rfl, hpump.2, (Option.some.inj h).symm⟩)
      · cases h
  | draw drawing =>
      simp only [step] at h
      split at h
      · rename_i hdraw
        exact Or.inr (Or.inr (Or.inl ⟨drawing, rfl, hdraw.2.1, hdraw.2.2,
          (Option.some.inj h).symm⟩))
      · cases h
  | typed | pasted | confirmed =>
      simp only [step] at h
      split at h
      · exact Or.inl ⟨_, _, h⟩
      · cases h
  | copy | toggleLogging | hide | addForward | removeForward | endFrame =>
      simp only [step] at h
      split at h
      · obtain rfl := Option.some.inj h
        refine Or.inr (Or.inr (Or.inr ⟨?_, rfl⟩))
        first
        | exact ⟨rfl, Or.inl rfl, rfl⟩
        | exact x.pane.copySelection_quiet
        | exact x.pane.toggleLogging_quiet _
      · cases h

end PaneFrame

end PolyTerm
