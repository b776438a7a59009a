import PolyTerm.PaneFrames

/-!
# The mark of discarded input

A pane that discards input marks itself, and shows the mark when it is drawn.
The pump clears the mark once the pending input has all gone into the channel;
and a pump stands in front of every drawing. So what a dialog's paste loses
after the drawing, or any input loses behind another tab, may never be shown:
it is as long as no pump empties the pending queue of a pane whose loss has not
been seen.
-/

namespace PolyTerm

open Runs

/-! ## What the operations do to the mark -/

namespace LivePane

variable {p : LivePane}

theorem enqueueInput_dropping (p : LivePane) (data : Bytes) :
    (p.enqueueInput data).droppingInput =
      (decide (inputPendingCap ≤ p.pendingInput.length) || p.droppingInput) := by
  unfold enqueueInput
  split
  · rename_i hfull
    simp [hfull]
  · rename_i hroom
    simp [hroom]

/-- Input that is discarded sets the mark. -/
theorem sendInput_dropping (p : LivePane) (bytes : Bytes) :
    (p.sendInput bytes).droppingInput = (decide (p.Discards bytes) || p.droppingInput) := by
  unfold sendInput Discards
  split
  · rename_i hempty
    simp [List.isEmpty_iff.mp hempty]
  · rename_i hbytes
    have hne : bytes ≠ [] := by simpa using hbytes
    simp only [hne, ne_eq, not_false_eq_true, true_and]
    split
    · -- with nothing pending there is room behind the channel
      rename_i hnil
      have hroom : ¬inputPendingCap ≤ p.pendingInput.length := by
        rw [List.isEmpty_iff.mp hnil]
        decide
      split
      · simp [hroom]
      · exact p.enqueueInput_dropping bytes
      · simp [hroom]
    · exact p.enqueueInput_dropping bytes

theorem sendBestEffort_dropping (p : LivePane) (bytes : Bytes) :
    (p.sendBestEffort bytes).droppingInput = p.droppingInput := by
  unfold sendBestEffort
  split <;> rfl

theorem reportMouse_dropping (p : LivePane) (out : Bytes) :
    (p.reportMouse out).droppingInput = p.droppingInput := by
  unfold reportMouse
  split
  · rfl
  · exact p.sendBestEffort_dropping out

/-- The pending input does not all fit into the channel. -/
def Backlogged (p : LivePane) : Prop :=
  p.input.closed = false ∧ p.input.capacity < p.input.queue.length + p.pendingInput.length

instance (p : LivePane) : Decidable p.Backlogged := inferInstanceAs (Decidable (_ ∧ _))

/-- A pump keeps the mark exactly when it cannot empty the pending queue. -/
theorem pump_dropping (p : LivePane) (fed : Fed) :
    (p.pump fed).1.droppingInput = (decide p.Backlogged && p.droppingInput) := by
  have hreplies : ∀ (replies : List Bytes) (p : LivePane),
      (replies.foldl sendBestEffort p).droppingInput = p.droppingInput := by
    intro replies
    induction replies with
    | nil => exact fun _ => rfl
    | cons bytes replies ih =>
        intro p
        rw [List.foldl_cons, ih, sendBestEffort_dropping]
  have hdrained : (flush p.input p.pendingInput).2.2 = !decide p.Backlogged := by
    have hnil := Backlog.flush_eq_nil_iff p.pendingInput p.input
    rw [flush_eq, Backlog.flush_drained, Bool.eq_iff_iff, List.isEmpty_iff, hnil,
      Bool.not_eq_true', decide_eq_false_iff_not, Backlogged, not_and_or, Bool.not_eq_false,
      not_lt]
  rw [pump_eq, hreplies]
  change (p.drainInput.events.foldl applyEvent p.drainInput).droppingInput = _
  rw [(foldl_applyEvent_pending _ _).2, drainInput]
  dsimp only
  rw [hdrained]
  cases decide p.Backlogged <;> rfl

theorem resize_dropping (p : LivePane) (size : GridSize) (cleared : Snapshot) :
    (p.resize size cleared).droppingInput = p.droppingInput := by
  unfold resize
  split <;> rfl

theorem handlePointer_dropping (p : LivePane) (pointer : Pointer) :
    (p.handlePointer pointer).1.droppingInput = p.droppingInput := by
  have hdrag : (p.dragSelection pointer).1.droppingInput = p.droppingInput := by
    unfold dragSelection
    split <;> split <;> rfl
  rw [handlePointer]
  dsimp only
  split <;> exact hdrag

/-- Drawing shows the mark, and leaves it. -/
theorem show_dropping (p : LivePane) (drawing : Drawing) :
    (p.show drawing).1.droppingInput = p.droppingInput := by
  simp only [LivePane.show]
  cases drawing.reporting with
  | true =>
      rw [if_pos rfl, reportMouse_dropping]
      exact p.resize_dropping drawing.size drawing.cleared
  | false =>
      rw [if_neg Bool.false_ne_true, handlePointer_dropping, resize_dropping]

end LivePane

/-! ## Runs -/

namespace PaneFrame

variable {x y : PaneFrame} {op : PaneOp}

/-- A loss that has not been seen is marked. -/
def Marked (x : PaneFrame) : Prop := x.unseen = true → x.pane.droppingInput = true

/-- No pump empties the pending queue of a pane with a loss that has not been
seen. -/
def KeepsBacklog (x : PaneFrame) : PaneOp → Prop
  | .pump _ => x.unseen = true → x.pane.Backlogged
  | _ => True

instance (x : PaneFrame) : (op : PaneOp) → Decidable (x.KeepsBacklog op)
  | .pump _ => inferInstanceAs (Decidable (_ → _))
  | .typed _ _ | .pasted _ _ | .copy | .toggleLogging _ | .draw _ | .hide | .confirmed _ _
  | .addForward _ _ | .removeForward _ | .endFrame | .backend _ => .isTrue trivial

theorem given_marked (h : x.Marked) {bytes : Bytes} {bottom : Snapshot}
    (hgiven : x.given bytes bottom = some y) : y.Marked := by
  unfold given at hgiven
  split at hgiven
  · obtain rfl := Option.some.inj hgiven
    intro hunseen
    change (x.pane.sendInput bytes).droppingInput = true
    rw [LivePane.sendInput_dropping]
    rcases Bool.or_eq_true_iff.mp hunseen with hbefore | hdiscards
    · rw [h hbefore, Bool.or_true]
    · rw [hdiscards, Bool.true_or]
  · cases hgiven

theorem step_marked (h : x.Marked) (hkeeps : x.KeepsBacklog op) (hstep : x.step op = some y) :
    y.Marked := by
  rcases step_cases hstep with ⟨bytes, bottom, hgiven⟩ | ⟨fed, rfl, -, rfl⟩ |
    ⟨drawing, rfl, -, -, rfl⟩ | ⟨hquiet, hunseen⟩
  · exact given_marked h hgiven
  · intro hunseen
    change (x.pane.pump fed).1.droppingInput = true
    rw [LivePane.pump_dropping, h hunseen, decide_eq_true (hkeeps hunseen)]
    rfl
  · intro hunseen
    cases hunseen
  · rw [Marked, hunseen, hquiet.dropping]
    exact h

/-- While no pump empties the pending queue of a pane with a loss that has not
been seen, every loss is marked at the pane's next drawing. -/
theorem drop_shown {onExit : ExitAction} {stage : PaneStage} {ops : List PaneOp}
    (hrun : run step (start onExit stage) ops = some x)
    (hkeeps : Along step KeepsBacklog (start onExit stage) ops) (hunseen : x.unseen = true)
    {drawing : Drawing} (hdraw : x.step (.draw drawing) = some y) :
    y.pane.droppingInput = true := by
  have hmarked : x.Marked :=
    Runs.run_invariant (fun _ _ _ => step_marked) (fun h => by cases h) hkeeps hrun
  simp only [step] at hdraw
  split at hdraw
  · obtain rfl := Option.some.inj hdraw
    change (x.pane.show drawing).1.droppingInput = true
    rw [LivePane.show_dropping]
    exact hmarked hunseen
  · cases hdraw

/-- A pane with room for one cell. -/
def oneCell : Drawing :=
  ⟨1, 1, ⟨1, [[' ']]⟩, false, [], ⟨false, false, false, false, none⟩, ⟨1, [[' ']]⟩⟩

/-- As many keystrokes as nobody takes. -/
def keystrokes (n : Nat) : List PaneOp :=
  [.draw oneCell, .endFrame, .pump ⟨⟨1, [[' ']]⟩, false, []⟩] ++
    List.replicate n (.typed [0x61] ⟨1, [[' ']]⟩)

/-- A paste is confirmed while everything is full, and the backend catches up
before the next frame. -/
def lostInDialog : List PaneOp :=
  keystrokes 320 ++ [.draw oneCell, .confirmed [0x6c, 0x73, 0x0a] ⟨1, [[' ']]⟩] ++
    List.replicate 64 (.backend .takeInput) ++ [.endFrame, .pump ⟨⟨1, [[' ']]⟩, false, []⟩]

/-- One keystroke too many is shown in the same frame. -/
theorem drop_shown_keystroke :
    ∃ x y, run step (start .prompt .keyboard) (keystrokes 321) = some x ∧ x.unseen = true ∧
      x.step (.draw oneCell) = some y ∧ y.pane.droppingInput = true := by
  have hend : (run step (start .prompt .keyboard) (keystrokes 321)).any
      (fun x => x.unseen && (x.step (.draw oneCell)).isSome) = true := by decide +kernel
  have hkeeps : Along step KeepsBacklog (start .prompt .keyboard) (keystrokes 321) := by
    decide +kernel
  obtain ⟨x, hrun, hx⟩ := (Option.any_eq_true _ _).mp hend
  obtain ⟨hunseen, hdraw⟩ := Bool.and_eq_true_iff.mp hx
  obtain ⟨y, hy⟩ := Option.isSome_iff_exists.mp hdraw
  exact ⟨x, y, hrun, hunseen, hy, drop_shown hrun hkeeps hunseen hy⟩

/-- The paste is lost behind the drawing, and the pump in front of the next one
clears the mark. -/
theorem drop_cleared_unseen :
    ∃ x y, run step (start .prompt .keyboard) lostInDialog = some x ∧ x.unseen = true ∧
      x.step (.draw oneCell) = some y ∧ y.pane.droppingInput = false := by
  have hend : (run step (start .prompt .keyboard) lostInDialog).any (fun x => x.unseen &&
      (x.step (.draw oneCell)).any fun y => !y.pane.droppingInput) = true := by decide +kernel
  obtain ⟨x, hrun, hx⟩ := (Option.any_eq_true _ _).mp hend
  obtain ⟨hunseen, hdraw⟩ := Bool.and_eq_true_iff.mp hx
  obtain ⟨y, hy, hmark⟩ := (Option.any_eq_true _ _).mp hdraw
  exact ⟨x, y, hrun, hunseen, hy, by simpa using hmark⟩

end PaneFrame

end PolyTerm
