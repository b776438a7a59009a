import PolyTerm.Delimited
import PolyTerm.Frames
import PolyTerm.Sends

/-!
# Pastes

A pasted text is wrapped in marks that its text may contain, is held for a
confirmation when it has a line feed in it, and the confirmation names how many
sessions it is for. Each of the three guards has a gap: the closing mark inside
the text, a carriage return without a line feed, and a recipient that is only
an empty half.
-/

namespace PolyTerm

/-! ## Brackets -/

def pasteStart : Bytes := [0x1b, 0x5b, 0x32, 0x30, 0x30, 0x7e]
def pasteEnd : Bytes := [0x1b, 0x5b, 0x32, 0x30, 0x31, 0x7e]

/-- What an application makes of a bracketed paste: the text, and what is left
for it to take as typing. -/
def readPaste (bytes : Bytes) : Option (Bytes × Bytes) :=
  Delimited.unwrap pasteStart pasteEnd bytes

theorem wrapPaste_bracketed (text : Bytes) :
    LivePane.wrapPaste text true = Delimited.wrap pasteStart pasteEnd text := rfl

/-- The application gets the text that was pasted, and nothing else, exactly
when the text does not end its own bracket. -/
theorem readPaste_iff (text : Bytes) :
    readPaste (LivePane.wrapPaste text true) = some (text, []) ↔ ¬pasteEnd <:+: text := by
  have hmark : (0x1b : UInt8) ∉ ([0x5b, 0x32, 0x30, 0x31, 0x7e] : Bytes) := by decide
  rw [wrapPaste_bracketed]
  exact Delimited.unwrap_wrap_iff pasteStart hmark text

/-- A text that ends its bracket and types a command. -/
def escapingText : Bytes := pasteEnd ++ [0x6c, 0x73, 0x0d]

theorem escapingText_typed :
    readPaste (LivePane.wrapPaste escapingText true) = some ([], [0x6c, 0x73, 0x0d] ++ pasteEnd) ∧
      readPaste (LivePane.wrapPaste escapingText true) ≠ some (escapingText, []) := by
  decide

/-! ## The confirmation -/

/-- Waits for a confirmation. -/
def InputEvent.confirms (e : InputEvent) : Bool := e.pasted.any hasNewline

/-- The events in front of the first paste that is held. -/
def unheld (events : List InputEvent) : List InputEvent := events.takeWhile (!·.confirms)

theorem unheld_getElem? {events : List InputEvent} {i : Nat} {e : InputEvent}
    (h : (unheld events)[i]? = some e) : events[i]? = some e := by
  obtain ⟨rest, hrest⟩ : unheld events <+: events := List.takeWhile_prefix _
  rw [← hrest, List.getElem?_append_left (List.getElem?_eq_some_iff.mp h).1]
  exact h

theorem not_confirms_of_mem_unheld {events : List InputEvent} {e : InputEvent}
    (h : e ∈ unheld events) : e.confirms = false := by
  simpa using List.mem_takeWhile_imp h

/-- A line feed or a carriage return: a terminal takes either for Enter. -/
def submits (text : Bytes) : Bool := hasNewline text || text.contains 0x0d

namespace App

variable {app : App} {events : List InputEvent} {logStarts : Bool}

theorem pasteSends_eq (app : App) (pastes : List (Nat × Bytes)) :
    app.pasteSends pastes = (pastes.takeWhile fun paste => !hasNewline paste.2).flatMap
      fun paste => app.pasteSend app.recipients paste.1 paste.2 := by
  induction pastes with
  | nil => rfl
  | cons paste pastes ih =>
      rw [pasteSends, List.takeWhile_cons]
      cases hasNewline paste.2 with
      | true => rfl
      | false => rw [if_neg Bool.false_ne_true, ih, Bool.not_false, if_pos rfl, List.flatMap_cons]

theorem takeWhile_pasted (events : List InputEvent) (k : Nat) :
    ((events.zipIdx k).filterMap fun e => e.1.pasted.map fun t => (e.2, t)).takeWhile
        (fun paste => !hasNewline paste.2) =
      ((unheld events).zipIdx k).filterMap fun e => e.1.pasted.map fun t => (e.2, t) := by
  induction events generalizing k with
  | nil => rfl
  | cons e events ih =>
      rw [unheld, List.zipIdx_cons, List.filterMap_cons, List.takeWhile_cons, InputEvent.confirms]
      cases hpasted : e.pasted with
      | none =>
          rw [Option.any_none, Bool.not_false, if_pos rfl, List.zipIdx_cons, List.filterMap_cons]
          simp only [hpasted, Option.map_none]
          exact ih (k + 1)
      | some text =>
          rw [Option.any_some, Option.map_some, List.takeWhile_cons]
          cases hasNewline text with
          | true => rfl
          | false =>
              rw [Bool.not_false, if_pos rfl, if_pos rfl, List.zipIdx_cons, List.filterMap_cons]
              simp only [hpasted, Option.map_some]
              exact congrArg (List.cons _) (ih (k + 1))

theorem mem_pasteSend {recipients : List SessionId} {i : Nat} {text : Bytes} {x : Send} :
    x ∈ app.pasteSend recipients i text ↔ ∃ s ∈ recipients, ∃ p, app.live.lookup s = some p ∧
      x = ⟨s, [(i, LivePane.wrapPaste text p.bracketedPaste)]⟩ := by
  simp only [pasteSend, List.mem_filterMap, Option.map_eq_some_iff]
  exact exists_congr fun s => and_congr_right fun _ => exists_congr fun p =>
    and_congr_right fun _ => eq_comm

theorem pieces_of_mem_outSends {out : List (Nat × Bytes)} {x : Send} (h : x ∈ app.outSends out) :
    x.pieces = out := by
  unfold outSends at h
  split at h
  · cases h
  · obtain ⟨s, -, rfl⟩ := List.mem_map.mp h
    rfl

/-- The calls for the pastes of a frame: those in front of the first that is
held go to the recipients the frame ends with. -/
theorem pasteSends_events {focused : SessionId} {r : Routing}
    (hpass : Passed app focused events r) :
    r.app.pasteSends r.pastes =
      ((unheld events).zipIdx.filterMap fun e => e.1.pasted.map fun t => (e.2, t)).flatMap
        fun paste => app.pasteSend (app.moved events).recipients paste.1 paste.2 := by
  rw [pasteSends_eq, hpass.pastes, takeWhile_pasted, hpass.same.recipients]
  simp only [pasteSend_congr hpass.bracketed]

/-- A frame's input hands no pasted text that could submit a line to a
session. -/
def HoldsLines (logStarts : Bool) (app : App) (events : List InputEvent) : Prop :=
  ∀ i text, events[i]? = some (.paste text) → submits text = true →
    ∀ x ∈ app.keyboardSends logStarts events, ∀ b, (i, b) ∉ x.pieces

/-- In a running session's frame: a pasted text is handed to a session exactly
when no paste is held in front of it, it is not held itself, and a recipient is
live. -/
theorem paste_sent_iff {focused : SessionId} (hfocused : app.focusedSession = some focused)
    (hrunning : (app.live.lookup focused).any (·.finished) = false) {i : Nat} {text : Bytes}
    (htext : events[i]? = some (.paste text)) :
    (∃ x ∈ app.keyboardSends logStarts events, ∃ b, (i, b) ∈ x.pieces) ↔
      (unheld events)[i]? = some (.paste text) ∧
        ∃ s ∈ (app.moved events).recipients, s ∈ app.live := by
  have hpass := passed_events logStarts focused app events
  simp only [keyboardSends, hfocused, hrunning, Bool.false_eq_true, if_false,
    pasteSends_events hpass]
  constructor
  · rintro ⟨x, hx, b, hb⟩
    rcases List.mem_append.mp hx with hx | hx
    · -- a paste adds nothing to the bytes gathered
      rw [pieces_of_mem_outSends hx, hpass.out] at hb
      obtain ⟨e, he, hgathers⟩ := hb
      obtain rfl := Option.some.inj (htext.symm.trans he)
      exact absurd hgathers id
    · obtain ⟨⟨j, t⟩, hpaste, hx⟩ := List.mem_flatMap.mp hx
      obtain ⟨s, hs, p, hp, rfl⟩ := mem_pasteSend.mp hx
      obtain ⟨rfl, -⟩ := Prod.mk.inj (List.mem_singleton.mp hb)
      obtain ⟨⟨e, k⟩, he, heq⟩ := List.mem_filterMap.mp hpaste
      obtain ⟨t', ht', heq⟩ := Option.map_eq_some_iff.mp heq
      obtain ⟨rfl, rfl⟩ := Prod.mk.inj heq
      have hat : (unheld events)[k]? = some e := List.mem_zipIdx_iff_getElem?.mp he
      obtain rfl := Option.some.inj (htext.symm.trans (unheld_getElem? hat))
      exact ⟨hat, s, hs, Table.mem_of_lookup hp⟩
  · rintro ⟨hat, s, hs, hlive⟩
    obtain ⟨p, hp⟩ := Table.mem_iff.mp hlive
    refine ⟨⟨s, [(i, LivePane.wrapPaste text p.bracketedPaste)]⟩, List.mem_append_right _ ?_, _,
      List.mem_singleton_self _⟩
    refine List.mem_flatMap.mpr ⟨(i, text), List.mem_filterMap.mpr ⟨(.paste text, i), ?_, rfl⟩,
      mem_pasteSend.mpr ⟨s, hs, p, hp, rfl⟩⟩
    exact List.mem_zipIdx_iff_getElem?.mpr hat

/-- Every text that could submit a line is withheld exactly when no paste that
goes straight out to somebody has a carriage return in it. -/
theorem holdsLines_iff :
    app.HoldsLines logStarts events ↔
      ∀ focused, app.focusedSession = some focused →
        (app.live.lookup focused).any (·.finished) = false →
          ∀ text, .paste text ∈ unheld events → text.contains 0x0d = true →
            ∀ s ∈ (app.moved events).recipients, s ∉ app.live := by
  cases hfocused : app.focusedSession with
  | none =>
      have hnone : app.keyboardSends logStarts events = [] := by
        simp only [keyboardSends, hfocused]
      simp [HoldsLines, hnone]
  | some focused =>
      cases hrunning : (app.live.lookup focused).any (·.finished) with
      | true =>
          have hnone : app.keyboardSends logStarts events = [] := by
            simp only [keyboardSends, hfocused, hrunning, if_true]
          simp [HoldsLines, hnone, hrunning]
      | false =>
          constructor
          · intro h focused' hfocused' _ text htext hreturn s hs hlive
            obtain ⟨i, hat⟩ := List.mem_iff_getElem?.mp htext
            have hsubmits : submits text = true := by rw [submits, hreturn, Bool.or_true]
            obtain ⟨x, hx, b, hb⟩ := (paste_sent_iff hfocused hrunning (unheld_getElem? hat)).mpr
              ⟨hat, s, hs, hlive⟩
            exact h i text (unheld_getElem? hat) hsubmits x hx b hb
          · intro h i text htext hsubmits x hx b hb
            obtain ⟨hat, s, hs, hlive⟩ :=
              (paste_sent_iff hfocused hrunning htext).mp ⟨x, hx, b, hb⟩
            have hmem := List.mem_of_getElem? hat
            have hnew : hasNewline text = false := not_confirms_of_mem_unheld hmem
            rw [submits, hnew, Bool.false_or] at hsubmits
            exact h focused rfl hrunning text hmem hsubmits s hs hlive

/-- A carriage return goes straight to the shell. -/
theorem carriageReturn_sent : ¬sideBySide.HoldsLines false [.paste [0x6c, 0x73, 0x0d]] := by
  intro h
  refine h 0 [0x6c, 0x73, 0x0d] rfl rfl ⟨⟨0⟩, [(0, [0x6c, 0x73, 0x0d])]⟩ ?_ [0x6c, 0x73, 0x0d]
    (List.mem_singleton_self _)
  decide +kernel

/-! ## The count -/

/-- What the dialog makes the panes be sent. -/
def confirmSends (app : App) (input : DialogInput) : List Send :=
  match app.pendingPaste with
  | none => []
  | some pending =>
      if input.closed || input.cancel then []
      else if input.confirm then app.pasteSend pending.recipients 0 pending.text
      else []

end App

namespace PendingPaste

/-- The lines of the text; a line feed at its end begins no other. -/
def lines (pending : PendingPaste) : Nat :=
  let feeds := pending.text.count 0x0a
  let last := if pending.text.getLast?.all (· = 0x0a) then 0 else 1
  max (feeds + last) 1

def sessions (pending : PendingPaste) : Nat := pending.recipients.length

/-- What the confirmation asks. -/
def question (pending : PendingPaste) : String :=
  let sessions := if pending.sessions = 1 then "session" else "sessions"
  "Paste " ++ toString pending.lines ++ " lines into " ++ toString pending.sessions ++ " " ++
    sessions ++ "?"

end PendingPaste

/-- The confirm button, and nothing else, is pressed. -/
def DialogInput.yes : DialogInput := ⟨false, true, false⟩

namespace App

variable {app : App}

/-- The sessions named are as many as are sent the text exactly when every
recipient has a live pane; and as many as have a far end for it exactly when
every recipient's channel still has its receiver too. -/
theorem confirmed_count_iff {pending : PendingPaste} (hpending : app.pendingPaste = some pending) :
    ((app.confirmSends .yes).length = pending.sessions ↔
        ∀ s ∈ pending.recipients, s ∈ app.live) ∧
      (((app.confirmSends .yes).filter fun x =>
            (app.live.lookup x.session).any (!·.input.closed)).length = pending.sessions ↔
        ∀ s ∈ pending.recipients, ∃ p, app.live.lookup s = some p ∧ p.input.closed = false) := by
  have hsends : app.confirmSends .yes = app.pasteSend pending.recipients 0 pending.text := by
    simp only [confirmSends, hpending]
    rfl
  rw [hsends, PendingPaste.sessions, pasteSend]
  constructor
  · rw [List.filterMap_length_eq_length]
    simp [Table.mem_iff, Option.isSome_iff_exists]
  · rw [List.filter_filterMap, List.filterMap_length_eq_length]
    refine forall₂_congr fun s _ => ?_
    cases hs : app.live.lookup s with
    | none => simp
    | some p => simp [hs, Option.filter]

/-- Two live panes. -/
theorem confirmed_count_both :
    (({ sideBySide with pendingPaste := some ⟨[0x6c, 0x73, 0x0a], [⟨0⟩, ⟨1⟩]⟩ } : App).confirmSends
      .yes).length = 2 := by
  let app : App := { sideBySide with pendingPaste := some ⟨[0x6c, 0x73, 0x0a], [⟨0⟩, ⟨1⟩]⟩ }
  have hpending : app.pendingPaste = some ⟨[0x6c, 0x73, 0x0a], [⟨0⟩, ⟨1⟩]⟩ := rfl
  exact (confirmed_count_iff hpending).1.mpr (by decide)

end App

namespace Window

open Runs

/-- A broadcast group is split, and its focused half pasted into. -/
def pastedOverEmptyHalf : List FrameStep :=
  .launch .willing localShellSpec :: frame .willing {} ++
    frame .willing { acts := [.broadcast ⟨2⟩] } ++
    frame .willing { acts := [.splitPane ⟨2⟩ .right] } ++
    frame .willing { events := [.paste [0x6c, 0x73, 0x0a]] }

/-- The confirmation names two sessions; one of them is the empty half. -/
theorem named_more_than_sent :
    ∃ w pending, run (step tileReference) start pastedOverEmptyHalf = some w ∧
      w.app.pendingPaste = some pending ∧ pending.sessions = 2 ∧
      (w.app.confirmSends .yes).length = 1 := by
  have hend : (run (step tileReference) start pastedOverEmptyHalf).any
      (fun w => w.app.pendingPaste.any fun pending =>
        decide (pending.sessions = 2 ∧ (w.app.confirmSends .yes).length = 1)) = true := by
    decide +kernel
  obtain ⟨w, hrun, hw⟩ := (Option.any_eq_true _ _).mp hend
  obtain ⟨pending, hpending, hcounts⟩ := (Option.any_eq_true _ _).mp hw
  exact ⟨w, pending, hrun, hpending, of_decide_eq_true hcounts⟩

end Window

end PolyTerm
