import PolyTerm.Keyboard
import PolyTerm.TileReference

/-!
# Keystrokes and focus moves in one frame

A frame's events may type, move the focus and type again. The bytes of all of
them go to the recipients of the focus the frame ends with, so an event's
bytes stay with the recipients it had when it was reached exactly when the
moves behind it add no recipient that takes them.

`Passed` is the invariant of the pass over the events: what it changes in the
app, and what it has gathered.
-/

namespace PolyTerm

/-! ## What an event comes to -/

def InputEvent.focusMove : InputEvent → Option FocusDir
  | .key k true m => if m.ctrl && m.shift then k.dir else none
  | _ => none

def InputEvent.isCopy : InputEvent → Bool
  | .copy | .cut => true
  | _ => false

def InputEvent.pasted : InputEvent → Option Bytes
  | .paste bytes => some bytes
  | _ => none

/-- The bytes of a key press that is no shortcut. -/
def keyBytes (key : Key) (m : Modifiers) : Option Bytes :=
  if m.ctrl && m.shift && (key = Key.e || key = Key.l || key.dir.isSome) then none
  else encodeKey key m.ctrl m.alt

/-- The text a copy would take. -/
def LivePane.copyText (p : LivePane) : Option String :=
  p.selection.bind fun s => selectionText s p.snapshot

namespace App

/-- A copy after the events `before` interrupts: nothing is selected, or an
earlier copy has taken it. -/
def Interrupts (app : App) (focused : SessionId) (before : List InputEvent) : Prop :=
  ∃ p, app.live.lookup focused = some p ∧
    (before.any InputEvent.isCopy = true ∨ p.copyText = none)

/-- The paste `text` has bytes for the session `s` should it be a recipient: a
held one for any session, another one for a live pane. -/
def PasteHasBytes (app : App) (text : Bytes) (s : SessionId) : Prop :=
  hasNewline text = true ∨
    ∃ p, app.live.lookup s = some p ∧ (text ≠ [] ∨ p.bracketedPaste = true)

/-- The event, behind the events `before`, has bytes for the session `s` should
`s` be a recipient. A paste behind a held one is dropped. -/
def HasBytes (app : App) (focused : SessionId) (before : List InputEvent) (s : SessionId) :
    InputEvent → Prop
  | .text bytes => s ∈ app.live ∧ bytes ≠ []
  | .key key true m => s ∈ app.live ∧ keyBytes key m ≠ none
  | .copy | .cut => s ∈ app.live ∧ app.Interrupts focused before
  | .paste text =>
      (∀ e ∈ before, ∀ t, e.pasted = some t → hasNewline t = false) ∧ app.PasteHasBytes text s
  | _ => False

/-- The app with the focus where the focus moves among `events` take it. -/
def moved (app : App) (events : List InputEvent) : App :=
  (events.filterMap InputEvent.focusMove).foldl focusNeighbor app

/-- No focus move adds a recipient for the bytes of an event before it. -/
def MovesAddNone (app : App) (focused : SessionId) (events : List InputEvent) : Prop :=
  ∀ i e, events[i]? = some e → ∀ s ∈ (app.moved events).recipients,
    app.HasBytes focused (events.take i) s e → s ∈ (app.moved (events.take i)).recipients

end App

/-! ## Focus moves -/

namespace App

theorem focusNeighbor_eq (app : App) (dir : FocusDir) :
    app.focusNeighbor dir = { app with focused := (app.neighbor dir).or app.focused } := by
  unfold focusNeighbor
  cases app.neighbor dir <;> rfl

theorem moved_concat (app : App) (events : List InputEvent) (e : InputEvent) :
    app.moved (events ++ [e]) = match e.focusMove with
      | some dir => (app.moved events).focusNeighbor dir
      | none => app.moved events := by
  rw [moved, List.filterMap_append, List.foldl_append]
  cases he : e.focusMove <;> simp [he, moved]

/-- Only the focus is moved. -/
theorem moved_eq (app : App) (events : List InputEvent) :
    app.moved events = { app with focused := (app.moved events).focused } := by
  induction events using List.reverseRecOn with
  | nil => rfl
  | append_singleton events e ih =>
      rw [moved_concat]
      cases e.focusMove with
      | none => exact ih
      | some dir =>
          simp only [focusNeighbor_eq]
          rw [ih]

/-- The apps agree on layout and focus, and on what can be reopened. -/
structure SameFocus (app app' : App) : Prop where
  tree : app'.tree = app.tree
  rects : app'.rects = app.rects
  multiExec : app'.multiExec = app.multiExec
  focused : app'.focused = app.focused
  sources : app'.sources = app.sources
  minted : app'.minted = app.minted

namespace SameFocus

variable {app app' app'' : App}

theorem trans (h : SameFocus app app') (h' : SameFocus app' app'') : SameFocus app app'' :=
  ⟨h'.tree.trans h.tree, h'.rects.trans h.rects, h'.multiExec.trans h.multiExec,
    h'.focused.trans h.focused, h'.sources.trans h.sources, h'.minted.trans h.minted⟩

/-- Live panes and dialogs may change. -/
theorem live (h : SameFocus app app') (live : Table SessionId LivePane) :
    SameFocus app { app' with live := live } :=
  ⟨h.tree, h.rects, h.multiExec, h.focused, h.sources, h.minted⟩

theorem recipients (h : SameFocus app app') : app'.recipients = app.recipients := by
  unfold App.recipients
  rw [h.tree, h.multiExec, h.focused]

theorem focusNeighbor (h : SameFocus app app') (dir : FocusDir) :
    SameFocus (app.focusNeighbor dir) (app'.focusNeighbor dir) := by
  have hneighbor : app'.neighbor dir = app.neighbor dir := by
    unfold neighbor otherPanes
    rw [h.tree, h.rects, h.focused]
  rw [focusNeighbor_eq, focusNeighbor_eq, hneighbor, h.focused]
  exact ⟨h.tree, h.rects, h.multiExec, rfl, h.sources, h.minted⟩

end SameFocus

end App

/-! ## The pass over the events -/

/-- The bytes `b` are what the event, behind the events `before`, adds to the
gathered ones. -/
def App.Gathers (app : App) (focused : SessionId) (before : List InputEvent) (b : Bytes) :
    InputEvent → Prop
  | .text bytes => b = bytes
  | .key k true m => keyBytes k m = some b
  | .copy | .cut => b = [0x03] ∧ app.Interrupts focused before
  | _ => False

/-- What the pass over `events` leaves. -/
structure Passed (app : App) (focused : SessionId) (events : List InputEvent) (r : Routing) :
    Prop where
  same : App.SameFocus (app.moved events) r.app
  bracketed : ∀ s, (r.app.live.lookup s).map (·.bracketedPaste) =
    (app.live.lookup s).map (·.bracketedPaste)
  selection : (r.app.live.lookup focused).map (·.copyText) =
    (app.live.lookup focused).map fun p =>
      if events.any InputEvent.isCopy then none else p.copyText
  out : ∀ i b, (i, b) ∈ r.out ↔
    ∃ e, events[i]? = some e ∧ app.Gathers focused (events.take i) b e
  pastes : r.pastes = events.zipIdx.filterMap fun e => e.1.pasted.map fun t => (e.2, t)

theorem LivePane.copySelection_eq (p : LivePane) :
    p.copySelection = match p.copyText with
      | some text => ({ p with selection := none }, some text)
      | none => (p, none) := rfl

theorem LivePane.toggleLogging_same (p : LivePane) (logStarts : Bool) :
    (p.toggleLogging logStarts).copyText = p.copyText ∧
      (p.toggleLogging logStarts).bracketedPaste = p.bracketedPaste := by
  unfold LivePane.toggleLogging
  split <;> exact ⟨rfl, rfl⟩

variable {app : App} {focused : SessionId} {events : List InputEvent} {r : Routing}

namespace Passed

/-- The invariant behind one more event, from what the event does. -/
theorem concat (h : Passed app focused events r) {e : InputEvent} {r' : Routing}
    (hsame : App.SameFocus (app.moved (events ++ [e])) r'.app)
    (hbracketed : ∀ s, (r'.app.live.lookup s).map (·.bracketedPaste) =
      (r.app.live.lookup s).map (·.bracketedPaste))
    (hselection : (r'.app.live.lookup focused).map (·.copyText) =
      (r.app.live.lookup focused).map fun p => if e.isCopy then none else p.copyText)
    {new : List (Nat × Bytes)} (hout : r'.out = r.out ++ new)
    (hnew : ∀ i b, (i, b) ∈ new ↔ i = events.length ∧ app.Gathers focused events b e)
    (hpastes : r'.pastes = r.pastes ++ (e.pasted.map fun t => (events.length, t)).toList) :
    Passed app focused (events ++ [e]) r' where
  same := hsame
  bracketed := fun s => (hbracketed s).trans (h.bracketed s)
  selection := by
    -- the copies before and this one
    have hfun : (r.app.live.lookup focused).map (fun p => if e.isCopy then none else p.copyText) =
        ((r.app.live.lookup focused).map (·.copyText)).map
          fun text => if e.isCopy then none else text := by
      rw [Option.map_map]
      rfl
    rw [hselection, hfun, h.selection, Option.map_map, List.any_append]
    congr 1
    funext p
    cases he : e.isCopy <;> cases events.any InputEvent.isCopy <;> simp [he]
  out := by
    intro i b
    rw [hout, List.mem_append, h.out, hnew]
    rcases Nat.lt_trichotomy i events.length with hlt | rfl | hgt
    · rw [List.getElem?_append_left hlt, List.take_append_of_le_length hlt.le]
      simp [hlt.ne]
    · simp
    · have hnone : events[i]? = none := List.getElem?_eq_none hgt.le
      have hnone' : (events ++ [e])[i]? = none :=
        List.getElem?_eq_none (by rw [List.length_append]; exact hgt)
      simp [hnone, hnone', hgt.ne']
  pastes := by
    rw [hpastes, h.pastes, List.zipIdx_append, List.filterMap_append]
    congr 1
    cases he : e.pasted <;> simp [he]

/-- What the pane has selected at this point, against what it had at first. -/
theorem interrupts_iff (h : Passed app focused events r) :
    app.Interrupts focused events ↔
      ∃ p, r.app.live.lookup focused = some p ∧ p.copyText = none := by
  have hlive := h.selection
  unfold App.Interrupts
  cases happ : app.live.lookup focused with
  | none => simp_all
  | some p₀ =>
      rw [happ, Option.map_some, Option.map_eq_some_iff] at hlive
      obtain ⟨p, hp, htext⟩ := hlive
      simp only [Option.some.injEq, exists_eq_left', hp, htext]
      cases events.any InputEvent.isCopy <;> simp

theorem copySelection (h : Passed app focused events r) {e : InputEvent} (he : e.isCopy = true) :
    Passed app focused (events ++ [e]) (r.copySelection focused events.length) := by
  have hmove : app.moved (events ++ [e]) = app.moved events := by
    rw [App.moved_concat]
    cases e <;> first | rfl | cases he
  have hpasted : e.pasted = none := by cases e <;> first | rfl | cases he
  have hgathers : ∀ b, app.Gathers focused events b e ↔
      b = [0x03] ∧ app.Interrupts focused events := by
    intro b
    cases e <;> first | rfl | cases he
  have hinterrupts := h.interrupts_iff
  unfold Routing.copySelection
  cases hp : r.app.live.lookup focused with
  | none =>
      refine h.concat (hmove ▸ h.same) (fun _ => rfl) (by rw [hp]; rfl) (List.append_nil _).symm
        (fun i b => ?_) (by rw [hpasted]; exact (List.append_nil _).symm)
      rw [hgathers, hinterrupts, hp]
      simp
  | some p =>
      have hsame : ∀ live, App.SameFocus (app.moved (events ++ [e])) { r.app with live := live } :=
        fun live => hmove ▸ h.same.live live
      have hbracketed : ∀ q : LivePane, q.bracketedPaste = p.bracketedPaste → ∀ s,
          ((r.app.live.insert focused q).lookup s).map (·.bracketedPaste) =
            (r.app.live.lookup s).map (·.bracketedPaste) := by
        intro q hq s
        rw [Table.lookup_insert_ite]
        split
        · rename_i hs
          rw [hs, hp, Option.map_some, Option.map_some, hq]
        · rfl
      have hselection : ∀ q : LivePane, q.copyText = none →
          ((r.app.live.insert focused q).lookup focused).map (·.copyText) =
            (r.app.live.lookup focused).map fun p => if e.isCopy then none else p.copyText := by
        intro q hq
        rw [AList.lookup_insert, hp, Option.map_some, Option.map_some, hq, he]
        rfl
      simp only [LivePane.copySelection_eq]
      cases htext : p.copyText with
      | some text =>
          refine h.concat (hsame _) (hbracketed _ rfl) (hselection _ rfl)
            (List.append_nil _).symm (fun i b => ?_)
            (by rw [hpasted]; exact (List.append_nil _).symm)
          rw [hgathers, hinterrupts, hp]
          simp [htext]
      | none =>
          refine h.concat (hsame _) (hbracketed _ rfl) (hselection _ htext) rfl (fun i b => ?_)
            (by rw [hpasted]; exact (List.append_nil _).symm)
          rw [hgathers, hinterrupts, hp]
          simp [htext]

/-- An event that leaves panes and focus alone. -/
theorem quiet (h : Passed app focused events r) {e : InputEvent} (hmove : e.focusMove = none)
    (hcopy : e.isCopy = false) {new : List (Nat × Bytes)}
    (hnew : ∀ i b, (i, b) ∈ new ↔ i = events.length ∧ app.Gathers focused events b e) :
    Passed app focused (events ++ [e])
      { r with
        out := r.out ++ new
        pastes := r.pastes ++ (e.pasted.map fun t => (events.length, t)).toList } := by
  refine h.concat ?_ (fun _ => rfl) (by simp [hcopy]) rfl hnew rfl
  rw [App.moved_concat, hmove]
  exact h.same

/-- A shortcut adds no bytes. -/
theorem shortcut (h : Passed app focused events r) {k : Key} {m : Modifiers} {r' : Routing}
    (hout : r'.out = r.out) (hpastes : r'.pastes = r.pastes) (hbytes : keyBytes k m = none)
    (hlive : r'.app.live = r.app.live)
    (hsame : App.SameFocus (app.moved (events ++ [.key k true m])) r'.app) :
    Passed app focused (events ++ [.key k true m]) r' := by
  refine h.concat hsame (fun _ => by rw [hlive]) (by rw [hlive]; rfl)
    (hout.trans (List.append_nil _).symm) (fun i b => ?_)
    (hpastes.trans (List.append_nil _).symm)
  simp [App.Gathers, hbytes]

/-- A key that is no shortcut is encoded, if it stands for anything. -/
theorem encoded (h : Passed app focused events r) {k : Key} {m : Modifiers}
    (hmove : app.moved (events ++ [.key k true m]) = app.moved events)
    (hbytes : keyBytes k m = encodeKey k m.ctrl m.alt) :
    Passed app focused (events ++ [.key k true m])
      (match encodeKey k m.ctrl m.alt with
        | some bytes => { r with out := r.out ++ [(events.length, bytes)] }
        | none => r) := by
  cases hseq : encodeKey k m.ctrl m.alt with
  | none => exact h.shortcut rfl rfl (hbytes.trans hseq) rfl (hmove ▸ h.same)
  | some bytes =>
      refine h.concat (hmove ▸ h.same) (fun _ => rfl) (by simp [InputEvent.isCopy]) rfl
        (fun i b => ?_) (List.append_nil _).symm
      simp [App.Gathers, hbytes, hseq, eq_comm]

theorem toggleLogging (h : Passed app focused events r) (logStarts : Bool) {k : Key}
    {m : Modifiers} (hmove : app.moved (events ++ [.key k true m]) = app.moved events)
    (hbytes : keyBytes k m = none) :
    Passed app focused (events ++ [.key k true m]) (r.toggleLogging logStarts focused) := by
  refine h.concat (hmove ▸ h.same.live _) (fun s => ?_) ?_ (List.append_nil _).symm
    (fun i b => ?_) (List.append_nil _).symm
  · simp only [Routing.toggleLogging, Table.lookup_modify]
    split
    · simp [Option.map_map, Function.comp_def, LivePane.toggleLogging_same]
    · rfl
  · simp [Routing.toggleLogging, Table.lookup_modify, Function.comp_def,
      LivePane.toggleLogging_same, InputEvent.isCopy]
  · simp [App.Gathers, hbytes]

theorem keyPress (h : Passed app focused events r) (logStarts : Bool) (k : Key) (m : Modifiers) :
    Passed app focused (events ++ [.key k true m])
      (r.keyPress logStarts focused events.length k m) := by
  have hmove : app.moved (events ++ [.key k true m]) =
      match (if m.ctrl && m.shift then k.dir else none) with
      | some dir => (app.moved events).focusNeighbor dir
      | none => app.moved events := App.moved_concat ..
  unfold Routing.keyPress
  cases hctrl : m.ctrl && m.shift with
  | false =>
      rw [hctrl] at hmove
      simp only [Bool.false_and, Bool.false_eq_true, if_false]
      exact h.encoded hmove (by simp [keyBytes, hctrl])
  | true =>
      rw [hctrl, if_pos rfl] at hmove
      by_cases he : k = Key.e
      · subst he
        simp only [Bool.true_and, decide_true, if_true]
        refine h.shortcut rfl rfl (by simp [keyBytes, hctrl]) rfl ?_
        exact hmove ▸ ⟨h.same.tree, h.same.rects, h.same.multiExec, h.same.focused,
          h.same.sources, h.same.minted⟩
      · by_cases hl : k = Key.l
        · subst hl
          simp only [Bool.true_and, he, decide_false, Bool.false_eq_true, if_false, decide_true,
            if_true]
          exact h.toggleLogging logStarts hmove (by simp [keyBytes, hctrl])
        · simp only [Bool.true_and, he, hl, decide_false, Bool.false_eq_true, if_false]
          cases hdir : k.dir with
          | some dir =>
              rw [hdir] at hmove
              exact h.shortcut rfl rfl (by simp [keyBytes, hctrl, hdir])
                (by simp only [App.focusNeighbor_eq]) (hmove ▸ h.same.focusNeighbor dir)
          | none =>
              rw [hdir] at hmove
              exact h.encoded hmove (by simp [keyBytes, he, hl, hdir])

theorem step (h : Passed app focused events r) (logStarts : Bool) (e : InputEvent) :
    Passed app focused (events ++ [e]) (r.event logStarts focused (e, events.length)) := by
  cases e with
  | text bytes =>
      have hnew : ∀ i b, (i, b) ∈ [(events.length, bytes)] ↔
          i = events.length ∧ app.Gathers focused events b (.text bytes) := by
        simp [App.Gathers]
      simpa [Routing.event, InputEvent.pasted] using h.quiet rfl rfl hnew
  | paste bytes =>
      have hnew : ∀ i b, (i, b) ∈ ([] : List (Nat × Bytes)) ↔
          i = events.length ∧ app.Gathers focused events b (.paste bytes) := by
        simp [App.Gathers]
      simpa [Routing.event, InputEvent.pasted] using h.quiet rfl rfl hnew
  | copy => exact h.copySelection rfl
  | cut => exact h.copySelection rfl
  | key k pressed m =>
      cases pressed with
      | true => exact h.keyPress logStarts k m
      | false =>
          have hnew : ∀ i b, (i, b) ∈ ([] : List (Nat × Bytes)) ↔
              i = events.length ∧ app.Gathers focused events b (.key k false m) := by
            simp [App.Gathers]
          simpa [Routing.event, InputEvent.pasted] using h.quiet rfl rfl hnew
  | other =>
      have hnew : ∀ i b, (i, b) ∈ ([] : List (Nat × Bytes)) ↔
          i = events.length ∧ app.Gathers focused events b .other := by
        simp [App.Gathers]
      simpa [Routing.event, InputEvent.pasted] using h.quiet rfl rfl hnew

end Passed

theorem passed_events (logStarts : Bool) (focused : SessionId) (app : App)
    (events : List InputEvent) :
    Passed app focused events (Routing.events logStarts focused app events) := by
  induction events using List.reverseRecOn with
  | nil => exact ⟨⟨rfl, rfl, rfl, rfl, rfl, rfl⟩, fun _ => rfl, rfl, by simp [Routing.events], rfl⟩
  | append_singleton events e ih =>
      have hpass : Routing.events logStarts focused app (events ++ [e]) =
          (Routing.events logStarts focused app events).event logStarts focused
            (e, events.length) := by
        simp [Routing.events, List.zipIdx_append]
      rw [hpass]
      exact ih.step logStarts e

/-! ## Delivery -/

/-- Bytes of the event at place `i` are handed to `s`. -/
def Reaches (log : List Delivery) (i : Nat) (s : SessionId) : Prop :=
  ∃ d ∈ log, d.event = i ∧ d.session = s ∧ d.bytes ≠ []

theorem reaches_append {log log' : List Delivery} {i : Nat} {s : SessionId} :
    Reaches (log ++ log') i s ↔ Reaches log i s ∨ Reaches log' i s := by
  simp only [Reaches, List.mem_append, or_and_right, exists_or]

/-- The bracketed-paste modes of the live panes. -/
def App.SameModes (app app' : App) : Prop :=
  ∀ s, (app'.live.lookup s).map (·.bracketedPaste) = (app.live.lookup s).map (·.bracketedPaste)

theorem App.SameModes.mem {app app' : App} (h : app.SameModes app') {s : SessionId} :
    s ∈ app'.live ↔ s ∈ app.live := by
  rw [← AList.lookup_isSome, ← AList.lookup_isSome, ← Option.isSome_map, h, Option.isSome_map]

theorem App.SameModes.lookup {app app' : App} (h : app.SameModes app') {s : SessionId} {b : Bool} :
    (∃ p, app'.live.lookup s = some p ∧ p.bracketedPaste = b) ↔
      ∃ p, app.live.lookup s = some p ∧ p.bracketedPaste = b := by
  rw [← Option.map_eq_some_iff, h, Option.map_eq_some_iff]

theorem LivePane.sendInput_bracketedPaste (p : LivePane) (bytes : Bytes) :
    (p.sendInput bytes).bracketedPaste = p.bracketedPaste := by
  have henqueue : (p.enqueueInput bytes).bracketedPaste = p.bracketedPaste := by
    unfold enqueueInput
    split <;> rfl
  unfold sendInput
  split
  · rfl
  · split
    · split
      · rfl
      · exact henqueue
      · rfl
    · exact henqueue

theorem App.sendEach_modes (app : App) {send : LivePane → LivePane}
    (hsend : ∀ p, (send p).bracketedPaste = p.bracketedPaste) (recipients : List SessionId) :
    app.SameModes (app.sendEach recipients send) := by
  intro s
  rw [App.sendEach]
  generalize app.live = live
  induction recipients generalizing live with
  | nil => rfl
  | cons r recipients ih =>
      rw [List.foldl_cons, ih, Table.lookup_modify]
      split
      · rw [Option.map_map]
        exact congrArg (Option.map · _) (funext hsend)
      · rfl

theorem App.deliverOut_same (app : App) (out : List (Nat × Bytes)) :
    app.SameFocus (app.deliverOut out).1 ∧ app.SameModes (app.deliverOut out).1 := by
  cases hempty : (out.flatMap Prod.snd).isEmpty with
  | true =>
      simp only [App.deliverOut, hempty, if_true]
      exact ⟨⟨rfl, rfl, rfl, rfl, rfl, rfl⟩, fun _ => rfl⟩
  | false =>
      simp only [App.deliverOut, hempty, Bool.false_eq_true, if_false]
      exact ⟨⟨rfl, rfl, rfl, rfl, rfl, rfl⟩,
        app.sendEach_modes (fun p => p.sendInput_bracketedPaste _) _⟩

theorem App.deliverPaste_same (app : App) (text : Bytes) (recipients : List SessionId) :
    app.SameFocus (app.deliverPaste text recipients) ∧
      app.SameModes (app.deliverPaste text recipients) :=
  ⟨⟨rfl, rfl, rfl, rfl, rfl, rfl⟩, app.sendEach_modes (fun p => p.sendInput_bracketedPaste _) _⟩

theorem App.routePastes_same (app : App) (pastes : List (Nat × Bytes)) :
    app.SameFocus (app.routePastes pastes).1 ∧ app.SameModes (app.routePastes pastes).1 := by
  induction pastes generalizing app with
  | nil => exact ⟨⟨rfl, rfl, rfl, rfl, rfl, rfl⟩, fun _ => rfl⟩
  | cons e pastes ih =>
      cases hnew : hasNewline e.2 with
      | true =>
          simp only [App.routePastes, hnew, if_true]
          exact ⟨⟨rfl, rfl, rfl, rfl, rfl, rfl⟩, fun _ => rfl⟩
      | false =>
          obtain ⟨hfocus, hmodes⟩ := app.deliverPaste_same e.2 app.recipients
          obtain ⟨hfocus', hmodes'⟩ := ih (app.deliverPaste e.2 app.recipients)
          simp only [App.routePastes, hnew, Bool.false_eq_true, if_false]
          exact ⟨hfocus.trans hfocus', fun s => (hmodes' s).trans (hmodes s)⟩

theorem App.deliverOut_reaches (app : App) (out : List (Nat × Bytes)) (i : Nat) (s : SessionId) :
    Reaches (app.deliverOut out).2 i s ↔
      s ∈ app.recipients ∧ s ∈ app.live ∧ ∃ b, (i, b) ∈ out ∧ b ≠ [] := by
  cases hempty : (out.flatMap Prod.snd).isEmpty with
  | true =>
      simp only [App.deliverOut, hempty, if_true]
      rw [List.isEmpty_iff, List.flatMap_eq_nil_iff] at hempty
      constructor
      · rintro ⟨d, hd, -⟩
        cases hd
      · rintro ⟨-, -, b, hb, hne⟩
        exact absurd (hempty _ hb) hne
  | false =>
      simp only [App.deliverOut, hempty, Bool.false_eq_true, if_false]
      constructor
      · rintro ⟨d, hd, rfl, rfl, hne⟩
        obtain ⟨s, hs, hd⟩ := List.mem_flatMap.mp hd
        obtain ⟨⟨i, b⟩, hb, rfl⟩ := List.mem_map.mp hd
        obtain ⟨hrecipient, hlive⟩ := List.mem_filter.mp hs
        exact ⟨hrecipient, of_decide_eq_true hlive, b, hb, hne⟩
      · rintro ⟨hrecipient, hlive, b, hb, hne⟩
        refine ⟨⟨i, s, b⟩, List.mem_flatMap.mpr ⟨s, ?_, List.mem_map.mpr ⟨(i, b), hb, rfl⟩⟩,
          rfl, rfl, hne⟩
        exact List.mem_filter.mpr ⟨hrecipient, decide_eq_true hlive⟩

theorem LivePane.wrapPaste_eq_nil {text : Bytes} {bracketed : Bool} :
    wrapPaste text bracketed = [] ↔ text = [] ∧ bracketed = false := by
  cases bracketed <;> simp [wrapPaste]

theorem App.pasted_reaches (app : App) (i j : Nat) (text : Bytes) (s : SessionId) :
    Reaches (app.pasted i text) j s ↔ j = i ∧ s ∈ app.recipients ∧
      ∃ p, app.live.lookup s = some p ∧ (text ≠ [] ∨ p.bracketedPaste = true) := by
  have hne : ∀ p : LivePane, LivePane.wrapPaste text p.bracketedPaste ≠ [] ↔
      text ≠ [] ∨ p.bracketedPaste = true := by
    intro p
    rw [ne_eq, LivePane.wrapPaste_eq_nil, not_and_or, Bool.not_eq_false]
  constructor
  · rintro ⟨d, hd, rfl, rfl, hbytes⟩
    obtain ⟨s, hs, hd⟩ := List.mem_filterMap.mp hd
    obtain ⟨p, hp, rfl⟩ := Option.map_eq_some_iff.mp hd
    exact ⟨rfl, hs, p, hp, (hne p).mp hbytes⟩
  · rintro ⟨rfl, hs, p, hp, hbytes⟩
    refine ⟨⟨j, s, _⟩, List.mem_filterMap.mpr ⟨s, hs, ?_⟩, rfl, rfl, (hne p).mpr hbytes⟩
    rw [hp]
    rfl

theorem hasNewline_ne_nil {text : Bytes} (h : hasNewline text = true) : text ≠ [] := by
  rintro rfl
  cases h

theorem App.SameModes.pasteHasBytes {app app' : App} (h : app.SameModes app') {text : Bytes}
    {s : SessionId} : app'.PasteHasBytes text s ↔ app.PasteHasBytes text s := by
  have hbracketed := h.lookup (s := s) (b := true)
  have hmem := h.mem (s := s)
  rw [Table.mem_iff, Table.mem_iff] at hmem
  unfold App.PasteHasBytes
  refine or_congr_right ?_
  by_cases htext : text = []
  · simpa [htext] using hbracketed
  · simpa [htext] using hmem

/-- A paste with none held before it is the first event, or is behind it. -/
theorem unheld_paste_cons {e : InputEvent} {events : List InputEvent} {k i : Nat}
    {Q : Bytes → Prop} :
    (∃ j text, i = k + j ∧ (e :: events)[j]? = some (.paste text) ∧
        (∀ e' ∈ (e :: events).take j, ∀ t, e'.pasted = some t → hasNewline t = false) ∧
        Q text) ↔
      (∃ text, i = k ∧ e = .paste text ∧ Q text) ∨
        ((∀ t, e.pasted = some t → hasNewline t = false) ∧
          ∃ j text, i = k + 1 + j ∧ events[j]? = some (.paste text) ∧
            (∀ e' ∈ events.take j, ∀ t, e'.pasted = some t → hasNewline t = false) ∧
            Q text) := by
  constructor
  · rintro ⟨j, text, rfl, hj, hbefore, hq⟩
    cases j with
    | zero => exact Or.inl ⟨text, rfl, Option.some.inj hj, hq⟩
    | succ j =>
        rw [List.take_succ_cons, List.forall_mem_cons] at hbefore
        exact Or.inr ⟨hbefore.1, j, text, by omega, hj, hbefore.2, hq⟩
  · rintro (⟨text, rfl, rfl, hq⟩ | ⟨hfirst, j, text, rfl, hj, hbefore, hq⟩)
    · exact ⟨0, text, rfl, rfl, List.forall_mem_nil _, hq⟩
    · refine ⟨j + 1, text, by omega, hj, ?_, hq⟩
      rw [List.take_succ_cons, List.forall_mem_cons]
      exact ⟨hfirst, hbefore⟩

/-- The pastes of `events` that are reached: none behind a held one. -/
theorem App.routePastes_reaches (app : App) (events : List InputEvent) (k i : Nat)
    (s : SessionId) :
    Reaches (app.routePastes ((events.zipIdx k).filterMap
        fun e => e.1.pasted.map fun t => (e.2, t))).2 i s ↔
      ∃ j text, i = k + j ∧ events[j]? = some (.paste text) ∧
        (∀ e ∈ events.take j, ∀ t, e.pasted = some t → hasNewline t = false) ∧
        s ∈ app.recipients ∧ app.PasteHasBytes text s := by
  induction events generalizing app k with
  | nil =>
      simp [App.routePastes, Reaches]
  | cons e events ih =>
      rw [List.zipIdx_cons, List.filterMap_cons, unheld_paste_cons]
      cases he : e.pasted with
      | none =>
          simp only [Option.map_none]
          rw [ih]
          constructor
          · exact fun h => Or.inr ⟨nofun, h⟩
          · rintro (⟨text, -, rfl, -⟩ | ⟨-, h⟩)
            · cases he
            · exact h
      | some t =>
          obtain rfl : e = .paste t := by
            cases e <;> cases he
            rfl
          simp only [Option.map_some]
          cases hnew : hasNewline t with
          | true =>
              -- held: nothing behind it is reached
              simp only [App.routePastes, hnew, if_true]
              constructor
              · rintro ⟨d, hd, rfl, rfl, -⟩
                obtain ⟨s, hs, rfl⟩ := List.mem_map.mp hd
                exact Or.inl ⟨t, rfl, rfl, hs, Or.inl hnew⟩
              · rintro (⟨text, rfl, heq, hs, -⟩ | ⟨hfirst, -⟩)
                · exact ⟨⟨i, s, t⟩, List.mem_map.mpr ⟨s, hs, rfl⟩, rfl, rfl,
                    hasNewline_ne_nil hnew⟩
                · rw [hfirst t rfl] at hnew
                  cases hnew
          | false =>
              simp only [App.routePastes, hnew, Bool.false_eq_true, if_false]
              obtain ⟨hfocus, hmodes⟩ := app.deliverPaste_same t app.recipients
              rw [reaches_append, App.pasted_reaches, ih, hfocus.recipients]
              simp only [hmodes.pasteHasBytes]
              refine or_congr ?_ ?_
              · constructor
                · rintro ⟨rfl, hs, hbytes⟩
                  exact ⟨t, rfl, rfl, hs, Or.inr hbytes⟩
                · rintro ⟨text, rfl, heq, hs, hbytes⟩
                  obtain rfl := InputEvent.paste.inj heq
                  refine ⟨rfl, hs, hbytes.resolve_left fun h => ?_⟩
                  rw [hnew] at h
                  cases h
              · exact ⟨fun h => ⟨fun u hu => Option.some.inj hu ▸ hnew, h⟩, And.right⟩

/-! ## Isolation -/

theorem encodeKey_ne_nil {k : Key} {ctrl alt : Bool} {b : Bytes}
    (h : encodeKey k ctrl alt = some b) : b ≠ [] := by
  unfold encodeKey at h
  split at h
  · obtain rfl := Option.some.inj h
    exact List.cons_ne_nil _ _
  · obtain ⟨bytes, hbytes, rfl⟩ := Option.map_eq_some_iff.mp h
    have hseq : bytes ≠ [] := by
      rintro rfl
      cases k <;> cases hbytes
    split
    · exact List.cons_ne_nil _ _
    · exact hseq

theorem keyBytes_ne_nil {k : Key} {m : Modifiers} {b : Bytes} (h : keyBytes k m = some b) :
    b ≠ [] := by
  unfold keyBytes at h
  split at h
  · cases h
  · exact encodeKey_ne_nil h

/-- What is gathered from an event and what is pasted make up what it has. -/
theorem App.hasBytes_iff (app : App) (focused : SessionId) (before : List InputEvent)
    (s : SessionId) (e : InputEvent) :
    app.HasBytes focused before s e ↔
      (s ∈ app.live ∧ ∃ b, app.Gathers focused before b e ∧ b ≠ []) ∨
        ∃ text, e = .paste text ∧ (∀ e ∈ before, ∀ t, e.pasted = some t → hasNewline t = false) ∧
          app.PasteHasBytes text s := by
  cases e with
  | text bytes => simp [HasBytes, Gathers]
  | paste text => simp [HasBytes, Gathers]
  | copy => simp [HasBytes, Gathers]
  | cut => simp [HasBytes, Gathers]
  | other => simp [HasBytes, Gathers]
  | key k pressed m =>
      cases pressed with
      | false => simp [HasBytes, Gathers]
      | true =>
          simp only [HasBytes, Gathers, reduceCtorEq, false_and, exists_false, or_false]
          refine and_congr_right fun _ => ?_
          rw [Option.ne_none_iff_exists']
          exact exists_congr fun b => ⟨fun hb => ⟨hb, keyBytes_ne_nil hb⟩, fun hb => hb.1⟩

/-- What a call leaves of the app: the focus has moved, and input has gone to
live panes. -/
theorem App.routeKeyboard_same (lib : TileLib) (env : Env) (logStarts : Bool) (app : App)
    (events : List InputEvent) {focused : SessionId} (hfocused : app.focusedSession = some focused)
    (hrunning : (app.live.lookup focused).any (·.finished) = false) :
    (app.moved events).SameFocus (app.routeKeyboard lib env logStarts events).1 ∧
      app.SameModes (app.routeKeyboard lib env logStarts events).1 := by
  have hpass := passed_events logStarts focused app events
  obtain ⟨hfocus, hmodes⟩ := (Routing.events logStarts focused app events).app.deliverOut_same
    (Routing.events logStarts focused app events).out
  obtain ⟨hfocus', hmodes'⟩ := App.routePastes_same
    ((Routing.events logStarts focused app events).app.deliverOut
      (Routing.events logStarts focused app events).out).1
    (Routing.events logStarts focused app events).pastes
  simp only [App.routeKeyboard, hfocused, hrunning, Bool.false_eq_true, if_false]
  exact ⟨(hpass.same.trans hfocus).trans hfocus',
    fun s => ((hmodes' s).trans (hmodes s)).trans (hpass.bracketed s)⟩

/-- What a call delivers, event by event: to the recipients of the focus the
moves end at, whatever has bytes for them. -/
theorem App.routeKeyboard_reaches (lib : TileLib) (env : Env) (logStarts : Bool) (app : App)
    (events : List InputEvent) {focused : SessionId} (hfocused : app.focusedSession = some focused)
    (hrunning : (app.live.lookup focused).any (·.finished) = false) (i : Nat) (s : SessionId) :
    Reaches (app.routeKeyboard lib env logStarts events).2 i s ↔
      ∃ e, events[i]? = some e ∧ s ∈ (app.moved events).recipients ∧
        app.HasBytes focused (events.take i) s e := by
  have hpass := passed_events logStarts focused app events
  obtain ⟨hfocus, hmodes⟩ := (Routing.events logStarts focused app events).app.deliverOut_same
    (Routing.events logStarts focused app events).out
  have hrecipients : ((Routing.events logStarts focused app events).app.deliverOut
      (Routing.events logStarts focused app events).out).1.recipients =
        (app.moved events).recipients := hfocus.recipients.trans hpass.same.recipients
  have hmodes' : app.SameModes ((Routing.events logStarts focused app events).app.deliverOut
      (Routing.events logStarts focused app events).out).1 :=
    fun s => (hmodes s).trans (hpass.bracketed s)
  have hlive : s ∈ (Routing.events logStarts focused app events).app.live ↔ s ∈ app.live :=
    App.SameModes.mem hpass.bracketed
  simp only [App.routeKeyboard, hfocused, hrunning, Bool.false_eq_true, if_false]
  rw [reaches_append, App.deliverOut_reaches, hpass.pastes, App.routePastes_reaches, hrecipients,
    hpass.same.recipients, hlive]
  simp only [hpass.out, hmodes'.pasteHasBytes, Nat.zero_add, App.hasBytes_iff]
  constructor
  · rintro (⟨hs, hmem, b, ⟨e, he, hb⟩, hne⟩ | ⟨j, text, rfl, he, hbefore, hs, hbytes⟩)
    · exact ⟨e, he, hs, Or.inl ⟨hmem, b, hb, hne⟩⟩
    · exact ⟨_, he, hs, Or.inr ⟨text, rfl, hbefore, hbytes⟩⟩
  · rintro ⟨e, he, hs, ⟨hmem, b, hb, hne⟩ | ⟨text, rfl, hbefore, hbytes⟩⟩
    · exact Or.inl ⟨hs, hmem, b, ⟨e, he, hb⟩, hne⟩
    · exact Or.inr ⟨i, text, rfl, he, hbefore, hs, hbytes⟩

/-- The app as it stands when the pass reaches the event at place `i`. -/
def App.atEvent (logStarts : Bool) (app : App) (events : List InputEvent) (i : Nat) : App :=
  match app.focusedSession with
  | none => app
  | some focused => (Routing.events logStarts focused app (events.take i)).app

/-- Every event's bytes go to recipients of the focus it was typed into. -/
def KeystrokesIsolated (lib : TileLib) (env : Env) (logStarts : Bool) (app : App)
    (events : List InputEvent) : Prop :=
  ∀ d ∈ (app.routeKeyboard lib env logStarts events).2, d.bytes ≠ [] →
    d.session ∈ (app.atEvent logStarts events d.event).recipients

instance (lib : TileLib) (env : Env) (logStarts : Bool) (app : App) (events : List InputEvent) :
    Decidable (KeystrokesIsolated lib env logStarts app events) :=
  inferInstanceAs (Decidable (∀ d ∈ _, _ → _))

theorem keystrokesIsolated_iff (lib : TileLib) (env : Env) (logStarts : Bool) (app : App)
    (events : List InputEvent) :
    KeystrokesIsolated lib env logStarts app events ↔
      ∀ focused, app.focusedSession = some focused →
        (app.live.lookup focused).any (·.finished) = false → app.MovesAddNone focused events := by
  have hall : KeystrokesIsolated lib env logStarts app events ↔
      ∀ i s, Reaches (app.routeKeyboard lib env logStarts events).2 i s →
        s ∈ (app.atEvent logStarts events i).recipients := by
    constructor
    · rintro h _ _ ⟨d, hd, rfl, rfl, hne⟩
      exact h d hd hne
    · intro h d hd hne
      exact h _ _ ⟨d, hd, rfl, rfl, hne⟩
  rw [hall]
  cases hfocused : app.focusedSession with
  | none =>
      simp only [App.routeKeyboard, hfocused]
      exact ⟨fun _ => nofun, fun _ i s ⟨_, hd, _⟩ => nomatch hd⟩
  | some focused =>
      cases hfinished : (app.live.lookup focused).any (·.finished) with
      | true =>
          have hnone : (app.routeKeyboard lib env logStarts events).2 = [] := by
            simp only [App.routeKeyboard, hfocused, hfinished, if_true]
            split <;> rfl
          rw [hnone]
          refine ⟨fun _ focused' heq hrunning => ?_, fun _ i s ⟨_, hd, _⟩ => nomatch hd⟩
          obtain rfl := Option.some.inj heq
          rw [hfinished] at hrunning
          cases hrunning
      | false =>
          have hat : ∀ i, (app.atEvent logStarts events i).recipients =
              (app.moved (events.take i)).recipients := by
            intro i
            simp only [App.atEvent, hfocused]
            exact (passed_events logStarts focused app (events.take i)).same.recipients
          simp only [app.routeKeyboard_reaches lib env logStarts events hfocused hfinished, hat]
          constructor
          · intro h focused' heq _ i e he s hs hbytes
            obtain rfl := Option.some.inj heq
            exact h i s ⟨e, he, hs, hbytes⟩
          · rintro h i s ⟨e, he, hs, hbytes⟩
            exact h focused rfl hfinished i e he s hs hbytes

/-- An environment that opens everything. -/
def Env.willing : Env := ⟨fun _ => none, fun _ _ => none⟩

/-- Two tabs side by side, each with one pane. -/
def sideBySide : App :=
  { App.empty 2 false true with
    tree := ⟨some ⟨0⟩, List.toAList
      [⟨⟨0⟩, .container (.linear .horizontal [⟨1⟩, ⟨2⟩])⟩,
        ⟨⟨1⟩, .container (.tabs ⟨[⟨3⟩], some ⟨3⟩⟩)⟩, ⟨⟨2⟩, .container (.tabs ⟨[⟨4⟩], some ⟨4⟩⟩)⟩,
        ⟨⟨3⟩, .pane ⟨0⟩⟩, ⟨⟨4⟩, .pane ⟨1⟩⟩]⟩
    rects := List.toAList [⟨⟨3⟩, ⟨0, 100, 0, 50⟩⟩, ⟨⟨4⟩, ⟨100, 200, 0, 50⟩⟩]
    live := List.toAList [⟨⟨0⟩, .new .prompt⟩, ⟨⟨1⟩, .new .prompt⟩]
    focused := some ⟨3⟩ }

/-- A letter typed just before a focus move lands in the pane moved to. -/
theorem keystroke_reaches_neighbor :
    ¬KeystrokesIsolated tileReference .willing false sideBySide
      [.text [0x61], .key .arrowRight true ⟨true, false, true⟩] := by
  decide +kernel

end PolyTerm
