import PolyTerm.MouseEncoding
import PolyTerm.PaneFrames

/-!
# Which pane the pointer reports to

A pane that reports the mouse keeps the buttons it has seen go down
(`buttonsDown`): as long as there is one, the frame's events are its own even
when the pointer is over another tile. It sees the events of a frame only if it
reports in it, so a button that is released behind a held Shift, with the mouse
mode off or behind another tab stays down for it. And the gate is one for all
events of a frame.

`WatchedPane` runs the pane's mouse state beside what really became of the buttons.
-/

namespace PolyTerm

open Runs

/-! ## Events -/

/-- Where the pointer is: the cell, which may lie outside the grid, and whether
it is over the pane. -/
structure PointerPlace where
  cell : Int × Int
  inside : Bool
deriving DecidableEq, Repr

inductive PointerEvent where
  | button (pos : PointerPlace) (button : PointerButton) (pressed : Bool)
      (modifiers : MouseModifiers)
  | moved (pos : PointerPlace)
  /-- `up`: the sign of a wheel's move, none for one of less than half a point -/
  | wheel (up : Option Bool) (modifiers : MouseModifiers)
  | other
deriving DecidableEq, Repr

/-- What a pane keeps of the mouse. -/
structure MouseState where
  buttonsDown : UInt8
  lastReportCell : Option (UInt16 × UInt16)
deriving DecidableEq, Repr

/-- One frame, as a pane has it. -/
structure PointerFrame where
  /-- no other tab is in front of the pane -/
  drawn : Bool
  /-- what the application wants -/
  report : MouseReport
  shift : Bool
  /-- the pointer is over the pane -/
  pointerOver : Bool
  size : GridSize
  hover : Option PointerPlace
  events : List PointerEvent
deriving DecidableEq, Repr

/-- The application has the mouse; Shift takes it back. -/
def PointerFrame.reporting (f : PointerFrame) : Bool := f.drawn && f.report.isOn && !f.shift

def buttonBit (base : UInt8) : UInt8 := 1 <<< base

/-- The application wants to know of moves. -/
def MouseProtocol.wantsMotion (protocol : MouseProtocol) (buttonsDown : UInt8) : Bool :=
  match protocol with
  | .buttonDrag => buttonsDown ≠ 0
  | .anyMotion => true
  | .click | .off => false

namespace MouseState

def new : MouseState := ⟨0, none⟩

/-- One event, and what is reported of it. -/
def handleEvent (m : MouseState) (report : MouseReport) (size : GridSize)
    (hover : Option PointerPlace) : PointerEvent → MouseState × Bytes
  | .button pos button pressed modifiers =>
      match buttonBase button with
      | none => (m, [])
      | some base =>
          let cell := posToCell pos.cell size
          let buttonsDown :=
            if pressed then m.buttonsDown ||| buttonBit base
            else m.buttonsDown &&& ~~~buttonBit base
          ({ m with buttonsDown := buttonsDown },
            (encodeMouse report base false (!pressed) (mouseMods modifiers) cell).getD [])
  | .moved pos =>
      let cell := posToCell pos.cell size
      -- one report per cell, not per pixel
      if !report.protocol.wantsMotion m.buttonsDown || m.lastReportCell = some cell then (m, [])
      else
        ({ m with lastReportCell := some cell },
          (encodeMouse report (heldButton m.buttonsDown) true false 0 cell).getD [])
  | .wheel none _ => (m, [])
  | .wheel (some up) modifiers =>
      let cell := (hover.map fun pos => posToCell pos.cell size).getD (0, 0)
      let base := if up then 64 else 65
      (m, (encodeMouse report base false false (mouseMods modifiers) cell).getD [])
  | .other => (m, [])

/-- The events of a frame in order, and all that is reported of them. -/
def handleMouseReporting (m : MouseState) (report : MouseReport) (size : GridSize)
    (hover : Option PointerPlace) : List PointerEvent → MouseState × Bytes
  | [] => (m, [])
  | e :: events =>
      let (m, seq) := m.handleEvent report size hover e
      let (m, out) := m.handleMouseReporting report size hover events
      (m, seq ++ out)

/-- The frame's events are this pane's. -/
def takes (m : MouseState) (f : PointerFrame) : Bool :=
  f.reporting && (f.pointerOver || m.buttonsDown ≠ 0)

/-- The mouse in a pane's drawing. -/
def «show» (m : MouseState) (f : PointerFrame) : MouseState × Bytes :=
  if m.takes f then m.handleMouseReporting f.report f.size f.hover f.events else (m, [])

/-- The pane has `button` as down. -/
def down (m : MouseState) (button : PointerButton) : Bool :=
  (buttonBase button).any fun base => m.buttonsDown &&& buttonBit base ≠ 0

end MouseState

/-- A pane's drawing with this frame's mouse. -/
def PointerFrame.drawing (f : PointerFrame) (m : MouseState) (pointer : Pointer)
    (cleared scrolled : Snapshot) : Drawing where
  cols := f.size.cols
  rows := f.size.rows
  cleared := cleared
  reporting := f.reporting
  report := (m.show f).2
  pointer := pointer
  scrolled := scrolled

/-! ## What an event does to the buttons -/

namespace MouseState

variable {m : MouseState} {report : MouseReport} {size : GridSize} {hover : Option PointerPlace}

theorem or_bit_ne_zero {i j : UInt8} (hi : i ∈ [0, 1, 2]) (hj : j ∈ [0, 1, 2]) {d : UInt8}
    (h : (d ||| buttonBit i) &&& buttonBit j ≠ 0) : d &&& buttonBit j ≠ 0 ∨ i = j := by
  have hother : (([0, 1, 2] : List UInt8).all fun i => ([0, 1, 2] : List UInt8).all fun j =>
      decide (i ≠ j → buttonBit i &&& buttonBit j = 0)) = true := by decide
  simp only [List.all_eq_true, decide_eq_true_eq] at hother
  by_cases hij : i = j
  · exact Or.inr hij
  · refine Or.inl fun hzero => h ?_
    have hparts : (d ||| buttonBit i) &&& buttonBit j =
        (d &&& buttonBit j) ||| (buttonBit i &&& buttonBit j) := by
      rw [← UInt8.toNat_inj, UInt8.toNat_and, UInt8.toNat_or, Nat.and_or_distrib_right,
        UInt8.toNat_or, UInt8.toNat_and, UInt8.toNat_and]
    rw [hparts, hzero, hother i hi j hj hij]
    rfl

theorem and_not_bit_ne_zero {i j : UInt8} (hi : i ∈ [0, 1, 2]) (hj : j ∈ [0, 1, 2]) {d : UInt8}
    (h : (d &&& ~~~buttonBit i) &&& buttonBit j ≠ 0) : d &&& buttonBit j ≠ 0 ∧ i ≠ j := by
  have hother : (([0, 1, 2] : List UInt8).all fun i => ([0, 1, 2] : List UInt8).all fun j =>
      decide (~~~buttonBit i &&& buttonBit j = if i = j then 0 else buttonBit j)) = true := by
    decide
  simp only [List.all_eq_true, decide_eq_true_eq] at hother
  rw [UInt8.and_assoc, hother i hi j hj] at h
  split at h
  · rw [UInt8.and_zero] at h
    exact absurd rfl h
  · exact ⟨h, ‹_›⟩

theorem buttonBase_mem {b : PointerButton} {base : UInt8} (h : buttonBase b = some base) :
    base ∈ ([0, 1, 2] : List UInt8) := by
  cases b <;> cases h <;> decide

theorem buttonBase_inj {b b' : PointerButton} {base : UInt8} (h : buttonBase b = some base)
    (h' : buttonBase b' = some base) : b = b' := by
  cases b <;> cases b' <;> cases h <;> first | rfl | cases h'

theorem down_iff {b : PointerButton} :
    m.down b = true ↔ ∃ base, buttonBase b = some base ∧ m.buttonsDown &&& buttonBit base ≠ 0 := by
  simp [down, Option.any_eq_true]

/-- A button that is down was down before, or is pressed now, and not released. -/
theorem handleEvent_down {e : PointerEvent} {b : PointerButton}
    (h : (m.handleEvent report size hover e).1.down b = true) :
    (∃ pos mods, e = .button pos b true mods) ∨
      (m.down b = true ∧ ∀ pos mods, e ≠ .button pos b false mods) := by
  obtain ⟨base, hbase, hbit⟩ := down_iff.mp h
  cases e with
  | button pos b' pressed mods =>
      cases hbase' : buttonBase b' with
      | none =>
          simp only [handleEvent, hbase'] at hbit
          refine Or.inr ⟨down_iff.mpr ⟨base, hbase, hbit⟩, ?_⟩
          rintro _ _ ⟨⟩
          cases hbase.symm.trans hbase'
      | some base' =>
          simp only [handleEvent, hbase'] at hbit
          cases pressed with
          | true =>
              rcases or_bit_ne_zero (buttonBase_mem hbase') (buttonBase_mem hbase) hbit with
                hdown | rfl
              · exact Or.inr ⟨down_iff.mpr ⟨base, hbase, hdown⟩, by rintro _ _ ⟨⟩⟩
              · exact Or.inl ⟨pos, mods, by rw [buttonBase_inj hbase' hbase]⟩
          | false =>
              obtain ⟨hdown, hne⟩ :=
                and_not_bit_ne_zero (buttonBase_mem hbase') (buttonBase_mem hbase) hbit
              refine Or.inr ⟨down_iff.mpr ⟨base, hbase, hdown⟩, ?_⟩
              rintro _ _ ⟨⟩
              exact hne (Option.some.inj (hbase'.symm.trans hbase))
  | moved pos =>
      refine Or.inr ⟨?_, by rintro _ _ ⟨⟩⟩
      have hsame : (m.handleEvent report size hover (.moved pos)).1.buttonsDown =
          m.buttonsDown := by
        simp only [handleEvent]
        split <;> rfl
      rw [hsame] at hbit
      exact down_iff.mpr ⟨base, hbase, hbit⟩
  | wheel up mods => cases up <;> exact Or.inr ⟨h, by rintro _ _ ⟨⟩⟩
  | other => exact Or.inr ⟨h, by rintro _ _ ⟨⟩⟩

end MouseState

/-! ## The buttons beside the pane -/

/-- A pane's mouse state, and what became of the buttons. -/
structure WatchedPane where
  mouse : MouseState
  /-- pressed while the pane reported, and not released since -/
  pressed : List PointerButton
  /-- held from a drag that began over the pane -/
  dragged : List PointerButton
deriving DecidableEq, Repr

namespace WatchedPane

def start : WatchedPane := ⟨.new, [], []⟩

/-- What an event does to the buttons, whatever the pane makes of it. A press
over the pane begins a drag, and one during a drag joins it. -/
def watch (f : PointerFrame) (x : WatchedPane) : PointerEvent → WatchedPane
  | .button pos b true _ =>
      { x with
        pressed := if f.reporting then x.pressed.insert b else x.pressed
        dragged := if pos.inside || !x.dragged.isEmpty then x.dragged.insert b else x.dragged }
  | .button _ b false _ =>
      { x with pressed := x.pressed.filter (· ≠ b), dragged := x.dragged.filter (· ≠ b) }
  | .moved _ | .wheel _ _ | .other => x

/-- One frame. -/
def step (x : WatchedPane) (f : PointerFrame) : Option WatchedPane :=
  some { f.events.foldl (watch f) x with mouse := (x.mouse.show f).1 }

/-- The buttons that are down for the pane are those pressed while it reported
and not released since. -/
def Tracked (x : WatchedPane) : Prop := ∀ b, x.mouse.down b = true → b ∈ x.pressed

/-- What is reported of an event that comes behind `pre` in its frame. -/
def reported (x : WatchedPane) (f : PointerFrame) (pre : List PointerEvent) (e : PointerEvent) :
    Bytes :=
  if x.mouse.takes f then
    ((x.mouse.handleMouseReporting f.report f.size f.hover pre).1.handleEvent
      f.report f.size f.hover e).2
  else []

/-- In the frame, `button` is pressed over something else, and none is held
from a drag that began over the pane. -/
structure StrayPress (x : WatchedPane) (f : PointerFrame) (pre : List PointerEvent)
    (pos : PointerPlace) (button : PointerButton) (mods : MouseModifiers) : Prop where
  event : ∃ post, f.events = pre ++ .button pos button true mods :: post
  outside : pos.inside = false
  free : (pre.foldl (watch f) x).dragged = []

/-- A frame that ends with no button down for the pane that is not, and in
which no stray press is reported. -/
def Faithful (x : WatchedPane) (f : PointerFrame) : Prop :=
  (∀ y, x.step f = some y → y.Tracked) ∧
    ∀ pre pos button mods, x.StrayPress f pre pos button mods →
      x.reported f pre (.button pos button true mods) = []

/-- No button that is down for the pane is released while it does not report. -/
def SeesReleases (x : WatchedPane) (f : PointerFrame) : Prop :=
  f.reporting = true ∨
    ∀ b, x.mouse.down b = true → ∀ pos mods, .button pos b false mods ∉ f.events

/-- The encoding has a form for a press of `button` there. -/
def Reportable (f : PointerFrame) (pos : PointerPlace) (button : PointerButton) : Prop :=
  (buttonBase button).isSome = true ∧
    (f.report.encoding = .sgr ∨
      ((posToCell pos.cell f.size).2.toNat < 223 ∧ (posToCell pos.cell f.size).1.toNat < 223))

/-- A frame whose events are the pane's has no stray press that can be
reported. -/
def KeepsToPane (x : WatchedPane) (f : PointerFrame) : Prop :=
  x.mouse.takes f = true → ∀ pre pos button mods, x.StrayPress f pre pos button mods →
    ¬Reportable f pos button

/-! ## One frame -/

variable {x y : WatchedPane} {f : PointerFrame}

/-- Behind the pane's back a button is at most released. -/
theorem foldl_watch_pressed (hreporting : f.reporting = false) {b : PointerButton} :
    ∀ {events : List PointerEvent} {x : WatchedPane},
      b ∈ (events.foldl (watch f) x).pressed ↔
        b ∈ x.pressed ∧ ∀ pos mods, .button pos b false mods ∉ events
  | [], x => by simp
  | e :: events, x => by
      rw [List.foldl_cons, foldl_watch_pressed hreporting]
      cases e with
      | button pos b' pressed mods =>
          cases pressed with
          | true => simp [watch, hreporting]
          | false =>
              by_cases hb : b = b'
              · subst hb
                have hgone : b ∉ (watch f x (.button pos b false mods)).pressed := by simp [watch]
                exact ⟨fun h => absurd h.1 hgone, fun h => absurd List.mem_cons_self (h.2 pos mods)⟩
              · simp [watch, hb]
      | moved | wheel | other => simp [watch]

/-- What the pane sees, it keeps track of. -/
theorem tracked_handleMouseReporting (hreporting : f.reporting = true) :
    ∀ {events : List PointerEvent} {m : MouseState} {x : WatchedPane},
      (∀ b, m.down b = true → b ∈ x.pressed) → ∀ b,
        (m.handleMouseReporting f.report f.size f.hover events).1.down b = true →
          b ∈ (events.foldl (watch f) x).pressed
  | [], _, _, htracked => htracked
  | e :: events, m, x, htracked => by
      refine @tracked_handleMouseReporting hreporting events
        (m.handleEvent f.report f.size f.hover e).1 (watch f x e) ?_
      intro b hdown
      rcases MouseState.handleEvent_down hdown with ⟨pos, mods, rfl⟩ | ⟨hold, hkept⟩
      · simp [watch, hreporting]
      · have hb := htracked b hold
        cases e with
        | button pos b' pressed mods =>
            cases pressed with
            | true => simp [watch, hreporting, hb]
            | false =>
                have hne : b ≠ b' := by
                  rintro rfl
                  exact hkept pos mods rfl
                simp [watch, hb, hne]
        | moved | wheel | other => exact hb

theorem step_tracked_iff (htracked : x.Tracked) :
    (∀ y, x.step f = some y → y.Tracked) ↔ x.SeesReleases f := by
  have hstep : (∀ y, x.step f = some y → y.Tracked) ↔
      ∀ b, (x.mouse.show f).1.down b = true → b ∈ (f.events.foldl (watch f) x).pressed :=
    ⟨fun h => h _ rfl, fun h y hy => Option.some.inj hy ▸ h⟩
  rw [hstep]
  cases hreporting : f.reporting with
  | true =>
      refine ⟨fun _ => Or.inl hreporting, fun _ b hdown => ?_⟩
      by_cases htakes : x.mouse.takes f = true
      · rw [MouseState.show, if_pos htakes] at hdown
        exact tracked_handleMouseReporting hreporting htracked b hdown
      · -- with the pointer elsewhere no button is down
        have hnone : x.mouse.buttonsDown = 0 := by
          simp [MouseState.takes, hreporting] at htakes
          exact htakes.2
        rw [MouseState.show, if_neg htakes, MouseState.down_iff, hnone] at hdown
        obtain ⟨base, -, hbit⟩ := hdown
        exact absurd UInt8.zero_and hbit
  | false =>
      have hsame : (x.mouse.show f).1 = x.mouse := by
        rw [MouseState.show, MouseState.takes, hreporting]
        rfl
      simp only [hsame, foldl_watch_pressed hreporting, SeesReleases, hreporting,
        Bool.false_eq_true, false_or]
      exact ⟨fun h b hb => (h b hb).2, fun h b hb => ⟨htracked b hb, h b hb⟩⟩

/-- A press is written unless the encoding has no form for it. -/
theorem handleEvent_press_eq_nil_iff {m : MouseState} {pos : PointerPlace}
    {button : PointerButton} {mods : MouseModifiers} :
    (m.handleEvent f.report f.size f.hover (.button pos button true mods)).2 = [] ↔
      ¬Reportable f pos button := by
  cases hbase : buttonBase button with
  | none => simp [MouseState.handleEvent, Reportable, hbase]
  | some base =>
      simp only [MouseState.handleEvent, Reportable, hbase, Option.isSome_some, true_and]
      cases hencoding : f.report.encoding with
      | sgr => simp [encodeMouse, hencoding]
      | normal =>
          simp only [encodeMouse, hencoding]
          split
          · simp
            omega
          · simp
            omega

theorem reported_press_eq_nil_iff {pre : List PointerEvent} {pos : PointerPlace}
    {button : PointerButton} {mods : MouseModifiers} :
    x.reported f pre (.button pos button true mods) = [] ↔
      (x.mouse.takes f = true → ¬Reportable f pos button) := by
  rw [reported]
  split
  · rename_i htakes
    rw [handleEvent_press_eq_nil_iff]
    simp [htakes]
  · rename_i htakes
    simp [htakes]

theorem faithful_iff (htracked : x.Tracked) :
    x.Faithful f ↔ x.SeesReleases f ∧ x.KeepsToPane f := by
  rw [Faithful, step_tracked_iff htracked]
  refine and_congr_right fun _ => ?_
  simp only [reported_press_eq_nil_iff, KeepsToPane]
  exact ⟨fun h htakes pre pos button mods hstray => h pre pos button mods hstray htakes,
    fun h pre pos button mods hstray htakes => h htakes pre pos button mods hstray⟩

/-! ## Runs -/

/-- Every frame of a run is faithful exactly when in each of them no button that
is down for the pane is released while it does not report, and no stray press
that can be reported comes among the events the pane takes. -/
theorem faithful_run_iff (frames : List PointerFrame) :
    Along step Faithful start frames ↔
      Along step (fun x f => x.SeesReleases f ∧ x.KeepsToPane f) start frames := by
  have hstart : start.Tracked := by
    intro b hdown
    cases b <;> exact absurd hdown (by decide)
  constructor
  · refine along_of_invariant (I := Tracked) ?_ ?_ hstart
    · intro x f y _ hfaithful hstep
      exact hfaithful.1 y hstep
    · intro x f htracked hfaithful
      exact (faithful_iff htracked).mp hfaithful
  · refine along_of_invariant (I := Tracked) ?_ ?_ hstart
    · intro x f y htracked hkeeps hstep
      exact ((faithful_iff htracked).mpr hkeeps).1 y hstep
    · intro x f htracked hkeeps
      exact (faithful_iff htracked).mpr hkeeps

/-- A frame over an application that wants clicks, in a grid of 80 by 24. -/
def clicks (shift pointerOver : Bool) (events : List PointerEvent) : PointerFrame :=
  ⟨true, ⟨.click, .sgr⟩, shift, pointerOver, ⟨80, 24⟩, none, events⟩

def noKeys : MouseModifiers := ⟨false, false, false, false⟩

/-- A click whose button comes up behind a held Shift. -/
def missedRelease : List PointerFrame :=
  [clicks false true [.button ⟨(2, 3), true⟩ .primary true noKeys],
    clicks true true [.button ⟨(2, 3), true⟩ .primary false noKeys]]

/-- A click over the tile on the right. -/
def clickElsewhere : PointerFrame :=
  clicks false false [.button ⟨(2, 100), false⟩ .primary true noKeys]

/-- The button stays down for the pane, which is then told of a press over
another tile. -/
theorem missedRelease_not_faithful :
    ¬Along step Faithful start missedRelease ∧
      ∃ x, run step start missedRelease = some x ∧ x.mouse.down .primary = true ∧
        x.pressed = [] ∧ x.StrayPress clickElsewhere [] ⟨(2, 100), false⟩ .primary noKeys ∧
        x.reported clickElsewhere [] (.button ⟨(2, 100), false⟩ .primary true noKeys) =
          [0x1b, 0x5b, 0x3c, 0x30, 0x3b, 0x38, 0x30, 0x3b, 0x33, 0x4d] := by
  refine ⟨fun hall => ?_, _, rfl, by decide, by decide, ⟨⟨[], rfl⟩, rfl, by decide⟩, by decide⟩
  have htracked := (hall.2 _ rfl).1.1 _ rfl .primary (by decide)
  exact absurd htracked (by decide)

end WatchedPane

end PolyTerm
