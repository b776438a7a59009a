import PolyTerm.Dialogs
import PolyTerm.Runs

/-!
# The frames of the application

A frame runs through the stages of `TerminalApp::ui` in order: pump the panes,
close what has ended, route the keyboard, apply the session panel's actions,
draw the tiles, run the dialogs. Each stage is a step of its own, and while
the tiles are drawn each thing the user does to one is a step. Backends act
between any two steps.

What the user and the operating system do is the label of a step. Dialogs
that change neither layout nor panes (the editor, a backend's prompt, the
settings, the folder dialogs) and text fields are seen only as something else
that may have the keyboard.
-/

namespace PolyTerm

open Tiles

/-- A click in the session panel; the other actions leave layout and panes
alone. -/
inductive PanelAction where
  | openLocalShell
  | openSaved (id : SessionId)
  | other
deriving DecidableEq, Repr

/-! ## Drawing the tiles -/

/-- What one drawing of the tiles has been asked for. `selects` are the tab
groups that switch to another child once they are drawn. -/
structure Requests where
  toggleTargets : Table TileId TileId
  sshPanes : List SessionId
  focus : Option TileId
  split : Option (TileId × SplitDir)
  close : Option TileId
  broadcast : Option TileId
  openHere : Option TileId
  forwards : Option TileId
  closeConfirm : Option TileId
  selects : List (TileId × TileId)

def Requests.none : Requests :=
  ⟨∅, [], Option.none, Option.none, Option.none, Option.none, Option.none, Option.none,
    Option.none, []⟩

/-- What the user does to a tile that is drawn. -/
inductive TileAct where
  /-- click or drag in a pane -/
  | click (tile : TileId)
  | splitPane (tile : TileId) (dir : SplitDir)
  | closePane (tile : TileId)
  | broadcast (tile : TileId)
  | openHere (tile : TileId)
  | portForwarding (tile : TileId)
  /-- the header of another tab -/
  | selectTab (group child : TileId)
  /-- the close button of a tab -/
  | closeTab (tile : TileId)
deriving DecidableEq, Repr

namespace App

/-- Only an SSH session has port forwards. -/
def paneIsSsh (env : Env) (app : App) (inst : SessionId) : Bool :=
  match app.sources.lookup inst with
  | some source => (source.spec env).any (·.kind = .ssh)
  | none => false

/-- The tile ids the app holds on to outside its tree. -/
def heldTiles (app : App) : List TileId :=
  app.focused.toList ++ app.multiExec ++ (app.confirmClose.map ConfirmClose.tile).toList

/-- What is looked up before the tiles are drawn: the group around each pane,
and which panes are SSH sessions. -/
def lookups (lib : TileLib) (env : Env) (app : App) : Requests :=
  { Requests.none with
    toggleTargets := List.toAList <| (leavesOf app.tree).filterMap fun leaf =>
      (lib.parentOf app.tree.tiles leaf.1).map fun group => ⟨leaf.1, group⟩
    sshPanes := ((leavesOf app.tree).map Prod.snd).filter (app.paneIsSsh env) }

/-- The tile is drawn as a pane. -/
def drawn (lib : TileLib) (app : App) (tile : TileId) : Bool :=
  decide (tile ∈ lib.activeTiles app.tree) && app.tree.tiles.isPane tile

/-- The tab group that draws `tile`'s header. -/
def tabGroup (lib : TileLib) (app : App) (tile : TileId) : Option Tabs :=
  (lib.parentOf app.tree.tiles tile).bind fun group =>
    match app.tree.tiles.lookup group with
    | some (.container (.tabs t)) =>
        if group ∈ lib.activeTiles app.tree then some t else none
    | _ => none

/-- A tab's close button: asks first if the tab is a pane with forwards up,
else drops the pane and lets the library take the tile out. -/
def onTabClose (lib : TileLib) (app : App) (requests : Requests) (tile : TileId) :
    App × Requests :=
  if app.hasForwards tile then (app, { requests with closeConfirm := some tile })
  else
    let live := match app.tree.tiles.getPane tile with
      | some inst => app.live.erase inst
      | none => app.live
    ({ app with live := live, tree := lib.dropTab app.tree tile }, requests)

/-- The layout settles, and every tile gets its place. -/
def settle (lib : TileLib) (app : App) (rects : Table TileId Rect) : App :=
  { app with tree := lib.settle app.heldTiles app.tree, rects := rects }

def act (lib : TileLib) (app : App) (requests : Requests) : TileAct → Option (App × Requests)
  | .click tile =>
      if app.drawn lib tile then some (app, { requests with focus := some tile }) else none
  | .splitPane tile dir =>
      if app.drawn lib tile then some (app, { requests with split := some (tile, dir) }) else none
  | .closePane tile =>
      if app.drawn lib tile then some (app, { requests with close := some tile }) else none
  | .broadcast tile =>
      if app.drawn lib tile then
        (requests.toggleTargets.lookup tile).map fun group =>
          (app, { requests with broadcast := some group })
      else none
  | .openHere tile =>
      if app.drawn lib tile && (app.paneAt tile).isNone then
        some (app, { requests with openHere := some tile })
      else none
  | .portForwarding tile =>
      if app.drawn lib tile && (app.tree.tiles.getPane tile).any (· ∈ requests.sshPanes) then
        some (app, { requests with forwards := some tile })
      else none
  | .selectTab group child =>
      match app.tabGroup lib child with
      | some _ =>
          if lib.parentOf app.tree.tiles child = some group then
            some (app, { requests with selects := requests.selects ++ [(group, child)] })
          else none
      | none => none
  | .closeTab tile => (app.tabGroup lib tile).map fun _ => app.onTabClose lib requests tile

end App

namespace App

/-- Fill an empty pane with a local shell, from its own menu. -/
def openHere (env : Env) (app : App) (tile : TileId) : App :=
  match (app.tree.tiles.getPane tile).filter (· ∉ app.live) with
  | some inst =>
      { (app.openSource env inst (.adhoc localShellSpec)).1 with focused := some tile }
  | none => app

/-- Switch broadcast on or off for a group. -/
def toggleBroadcast (app : App) (group : TileId) : App :=
  if group ∈ app.multiExec then { app with multiExec := app.multiExec.erase group }
  else { app with multiExec := group :: app.multiExec }

def openForwards (app : App) (tile : TileId) : App :=
  match app.tree.tiles.getPane tile with
  | some inst => { app with forwardsDialog := some ⟨inst, .default⟩ }
  | none => app

/-- Forget what is left over of panes and tiles that are gone. -/
def forget (app : App) : App :=
  { app with
    sources := Table.retain (fun id _ => id ∈ app.live) app.sources
    multiExec := app.multiExec.filter fun tile => (app.tree.tiles.lookup tile).isSome }

/-- The tab groups switch, once they are drawn. -/
def applySelects (app : App) (selects : List (TileId × TileId)) : App :=
  { app with tree := selects.foldl (fun tree select => tree.select select.1 select.2) app.tree }

/-- The requests that focus, split and fill. -/
def applyOpenings (lib : TileLib) (env : Env) (app : App) (requests : Requests) : App :=
  let app := { app with focused := requests.focus.or app.focused }
  let app := requests.split.elim app fun split => app.applySplit lib split.1 split.2
  requests.openHere.elim app (app.openHere env)

/-- The requests that ask before a close, manage forwards, or switch
broadcast. -/
def applyDialogs (app : App) (requests : Requests) : App :=
  let app := requests.closeConfirm.elim app app.askClose
  let app := requests.forwards.elim app app.openForwards
  requests.broadcast.elim app app.toggleBroadcast

/-- What one drawing of the tiles was asked for, in order. -/
def applyRequests (lib : TileLib) (env : Env) (app : App) (requests : Requests) : App :=
  let app := (app.applySelects requests.selects).applyOpenings lib env requests
  let app := requests.close.elim app (app.requestCloseTile lib)
  ((app.applyDialogs requests).forget).validateFocus lib

/-! ## The other stages -/

def applyPanelAction (lib : TileLib) (env : Env) (app : App) : PanelAction → App
  | .openLocalShell => app.openInActiveTile lib env (.adhoc localShellSpec)
  | .openSaved id => app.openInActiveTile lib env (.saved id)
  | .other => app

/-- The panel is shown while nothing is open. -/
def sessionPanel (lib : TileLib) (env : Env) (app : App) (actions : List PanelAction) : App :=
  if app.showPanel || app.tree.root.isNone then
    actions.foldl (fun app action => app.applyPanelAction lib env action) app
  else app

def pump (fed : SessionId → LivePane.Fed) (app : App) : App :=
  { app with live := Table.mapValues (fun s live => (live.pump (fed s)).1) app.live }

/-- Something other than the panes has the keyboard. `elsewhere` is a text
field, or a dialog that is not modelled. -/
def dialogOpen (app : App) (elsewhere : Bool) : Bool :=
  elsewhere || app.pendingPaste.isSome || app.forwardsDialog.isSome || app.confirmClose.isSome

def keyboard (lib : TileLib) (env : Env) (logStarts elsewhere : Bool) (app : App)
    (events : List InputEvent) : App :=
  if app.dialogOpen elsewhere then app else (app.routeKeyboard lib env logStarts events).1

end App

/-- What a session's backend does to its pane's channels. -/
inductive BackendOp where
  | report (event : TransportEvent)
  | takeInput
  | takeControl
  /-- it returns, and drops its ends -/
  | hangUp
deriving DecidableEq, Repr

def LivePane.backend (p : LivePane) : BackendOp → LivePane
  | .report event => if p.eventsEnded then p else { p with events := p.events ++ [event] }
  | .takeInput => { p with input := (p.input.recv.map Prod.snd).getD p.input }
  | .takeControl => { p with control := (p.control.recv.map Prod.snd).getD p.control }
  | .hangUp => { p with input := p.input.close, control := p.control.close, eventsEnded := true }

/-! ## Runs -/

inductive Stage where
  | stopped
  /-- between two frames -/
  | pump
  | close
  | keyboard
  | panel
  | draw
  | tiles
  | paste
  | forwards
  | confirmClose
  | settings
deriving DecidableEq, Repr

/-- What is kept from one run of the program to the next. -/
structure Storage where
  restoreEnabled : Bool
  openShellOnStartup : Bool
  layout : Option PersistedLayout

structure Window where
  stage : Stage
  app : App
  requests : Requests
  storage : Storage

inductive FrameStep where
  | launch (env : Env) (initial : SessionSpec)
  | backend (s : SessionId) (op : BackendOp)
  | pump (fed : SessionId → LivePane.Fed)
  | closeFinished
  | keys (env : Env) (logStarts elsewhere : Bool) (events : List InputEvent)
  | panel (env : Env) (actions : List PanelAction)
  | draw (env : Env) (rects : Table TileId Rect)
  | act (act : TileAct)
  | drawn (env : Env)
  | pasteDialog (input : DialogInput)
  | forwardsDialog (input : ForwardsInput)
  | confirmCloseDialog (input : DialogInput)
  /-- the two startup settings, if they were changed -/
  | settings (choice : Option (Bool × Bool))
  | save
  /-- save, and end the process -/
  | quit

/-- The tab whose close button is pressed. -/
def FrameStep.closedTab : FrameStep → Option TileId
  | .act (.closeTab tile) => some tile
  | _ => none

namespace Window

/-- Before the program's first start. -/
def start : Window where
  stage := .stopped
  app := .empty 0 false true
  requests := .none
  storage := ⟨false, true, none⟩

def stored (w : Window) : Storage :=
  ⟨w.app.restoreEnabled, w.app.openShellOnStartup, some w.app.layout⟩

/-- `w` with the app at the next stage. -/
def next (w : Window) (stage : Stage) (app : App) : Window := { w with stage := stage, app := app }

def step (lib : TileLib) (w : Window) : FrameStep → Option Window
  | .launch env initial =>
      if w.stage = .stopped then
        some (w.next .pump (.new lib env w.app.minted w.storage.restoreEnabled
          w.storage.openShellOnStartup w.storage.layout initial))
      else none
  | .backend s op =>
      some { w with app := { w.app with live := w.app.live.modify s (·.backend op) } }
  | .pump fed => if w.stage = .pump then some (w.next .close (w.app.pump fed)) else none
  | .closeFinished =>
      if w.stage = .close then
        some (w.next .keyboard ((w.app.closeFinishedPanes lib).validateFocus lib))
      else none
  | .keys env logStarts elsewhere events =>
      if w.stage = .keyboard then
        some (w.next .panel (w.app.keyboard lib env logStarts elsewhere events))
      else none
  | .panel env actions =>
      if w.stage = .panel then some (w.next .draw (w.app.sessionPanel lib env actions)) else none
  | .draw env rects =>
      if w.stage = .draw then
        some { w with
          stage := .tiles
          app := w.app.settle lib rects
          requests := w.app.lookups lib env }
      else none
  | .act act =>
      if w.stage = .tiles then
        (w.app.act lib w.requests act).map fun (app, requests) =>
          { w with app := app, requests := requests }
      else none
  | .drawn env =>
      if w.stage = .tiles then some (w.next .paste (w.app.applyRequests lib env w.requests))
      else none
  | .pasteDialog input =>
      if w.stage = .paste then some (w.next .forwards (w.app.showPasteConfirmDialog input))
      else none
  | .forwardsDialog input =>
      if w.stage = .forwards then some (w.next .confirmClose (w.app.showForwardsDialog input))
      else none
  | .confirmCloseDialog input =>
      if w.stage = .confirmClose then
        some (w.next .settings (w.app.showConfirmCloseDialog lib input))
      else none
  | .settings choice =>
      if w.stage = .settings then
        some (w.next .pump (choice.elim w.app fun (restore, shell) =>
          { w.app with restoreEnabled := restore, openShellOnStartup := shell }))
      else none
  | .save => if w.stage = .pump then some { w with storage := w.stored } else none
  | .quit =>
      if w.stage = .pump then
        some { w with stage := .stopped, app := { w.app with live := ∅ }, storage := w.stored }
      else none

end Window

/-! ## A frame in a piece -/

/-- No button is pressed. -/
def DialogInput.idle : DialogInput := ⟨false, false, false⟩

def ForwardsInput.idle : ForwardsInput := ⟨false, .default, none, false⟩

/-- The output that leaves a pane's terminal blank. -/
def LivePane.Fed.blank : LivePane.Fed := ⟨⟨80, List.replicate 24 (List.replicate 80 ' ')⟩, false, []⟩

/-- What the user does in a frame; the rest is left alone. -/
structure UserInput where
  events : List InputEvent := []
  panel : List PanelAction := []
  acts : List TileAct := []
  forwards : ForwardsInput := .idle
  confirm : DialogInput := .idle

/-- A frame up to its close confirmation. -/
def frameToConfirm (env : Env) (input : UserInput) : List FrameStep :=
  [.pump fun _ => .blank, .closeFinished, .keys env false false input.events,
      .panel env input.panel, .draw env ∅] ++ input.acts.map FrameStep.act ++
    [.drawn env, .pasteDialog .idle, .forwardsDialog input.forwards]

def frame (env : Env) (input : UserInput) : List FrameStep :=
  frameToConfirm env input ++ [.confirmCloseDialog input.confirm, .settings none]

end PolyTerm
