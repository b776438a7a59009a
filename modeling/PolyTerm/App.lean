import PolyTerm.Neighbor
import PolyTerm.Pane
import PolyTerm.Recipients
import PolyTerm.TileSurgery

/-!
# The terminal application

The layout tree, the live pane behind each of its leaves, how to reopen each
of them, and where the keyboard goes. Layout and live state are joined only by
the pane instance's id: a leaf without a live pane is an empty split half.

What opening a session needs from outside (the session library, the spawner)
is an `Env`. Instances are minted from a counter.
-/

namespace PolyTerm

open Tiles

/-! ## Sessions to open -/

inductive SessionKind where
  | ssh
  | serial
  | localShell
  | rdp
deriving DecidableEq, Repr

structure SessionSpec where
  name : String
  kind : SessionKind
  onExit : ExitAction
deriving DecidableEq, Repr

def localShellSpec : SessionSpec := ⟨"Local shell", .localShell, .prompt⟩

/-- How to reopen a pane. -/
inductive PaneSource where
  | saved (id : SessionId)
  | adhoc (spec : SessionSpec)
deriving DecidableEq, Repr

structure Env where
  /-- the saved sessions, as far as the library is available -/
  getSession : SessionId → Option SessionSpec
  /-- the error, when the session of a pane could not even begin -/
  spawn : SessionId → SessionSpec → Option String

/-- The spec to open; a saved session may be gone. -/
def PaneSource.spec (env : Env) : PaneSource → Option SessionSpec
  | .adhoc spec => some spec
  | .saved id => env.getSession id

/-! ## The state -/

structure PersistedLayout where
  tree : Tree
  sources : List (SessionId × PaneSource)
  focused : Option TileId

/-- A paste held for confirmation, with its recipients as of the paste. -/
structure PendingPaste where
  text : Bytes
  recipients : List SessionId

/-- The draft of a forward, as typed. -/
structure ForwardForm where
  kind : ForwardKind
  bindHost : String
  bindPort : String
  targetHost : String
  targetPort : String
  error : Option String
deriving DecidableEq, Repr

def ForwardForm.default : ForwardForm := ⟨.local, "127.0.0.1", "", "", "", none⟩

structure ForwardsDialog where
  pane : SessionId
  form : ForwardForm

/-- The tile whose close waits for an answer. `raisedFor`, the instance that
was there when the question was raised, is not in the source: it records what
the user was asked about. -/
structure ConfirmClose where
  tile : TileId
  raisedFor : Option SessionId
deriving DecidableEq, Repr

structure App where
  tree : Tree
  /-- where the tiles were last laid out -/
  rects : Table TileId Rect
  live : Table SessionId LivePane
  sources : Table SessionId PaneSource
  focused : Option TileId
  /-- the broadcast-enabled tiles, in iteration order -/
  multiExec : List TileId
  pendingPaste : Option PendingPaste
  forwardsDialog : Option ForwardsDialog
  confirmClose : Option ConfirmClose
  showPanel : Bool
  restoreEnabled : Bool
  openShellOnStartup : Bool
  lastError : Option String
  /-- ids below this one have been handed out -/
  minted : Nat

namespace App

def empty (minted : Nat) (restoreEnabled openShellOnStartup : Bool) : App where
  tree := ⟨none, ∅⟩
  rects := ∅
  live := ∅
  sources := ∅
  focused := none
  multiExec := []
  pendingPaste := none
  forwardsDialog := none
  confirmClose := none
  showPanel := true
  restoreEnabled := restoreEnabled
  openShellOnStartup := openShellOnStartup
  lastError := none
  minted := minted

/-! ## Focus -/

/-- The instance of the focused pane, or of the first pane below a focused
container. -/
def focusedSession (app : App) : Option SessionId :=
  app.focused.bind fun focused => (sessionIds app.tree.tiles focused).head?

def recipients (app : App) : List SessionId :=
  match app.focused with
  | some focused => resolveRecipients app.tree.tiles app.multiExec focused
  | none => []

/-- The panes other than the focused one that have been laid out. -/
def otherPanes (app : App) (focused : TileId) : List (TileId × Rect) :=
  app.tree.tiles.entries.filterMap fun e =>
    match e.2 with
    | .pane _ => if e.1 = focused then none else (app.rects.lookup e.1).map fun r => (e.1, r)
    | .container _ => none

/-- The pane a directional move goes to. -/
def neighbor (app : App) (dir : FocusDir) : Option TileId :=
  app.focused.bind fun focused => (app.rects.lookup focused).bind fun origin =>
    pickNeighbor (app.otherPanes focused) origin dir

def focusNeighbor (app : App) (dir : FocusDir) : App :=
  match app.neighbor dir with
  | some next => { app with focused := some next }
  | none => app

/-- Keep a focus that is on a pane; else go to the first visible one. -/
def validateFocus (lib : TileLib) (app : App) : App :=
  if app.focused.any app.tree.tiles.isPane then app
  else { app with focused := (lib.activeTiles app.tree).find? app.tree.tiles.isPane }

/-! ## Opening -/

/-- Spawn `source` as the live pane of `inst`; the layout is the caller's. -/
def openSource (env : Env) (app : App) (inst : SessionId) (source : PaneSource) : App × Bool :=
  match source.spec env with
  | none => ({ app with lastError := some "A saved session no longer exists." }, false)
  | some spec =>
      match env.spawn inst spec with
      | none =>
          ({ app with
              live := app.live.insert inst (.new spec.onExit)
              sources := app.sources.insert inst source
              lastError := none }, true)
      | some e => ({ app with lastError := some ("Could not open " ++ spec.name ++ ": " ++ e) }, false)

/-- A fresh instance id. -/
def mint (app : App) : SessionId × App := (⟨app.minted⟩, { app with minted := app.minted + 1 })

def makeLive (env : Env) (app : App) (source : PaneSource) : Option SessionId × App :=
  let (inst, app) := app.mint
  let (app, opened) := app.openSource env inst source
  (if opened then some inst else none, app)

/-- Open `source` at the fresh leaf that `place` makes for it, and focus it. -/
def openAt (env : Env) (place : Tree → SessionId → TileId × Tree) (app : App)
    (source : PaneSource) : App :=
  match app.makeLive env source with
  | (some inst, app) =>
      let (leaf, tree) := place app.tree inst
      { app with tree := tree, focused := some leaf }
  | (none, app) => app

def openInNewTab (lib : TileLib) (env : Env) (app : App) (source : PaneSource) : App :=
  app.openAt env (attachPane lib) source

/-- Fill the focused pane if it is an empty half, else open a tab beside it;
with no focused pane, attach to the root. -/
def openInActiveTile (lib : TileLib) (env : Env) (app : App) (source : PaneSource) : App :=
  match app.focused.filter app.tree.tiles.isPane with
  | none => app.openAt env (attachPane lib) source
  | some focused =>
      match (app.tree.tiles.getPane focused).filter (· ∉ app.live) with
      | some inst => (app.openSource env inst source).1
      | none => app.openAt env (fun tree => addTabBeside lib tree focused) source

/-- The new half is left empty and focused. -/
def applySplit (lib : TileLib) (app : App) (tile : TileId) (dir : SplitDir) : App :=
  match app.tree.tiles.getPane tile with
  | none => app
  | some existing =>
      let (inst, app) := app.mint
      let (leaf, tree) := splitTile lib app.tree existing inst tile dir
      { app with tree := tree, focused := some leaf }

/-- Reopen the recorded source under the same instance. -/
def restartPane (env : Env) (app : App) (inst : SessionId) : App :=
  match app.sources.lookup inst with
  | some source => (app.openSource env inst source).1
  | none => app

/-! ## Closing -/

def closeTile (lib : TileLib) (app : App) (tile : TileId) : App :=
  let (removed, tree) := lib.removeRecursively app.tree tile
  let closed := removed.filterMap Tile.session
  { app with
    tree := if app.tree.root = some tile then { tree with root := none } else tree
    live := closed.foldl (fun live id => live.erase id) app.live
    sources := closed.foldl (fun sources id => sources.erase id) app.sources }

/-- The live pane of a pane tile. -/
def paneAt (app : App) (tile : TileId) : Option LivePane :=
  (app.tree.tiles.getPane tile).bind app.live.lookup

/-- Whether closing the pane at `tile` would tear a tunnel down. -/
def hasForwards (app : App) (tile : TileId) : Bool :=
  (app.paneAt tile).any fun live => 0 < live.activeForwardCount

/-- Ask before a close of `tile`. -/
def askClose (app : App) (tile : TileId) : App :=
  { app with confirmClose := some ⟨tile, app.tree.tiles.getPane tile⟩ }

def requestCloseTile (lib : TileLib) (app : App) (tile : TileId) : App :=
  if app.hasForwards tile then app.askClose tile else app.closeTile lib tile

/-- The session has ended and its pane is set to close on exit. -/
def closesOnExit (live : LivePane) : Bool := live.finished && live.onExit = .close

def closeFinishedPanes (lib : TileLib) (app : App) : App :=
  let toClose := app.tree.tiles.entries.filterMap fun e =>
    match e.2 with
    | .pane inst => if (app.live.lookup inst).any closesOnExit then some e.1 else none
    | .container _ => none
  toClose.foldl (closeTile lib) app

/-! ## Saving and restoring the layout -/

def layout (app : App) : PersistedLayout where
  tree := app.tree
  sources := app.sources.entries.map fun e => (e.1, e.2)
  focused := app.focused

/-- The panes of a tree, in the order its table is iterated. -/
def leavesOf (tree : Tree) : List (TileId × SessionId) :=
  tree.tiles.entries.filterMap fun e => e.2.session.map fun inst => (e.1, inst)

/-- Reopen the pane of one leaf, or drop the leaf. -/
def restoreLeaf (lib : TileLib) (env : Env) (sources : Table SessionId PaneSource)
    (acc : App × Bool) (leaf : TileId × SessionId) : App × Bool :=
  let (app, any) := acc
  let (app, opened) := match sources.lookup leaf.2 with
    | some source => app.openSource env leaf.2 source
    | none => (app, false)
  if opened then (app, true) else (app.closeTile lib leaf.1, any)

/-- Adopt a saved layout and reopen its panes; whether any came back. -/
def restore (lib : TileLib) (env : Env) (app : App) (layout : PersistedLayout) : App × Bool :=
  let app := { app with tree := layout.tree }
  let sources := layout.sources.foldl (fun sources e => sources.insert e.1 e.2) ∅
  let (app, any) := (leavesOf app.tree).foldl (restoreLeaf lib env sources) (app, false)
  (validateFocus lib { app with focused := layout.focused }, any)

/-- The app at startup: the saved layout, or the initial session. -/
def new (lib : TileLib) (env : Env) (minted : Nat) (restoreEnabled openShellOnStartup : Bool)
    (saved : Option PersistedLayout) (initial : SessionSpec) : App :=
  let app := empty minted restoreEnabled openShellOnStartup
  let (app, restored) := match restoreEnabled, saved with
    | true, some layout => app.restore lib env layout
    | _, _ => (app, false)
  if !restored && (initial.kind != .localShell || openShellOnStartup) then
    app.openInNewTab lib env (.adhoc initial)
  else app

end App

end PolyTerm
