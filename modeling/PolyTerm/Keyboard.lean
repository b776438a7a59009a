import PolyTerm.App

/-!
# Keyboard and paste

One call of `route_keyboard`: the frame's events are gone through in order,
with focus moves, copies and the two shortcuts taking effect at once, and the
bytes of everything else gathered up; then the gathered bytes go to the
recipients, and then the pastes.

The bytes are gathered with the place of the event they come from, and what is
handed to a pane is logged with it: neither is in the source.
-/

namespace PolyTerm

/-! ## Events -/

inductive Key where
  | letter (index : Fin 26)
  | enter
  | backspace
  | tab
  | escape
  | arrowUp
  | arrowDown
  | arrowRight
  | arrowLeft
  | home
  | end
  | insert
  | delete
  | pageUp
  | pageDown
  /-- a key without bytes of its own -/
  | other (name : String)
deriving DecidableEq, Repr

namespace Key

def e : Key := .letter 4
def l : Key := .letter 11
def r : Key := .letter 17

/-- The byte of a letter's name. -/
def ascii (index : Fin 26) : UInt8 := 0x41 + UInt8.ofNat index

def sequence : Key → Option Bytes
  | .enter => some [0x0d]
  | .backspace => some [0x7f]
  | .tab => some [0x09]
  | .escape => some [0x1b]
  | .arrowUp => some [0x1b, 0x5b, 0x41]
  | .arrowDown => some [0x1b, 0x5b, 0x42]
  | .arrowRight => some [0x1b, 0x5b, 0x43]
  | .arrowLeft => some [0x1b, 0x5b, 0x44]
  | .home => some [0x1b, 0x5b, 0x48]
  | .end => some [0x1b, 0x5b, 0x46]
  | .insert => some [0x1b, 0x5b, 0x32, 0x7e]
  | .delete => some [0x1b, 0x5b, 0x33, 0x7e]
  | .pageUp => some [0x1b, 0x5b, 0x35, 0x7e]
  | .pageDown => some [0x1b, 0x5b, 0x36, 0x7e]
  | .letter _ | .other _ => none

/-- The focus direction of an arrow. -/
def dir : Key → Option FocusDir
  | .arrowLeft => some .left
  | .arrowRight => some .right
  | .arrowUp => some .up
  | .arrowDown => some .down
  | _ => none

end Key

/-- The bytes of a key press; `none` for a key whose character arrives as
text. -/
def encodeKey (key : Key) (ctrl alt : Bool) : Option Bytes :=
  match ctrl, key with
  | true, .letter index => some [Key.ascii index &&& 0x1f]
  | _, _ => key.sequence.map fun bytes => if alt then 0x1b :: bytes else bytes

structure Modifiers where
  ctrl : Bool
  alt : Bool
  shift : Bool
deriving DecidableEq, Repr

/-- A text is its UTF-8 bytes. -/
inductive InputEvent where
  | text (bytes : Bytes)
  | paste (bytes : Bytes)
  | copy
  | cut
  | key (key : Key) (pressed : Bool) (modifiers : Modifiers)
  | other
deriving DecidableEq, Repr

/-- A paste with a line feed in it waits for a confirmation. -/
def hasNewline (text : Bytes) : Bool := text.contains 0x0a

/-! ## One event -/

/-- Where one pass over the events stands. -/
structure Routing where
  app : App
  /-- the bytes gathered, each piece with the place of its event -/
  out : List (Nat × Bytes)
  copied : Option String
  pastes : List (Nat × Bytes)

namespace Routing

/-- Copy from the session's own selection, or interrupt when it has none. -/
def copySelection (focused : SessionId) (r : Routing) (i : Nat) : Routing :=
  match r.app.live.lookup focused with
  | none => r
  | some live =>
      let (live, text) := live.copySelection
      let app := { r.app with live := r.app.live.insert focused live }
      match text with
      | some text => { r with app := app, copied := some text }
      | none => { r with app := app, out := r.out ++ [(i, [0x03])] }

/-- `logStarts` is whether a log file could be opened. -/
def toggleLogging (logStarts : Bool) (focused : SessionId) (r : Routing) : Routing :=
  { r with app := { r.app with live := r.app.live.modify focused (·.toggleLogging logStarts) } }

def keyPress (logStarts : Bool) (focused : SessionId) (r : Routing) (i : Nat) (key : Key)
    (modifiers : Modifiers) : Routing :=
  let shortcut := modifiers.ctrl && modifiers.shift
  if shortcut && key = Key.e then { r with app := { r.app with showPanel := !r.app.showPanel } }
  else if shortcut && key = Key.l then r.toggleLogging logStarts focused
  else
    match shortcut, key.dir with
    | true, some dir => { r with app := r.app.focusNeighbor dir }
    | _, _ =>
        match encodeKey key modifiers.ctrl modifiers.alt with
        | some bytes => { r with out := r.out ++ [(i, bytes)] }
        | none => r

def event (logStarts : Bool) (focused : SessionId) (r : Routing) (e : InputEvent × Nat) :
    Routing :=
  match e.1 with
  | .text bytes => { r with out := r.out ++ [(e.2, bytes)] }
  | .paste bytes => { r with pastes := r.pastes ++ [(e.2, bytes)] }
  | .copy | .cut => r.copySelection focused e.2
  | .key key true modifiers => r.keyPress logStarts focused e.2 key modifiers
  | .key _ false _ | .other => r

/-- The pass over the events. -/
def events (logStarts : Bool) (focused : SessionId) (app : App) (events : List InputEvent) :
    Routing :=
  events.zipIdx.foldl (event logStarts focused) ⟨app, [], none, []⟩

end Routing

/-! ## Delivery -/

/-- Bytes of the event at place `event`, handed to a session's pane. -/
structure Delivery where
  event : Nat
  session : SessionId
  bytes : Bytes
deriving DecidableEq, Repr

namespace App

/-- Hand something to the live pane of each recipient. -/
def sendEach (app : App) (recipients : List SessionId) (send : LivePane → LivePane) : App :=
  { app with
    live := recipients.foldl (fun live s => live.modify s fun p => (send p).onTyped) app.live }

def deliverOut (app : App) (out : List (Nat × Bytes)) : App × List Delivery :=
  let bytes := out.flatMap Prod.snd
  if bytes.isEmpty then (app, [])
  else
    (app.sendEach app.recipients (·.sendInput bytes),
      (app.recipients.filter (· ∈ app.live)).flatMap fun s => out.map fun (i, b) => ⟨i, s, b⟩)

def deliverPaste (app : App) (text : Bytes) (recipients : List SessionId) : App :=
  app.sendEach recipients (·.sendPaste text)

/-- What a paste comes to in each live recipient. -/
def pasted (app : App) (i : Nat) (text : Bytes) : List Delivery :=
  app.recipients.filterMap fun s =>
    (app.live.lookup s).map fun p => ⟨i, s, LivePane.wrapPaste text p.bracketedPaste⟩

/-- Deliver the pastes up to the first with a newline, which is held; returns
the deliveries, with those the held paste is to make. -/
def routePastes (app : App) : List (Nat × Bytes) → App × List Delivery
  | [] => (app, [])
  | (i, text) :: rest =>
      let recipients := app.recipients
      if hasNewline text then
        ({ app with pendingPaste := some ⟨text, recipients⟩ }, recipients.map (⟨i, ·, text⟩))
      else
        let (app', delivered) := (app.deliverPaste text recipients).routePastes rest
        (app', app.pasted i text ++ delivered)

/-- The keys of a finished pane's restart menu. -/
inductive MenuKey where
  | restart
  | close
deriving DecidableEq, Repr

def menuKey : InputEvent → Option MenuKey
  | .key key true _ =>
      if key = Key.r then some .restart else if key = .enter then some .close else none
  | _ => none

/-- The app after the call, and what was delivered. -/
def routeKeyboard (lib : TileLib) (env : Env) (logStarts : Bool) (app : App)
    (events : List InputEvent) : App × List Delivery :=
  match app.focusedSession with
  | none => (app, [])
  | some focused =>
      if (app.live.lookup focused).any (·.finished) then
        match events.findSome? menuKey with
        | some .restart => (app.restartPane env focused, [])
        | some .close => (app.focused.elim app (app.closeTile lib), [])
        | none => (app, [])
      else
        let routing := Routing.events logStarts focused app events
        let (app, sent) := routing.app.deliverOut routing.out
        let (app, pasted) := app.routePastes routing.pastes
        (app, sent ++ pasted)

end App

end PolyTerm
