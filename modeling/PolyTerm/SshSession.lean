import PolyTerm.Forward
import PolyTerm.Pane

/-!
# One SSH session

The pane, the channels and the backend task of one session, as a step function
over every interleaving of what the UI does, what the network answers and what
the forward tasks get round to. `run` is unrolled into phases, one per await
point: a lifecycle event is sent when the phase reaches it (`emit`), and the
send waits while the event channel is full.

Setting a connection up is left to the environment: any prompts, then success
or failure. Time appears only as the length of the backoff.
-/

namespace PolyTerm

inductive Phase where
  | connecting
  | establishing
  /-- setup failed; `disconnected` is being sent -/
  | failing (message : String)
  | authenticated
  | opening
  | opened
  | pumping (exited : Bool)
  /-- the pump has ended; `disconnected` is being sent -/
  | closing (reason : DisconnectReason)
  | waiting
  | ended
deriving DecidableEq, Repr

def Phase.isPumping : Phase → Bool
  | .pumping _ => true
  | _ => false

def initialBackoff : Nat := 1
def maxBackoff : Nat := 30

structure Session where
  pane : LivePane
  /-- the pane was dropped -/
  uiClosed : Bool
  /-- from the backend to the relay task -/
  events : Fifo TransportEvent
  phase : Phase
  /-- the forwards of the connection being pumped; empty otherwise -/
  connection : Connection
  /-- tasks that outlived their connection -/
  earlier : Table ForwardId Forward
  connectedBefore : Bool
  backoff : Nat
  size : UInt16 × UInt16
  /-- the forward ids handed out so far -/
  minted : List ForwardId
  /-- `disconnected` was sent and no `connected` since -/
  linkDown : Bool

/-- What the shell channel yields; `gone` is its end without a close. -/
inductive ChannelMsg where
  | data
  | extendedData
  | exitStatus
  | eof
  | close
  | other
  | gone
deriving DecidableEq, Repr

inductive SessionLabel where
  -- the UI
  | sendInput (bytes : Bytes)
  | sendBestEffort (bytes : Bytes)
  | pumpPane (fed : LivePane.Fed)
  | addForward (id : ForwardId) (spec : ForwardSpec)
  | removeForward (id : ForwardId)
  | resize (cols rows : UInt16)
  | closePane
  /-- the relay task carries one event to the pane -/
  | relay
  /-- the relay task ends: nothing can send it an event any more -/
  | relayEnds
  -- setting a connection up
  | prompt (p : PendingPrompt)
  | agentError (message : String)
  | established
  | establishFailed (message : String)
  | shellOpened
  | shellFailed (message : String)
  /-- the backend sends the event its phase has reached -/
  | emit
  -- the pump and the backoff
  | readInput (written : Bool)
  | readControl
  | channel (msg : ChannelMsg)
  | backoffElapsed
  -- the forward tasks
  | forward (op : ForwardOp)
  | earlierReply (id : ForwardId) (refused : Option String)
  | earlierReport (id : ForwardId)

namespace Session

def start (onExit : ExitAction) : Session where
  pane := .new onExit
  uiClosed := false
  events := .empty eventChannelCapacity
  phase := .connecting
  connection := .empty
  earlier := ∅
  connectedBefore := false
  backoff := initialBackoff
  size := (80, 24)
  minted := []
  linkDown := false

/-! ## The backend's moves -/

/-- Send an event: it waits while the channel is full, and goes nowhere once
the pane is gone. -/
def send (s : Session) (e : TransportEvent) : Option Session :=
  if s.uiClosed then some s
  else match s.events.trySend e with
    | .ok events => some { s with events := events }
    | .error _ => none

/-- `run` returns: the backend's channel ends are dropped. -/
def finish (s : Session) : Session :=
  { s with
    phase := .ended
    pane := { s.pane with input := s.pane.input.close, control := s.pane.control.close } }

/-- The pump breaks: the forwards are dropped with the connection. -/
def endPump (s : Session) (reason : DisconnectReason) : Session :=
  { s with
    phase := .closing reason
    connection := .empty
    earlier := s.earlier ∪ s.connection.abortAll }

/-- Only a link that was up and went down is reconnected. -/
def reconnects : DisconnectReason → Bool
  | .timeout | .failed _ => true
  | _ => false

def retry (s : Session) : Session :=
  { s with phase := .connecting, backoff := min (s.backoff * 2) maxBackoff }

def emit (s : Session) : Option Session :=
  match s.phase with
  | .connecting => (s.send .connecting).map fun s => { s with phase := .establishing }
  | .failing message =>
      (s.send (.disconnected (.failed message))).map fun s =>
        let s := { s with linkDown := true }
        if s.connectedBefore then { s with phase := .waiting } else s.finish
  | .authenticated => (s.send .authenticated).map fun s => { s with phase := .opening }
  | .opened =>
      (s.send .connected).map fun s => { s with phase := .pumping false, linkDown := false }
  | .closing reason =>
      (s.send (.disconnected reason)).map fun s =>
        let s := { s with linkDown := true }
        if reconnects reason then { s with phase := .waiting } else s.finish
  | _ => none

/-- The pump is at its `select`: connected, and not in the middle of a removal. -/
def selecting (s : Session) : Bool := s.phase.isPumping && s.connection.stopping.isNone

/-- Write the oldest chunk to the shell channel. -/
def readInput (s : Session) (written : Bool) : Option Session :=
  if !s.selecting then none
  else match s.pane.input.recv with
    | some (_, input) =>
        let s := { s with pane := { s.pane with input := input } }
        some (if written then s else s.endPump (.failed "write to channel failed"))
    | none => if s.uiClosed then some (s.endPump .local) else none

def handleControl (s : Session) : ControlMsg → Session
  | .resize cols rows => { s with size := (cols, rows) }
  | .addForward id spec => { s with connection := s.connection.start id spec }
  | .removeForward id => { s with connection := s.connection.stop id }
  | .disconnect => s.endPump .local
  | _ => s

/-- While backing off only `reconnect` and `disconnect` count. -/
def backoffControl (s : Session) : ControlMsg → Session
  | .reconnect => s.retry
  | .disconnect => s.finish
  | _ => s

def readControl (s : Session) : Option Session :=
  if s.selecting then
    match s.pane.control.recv with
    | some (msg, control) =>
        some (({ s with pane := { s.pane with control := control } } : Session).handleControl msg)
    | none => if s.uiClosed then some (s.endPump .local) else none
  else if s.phase = .waiting then
    match s.pane.control.recv with
    | some (msg, control) =>
        some (({ s with pane := { s.pane with control := control } } : Session).backoffControl msg)
    | none => if s.uiClosed then some s.finish else none
  else none

def readChannel (s : Session) (msg : ChannelMsg) : Option Session :=
  match s.phase with
  | .pumping exited =>
      if s.connection.stopping.isSome then none
      else match msg with
        | .data => some (if s.uiClosed then s.endPump .local else s)
        | .exitStatus => some { s with phase := .pumping true }
        | .close => some (s.endPump .remote)
        | .gone => some (s.endPump (if exited then .remote else .timeout))
        | .extendedData | .eof | .other => some s
  | _ => none

/-- A task, or the removal in progress, moves on; a report waits for room. -/
def forwardStep (s : Session) (op : ForwardOp) : Option Session :=
  match op with
  | .add _ _ | .remove _ => none
  | op => (s.connection.step op).bind fun connection =>
      match s.connection.emits op with
      | some status => (s.send (.forwardStatus status)).map fun s => { s with connection := connection }
      | none => some { s with connection := connection }

def earlierReply (s : Session) (id : ForwardId) (refused : Option String) : Option Session :=
  match s.earlier.lookup id with
  | some ⟨spec, .asking⟩ =>
      let f : Forward := ⟨spec, .reporting (Connection.outcomeOf spec refused)⟩
      some { s with earlier := s.earlier.insert id f }
  | _ => none

def earlierReport (s : Session) (id : ForwardId) : Option Session :=
  match s.earlier.lookup id with
  | some ⟨spec, .reporting outcome⟩ =>
      (s.send (.forwardStatus ⟨id, spec, outcome⟩)).map fun s =>
        { s with earlier := s.earlier.insert id ⟨spec, .settled outcome⟩ }
  | _ => none

/-- A step of the pane; there is none once it is dropped. -/
def onPane (s : Session) (f : LivePane → LivePane) : Option Session :=
  if s.uiClosed then none else some { s with pane := f s.pane }

/-! ## The step function -/

def step (s : Session) : SessionLabel → Option Session
  | .sendInput bytes => s.onPane (·.sendInput bytes)
  | .sendBestEffort bytes => s.onPane (·.sendBestEffort bytes)
  | .pumpPane fed => s.onPane fun p => (p.pump fed).1
  | .addForward id spec =>
      if id ∈ s.minted then none
      else ({ s with minted := id :: s.minted } : Session).onPane (·.addForward id spec)
  | .removeForward id => if id ∈ s.pane.forwards then s.onPane (·.removeForward id) else none
  | .resize cols rows => s.onPane fun p =>
      { p with control := (p.control.trySend (.resize cols rows)).toOption.getD p.control }
  | .closePane => if s.uiClosed then none else some { s with uiClosed := true }
  | .relay =>
      match s.events.recv with
      | some (e, events) =>
          some { s with
            events := events
            pane := { s.pane with events := s.pane.events ++ [e] } }
      | none => none
  | .relayEnds =>
      if s.phase = .ended ∧ s.events.queue = [] then
        some { s with pane := { s.pane with eventsEnded := true } }
      else none
  | .prompt p =>
      if s.phase = .establishing then
        s.send (match p with
          | .hostKey prompt => .hostKey prompt
          | .credential prompt => .credential prompt)
      else none
  | .agentError message => if s.phase = .establishing then s.send (.error message) else none
  | .established =>
      if s.phase = .establishing then
        some { s with phase := .authenticated, connectedBefore := true, backoff := initialBackoff }
      else none
  | .establishFailed message =>
      if s.phase = .establishing then some { s with phase := .failing message } else none
  | .shellOpened => if s.phase = .opening then some { s with phase := .opened } else none
  | .shellFailed message =>
      if s.phase = .opening then
        some { s with phase := .closing (.failed ("could not open shell: " ++ message)) }
      else none
  | .emit => s.emit
  | .readInput written => s.readInput written
  | .readControl => s.readControl
  | .channel msg => s.readChannel msg
  | .backoffElapsed => if s.phase = .waiting then some s.retry else none
  | .forward op => s.forwardStep op
  | .earlierReply id refused => s.earlierReply id refused
  | .earlierReport id => s.earlierReport id

end Session

end PolyTerm
