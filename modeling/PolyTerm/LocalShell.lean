import PolyTerm.PtyControl
import PolyTerm.Relay
import PolyTerm.Serial

/-!
# A local shell and its pane

`PtyTransport::spawn` leaves three tasks behind: one reads the PTY, one writes
to it, and the controller of `PtyControl` looks after the shell. `LivePane::new`
adds two, which relay the output and the events to the pane. The tasks know of
each other through channels only. A step is one turn of one of them, a move of
the pane at its own end, or the exit of the shell; what the PTY answers to a
read or a write is the environment's.
-/

namespace PolyTerm

def uiOutputCapacity : Nat := 256

structure LocalShell where
  pty : Pty
  /-- receives from the PTY -/
  reader : Relay Bytes
  /-- sends to the PTY -/
  writer : Relay Bytes
  outputRelay : Relay Bytes
  eventsRelay : Relay TransportEvent
  /-- relayed to the pane and not yet fed to its terminal -/
  output : Fifo Bytes
  /-- relayed to the pane and not yet drained; unbounded -/
  events : List TransportEvent
  /-- the pane's receiver of `events` was dropped -/
  eventsDropped : Bool

inductive ShellLabel where
  | pane (move : UiMove)
  | controller (label : PtyLabel)
  | read (result : ReadResult)
  | sendOutput
  | takeInput
  /-- `results` are the answers to the writes of a chunk -/
  | write (results : List WriteResult)
  | takeOutput
  | giveOutput
  | takeEvent
  | giveEvent
deriving DecidableEq, Repr

namespace LocalShell

def start : LocalShell where
  pty := .start
  reader := .receiving
  writer := .receiving
  outputRelay := .receiving
  eventsRelay := .receiving
  output := .empty uiOutputCapacity
  events := []
  eventsDropped := false

def setPair (s : LocalShell) (pair : TransportPair) : LocalShell :=
  { s with pty := { s.pty with pair := pair } }

/-- The pane's end: what it takes has been relayed to it, what it sends goes to
the tasks of the shell directly. -/
def pane (s : LocalShell) : UiMove → Option LocalShell
  | .takeOutput => s.output.recv.map fun r => { s with output := r.2 }
  | .takeEvent =>
      match s.events with
      | [] => none
      | _ :: rest => some { s with events := rest }
  | .dropOutput => some { s with output := s.output.close }
  | .dropEvents => some { s with events := [], eventsDropped := true }
  | move => (s.pty.pair.ui move).map s.setPair

def controller (s : LocalShell) : PtyLabel → Option LocalShell
  | .ui _ => none
  | label => (s.pty.step label).map fun pty => { s with pty := pty }

/-- An empty read is the end of the PTY. -/
def read (s : LocalShell) (result : ReadResult) : Option LocalShell :=
  if s.reader = .receiving then
    match result with
    | .data bytes =>
        if bytes = [] then some { s with reader := .ended }
        else if bytes.length ≤ readChunk then some { s with reader := .sending bytes }
        else none
    | .interrupted => some s
    | .timedOut | .failed => some { s with reader := .ended }
  else none

def sendOutput (s : LocalShell) : Option LocalShell :=
  (s.reader.give s.pty.pair.output).map fun r =>
    { s.setPair { s.pty.pair with output := r.2 } with reader := r.1 }

def takeInput (s : LocalShell) : Option LocalShell :=
  (s.writer.take s.pty.pair.input s.pty.pair.inputEnded).map fun r =>
    { s.setPair { s.pty.pair with input := r.2 } with writer := r.1 }

/-- A write that fails ends the task. -/
def write (s : LocalShell) (results : List WriteResult) : Option LocalShell :=
  match s.writer with
  | .sending bytes => (writeAll bytes results).map fun r =>
      if r.2 then { s with writer := .receiving }
      else { s.setPair { s.pty.pair with input := s.pty.pair.input.close } with writer := .ended }
  | _ => none

def takeOutput (s : LocalShell) : Option LocalShell :=
  (s.outputRelay.take s.pty.pair.output s.reader.isEnded).map fun r =>
    { s.setPair { s.pty.pair with output := r.2 } with outputRelay := r.1 }

/-- A relay that ends drops its receiver. -/
def giveOutput (s : LocalShell) : Option LocalShell :=
  (s.outputRelay.give s.output).map fun r =>
    let output := if r.1.isEnded then s.pty.pair.output.close else s.pty.pair.output
    { s.setPair { s.pty.pair with output := output } with outputRelay := r.1, output := r.2 }

def takeEvent (s : LocalShell) : Option LocalShell :=
  (s.eventsRelay.take s.pty.pair.events (s.pty.phase = .ended)).map fun r =>
    { s.setPair { s.pty.pair with events := r.2 } with eventsRelay := r.1 }

def giveEvent (s : LocalShell) : Option LocalShell :=
  match s.eventsRelay with
  | .sending e =>
      if s.eventsDropped then
        some { s.setPair { s.pty.pair with events := s.pty.pair.events.close } with
          eventsRelay := .ended }
      else some { s with eventsRelay := .receiving, events := s.events ++ [e] }
  | _ => none

def step (s : LocalShell) : ShellLabel → Option LocalShell
  | .pane move => s.pane move
  | .controller label => s.controller label
  | .read result => s.read result
  | .sendOutput => s.sendOutput
  | .takeInput => s.takeInput
  | .write results => s.write results
  | .takeOutput => s.takeOutput
  | .giveOutput => s.giveOutput
  | .takeEvent => s.takeEvent
  | .giveEvent => s.giveEvent

/-! ## What goes in and what comes out -/

/-- The chunk a step reads from the PTY. -/
def reads (_ : LocalShell) : ShellLabel → List Bytes
  | .read (.data bytes) => if bytes = [] then [] else [bytes]
  | _ => []

/-- The chunk a step feeds to the terminal. -/
def feeds (s : LocalShell) : ShellLabel → List Bytes
  | .pane .takeOutput => s.output.queue.head?.toList
  | _ => []

/-- The input a step accepts from the pane. -/
def accepts (_ : LocalShell) : ShellLabel → Bytes
  | .pane (.input bytes) => bytes
  | _ => []

/-- What a step writes to the PTY. -/
def writes (s : LocalShell) : ShellLabel → Bytes
  | .write results =>
      match s.writer with
      | .sending bytes => ((writeAll bytes results).map Prod.fst).getD []
      | _ => []
  | _ => []

/-- The event a step posts. -/
def posts (s : LocalShell) : ShellLabel → List TransportEvent
  | .controller label => s.pty.sends label
  | _ => []

/-- The event a step shows the pane. -/
def sees (s : LocalShell) : ShellLabel → List TransportEvent
  | .pane .takeEvent => s.events.head?.toList
  | _ => []

/-- Output that was read and not yet fed, oldest first. -/
def inFlight (s : LocalShell) : List Bytes :=
  s.output.queue ++ s.outputRelay.held ++ s.pty.pair.output.queue ++ s.reader.held

/-- Input that was accepted and not yet written. -/
def unwritten (s : LocalShell) : Bytes := (s.writer.held ++ s.pty.pair.input.queue).flatten

/-- Events that were posted and not yet seen. -/
def unseen (s : LocalShell) : List TransportEvent :=
  s.events ++ s.eventsRelay.held ++ s.pty.pair.events.queue

end LocalShell

end PolyTerm
