import PolyTerm.Runs
import PolyTerm.TransportPair

/-!
# The controller of a local shell

The task that owns the PTY: it applies the control messages until it is told
to disconnect or the shell exits, waits for the shell to be reaped, and reports
that the session is over. Reading and writing the PTY are two other tasks.
-/

namespace PolyTerm

inductive PtyPhase where
  /-- `connected` is being sent -/
  | opened
  /-- at the `select` -/
  | selecting
  /-- the loop is over; `disconnected` is sent once the shell is reaped -/
  | reaping (reason : DisconnectReason)
  | ended
deriving DecidableEq, Repr

structure Pty where
  pair : TransportPair
  phase : PtyPhase
  /-- the size given to the PTY last, columns first -/
  size : UInt16 × UInt16
  /-- the shell was told to exit -/
  killed : Bool
  /-- the wait for the shell is over -/
  reaped : Bool

inductive PtyLabel where
  | ui (move : UiMove)
  | shellExits
  /-- the event of the phase is sent -/
  | emit
  | readControl
  /-- the `select` takes the exit of the shell -/
  | readExit
deriving DecidableEq, Repr

/-- What the phase waits to send. -/
def PtyPhase.announces : PtyPhase → Option TransportEvent
  | .opened => some .connected
  | .reaping reason => some (.disconnected reason)
  | _ => none

namespace Pty

def start : Pty where
  pair := .newPair
  phase := .opened
  size := (80, 24)
  killed := false
  reaped := false

/-- The task returns: its receiver is dropped. -/
def finish (s : Pty) : Pty :=
  { s with phase := .ended, pair := { s.pair with control := s.pair.control.close } }

/-- Tell the shell to exit, whether or not it does. -/
def kill (s : Pty) : Pty := { s with phase := .reaping .local, killed := true }

def emit (s : Pty) : Option Pty :=
  match s.phase with
  | .opened => (s.pair.send .connected).map fun pair => { s with pair := pair, phase := .selecting }
  | .reaping reason =>
      if s.reaped then
        (s.pair.send (.disconnected reason)).map fun pair => ({ s with pair := pair } : Pty).finish
      else none
  | _ => none

def handleControl (s : Pty) : ControlMsg → Pty
  | .resize cols rows => { s with size := (cols, rows) }
  | .disconnect => s.kill
  | _ => s

def readControl (s : Pty) : Option Pty :=
  if s.phase = .selecting then
    match s.pair.control.recv with
    | some (msg, control) =>
        some (({ s with pair := { s.pair with control := control } } : Pty).handleControl msg)
    | none => if s.pair.controlEnded then some s.kill else none
  else none

def step (s : Pty) : PtyLabel → Option Pty
  | .ui move => (s.pair.ui move).map fun pair => { s with pair := pair }
  | .shellExits => some { s with reaped := true }
  | .emit => s.emit
  | .readControl => s.readControl
  | .readExit =>
      if s.phase = .selecting ∧ s.reaped then some { s with phase := .reaping .remote } else none

/-- The event a step sends. -/
def sends (s : Pty) : PtyLabel → List TransportEvent
  | .emit => s.phase.announces.toList
  | _ => []

end Pty

end PolyTerm
