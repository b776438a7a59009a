import PolyTerm.Runs
import PolyTerm.TransportPair

/-!
# The serial session

`run` is one loop on a blocking thread: it drains the control channel, looks
after the BREAK and the modem lines, drains the input onto the line, reads the
line, and starts over. It is unrolled into the places where it stops, and the
UI moves between any two of them. An event is sent when the loop reaches its
send (`emit`), which waits while the channel is full.

What the port answers is the environment's: `writeAll` runs over the answers to
its writes, one read has one result. Of the port itself there is what was put
on the line. Time is a clock in milliseconds.
-/

namespace PolyTerm

/-! ## The port -/

/-- The answer of the port to one write. -/
inductive WriteResult where
  | wrote (n : Nat)
  | interrupted
  | timedOut
  | failed
deriving DecidableEq, Repr

/-- The call goes on after the answer. -/
def WriteResult.goesOn : WriteResult → Bool
  | .wrote n => n != 0
  | .interrupted => true
  | .timedOut | .failed => false

/-- `write_all` over the answers to its writes: what went onto the line, and
whether that is everything. The answers have to be those of this call: none
once it has returned, and no more bytes written than were offered. -/
def writeAll : Bytes → List WriteResult → Option (Bytes × Bool)
  | [], [] => some ([], true)
  | b :: rest, result :: results =>
      if result.goesOn then
        match result with
        | .wrote n =>
            if n ≤ (b :: rest).length then
              (writeAll ((b :: rest).drop n) results).map fun r => ((b :: rest).take n ++ r.1, r.2)
            else none
        | _ => writeAll (b :: rest) results
      else if results = [] then some ([], false)
      else none
  | _, _ => none

inductive ReadResult where
  | data (bytes : Bytes)
  | timedOut
  | interrupted
  | failed
deriving DecidableEq, Repr

def readChunk : Nat := 4096

/-- In milliseconds. -/
def breakDuration : Nat := 250

/-- In milliseconds. -/
def modemPollInterval : Nat := 200

structure ModemLines where
  cts : Bool
  dsr : Bool
  dcd : Bool
  ri : Bool
deriving DecidableEq, Repr

/-! ## The loop -/

inductive SerialPhase where
  /-- `connected` is being sent -/
  | opened
  /-- at `try_recv` of the control channel -/
  | control
  /-- before the BREAK and the modem lines -/
  | housekeeping
  /-- the modem lines changed; `modemStatus` is being sent -/
  | reporting
  /-- at `try_recv` of the input channel -/
  | input
  | reading
  /-- what was read is being sent to the UI -/
  | relaying (bytes : Bytes)
  /-- `disconnect` was read; `disconnected` is being sent -/
  | closing
  /-- a read failed; `disconnected` is being sent -/
  | removed
  /-- in `wait_and_reopen` -/
  | waiting
  /-- the port is open again; `connected` is being sent -/
  | reopened
  | ended
deriving DecidableEq, Repr

structure Serial where
  pair : TransportPair
  phase : SerialPhase
  now : Nat
  breakUntil : Option Nat
  modemDeadline : Nat
  lastModem : Option ModemLines
  /-- everything put on the line so far -/
  line : Bytes

inductive SerialLabel where
  | ui (move : UiMove)
  | tick (elapsed : Nat)
  /-- the event of the phase is sent -/
  | emit
  | readControl
  /-- `lines` is what a poll of the modem lines reads -/
  | housekeep (lines : Option ModemLines)
  /-- `results` are the answers to the writes of a chunk -/
  | readInput (results : List WriteResult)
  | readLine (result : ReadResult)
  | relay
  /-- `reopened`: what a reconnect makes of it -/
  | awaitReconnect (reopened : Bool)
deriving DecidableEq, Repr

/-- What the phase waits to send. -/
def SerialPhase.announces : SerialPhase → Option TransportEvent
  | .opened | .reopened => some .connected
  | .reporting => some .modemStatus
  | .closing => some (.disconnected .local)
  | .removed => some (.disconnected .deviceRemoved)
  | _ => none

namespace Serial

def start : Serial where
  pair := .newPair
  phase := .opened
  now := 0
  breakUntil := none
  modemDeadline := 0
  lastModem := none
  line := []

/-- `run` returns. -/
def finish (s : Serial) : Serial := { s with phase := .ended, pair := s.pair.finish }

/-- The loop after the event of its phase. -/
def announced (s : Serial) : Serial :=
  match s.phase with
  | .opened => { s with phase := .control, modemDeadline := s.now }
  | .reopened => { s with phase := .control }
  | .reporting => { s with phase := .input }
  | .closing => s.finish
  | .removed => { s with phase := .waiting }
  | _ => s

def emit (s : Serial) : Option Serial :=
  s.phase.announces.bind fun e =>
    (s.pair.send e).map fun pair => ({ s with pair := pair } : Serial).announced

/-- Everything but a BREAK and a `disconnect` leaves the loop as it is. -/
def handleControl (s : Serial) : ControlMsg → Serial
  | .break => { s with breakUntil := some (s.now + breakDuration) }
  | .disconnect => { s with phase := .closing }
  | _ => s

def readControl (s : Serial) : Option Serial :=
  if s.phase = .control then
    match s.pair.control.recv with
    | some (msg, control) =>
        some (({ s with pair := { s.pair with control := control } } : Serial).handleControl msg)
    | none => some (if s.pair.controlEnded then s.finish else { s with phase := .housekeeping })
  else none

/-- Clear a BREAK whose time is over. -/
def clearBreak (s : Serial) : Serial :=
  if s.breakUntil.any (· ≤ s.now) then { s with breakUntil := none } else s

/-- Poll the modem lines; a change is reported. -/
def pollModem (s : Serial) (lines : Option ModemLines) : Serial :=
  if s.modemDeadline ≤ s.now then
    let s := { s with modemDeadline := s.now + modemPollInterval }
    if lines.isSome ∧ s.lastModem ≠ lines then { s with lastModem := lines, phase := .reporting }
    else { s with phase := .input }
  else { s with phase := .input }

def housekeep (s : Serial) (lines : Option ModemLines) : Option Serial :=
  if s.phase = .housekeeping then some (s.clearBreak.pollModem lines) else none

/-- Whether everything was written is not looked at. -/
def readInput (s : Serial) (results : List WriteResult) : Option Serial :=
  if s.phase = .input then
    match s.pair.input.recv with
    | some (bytes, input) => (writeAll bytes results).map fun r =>
        { s with pair := { s.pair with input := input }, line := s.line ++ r.1 }
    | none => some (if s.pair.inputEnded then s.finish else { s with phase := .reading })
  else none

def readLine (s : Serial) (result : ReadResult) : Option Serial :=
  if s.phase = .reading then
    match result with
    | .data bytes =>
        if bytes = [] then some { s with phase := .control }
        else if bytes.length ≤ readChunk then some { s with phase := .relaying bytes }
        else none
    | .timedOut | .interrupted => some { s with phase := .control }
    | .failed => some { s with phase := .removed }
  else none

def relay (s : Serial) : Option Serial :=
  match s.phase with
  | .relaying bytes => (s.pair.deliver bytes).map fun r =>
      let s := { s with pair := r.1 }
      if r.2 then { s with phase := .control } else s.finish
  | _ => none

/-- The loop on a fresh port: the modem lines are polled from scratch. -/
def reopen (s : Serial) : Serial :=
  { s with phase := .reopened, breakUntil := none, lastModem := none, modemDeadline := s.now }

/-- `wait_and_reopen`: only `reconnect` and `disconnect` count. -/
def awaitReconnect (s : Serial) (reopened : Bool) : Option Serial :=
  if s.phase = .waiting then
    match s.pair.control.recv with
    | some (msg, control) =>
        let s := { s with pair := { s.pair with control := control } }
        some (match msg with
          | .reconnect => if reopened then s.reopen else s
          | .disconnect => s.finish
          | _ => s)
    | none => if s.pair.controlEnded then some s.finish else none
  else none

def step (s : Serial) : SerialLabel → Option Serial
  | .ui move => (s.pair.ui move).map fun pair => { s with pair := pair }
  | .tick elapsed => some { s with now := s.now + elapsed }
  | .emit => s.emit
  | .readControl => s.readControl
  | .housekeep lines => s.housekeep lines
  | .readInput results => s.readInput results
  | .readLine result => s.readLine result
  | .relay => s.relay
  | .awaitReconnect reopened => s.awaitReconnect reopened

/-- The event a step sends. -/
def sends (s : Serial) : SerialLabel → List TransportEvent
  | .emit => s.phase.announces.toList
  | _ => []

/-- The chunk a step takes off the input channel. -/
def consumes (s : Serial) : SerialLabel → List Bytes
  | .readInput _ => if s.phase = .input then (s.pair.input.recv.map Prod.fst).toList else []
  | _ => []

end Serial

end PolyTerm
