import PolyTerm.Text
import PolyTerm.Transport

/-!
# A live pane

One session's live state on the UI side: its ends of the transport channels,
the bounded queue of input waiting for a full channel, the forwards as last
reported, and the selection over its terminal. The pane never blocks: every
send is a `trySend`.
-/

namespace PolyTerm

/-! ## Selections -/

structure Selection where
  anchor : UInt16 × UInt16
  head : UInt16 × UInt16
deriving DecidableEq, Repr

/-- Cells compare in reading order. -/
def cellLe (a b : UInt16 × UInt16) : Bool := a.1 < b.1 || (a.1 == b.1 && a.2 ≤ b.2)

namespace Selection

def ordered (s : Selection) : (UInt16 × UInt16) × (UInt16 × UInt16) :=
  if cellLe s.anchor s.head then (s.anchor, s.head) else (s.head, s.anchor)

def contains (s : Selection) (cell : UInt16 × UInt16) : Bool :=
  cellLe s.ordered.1 cell && cellLe cell s.ordered.2

end Selection

/-- The visible grid: its width, and the characters of each row. -/
structure Snapshot where
  cols : UInt16
  lines : List (List Char)
deriving DecidableEq, Repr

/-- The columns `first..=last` of a row, right-trimmed. -/
def rowText (line : List Char) (first last : Nat) : List Char :=
  trimEnd ((line.take (last + 1)).drop first)

/-- The text of the selection over the grid; `none` when it is blank or when a
selected row is not there. -/
def selectionText (s : Selection) (snapshot : Snapshot) : Option String :=
  let (start, stop) := s.ordered
  let rows := List.range' start.1.toNat (stop.1.toNat + 1 - start.1.toNat)
  let texts := rows.mapM fun row => (snapshot.lines[row]?).map fun line =>
    let first := if row = start.1.toNat then start.2.toNat else 0
    let last := if row = stop.1.toNat then stop.2.toNat else snapshot.cols.toNat - 1
    rowText line first last
  texts.bind fun texts =>
    let joined := (texts.intersperse ['\n']).flatten
    if joined.isEmpty then none else some (String.ofList joined)

/-! ## The pane -/

inductive ExitAction where
  | prompt
  | close
deriving DecidableEq, Repr

def inputPendingCap : Nat := 64

structure LivePane where
  input : Fifo Bytes
  pendingInput : List Bytes
  droppingInput : Bool
  forwards : Table ForwardId ForwardStatus
  control : Fifo ControlMsg
  /-- events relayed from the transport and not yet drained; unbounded -/
  events : List TransportEvent
  /-- every sender of `events` is gone -/
  eventsEnded : Bool
  snapshot : Snapshot
  bracketedPaste : Bool
  selection : Option Selection
  logging : Bool
  disconnected : Bool
  onExit : ExitAction
  finished : Bool

namespace LivePane

/-- A pane over fresh channels, with an 80 by 24 grid. -/
def new (onExit : ExitAction) : LivePane where
  input := .empty inputChannelCapacity
  pendingInput := []
  droppingInput := false
  forwards := ∅
  control := .empty controlChannelCapacity
  events := []
  eventsEnded := false
  snapshot := ⟨80, List.replicate 24 (List.replicate 80 ' ')⟩
  bracketedPaste := false
  selection := none
  logging := false
  disconnected := false
  onExit := onExit
  finished := false

/-! ### Input -/

/-- Queue behind a full channel, or discard and mark. -/
def enqueueInput (p : LivePane) (data : Bytes) : LivePane :=
  if inputPendingCap ≤ p.pendingInput.length then { p with droppingInput := true }
  else { p with pendingInput := p.pendingInput ++ [data] }

def sendInput (p : LivePane) (bytes : Bytes) : LivePane :=
  if bytes.isEmpty then p
  else if p.pendingInput.isEmpty then
    match p.input.trySend bytes with
    | .ok input => { p with input := input }
    | .error .full => p.enqueueInput bytes
    | .error .closed => p
  else p.enqueueInput bytes

/-- Flush `pending` into the channel while it has room; what is left, and
whether it was drained (or the channel is gone). -/
def flush (input : Fifo Bytes) : List Bytes → Fifo Bytes × List Bytes × Bool
  | [] => (input, [], true)
  | front :: rest =>
      match input.trySend front with
      | .ok input => flush input rest
      | .error .full => (input, front :: rest, false)
      | .error .closed => (input, [], true)

def drainInput (p : LivePane) : LivePane :=
  let (input, pending, drained) := flush p.input p.pendingInput
  { p with
    input := input
    pendingInput := pending
    droppingInput := if drained then false else p.droppingInput }

/-- A reply of the terminal or a mouse report: sent if there is room. -/
def sendBestEffort (p : LivePane) (bytes : Bytes) : LivePane :=
  match p.input.trySend bytes with
  | .ok input => { p with input := input }
  | .error _ => p

def wrapPaste (text : Bytes) (bracketed : Bool) : Bytes :=
  if bracketed then
    [0x1b, 0x5b, 0x32, 0x30, 0x30, 0x7e] ++ text ++ [0x1b, 0x5b, 0x32, 0x30, 0x31, 0x7e]
  else text

def sendPaste (p : LivePane) (text : Bytes) : LivePane :=
  p.sendInput (wrapPaste text p.bracketedPaste)

/-- After typing: dismiss the selection. -/
def onTyped (p : LivePane) : LivePane := { p with selection := none }

def copySelection (p : LivePane) : LivePane × Option String :=
  match p.selection.bind fun s => selectionText s p.snapshot with
  | some text => ({ p with selection := none }, some text)
  | none => (p, none)

/-- `started` is whether the log file could be opened. -/
def toggleLogging (p : LivePane) (started : Bool) : LivePane :=
  if p.logging then { p with logging := false } else { p with logging := started }

/-! ### Forwards -/

/-- Ask for a forward and show it as `starting` at once; the send's result is
ignored. -/
def addForward (p : LivePane) (id : ForwardId) (spec : ForwardSpec) : LivePane :=
  let control := (p.control.trySend (.addForward id spec)).toOption.getD p.control
  { p with control := control, forwards := p.forwards.insert id ⟨id, spec, .starting⟩ }

/-- Ask for a teardown and drop the row at once; the send's result is
ignored. -/
def removeForward (p : LivePane) (id : ForwardId) : LivePane :=
  let control := (p.control.trySend (.removeForward id)).toOption.getD p.control
  { p with control := control, forwards := p.forwards.erase id }

def activeForwardCount (p : LivePane) : Nat :=
  (p.forwards.entries.filter fun e => e.2.state.isUp).length

/-! ### Events -/

/-- The row a status leaves in the list: a closed forward leaves none. -/
def applyStatus (rows : Table ForwardId ForwardStatus) (status : ForwardStatus) :
    Table ForwardId ForwardStatus :=
  if status.state = .closed then rows.erase status.id else rows.insert status.id status

def applyEvent (p : LivePane) : TransportEvent → LivePane
  | .disconnected _ => { p with disconnected := true }
  | .connected => { p with disconnected := false }
  | .forwardStatus status => { p with forwards := applyStatus p.forwards status }
  | _ => p

/-- The prompt an event raises, if it is one. -/
def eventPrompt : TransportEvent → Option PendingPrompt
  | .hostKey prompt => some (.hostKey prompt)
  | .credential prompt => some (.credential prompt)
  | _ => none

/-- What feeding the frame's output leaves of the terminal: the grid, the
bracketed-paste mode, and the replies it wants written back. -/
structure Fed where
  snapshot : Snapshot
  bracketedPaste : Bool
  replies : List Bytes

/-- Flush pending input, drain the events, feed the output; returns the
prompts for the app. -/
def pump (p : LivePane) (fed : Fed) : LivePane × List PendingPrompt :=
  let p := p.drainInput
  let prompts := p.events.filterMap eventPrompt
  let p := p.events.foldl applyEvent p
  let p := { p with
    events := []
    finished := p.finished || p.eventsEnded
    snapshot := fed.snapshot
    bracketedPaste := fed.bracketedPaste }
  (fed.replies.foldl sendBestEffort p, prompts)

/-! ### What the pane does to its input channel -/

theorem enqueueInput_input (p : LivePane) (data : Bytes) :
    (p.enqueueInput data).input = p.input := by
  unfold enqueueInput
  split <;> rfl

theorem sendInput_extends (p : LivePane) (bytes : Bytes) :
    p.input.Extends (p.sendInput bytes).input := by
  unfold sendInput
  split
  · exact .refl _
  · split
    · split
      · rename_i h
        exact Fifo.extends_trySend h
      · rw [enqueueInput_input]; exact .refl _
      · exact .refl _
    · rw [enqueueInput_input]; exact .refl _

theorem sendBestEffort_extends (p : LivePane) (bytes : Bytes) :
    p.input.Extends (p.sendBestEffort bytes).input := by
  unfold sendBestEffort
  split
  · rename_i h
    exact Fifo.extends_trySend h
  · exact .refl _

theorem flush_extends : ∀ (pending : List Bytes) (input : Fifo Bytes),
    input.Extends (flush input pending).1
  | [], _ => .refl _
  | front :: rest, input => by
      rw [flush]
      split
      · rename_i h
        exact (Fifo.extends_trySend h).trans (flush_extends rest _)
      · exact .refl _
      · exact .refl _

theorem drainInput_extends (p : LivePane) : p.input.Extends p.drainInput.input :=
  flush_extends p.pendingInput p.input

theorem applyEvent_input (p : LivePane) (e : TransportEvent) :
    (p.applyEvent e).input = p.input := by
  cases e <;> rfl

theorem foldl_applyEvent_input (events : List TransportEvent) (p : LivePane) :
    (events.foldl applyEvent p).input = p.input := by
  induction events generalizing p with
  | nil => rfl
  | cons e events ih => rw [List.foldl_cons, ih, applyEvent_input]

theorem foldl_sendBestEffort_extends (replies : List Bytes) (p : LivePane) :
    p.input.Extends (replies.foldl sendBestEffort p).input := by
  induction replies generalizing p with
  | nil => exact .refl _
  | cons bytes replies ih => exact (sendBestEffort_extends p bytes).trans (ih _)

theorem pump_extends (p : LivePane) (fed : Fed) : p.input.Extends (p.pump fed).1.input := by
  have hdrain := drainInput_extends p
  have hevents := foldl_applyEvent_input p.drainInput.events p.drainInput
  refine hdrain.trans ?_
  rw [← hevents]
  exact foldl_sendBestEffort_extends fed.replies _

end LivePane

end PolyTerm
