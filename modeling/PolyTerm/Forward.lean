import PolyTerm.Runs
import PolyTerm.Transport

/-!
# The forwards of a connection

The backend's forward table and the tasks behind it. Starting a forward spawns
a task that binds a listener, or asks the server to listen, and reports the
outcome; the task advances on its own. Stopping removes the table entry at
once, but the task of a remote forward is not stopped by it, and an aborted
listener may still get out the report it is making: such tasks are kept as
`orphans`, which may still take their steps, or never.

A `stop` waits for the server's answer to the cancel and reports `closed`
before the connection handles anything else, so it is a state of its own.
-/

namespace PolyTerm

def ForwardSpec.bind (s : ForwardSpec) : Bind := (s.bindHost, s.bindPort)
def ForwardSpec.target (s : ForwardSpec) : Bind := (s.targetHost, s.targetPort)

/-- How far a forward's task has come. -/
inductive ForwardStage where
  /-- waiting for its bind, or for the server's reply -/
  | asking
  /-- the outcome is known; its report is being sent -/
  | reporting (outcome : ForwardState)
  | settled (outcome : ForwardState)
deriving DecidableEq, Repr

structure Forward where
  spec : ForwardSpec
  stage : ForwardStage
deriving DecidableEq, Repr

/-- A removal in progress: its `closed` is still to be reported. -/
structure Stopping where
  id : ForwardId
  spec : ForwardSpec
  /-- the server has not answered the cancel yet -/
  cancelling : Bool
deriving DecidableEq, Repr

def Stopping.status (s : Stopping) : ForwardStatus := ⟨s.id, s.spec, .closed⟩

structure Connection where
  /-- the forward table, each entry with its task -/
  forwards : Table ForwardId Forward
  /-- where an incoming forwarded channel is delivered, by bind -/
  remoteForwards : Table Bind Bind
  stopping : Option Stopping
  /-- tasks whose forward is no longer in the table -/
  orphans : Table ForwardId Forward
  /-- the binds the server listens on for us -/
  listens : List Bind

/-- What can happen to the forwards of one connection. -/
inductive ForwardOp where
  | add (id : ForwardId) (spec : ForwardSpec)
  | remove (id : ForwardId)
  /-- the server has answered the cancel of a removal -/
  | cancelled
  | reportClosed
  /-- a task's bind, or the server's reply to its request -/
  | reply (id : ForwardId) (refused : Option String)
  | report (id : ForwardId)
deriving DecidableEq, Repr

namespace Connection

def empty : Connection := ⟨∅, ∅, none, ∅, []⟩

/-- Spawn the task; a remote forward registers its target before the server
has answered. -/
def start (c : Connection) (id : ForwardId) (spec : ForwardSpec) : Connection :=
  match spec.kind with
  | .local | .dynamic => { c with forwards := c.forwards.insert id ⟨spec, .asking⟩ }
  | .remote =>
      { c with
        remoteForwards := c.remoteForwards.insert spec.bind spec.target
        forwards := c.forwards.insert id ⟨spec, .asking⟩ }

/-- Take the forward out of the table. A remote one also drops the target of
its bind and cancels the server's listen. -/
def stop (c : Connection) (id : ForwardId) : Connection :=
  match c.forwards.lookup id with
  | none => c
  | some f =>
      let c := { c with forwards := c.forwards.erase id, orphans := c.orphans.insert id f }
      match f.spec.kind with
      | .local | .dynamic => { c with stopping := some ⟨id, f.spec, false⟩ }
      | .remote =>
          { c with
            remoteForwards := c.remoteForwards.erase f.spec.bind
            stopping := some ⟨id, f.spec, true⟩ }

/-- The connection ends: every forward is dropped without a report, and the
server drops its listens. What is left are the tasks. -/
def abortAll (c : Connection) : Table ForwardId Forward := c.orphans ∪ c.forwards

/-- The outcome of a request. -/
def outcomeOf (spec : ForwardSpec) : Option String → ForwardState
  | none => .active
  | some e =>
      match spec.kind with
      | .remote => .failed ("remote forward refused: " ++ e)
      | _ => .failed ("could not bind " ++ spec.bindHost ++ ":" ++ toString spec.bindPort ++ ": " ++ e)

/-- A task by the id of its forward, in the table or orphaned. -/
def task (c : Connection) (id : ForwardId) : Option Forward :=
  (c.forwards.lookup id).or (c.orphans.lookup id)

/-- Move a task on. -/
def setStage (c : Connection) (id : ForwardId) (stage : ForwardStage) : Connection :=
  { c with
    forwards := c.forwards.modify id fun f => { f with stage := stage }
    orphans := c.orphans.modify id fun f => { f with stage := stage } }

/-- One step; `none` when it cannot happen. Ids are minted fresh per request,
so none is used twice. -/
def step (c : Connection) : ForwardOp → Option Connection
  | .add id spec =>
      if c.stopping.isNone && (c.task id).isNone then some (c.start id spec) else none
  | .remove id => if c.stopping.isNone then some (c.stop id) else none
  | .cancelled =>
      match c.stopping with
      | some ⟨id, spec, true⟩ =>
          some { c with
            listens := c.listens.filter (· ≠ spec.bind)
            stopping := some ⟨id, spec, false⟩ }
      | _ => none
  | .reportClosed =>
      match c.stopping with
      | some ⟨_, _, false⟩ => some { c with stopping := none }
      | _ => none
  | .reply id refused =>
      match c.task id with
      | some ⟨spec, .asking⟩ =>
          let c := c.setStage id (.reporting (outcomeOf spec refused))
          if spec.kind = .remote ∧ refused = none then
            some { c with listens := spec.bind :: c.listens }
          else some c
      | _ => none
  | .report id =>
      match c.task id with
      | some ⟨_, .reporting outcome⟩ => some (c.setStage id (.settled outcome))
      | _ => none

/-- The status a step sends to the UI. -/
def emits (c : Connection) : ForwardOp → Option ForwardStatus
  | .reportClosed =>
      match c.stopping with
      | some ⟨id, spec, false⟩ => some ⟨id, spec, .closed⟩
      | _ => none
  | .report id =>
      match c.task id with
      | some ⟨spec, .reporting outcome⟩ => some ⟨id, spec, outcome⟩
      | _ => none
  | _ => none

/-- Where an incoming channel for a bind is delivered. -/
def serverChannelOpenForwardedTcpip (c : Connection) (bind : Bind) : Option Bind :=
  c.remoteForwards.lookup bind

/-! ### What starting and stopping change -/

theorem start_eq (c : Connection) (id : ForwardId) (spec : ForwardSpec) :
    c.start id spec =
      { c with
        remoteForwards :=
          if spec.kind = .remote then c.remoteForwards.insert spec.bind spec.target
          else c.remoteForwards
        forwards := c.forwards.insert id ⟨spec, .asking⟩ } := by
  unfold start
  cases hk : spec.kind <;> simp

theorem stop_absent {c : Connection} {id : ForwardId} (h : c.forwards.lookup id = none) :
    c.stop id = c := by
  simp [stop, h]

theorem stop_eq {c : Connection} {id : ForwardId} {f : Forward}
    (h : c.forwards.lookup id = some f) :
    c.stop id =
      { c with
        forwards := c.forwards.erase id
        orphans := c.orphans.insert id f
        remoteForwards :=
          if f.spec.kind = .remote then c.remoteForwards.erase f.spec.bind
          else c.remoteForwards
        stopping := some ⟨id, f.spec, f.spec.kind = .remote⟩ } := by
  simp only [stop, h]
  cases hk : f.spec.kind <;> simp

theorem task_of_forward {c : Connection} {id : ForwardId} {f g : Forward}
    (hf : c.forwards.lookup id = some f) (hg : c.task id = some g) : f = g := by
  rw [task, hf, Option.some_or] at hg
  exact Option.some.inj hg

@[simp] theorem lookup_setStage (c : Connection) (id id' : ForwardId) (stage : ForwardStage) :
    (c.setStage id stage).forwards.lookup id' =
      if id' = id then (c.forwards.lookup id').map fun f => { f with stage := stage }
      else c.forwards.lookup id' :=
  Table.lookup_modify ..

end Connection

/-- Waiting for its outcome, or up. -/
def ForwardStage.live : ForwardStage → Bool
  | .asking | .reporting .active | .settled .active => true
  | _ => false

end PolyTerm
