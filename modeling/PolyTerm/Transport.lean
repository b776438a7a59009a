import PolyTerm.Fifo
import PolyTerm.Prompts

/-!
# The session contract

What the UI and a backend say to each other: control messages one way,
lifecycle events the other, each over a bounded channel. A port forward is
named by an id the UI chooses, so a request and the statuses that follow it
line up without a round trip.
-/

namespace PolyTerm

/-! ## Port forwards -/

structure ForwardId where
  uuid : Nat
deriving DecidableEq, Repr

inductive ForwardKind where
  | local
  | remote
  | dynamic
deriving DecidableEq, Repr

structure ForwardSpec where
  kind : ForwardKind
  bindHost : String
  bindPort : UInt16
  targetHost : String
  targetPort : UInt16
deriving DecidableEq, Repr

inductive ForwardState where
  | starting
  | active
  | failed (reason : String)
  | closed
deriving DecidableEq, Repr

structure ForwardStatus where
  id : ForwardId
  spec : ForwardSpec
  state : ForwardState
deriving DecidableEq, Repr

/-- Established or coming up. -/
def ForwardState.isUp : ForwardState → Bool
  | .active | .starting => true
  | _ => false

/-! ## Messages -/

/-- The target map of a connection's remote forwards is keyed by the bind. -/
abbrev Bind := String × UInt16

inductive ControlMsg where
  | resize (cols rows : UInt16)
  | «break»
  | setSignal
  | reconnect
  | disconnect
  | addForward (id : ForwardId) (spec : ForwardSpec)
  | removeForward (id : ForwardId)
  | openSftp
deriving DecidableEq, Repr

inductive DisconnectReason where
  | local
  | remote
  | deviceRemoved
  | timeout
  | failed (message : String)
deriving DecidableEq, Repr

inductive TransportEvent where
  | connecting
  | hostKey (prompt : HostKeyPrompt)
  | credential (prompt : CredentialPrompt)
  | authenticated
  | connected
  | modemStatus
  | disconnected (reason : DisconnectReason)
  | error (message : String)
  | forwardStatus (status : ForwardStatus)
deriving DecidableEq, Repr

def inputChannelCapacity : Nat := 256
def controlChannelCapacity : Nat := 16
def eventChannelCapacity : Nat := 32

end PolyTerm
