import PolyTerm.Pane
import PolyTerm.Tiles

/-!
# The persisted session model

What the session library keeps of a session: its identity, its place in the
tree and everything needed to open it again. Nothing here holds a secret, only
references into the keyring. The paths of a session are kept as their text.
-/

namespace PolyTerm.Saved

/-- Position in the session tree, outermost folder first. -/
abbrev FolderPath := List String

/-- The entry of the OS keyring that holds a secret. -/
structure CredentialRef where
  service : String
  account : String
deriving DecidableEq, Repr

structure Duration where
  secs : UInt64
  nanos : UInt32
deriving DecidableEq, Repr

/-! ## SSH -/

inductive SshAuth where
  | agent
  | password (credential : CredentialRef)
  | publicKey (keyPath : String) (passphrase : Option CredentialRef)
  | keyboardInteractive
deriving DecidableEq, Repr

structure SshJump where
  host : String
  port : UInt16
  username : String
  auth : SshAuth
deriving DecidableEq, Repr

structure SshConfig where
  host : String
  port : UInt16
  username : String
  auth : SshAuth
  /-- the `ProxyJump` chain, nearest hop first -/
  jumps : List SshJump
  keepalive : Option Duration
deriving DecidableEq, Repr

/-! ## Serial -/

inductive Parity where
  | none
  | odd
  | even
deriving DecidableEq, Repr

inductive StopBits where
  | one
  | two
deriving DecidableEq, Repr

inductive FlowControl where
  | none
  | hardware
  | software
deriving DecidableEq, Repr

structure SerialConfig where
  port : String
  baud : UInt32
  dataBits : UInt8
  parity : Parity
  stopBits : StopBits
  flowControl : FlowControl
deriving DecidableEq, Repr

/-! ## Local shell and RDP -/

structure PtyConfig where
  /-- `none`: the platform's default shell -/
  shell : Option String
  workingDirectory : Option String
  env : List (String × String)
deriving DecidableEq, Repr

structure RdpConfig where
  host : String
  port : UInt16
  username : String
  domain : Option String
  credential : Option CredentialRef
  width : UInt16
  height : UInt16
deriving DecidableEq, Repr

/-! ## Sessions -/

inductive SessionKind where
  | ssh (config : SshConfig)
  | serial (config : SerialConfig)
  | localShell (config : PtyConfig)
  | rdp (config : RdpConfig)
deriving DecidableEq, Repr

structure SessionSpec where
  id : SessionId
  name : String
  folder : FolderPath
  kind : SessionKind
  onExit : ExitAction
deriving DecidableEq, Repr

end PolyTerm.Saved
