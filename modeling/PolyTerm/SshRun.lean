import PolyTerm.Pump

/-!
# Setting an SSH session up

`run` and what it awaits, as functions of what the outside answers: the
network and the server of each hop, the user behind each prompt, the files and
the agent, the shell, the pump's events, the backoff. Every function returns
what it sent so far (`Mark`) with its result. The UI keeps its receiver, so no
send fails.

Besides the events the marks say when a hop is contacted, how its key was
answered and when it has authenticated. The client library calls
`checkServerKey` at most once while it connects, and fails the connection if
that returns false.
-/

namespace PolyTerm

/-! ## The configuration -/

inductive SshAuth where
  | agent
  | password (credential : CredentialRef)
  | publicKey (keyPath : String) (passphrase : Option CredentialRef)
  | keyboardInteractive
deriving DecidableEq, Repr

structure SshJump where
  host : String
  port : UInt16
  username : String
  auth : SshAuth

structure SshConfig where
  host : String
  port : UInt16
  username : String
  auth : SshAuth
  jumps : List SshJump

/-- A jump host, or the target. -/
structure Hop where
  host : String
  port : UInt16
  user : String
  auth : SshAuth
deriving DecidableEq, Repr

def SshConfig.hops (cfg : SshConfig) : List Hop :=
  cfg.jumps.map (fun j => ⟨j.host, j.port, j.username, j.auth⟩) ++
    [⟨cfg.host, cfg.port, cfg.username, cfg.auth⟩]

/-! ## What the outside answers -/

/-- The key a server offers, and the answer to its prompt; `none` when the
prompt is dropped. -/
structure KeyOffer where
  keyType : String
  fingerprint : String
  publicKey : Bytes
  reply : ReplyId
  decision : Option TrustDecision

def KeyOffer.accepted (key : KeyOffer) : Bool :=
  key.decision = some .acceptOnce || key.decision = some .acceptAndRemember

/-- `unreached` fails before the key is checked; after the check the rest of
the connection still may. `rejected` is the library's word for a key turned
down. -/
inductive ConnectOutcome where
  | unreached (error : String)
  | checked (key : KeyOffer) (rejected : String) (rest : Except String Unit)

/-- The keyboard-interactive exchange: each request with its prompt's answer
and what the server says then. -/
inductive Exchange where
  | error (e : String)
  | success
  | failure
  | infoRequest (name instructions : String) (prompts : List InteractivePrompt) (reply : ReplyId)
      (answer : CredentialReply) (next : Exchange)

/-- The answers to what an authentication may ask for. -/
structure AuthOutcome where
  /-- to the prompt for a password or a passphrase -/
  reply : ReplyId
  answer : CredentialReply
  /-- the key file loads without a passphrase, and with the one given -/
  keyLoads : Bool
  keyUnlocks : Except String Unit
  rsaHash : Except String Unit
  /-- to the password or the public key offered -/
  verdict : Except String Bool
  exchange : Exchange
  agent : Except String Unit
  /-- the agent's identities, each with the server's verdict -/
  identities : Except String (List (Except String Bool))

structure HopOutcome where
  tunnel : Except String Unit
  connect : ConnectOutcome
  auth : AuthOutcome

structure AttemptOutcome where
  /-- by the hop's place in the chain -/
  hops : Nat → HopOutcome
  shell : Except String Unit
  pump : List PumpEvent
  /-- the control messages read while backing off, before the delay is over -/
  backoff : List (Option ControlMsg)

/-! ## What is sent -/

inductive Mark where
  | event (e : TransportEvent)
  | contact (hop : Nat)
  | keyAnswered (hop : Nat) (accepted : Bool)
  | authenticated (hop : Nat)
deriving DecidableEq, Repr

namespace Ssh

/-- Report a failed setup. -/
def fail (message : String) : Mark := .event (.disconnected (.failed message))

def checkServerKey (k : Nat) (hop : Hop) (key : KeyOffer) : List Mark × Bool :=
  let prompt : HostKeyPrompt :=
    ⟨⟨hop.host, hop.port, key.keyType⟩, key.fingerprint, key.publicKey, key.reply⟩
  ([.event (.hostKey prompt), .keyAnswered k key.accepted], key.accepted)

/-! ## Authentication -/

def askCredential (request : CredentialRequest) (credential : Option CredentialRef)
    (reply : ReplyId) : Mark :=
  .event (.credential ⟨request, credential, reply⟩)

def loadKey (path : String) (passphrase : Option CredentialRef) (o : AuthOutcome) :
    List Mark × Bool :=
  if o.keyLoads then ([], true)
  else
    let asked := askCredential (.passphrase path) passphrase o.reply
    match o.answer with
    | .secret _ _ =>
        match o.keyUnlocks with
        | .ok () => ([asked], true)
        | .error e => ([asked, .event (.error ("could not load key: " ++ e))], false)
    | _ => ([asked], false)

def keyboardInteractive : Exchange → List Mark × Except String Bool
  | .error e => ([], .error e)
  | .success => ([], .ok true)
  | .failure => ([], .ok false)
  | .infoRequest name instructions prompts reply answer next =>
      let asked := askCredential (.keyboardInteractive name instructions prompts) none reply
      match answer with
      | .responses _ =>
          let (marks, result) := keyboardInteractive next
          (asked :: marks, result)
      | _ => ([asked], .ok false)

/-- Offer each identity until one is accepted. -/
def agentAuth (o : AuthOutcome) : List Mark × Except String Bool :=
  match o.agent with
  | .error e => ([.event (.error ("no SSH agent: " ++ e))], .ok false)
  | .ok () =>
      match o.identities with
      | .error e => ([.event (.error ("could not list agent keys: " ++ e))], .ok false)
      | .ok [] => ([.event (.error "the SSH agent has no identities")], .ok false)
      | .ok (identity :: rest) =>
          match o.rsaHash with
          | .error e => ([], .error e)
          | .ok () =>
              ([], .ok ((identity :: rest).any fun verdict => verdict.toOption = some true))

def authenticateWith (hop : Hop) (o : AuthOutcome) : List Mark × Except String Bool :=
  match hop.auth with
  | .password credential =>
      let asked := askCredential (.password hop.user hop.host) (some credential) o.reply
      match o.answer with
      | .secret _ _ => ([asked], o.verdict)
      | _ => ([asked], .ok false)
  | .publicKey keyPath passphrase =>
      let (marks, loaded) := loadKey keyPath passphrase o
      if loaded then
        match o.rsaHash with
        | .error e => (marks, .error e)
        | .ok () => (marks, o.verdict)
      else (marks, .ok false)
  | .keyboardInteractive => keyboardInteractive o.exchange
  | .agent => agentAuth o

/-! ## The chain of hops -/

/-- Connect to a hop that is reached: its key is checked on the way. -/
def connect (k : Nat) (hop : Hop) : ConnectOutcome → List Mark × Except String Unit
  | .unreached e => ([], .error e)
  | .checked key rejected rest =>
      let (marks, accepted) := checkServerKey k hop key
      (marks, if accepted then rest else .error rejected)

/-- Contact the hop, directly if it is the first, else through a tunnel in the
one before; an error is the message of the failure. -/
def reach (k : Nat) (hop : Hop) (o : HopOutcome) : List Mark × Except String Unit :=
  let place := hop.host ++ ":" ++ toString hop.port.toNat
  let (marks, connected) := connect k hop o.connect
  match k, o.tunnel with
  | 0, _ =>
      (.contact k :: marks,
        connected.mapError fun e => "connection to " ++ place ++ " failed: " ++ e)
  | _ + 1, .error e => ([.contact k], .error ("could not tunnel to " ++ place ++ ": " ++ e))
  | _ + 1, .ok () =>
      (.contact k :: marks,
        connected.mapError fun e => "connection to " ++ place ++ " via jump host failed: " ++ e)

/-- Connect to one hop and authenticate; an error is the message of the
failure. -/
def hopUp (k : Nat) (hop : Hop) (o : HopOutcome) : List Mark × Except String Unit :=
  let (reached, connected) := reach k hop o
  match connected with
  | .error message => (reached, .error message)
  | .ok () =>
      let (asked, result) := authenticateWith hop o.auth
      match result with
      | .ok true => (reached ++ asked ++ [.authenticated k], .ok ())
      | .ok false => (reached ++ asked, .error ("authentication to " ++ hop.host ++ " failed"))
      | .error e =>
          (reached ++ asked, .error ("authentication error at " ++ hop.host ++ ": " ++ e))

/-- Bring up the hops that are left, with `chain` behind them. -/
def establish (outcome : Nat → HopOutcome) (chain : List Hop) :
    List Hop → List Mark × Option (List Hop)
  | [] => ([], some chain)
  | hop :: hops =>
      match hopUp chain.length hop (outcome chain.length) with
      | (marks, .error message) => (marks ++ [fail message], none)
      | (marks, .ok ()) =>
          let (rest, result) := establish outcome (chain ++ [hop]) hops
          (marks ++ rest, result)

/-! ## The loop -/

/-- The size a pump leaves behind. -/
def sizeAfterPump (p : Pump) : List PumpEvent → UInt16 × UInt16
  | [] => p.size
  | e :: events =>
      match p.step e with
      | .ok p' => sizeAfterPump p' events
      | .error _ => p.size

/-- Open the shell on the target and pump it: why the link ended, or `none`
while the pump goes on. -/
def runConnected (chain : List Hop) (size : UInt16 × UInt16) (o : AttemptOutcome) :
    List Mark × Option DisconnectReason × (UInt16 × UInt16) :=
  match chain.getLast?, o.shell with
  | none, _ => ([], some (.failed "no session was established"), size)
  | some _, .error e => ([], some (.failed ("could not open shell: " ++ e)), size)
  | some _, .ok () =>
      ([.event .connected], PolyTerm.pump (.start size) o.pump,
        sizeAfterPump (.start size) o.pump)

inductive BackoffOutcome where
  | elapsed
  | reconnect
  | disconnect
deriving DecidableEq, Repr

/-- At the end of the messages the delay is over. -/
def waitBackoff : List (Option ControlMsg) → BackoffOutcome
  | [] => .elapsed
  | some .reconnect :: _ => .reconnect
  | some .disconnect :: _ | none :: _ => .disconnect
  | some _ :: rest => waitBackoff rest

structure RunState where
  backoff : Nat
  connectedBefore : Bool
  size : UInt16 × UInt16

def RunState.start : RunState := ⟨initialBackoff, false, (80, 24)⟩

/-- How a turn of the loop ends. -/
inductive Turn where
  | returns
  | pumping
  | again (s : RunState)

def backOff (s : RunState) (msgs : List (Option ControlMsg)) : Turn :=
  match waitBackoff msgs with
  | .disconnect => .returns
  | _ => .again { s with backoff := min (s.backoff * 2) maxBackoff }

/-- One turn of the loop: an attempt, and the backoff after it. -/
def attempt (hops : List Hop) (s : RunState) (o : AttemptOutcome) : List Mark × Turn :=
  match establish o.hops [] hops with
  | (marks, some chain) =>
      let (connected, reason, size) := runConnected chain s.size o
      let s := { s with connectedBefore := true, backoff := initialBackoff, size := size }
      let marks := .event .connecting :: marks ++ .event .authenticated :: connected
      match reason with
      | none => (marks, .pumping)
      | some reason =>
          (marks ++ [.event (.disconnected reason)],
            if Session.reconnects reason then backOff s o.backoff else .returns)
  | (marks, none) =>
      (.event .connecting :: marks, if s.connectedBefore then backOff s o.backoff else .returns)

/-- The loop over the attempts there are: what is sent, and whether the last
one is still pumped. -/
def run (hops : List Hop) (s : RunState) : List AttemptOutcome → List Mark × Bool
  | [] => ([], false)
  | o :: rest =>
      match attempt hops s o with
      | (marks, .returns) => (marks, false)
      | (marks, .pumping) => (marks, true)
      | (marks, .again s) =>
          let (more, pumping) := run hops s rest
          (marks ++ more, pumping)

end Ssh

end PolyTerm
