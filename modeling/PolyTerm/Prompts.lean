import PolyTerm.KnownHosts
import PolyTerm.Runs
import PolyTerm.Table

/-!
# Answering the prompts a backend raises

The app holds at most one modal and a queue behind it. A raised prompt is
answered silently (a host key on record, a cached or stored secret) or becomes
a modal; at the end of a frame the modal is drawn and either stays open or is
resolved. Replies leave as actions, so what was sent and to whom is read off
the run.

What the code reads from outside is a parameter of the step: the keyring, the
check of a passphrase against the key file, whether a write of the trust store
succeeded, and what the user did with the drawn widgets.
-/

namespace PolyTerm

/-! ## Prompts and modals -/

inductive TrustDecision where
  | reject
  | acceptOnce
  | acceptAndRemember
deriving DecidableEq, Repr

/-- The reply channel a prompt carries. -/
structure ReplyId where
  n : Nat
deriving DecidableEq, Repr

structure HostKeyPrompt where
  id : HostId
  fingerprint : String
  publicKey : Bytes
  reply : ReplyId
deriving DecidableEq, Repr

structure CredentialRef where
  service : String
  account : String
deriving DecidableEq, Repr

structure InteractivePrompt where
  text : String
  echo : Bool
deriving DecidableEq, Repr

inductive CredentialRequest where
  | password (username host : String)
  /-- The key's path, as the text of its components: paths are compared by those. -/
  | passphrase (keyPath : String)
  | keyboardInteractive (name instruction : String) (prompts : List InteractivePrompt)
deriving DecidableEq, Repr

structure CredentialPrompt where
  request : CredentialRequest
  credential : Option CredentialRef
  reply : ReplyId
deriving DecidableEq, Repr

inductive CredentialReply where
  | cancelled
  | secret (value : String) (remember : Bool)
  | responses (values : List String)
deriving DecidableEq, Repr

inductive PendingPrompt where
  | hostKey (prompt : HostKeyPrompt)
  | credential (prompt : CredentialPrompt)
deriving DecidableEq, Repr

inductive PromptModal where
  | hostKey (prompt : HostKeyPrompt) (status : KnownHostStatus)
  | credential (prompt : CredentialPrompt) (inputs : List String) (remember : Bool)
      (error : Option String)
deriving DecidableEq, Repr

inductive ModalAnswer where
  | pending
  | trust (decision : TrustDecision)
  | credentialCancelled
  | credentialSecret (value : String) (remember : Bool)
  | credentialResponses (values : List String)
deriving DecidableEq, Repr

namespace PromptModal

/-- The prompt the modal asks about. -/
def prompt : PromptModal → PendingPrompt
  | .hostKey p _ => .hostKey p
  | .credential p _ _ _ => .credential p

/-- One input per keyboard-interactive prompt, else a single one. -/
def forCredential (p : CredentialPrompt) : PromptModal :=
  let count := match p.request with
    | .keyboardInteractive _ _ prompts => prompts.length
    | _ => 1
  .credential p (List.replicate count "") false none

def credentialRetry (p : CredentialPrompt) (error : String) : PromptModal :=
  match forCredential p with
  | .credential p inputs remember _ => .credential p inputs remember (some error)
  | other => other

end PromptModal

/-! ## Drawing a modal -/

/-- What the user did with the modal's widgets in one frame. -/
structure ModalInput where
  /-- the window's own close button -/
  closed : Bool
  reject : Bool
  accept : Bool
  ok : Bool
  cancel : Bool
  enter : Bool
  /-- the content each field is left with -/
  typed : Nat → String
  rememberBox : Bool

def showHostKey (u : ModalInput) : ModalAnswer :=
  if u.closed then .trust .reject
  else if u.accept then .trust .acceptAndRemember
  else if u.reject then .trust .reject
  else .pending

def secretButtons (u : ModalInput) (value : String) (remember : Bool) : ModalAnswer :=
  if u.cancel then .credentialCancelled
  else if u.ok || u.enter then .credentialSecret value remember
  else .pending

/-- The fields and the answer of a credential modal after one frame. The
checkbox is drawn only when the session names a keyring entry. -/
def showCredential (p : CredentialPrompt) (inputs : List String) (remember : Bool)
    (u : ModalInput) : List String × Bool × ModalAnswer :=
  let inputs := inputs.mapIdx fun i _ => u.typed i
  let (remember, answer) :=
    match p.request with
    | .keyboardInteractive _ _ _ =>
        (remember,
          if u.cancel then .credentialCancelled
          else if u.ok then .credentialResponses inputs
          else .pending)
    | _ =>
        let remember := if p.credential.isSome then u.rememberBox else remember
        (remember, secretButtons u (inputs.headD "") remember)
  (inputs, remember, if u.closed then .credentialCancelled else answer)

/-- Draw the modal: its own input state afterwards, and the answer. -/
def PromptModal.show : PromptModal → ModalInput → PromptModal × ModalAnswer
  | .hostKey p status, u => (.hostKey p status, showHostKey u)
  | .credential p inputs remember error, u =>
      let (inputs, remember, answer) := showCredential p inputs remember u
      (.credential p inputs remember error, answer)

/-! ## The answerer -/

/-- The part of the app that answers prompts. -/
structure Answerer where
  knownHosts : Option KnownHosts
  modal : Option PromptModal
  modalQueue : List PromptModal
  passphraseCache : Table String String

/-- What answering a prompt sends or stores. -/
inductive PromptAction where
  | trust (prompt : HostKeyPrompt) (decision : TrustDecision)
  | credential (prompt : CredentialPrompt) (reply : CredentialReply)
  | keyringStore (credential : CredentialRef) (value : String)
deriving DecidableEq, Repr

inductive PassphraseCheck where
  | correct
  | incorrect
  | unverifiable
deriving DecidableEq, Repr

namespace Answerer

/-- Without a store every key is unknown. -/
def statusOf (a : Answerer) (p : HostKeyPrompt) : KnownHostStatus :=
  match a.knownHosts with
  | some s => s.knownHostStatus p.id p.publicKey
  | none => .unknown

def enqueueModal (a : Answerer) (m : PromptModal) : Answerer :=
  match a.modal with
  | none => { a with modal := some m }
  | some _ => { a with modalQueue := a.modalQueue ++ [m] }

/-- The secret a credential prompt is answered with silently, if there is one:
a passphrase unlocked this run, else a stored password or passphrase. `load`
is the keyring. -/
def silentSecret (a : Answerer) (load : CredentialRef → Option String)
    (p : CredentialPrompt) : Option String :=
  let stored := match p.request with
    | .keyboardInteractive _ _ _ => none
    | _ => p.credential.bind load
  match p.request with
  | .passphrase keyPath => (a.passphraseCache.lookup keyPath).or stored
  | _ => stored

def handlePrompt (load : CredentialRef → Option String) (a : Answerer) :
    PendingPrompt → Answerer × List PromptAction
  | .hostKey p =>
      let status := a.statusOf p
      if status = .match then (a, [.trust p .acceptOnce])
      else (a.enqueueModal (.hostKey p status), [])
  | .credential p =>
      match a.silentSecret load p with
      | some value => (a, [.credential p (.secret value false)])
      | none => (a.enqueueModal (.forCredential p), [])

/-- Store the secret if asked to, then reply with it. -/
def sendSecret (p : CredentialPrompt) (value : String) (remember : Bool) :
    List PromptAction :=
  (if remember then (p.credential.map fun c => .keyringStore c value).toList else []) ++
    [.credential p (.secret value remember)]

def resolveModal (verify : String → String → PassphraseCheck) (written : Bool)
    (a : Answerer) : PromptModal → ModalAnswer → Answerer × List PromptAction
  | .hostKey p _, .trust decision =>
      let knownHosts :=
        if decision = .acceptAndRemember then
          a.knownHosts.map fun s => (s.rememberHostKey p.id p.publicKey written).1
        else a.knownHosts
      ({ a with knownHosts := knownHosts }, [.trust p decision])
  | .credential p _ _ _, .credentialCancelled => (a, [.credential p .cancelled])
  | .credential p _ _ _, .credentialSecret value remember =>
      match p.request with
      | .passphrase keyPath =>
          match verify keyPath value with
          | .incorrect => (a.enqueueModal (.credentialRetry p "Wrong passphrase."), [])
          | _ =>
              ({ a with passphraseCache := a.passphraseCache.insert keyPath value },
                sendSecret p value remember)
      | _ => (a, sendSecret p value remember)
  | .credential p _ _ _, .credentialResponses values => (a, [.credential p (.responses values)])
  | _, _ => (a, [])

/-- With no modal open, the first waiting one comes to the foreground. -/
def promote (a : Answerer) : Answerer :=
  match a.modal, a.modalQueue with
  | none, m :: rest => { a with modal := some m, modalQueue := rest }
  | _, _ => a

/-- The modal that a frame draws. -/
def shown (a : Answerer) : Option PromptModal := a.promote.modal

/-- The end of a frame: draw the modal, keep it or resolve it. -/
def answerModal (verify : String → String → PassphraseCheck) (written : Bool)
    (u : ModalInput) (a : Answerer) : Answerer × List PromptAction :=
  let a := a.promote
  match a.modal with
  | none => (a, [])
  | some m =>
      let a := { a with modal := none }
      match m.show u with
      | (m, .pending) => ({ a with modal := some m }, [])
      | (m, answer) => resolveModal verify written a m answer

/-- The app with its modal taken out, as a resolution finds it. -/
def taken (a : Answerer) : Answerer := { a.promote with modal := none }

theorem answerModal_none {verify : String → String → PassphraseCheck} {written : Bool}
    {u : ModalInput} {a : Answerer} (h : a.shown = none) :
    answerModal verify written u a = (a.promote, []) := by
  simp only [shown] at h
  simp only [answerModal, h]

theorem answerModal_pending {verify : String → String → PassphraseCheck} {written : Bool}
    {u : ModalInput} {a : Answerer} {m : PromptModal} (h : a.shown = some m)
    (hm : (m.show u).2 = .pending) :
    answerModal verify written u a = ({ a.taken with modal := some (m.show u).1 }, []) := by
  simp only [shown] at h
  have hshow : m.show u = ((m.show u).1, .pending) := Prod.ext rfl hm
  simp only [answerModal, h]
  rw [hshow]
  rfl

theorem answerModal_resolve {verify : String → String → PassphraseCheck} {written : Bool}
    {u : ModalInput} {a : Answerer} {m : PromptModal} (h : a.shown = some m)
    (hm : (m.show u).2 ≠ .pending) :
    answerModal verify written u a =
      resolveModal verify written a.taken (m.show u).1 (m.show u).2 := by
  simp only [shown] at h
  simp only [answerModal, h]
  rfl

/-! ## Runs -/

/-- One thing that happens to the answerer, with what the code reads from
outside as it happens. -/
inductive Event where
  | raise (prompt : PendingPrompt) (load : CredentialRef → Option String)
  | frameEnd (u : ModalInput) (verify : String → String → PassphraseCheck) (written : Bool)
  | forgetPassphrases

def react (a : Answerer) : Event → Answerer × List PromptAction
  | .raise p load => handlePrompt load a p
  | .frameEnd u verify written => answerModal verify written u a
  | .forgetPassphrases => ({ a with passphraseCache := ∅ }, [])

def step (a : Answerer) (e : Event) : Option Answerer := some (react a e).1

def sent (a : Answerer) (e : Event) : List PromptAction := (react a e).2

/-- Nothing asked yet. -/
def start (knownHosts : Option KnownHosts) : Answerer := ⟨knownHosts, none, [], ∅⟩

end Answerer

end PolyTerm
