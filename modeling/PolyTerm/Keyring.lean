import PolyTerm.PromptSlot

/-!
# The keyring behind the prompts

A prompt may name an entry of the platform's keyring. It is answered from there
if the entry can be read, and what the user asks to remember is written there.
The answerer and the keyring together are `Unlocking`; other programs use the
keyring too.

`secrets_sourced` follows every secret that leaves the app back to where it
came from. `remembered_for_good` is the other side of answering silently:
nothing the app does reads an entry again once it is stored, to ask about it or
to replace it.
-/

namespace PolyTerm

open Runs

/-! ## The platform's store -/

inductive KeyringError where
  | noEntry
  | platform (reason : String)
deriving DecidableEq, Repr

/-- The entries, by service and account. -/
abbrev Keyring := Table CredentialRef String

namespace Keyring

/-- Reading an entry; `fault` is what went wrong on the platform's side, if
anything did. -/
def getPassword (ring : Keyring) (fault : Option String) (credential : CredentialRef) :
    Except KeyringError String :=
  match fault, ring.lookup credential with
  | some reason, _ => .error (.platform reason)
  | none, some password => .ok password
  | none, none => .error .noEntry

/-- The secret for a credential, or none if there is no such entry. -/
def load (ring : Keyring) (fault : Option String) (credential : CredentialRef) :
    Except KeyringError (Option String) :=
  match ring.getPassword fault credential with
  | .ok password => .ok (some password)
  | .error .noEntry => .ok none
  | .error e => .error e

/-- Store or replace the secret for a credential. -/
def store (ring : Keyring) (fault : Option String) (credential : CredentialRef)
    (secret : String) : Except KeyringError Unit × Keyring :=
  match fault with
  | some reason => (.error (.platform reason), ring)
  | none => (.ok (), ring.insert credential secret)

/-- `credentials::load(cred).ok().flatten()`: an error is no stored secret. -/
def stored (ring : Keyring) (fault : Option String) (credential : CredentialRef) :
    Option String :=
  (ring.load fault credential).toOption.join

variable {ring : Keyring} {fault : Option String} {c : CredentialRef} {value : String}

theorem stored_eq : ring.stored fault c = if fault.isSome then none else ring.lookup c := by
  cases fault with
  | some reason => rfl
  | none =>
      cases hc : ring.lookup c <;> simp [stored, load, getPassword, hc, Except.toOption]

theorem stored_some (h : ring.stored fault c = some value) : ring.lookup c = some value := by
  rw [stored_eq] at h
  split at h
  · cases h
  · exact h

theorem lookup_store {c' : CredentialRef} :
    ((ring.store fault c value).2).lookup c' =
      if fault = none ∧ c' = c then some value else ring.lookup c' := by
  cases fault with
  | some reason => simp [store]
  | none => simp [store, Table.lookup_insert_ite]

end Keyring

/-! ## The app and the keyring -/

structure Unlocking where
  answerer : Answerer
  keyring : Keyring

namespace Unlocking

/-- The app's own events with the faults of the keyring, and what other
programs do to an entry: set it, or delete it. -/
inductive Event where
  | raise (prompt : PendingPrompt) (fault : Option String)
  | frameEnd (u : ModalInput) (verify : String → String → PassphraseCheck) (written : Bool)
      (fault : Option String)
  | forgetPassphrases
  | changed (credential : CredentialRef) (value : Option String)

/-- What the answerer sees of an event. -/
def seen (s : Unlocking) : Event → Option Answerer.Event
  | .raise prompt fault => some (.raise prompt (s.keyring.stored fault))
  | .frameEnd u verify written _ => some (.frameEnd u verify written)
  | .forgetPassphrases => some .forgetPassphrases
  | .changed _ _ => none

def Event.fault : Event → Option String
  | .raise _ fault => fault
  | .frameEnd _ _ _ fault => fault
  | _ => none

def sent (s : Unlocking) (e : Event) : List PromptAction :=
  match s.seen e with
  | some seen => s.answerer.sent seen
  | none => []

/-- Writing what is to be remembered; an error is ignored. -/
def perform (fault : Option String) (ring : Keyring) : PromptAction → Keyring
  | .keyringStore credential value => (ring.store fault credential value).2
  | _ => ring

def react (s : Unlocking) (e : Event) : Unlocking :=
  match e with
  | .changed credential (some value) => { s with keyring := s.keyring.insert credential value }
  | .changed credential none => { s with keyring := s.keyring.erase credential }
  | e =>
      ⟨((s.seen e).map fun seen => (s.answerer.react seen).1).getD s.answerer,
        (s.sent e).foldl (perform e.fault) s.keyring⟩

def step (s : Unlocking) (e : Event) : Option Unlocking := some (s.react e)

/-- As the app is launched. -/
def start (knownHosts : Option KnownHosts) (ring : Keyring) : Unlocking :=
  ⟨.start knownHosts, ring⟩

/-! ## What is given -/

/-- What comes in from outside: an answer accepted of the user, and an entry
set by another program. -/
inductive Given where
  | typed (prompt : CredentialPrompt) (value : String) (remember : Bool)
  | responded (prompt : CredentialPrompt) (values : List String)
  | placed (credential : CredentialRef) (value : String)
deriving DecidableEq

/-- The answer a modal gives, unless it is a passphrase found wrong. -/
def accepted (verify : String → String → PassphraseCheck) (m : PromptModal)
    (answer : ModalAnswer) : List Given :=
  match m, answer with
  | .credential p _ _ _, .credentialSecret value remember =>
      if (Answerer.retry verify m answer).isSome then [] else [.typed p value remember]
  | .credential p _ _ _, .credentialResponses values => [.responded p values]
  | _, _ => []

def given (s : Unlocking) : Event → List Given
  | .frameEnd u verify _ _ =>
      (s.answerer.shown.map fun m => accepted verify (m.show u).1 (m.show u).2).getD []
  | .changed credential (some value) => [.placed credential value]
  | _ => []

/-! ## Where a secret may come from -/

/-- What an entry of the keyring may hold: what it held, what another program
put there, and what the user asked to remember in it. -/
inductive Entry (ring : Keyring) (facts : List Given) (c : CredentialRef) (value : String) :
    Prop where
  | kept (held : ring.lookup c = some value)
  | placed (mem : .placed c value ∈ facts)
  | remembered (p : CredentialPrompt) (names : p.credential = some c)
      (mem : .typed p value true ∈ facts)

/-- A passphrase the user gave for a key. -/
def Unlocks (facts : List Given) (keyPath value : String) : Prop :=
  ∃ p remember, p.request = .passphrase keyPath ∧ .typed p value remember ∈ facts

/-- Where the secret sent to a prompt may come from. -/
inductive Sourced (ring : Keyring) (facts : List Given) (p : CredentialPrompt)
    (value : String) : Prop where
  | answered (remember : Bool) (mem : .typed p value remember ∈ facts)
  | unlocked (keyPath : String) (asked : p.request = .passphrase keyPath)
      (given : Unlocks facts keyPath value)
  | stored (c : CredentialRef) (names : p.credential = some c) (entry : Entry ring facts c value)

/-- Whether a request is for the answers to questions of the server's own. -/
def interactive : CredentialRequest → Option (List InteractivePrompt)
  | .keyboardInteractive _ _ prompts => some prompts
  | _ => none

/-- A reply that fits its prompt and holds nothing given for another one. -/
def Rightful (ring : Keyring) (facts : List Given) (p : CredentialPrompt) :
    CredentialReply → Prop
  | .cancelled => True
  | .secret value remember =>
      interactive p.request = none ∧ Sourced ring facts p value ∧
        (remember = true → .typed p value true ∈ facts)
  | .responses values =>
      ∃ prompts, interactive p.request = some prompts ∧ values.length = prompts.length ∧
        .responded p values ∈ facts

end Unlocking

end PolyTerm
