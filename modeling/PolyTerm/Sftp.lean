import PolyTerm.Dispatch
import PolyTerm.Transfer

/-!
# The SFTP client

`serve` opens the subsystem on the session of a shell, says so, and makes each
request of the browser pane a task of its own: one call to the server, or a
transfer. The pane asks for as much as the channel holds and hangs up when it
likes; the server answers each call when it likes. A reply is what its task
sends back.
-/

namespace PolyTerm

open Runs

/-! ## Requests -/

inductive FileKind where
  | file
  | dir
  | symlink
  | other
deriving DecidableEq, Repr

/-- What the server says an entry is. -/
structure FileType where
  isDir : Bool
  isSymlink : Bool
  isFile : Bool
deriving DecidableEq, Repr

structure Metadata where
  size : Option Nat := none
  permissions : Option UInt32 := none
  /-- in seconds -/
  mtime : Option UInt32 := none
deriving DecidableEq, Repr

/-- An entry as the server lists it. -/
structure ServerEntry where
  fileName : String
  fileType : FileType
  metadata : Metadata
deriving DecidableEq, Repr

structure DirEntry where
  name : String
  kind : FileKind
  size : Nat
  permissions : UInt32
  /-- in seconds since the epoch -/
  modified : Option Nat
deriving DecidableEq, Repr

inductive SftpRequest where
  | list (path : String)
  | mkdir (path : String)
  | removeFile (path : String)
  | removeDir (path : String)
  | rename (source target : String)
  | setPermissions (path : String) (mode : UInt32)
  /-- `reports` is the room in its channel of progress reports -/
  | download (remotePath localPath : String) (reports : Nat)
  | upload (localPath remotePath : String) (reports : Nat)
deriving DecidableEq, Repr

/-- A call to the server. -/
inductive SftpCall where
  | readDir (path : String)
  | createDir (path : String)
  | removeFile (path : String)
  | removeDir (path : String)
  | rename (source target : String)
  | setMetadata (path : String) (metadata : Metadata)
deriving DecidableEq, Repr

inductive SftpAnswer where
  | entries (entries : List ServerEntry)
  | done
  | error (message : String)
deriving DecidableEq, Repr

inductive SftpReply where
  | listing (result : Except SftpError (List DirEntry))
  | done (result : Except SftpError Unit)

inductive FilePath where
  | onServer (path : String)
  | onDisk (path : String)
deriving DecidableEq, Repr

inductive SftpTask where
  | call (call : SftpCall)
  | transfer (source target : FilePath) (x : Transfer)

def kindOf (ty : FileType) : FileKind :=
  if ty.isDir then .dir
  else if ty.isSymlink then .symlink
  else if ty.isFile then .file
  else .other

/-- What a server leaves out is 0, but for the time. -/
def ServerEntry.dirEntry (e : ServerEntry) : DirEntry where
  name := e.fileName
  kind := kindOf e.fileType
  size := e.metadata.size.getD 0
  permissions := e.metadata.permissions.getD 0
  modified := e.metadata.mtime.map UInt32.toNat

def handle : SftpRequest → SftpTask
  | .list path => .call (.readDir path)
  | .mkdir path => .call (.createDir path)
  | .removeFile path => .call (.removeFile path)
  | .removeDir path => .call (.removeDir path)
  | .rename source target => .call (.rename source target)
  | .setPermissions path mode => .call (.setMetadata path { permissions := some mode })
  | .download remotePath localPath reports =>
      .transfer (.onServer remotePath) (.onDisk localPath) (.start reports)
  | .upload localPath remotePath reports =>
      .transfer (.onDisk localPath) (.onServer remotePath) (.start reports)

/-- What a call replies to an answer that is one to it. -/
def SftpCall.reply : SftpCall → SftpAnswer → Option SftpReply
  | .readDir _, .entries entries => some (.listing (.ok (entries.map ServerEntry.dirEntry)))
  | .readDir _, .error message => some (.listing (.error (.io message)))
  | .readDir _, .done => none
  | _, .done => some (.done (.ok ()))
  | _, .error message => some (.done (.error (.io message)))
  | _, .entries _ => none

/-! ## The client -/

inductive SftpEvent where
  | ready
  | failed (e : SftpError)
deriving DecidableEq, Repr

inductive ServePhase where
  | opening
  /-- `failed` is being sent -/
  | refusing (e : SftpError)
  /-- `ready` is being sent -/
  | greeting
  | serving
  /-- `served`: the subsystem could be opened -/
  | returned (served : Bool)
deriving DecidableEq, Repr

def sftpRequestCapacity : Nat := 32

def sftpEventCapacity : Nat := 16

structure Sftp where
  phase : ServePhase
  requests : Dispatch SftpRequest SftpTask
  /-- the pane dropped its sender of requests -/
  requestsEnded : Bool
  events : Fifo SftpEvent

inductive SftpLabel where
  | request (r : SftpRequest)
  | hangUp
  | takeEvent
  | dropEvents
  /-- the answers to opening a channel, starting the subsystem, and setting up the client -/
  | opened (channel subsystem client : Except String Unit)
  | announce
  | spawn
  /-- there is no request left, and will be none -/
  | finish
  | answered (id : Nat) (answer : SftpAnswer)
  | transfer (id : Nat) (label : TransferLabel)
  | reply (id : Nat)

/-- The request a label is about. -/
def SftpLabel.task : SftpLabel → Option Nat
  | .answered id _ | .transfer id _ | .reply id => some id
  | _ => none

def openSftp (channel subsystem client : Except String Unit) : Except SftpError Unit := do
  channel.mapError .unavailable
  (subsystem.mapError fun e => .unavailable ("could not start sftp subsystem: " ++ e))
  client.mapError .unavailable

namespace Sftp

def start : Sftp where
  phase := .opening
  requests := .empty sftpRequestCapacity
  requestsEnded := false
  events := .empty sftpEventCapacity

/-- The receiver of requests is dropped, with whatever waits there. -/
def finish (s : Sftp) (served : Bool) : Sftp :=
  { s with
    phase := .returned served, requests := { s.requests with queue := s.requests.queue.close } }

/-- An event waits for room, and is ignored if nobody receives. -/
def send (s : Sftp) (e : SftpEvent) : Option Sftp :=
  match s.events.trySend e with
  | .ok events => some { s with events := events }
  | .error .full => none
  | .error .closed => some s

def announce (s : Sftp) : Option Sftp :=
  match s.phase with
  | .refusing e => (s.send (.failed e)).map (·.finish false)
  | .greeting => (s.send .ready).map fun s => { s with phase := .serving }
  | _ => none

/-- A call has its answer: its task replies and is gone. -/
def answered (s : Sftp) (id : Nat) (answer : SftpAnswer) : Option Sftp :=
  match s.requests.running.lookup id with
  | some (.call call) => (call.reply answer).map fun _ => { s with requests := s.requests.finish id }
  | _ => none

def transfer (s : Sftp) (id : Nat) (l : TransferLabel) : Option Sftp :=
  match s.requests.running.lookup id with
  | some (.transfer source target x) => (x.step l).map fun y =>
      { s with requests := s.requests.advance id (.transfer source target y) }
  | _ => none

/-- A transfer has returned: its task replies and is gone. -/
def reply (s : Sftp) (id : Nat) : Option Sftp :=
  match s.requests.running.lookup id with
  | some (.transfer _ _ x) =>
      match x.phase with
      | .returned _ => some { s with requests := s.requests.finish id }
      | _ => none
  | _ => none

def step (s : Sftp) : SftpLabel → Option Sftp
  | .request r =>
      if s.requestsEnded then none
      else (s.requests.submit r).map fun requests => { s with requests := requests }
  | .hangUp => some { s with requestsEnded := true }
  | .takeEvent => s.events.recv.map fun r => { s with events := r.2 }
  | .dropEvents => some { s with events := s.events.close }
  | .opened channel subsystem client =>
      if s.phase = .opening then
        match openSftp channel subsystem client with
        | .ok _ => some { s with phase := .greeting }
        | .error e => some { s with phase := .refusing e }
      else none
  | .announce => s.announce
  | .spawn =>
      if s.phase = .serving then
        (s.requests.spawn handle).map fun requests => { s with requests := requests }
      else none
  | .finish =>
      if s.phase = .serving ∧ s.requestsEnded = true ∧ s.requests.queue.queue = [] then
        some (s.finish true)
      else none
  | .answered id answer => s.answered id answer
  | .transfer id l => s.transfer id l
  | .reply id => s.reply id

/-- The reply a step sends, and the request it is to. -/
def replies (s : Sftp) : SftpLabel → List (Nat × SftpReply)
  | .answered id answer =>
      match s.requests.running.lookup id with
      | some (.call call) => (call.reply answer).toList.map fun r => (id, r)
      | _ => []
  | .reply id =>
      match s.requests.running.lookup id with
      | some (.transfer _ _ x) =>
          match x.phase with
          | .returned result => [(id, .done result)]
          | _ => []
      | _ => []
  | _ => []

end Sftp

end PolyTerm
