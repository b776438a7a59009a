import PolyTerm.Fifo
import PolyTerm.LineTimestamper
import PolyTerm.Runs

/-!
# The session log

The app hands the output of a session to a writer thread and never waits for
it: a chunk that finds the channel full is lost. So the log is not the session,
but it has whole chunks only and in their order. What becomes of them on a file
whose writes can fail is `LogFile`'s subject.
-/

namespace PolyTerm

open LineTimestamper

def logChannelCapacity : Nat := 4096

/-- The channel is closed once the thread has ended. -/
structure SessionLog (W C : Type) where
  channel : Fifo Bytes
  writer : LineTimestamper W C

inductive LogAction where
  /-- the app writes -/
  | write (bytes : Bytes)
  /-- the thread takes a chunk -/
  | take
deriving DecidableEq, Repr

namespace SessionLog

variable {ε W C : Type}

def start (sink : W) (clock : C) : SessionLog W C :=
  ⟨.empty logChannelCapacity, .new sink clock⟩

/-- A full buffer drops the bytes. -/
def write (log : SessionLog W C) (bytes : Bytes) : SessionLog W C :=
  { log with channel := (log.channel.trySend bytes).toOption.getD log.channel }

variable (writeAll : Bytes → EStateM ε W Unit) (flush : EStateM ε W Unit) (tick : C → String × C)

/-- Whether that fails is ignored. -/
def flushed (writer : LineTimestamper W C) : LineTimestamper W C :=
  match flush.run writer.sink with
  | .ok () sink => { writer with sink }
  | .error _ sink => { writer with sink }

/-- A write error ends the thread, quietly. -/
def take (log : SessionLog W C) : Option (SessionLog W C) :=
  log.channel.recv.map fun (chunk, channel) =>
    match (writeBytes writeAll tick chunk).run log.writer with
    | .ok () writer => ⟨channel, flushed flush writer⟩
    | .error _ writer => ⟨channel.close, flushed flush writer⟩

def step (log : SessionLog W C) : LogAction → Option (SessionLog W C)
  | .write bytes => some (log.write bytes)
  | .take => log.take writeAll flush tick

/-- The chunks a step puts in the channel. -/
def accepted (log : SessionLog W C) : LogAction → List Bytes
  | .write bytes => if log.channel.room then [bytes] else []
  | .take => []

end SessionLog

end PolyTerm
