import PolyTerm.BufWriter
import PolyTerm.SessionLog

/-!
# The file of a session log

The writer thread stamps the chunks into a buffered file that was opened for
appending. The medium may fail at any write: a failed flush is ignored and made
up for by the next one, a failed write ends the thread. Either way the file
holds what it held, and behind it a beginning of the stamped text of the chunks
that were accepted; dropping the log joins the thread, so that on a medium that
does not fail it then holds all of it (`log_file`).
-/

namespace PolyTerm

open Runs LineTimestamper

/-- Of a `BufWriter` in the standard library. -/
def bufWriterCapacity : Nat := 8192

abbrev LogFile (C : Type) := SessionLog (BufWriter UInt8) C

namespace LogFile

variable {C : Type}

/-- On a file that holds `old`. -/
def start (old : Bytes) (outcomes : List (Option Nat)) (clock : C) : LogFile C :=
  SessionLog.start (.new bufWriterCapacity old outcomes) clock

variable (tick : C → String × C)

def take (log : LogFile C) : Option (LogFile C) :=
  SessionLog.take BufWriter.writeAll BufWriter.flushBuf tick log

def step (log : LogFile C) (a : LogAction) : Option (LogFile C) :=
  SessionLog.step BufWriter.writeAll BufWriter.flushBuf tick log a

/-- The thread takes `n` more chunks, if it is still there. -/
def drain : Nat → LogFile C → LogFile C
  | 0, log => log
  | n + 1, log => drain n ((take tick log).getD log)

/-- The thread ends: it flushes, unless a failed write ended it and it has done so,
and its writer flushes when it is dropped. -/
def close (log : LogFile C) : LogFile C :=
  { log with
    writer := SessionLog.flushed BufWriter.flushBuf
      (if log.channel.closed then log.writer
        else SessionLog.flushed BufWriter.flushBuf log.writer) }

/-- The file once the log is dropped, which waits for the thread. -/
def drop (log : LogFile C) : Bytes :=
  (close (drain tick log.channel.queue.length log)).writer.sink.file

/-! ## One chunk -/

variable {tick} {log log' : LogFile C} {clock : C} {old : Bytes} {all : List Bytes}

theorem flushed_adds {writer : LineTimestamper (BufWriter UInt8) C} (h : writer.sink.Bounded) :
    writer.sink.Adds [] (SessionLog.flushed BufWriter.flushBuf writer).sink ∧
      (SessionLog.flushed BufWriter.flushBuf writer).state = writer.state := by
  have hflush := (BufWriter.flushBuf_appends h).1
  unfold SessionLog.flushed
  rw [EStateM.run]
  cases hw : BufWriter.flushBuf writer.sink with
  | ok _ sink => exact ⟨(congrArg (writer.sink.Appends []) hw).mp hflush, rfl⟩
  | error _ sink =>
      obtain ⟨p, hp, hadds⟩ := (congrArg (writer.sink.Appends []) hw).mp hflush
      obtain rfl := List.prefix_nil.mp hp
      exact ⟨hadds, rfl⟩

/-- What stamping a chunk comes to. -/
inductive Stamps (tick : C → String × C) (log : LogFile C) : LogFile C → Prop where
  | whole (chunk : Bytes) (channel : Fifo Bytes) (writer : LineTimestamper (BufWriter UInt8) C)
      (hrecv : log.channel.recv = some (chunk, channel))
      (hadds : log.writer.sink.Adds ((stamping tick).emits log.writer.state chunk).flatten
        writer.sink)
      (hstate : writer.state = (stamping tick).after log.writer.state chunk)
      (hreliable : log.writer.sink.Reliable → writer.sink.Reliable) :
      Stamps tick log ⟨channel, SessionLog.flushed BufWriter.flushBuf writer⟩
  | broken (chunk : Bytes) (channel : Fifo Bytes) (writer : LineTimestamper (BufWriter UInt8) C)
      (p : Bytes) (hrecv : log.channel.recv = some (chunk, channel))
      (hp : p <+: ((stamping tick).emits log.writer.state chunk).flatten)
      (hadds : log.writer.sink.Adds p writer.sink) (hfails : ¬log.writer.sink.Reliable) :
      Stamps tick log ⟨channel.close, SessionLog.flushed BufWriter.flushBuf writer⟩

theorem take_stamps (hbounded : log.writer.sink.Bounded) (h : take tick log = some log') :
    Stamps tick log log' := by
  obtain ⟨⟨chunk, channel⟩, hrecv, hlog'⟩ := Option.map_eq_some_iff.mp h
  have hagrees : Agrees _ ((writeBytes BufWriter.writeAll tick chunk).run log.writer) _ :=
    writeBytes_agrees chunk log.writer
  have hadds := BufWriter.forM_appends hbounded ((stamping tick).emits log.writer.state chunk)
  have hsucceeds := fun hreliable : log.writer.sink.Reliable =>
    BufWriter.forM_succeeds hreliable ((stamping tick).emits log.writer.state chunk)
  generalize (((stamping tick).emits log.writer.state chunk).forM BufWriter.writeAll).run
    log.writer.sink = sunk at hagrees hadds hsucceeds
  cases hrun : (writeBytes BufWriter.writeAll tick chunk).run log.writer with
  | ok _ writer =>
      simp only [hrun] at hlog' hagrees
      subst hlog'
      cases sunk with
      | ok _ sink =>
          obtain ⟨rfl, hstate⟩ := hagrees
          exact .whole chunk channel writer hrecv hadds hstate hsucceeds
      | error _ sink => exact hagrees.elim
  | error _ writer =>
      simp only [hrun] at hlog' hagrees
      subst hlog'
      cases sunk with
      | ok _ sink => exact hagrees.elim
      | error _ sink =>
          obtain ⟨-, rfl⟩ := hagrees
          obtain ⟨p, hp, hadds⟩ := hadds
          exact .broken chunk channel writer p hrecv hp hadds hsucceeds

/-! ## What is kept -/

/-- `p` is behind what the file held, partly in the buffer still. -/
structure Holds (old p : Bytes) (log : LogFile C) : Prop where
  contents : log.writer.sink.contents = old ++ p
  file : old <+: log.writer.sink.file
  bounded : log.writer.sink.Bounded

theorem Holds.flushed {p : Bytes} {channel : Fifo Bytes}
    {writer : LineTimestamper (BufWriter UInt8) C} (h : Holds old p ⟨channel, writer⟩)
    (channel' : Fifo Bytes) :
    Holds old p ⟨channel', SessionLog.flushed BufWriter.flushBuf writer⟩ := by
  obtain ⟨hadds, -⟩ := flushed_adds h.bounded
  exact ⟨by rw [hadds.contents, List.append_nil, h.contents], h.file.trans hadds.file,
    hadds.bounded⟩

theorem Holds.adds {p q : Bytes} {channel : Fifo Bytes}
    {writer : LineTimestamper (BufWriter UInt8) C} (h : Holds old p log)
    (hadds : log.writer.sink.Adds q writer.sink) : Holds old (p ++ q) ⟨channel, writer⟩ :=
  ⟨by rw [hadds.contents, h.contents, List.append_assoc], h.file.trans hadds.file,
    hadds.bounded⟩

/-- A thread that runs has stamped the chunks it took; one that ended stamped a
beginning of the text. -/
inductive Kept (tick : C → String × C) (old : Bytes) (clock : C) (all : List Bytes)
    (log : LogFile C) : Prop where
  | running (taken : List Bytes) (hopen : log.channel.closed = false)
      (hall : all = taken ++ log.channel.queue)
      (holds : Holds old (stamped tick clock taken.flatten) log)
      (hstate : log.writer.state = (stamping tick).after (clock, true) taken.flatten)
  | ended (p : Bytes) (hclosed : log.channel.closed = true) (hempty : log.channel.queue = [])
      (hp : p <+: stamped tick clock all.flatten) (holds : Holds old p log)

theorem stamped_prefix {stream more : Bytes} :
    stamped tick clock stream <+: stamped tick clock (stream ++ more) := by
  rw [stamped_append]
  exact List.prefix_append _ _

theorem Kept.holds (h : Kept tick old clock all log) :
    ∃ p, p <+: stamped tick clock all.flatten ∧ Holds old p log := by
  cases h with
  | running taken _ hall holds =>
      refine ⟨_, ?_, holds⟩
      rw [hall, List.flatten_append]
      exact stamped_prefix
  | ended p _ _ hp holds => exact ⟨p, hp, holds⟩

theorem kept_start (old : Bytes) (outcomes : List (Option Nat)) (clock : C) :
    Kept tick old clock [] (start old outcomes clock) :=
  .running [] rfl rfl
    ⟨rfl, List.prefix_refl old, BufWriter.bounded_new bufWriterCapacity old outcomes⟩ rfl

theorem Kept.write (h : Kept tick old clock all log) (bytes : Bytes) :
    Kept tick old clock (all ++ log.accepted (.write bytes)) (log.write bytes) := by
  have hqueue : (log.write bytes).channel.queue =
      log.channel.queue ++ log.accepted (.write bytes) := by
    rw [SessionLog.write, Fifo.getD_trySend_queue, SessionLog.accepted]
    split
    · rfl
    · rw [List.append_nil]
  have hclosed : (log.write bytes).channel.closed = log.channel.closed := by
    rw [SessionLog.write]
    cases hsend : log.channel.trySend bytes with
    | ok channel =>
        have hopen := (Fifo.trySend_ok hsend).2
        unfold Fifo.trySend at hsend
        split at hsend
        · cases hsend
        · rename_i hnot
          exact hopen.trans (Bool.eq_false_iff.mpr hnot).symm
    | error e => rfl
  cases h with
  | running taken hopen hall holds hstate =>
      refine .running taken (hclosed.trans hopen) ?_ ⟨holds.contents, holds.file, holds.bounded⟩
        hstate
      rw [hall, hqueue, List.append_assoc]
  | ended p hshut hempty hp holds =>
      have hnone : log.accepted (.write bytes) = [] := by
        simp [SessionLog.accepted, Fifo.room, hshut]
      rw [hnone, List.append_nil]
      exact .ended p (hclosed.trans hshut) (by rw [hqueue, hempty, hnone]; rfl) hp
        ⟨holds.contents, holds.file, holds.bounded⟩

theorem Kept.take (h : Kept tick old clock all log) (htake : take tick log = some log') :
    Kept tick old clock all log' := by
  cases h with
  | running taken hopen hall holds hstate =>
      cases take_stamps holds.bounded htake with
      | whole chunk channel writer hrecv hadds hafter =>
          obtain ⟨hqueue, hsame⟩ := Fifo.recv_some hrecv
          have hflat : (taken ++ [chunk]).flatten = taken.flatten ++ chunk := by simp
          have hheld : Holds old (stamped tick clock (taken ++ [chunk]).flatten)
              (⟨channel, writer⟩ : LogFile C) := by
            rw [hflat, stamped_append, ← hstate]
            exact holds.adds hadds
          refine .running (taken ++ [chunk]) (hsame.trans hopen) ?_ (hheld.flushed channel) ?_
          · rw [hall, hqueue, List.append_assoc, List.singleton_append]
          · rw [(flushed_adds hheld.bounded).2, hafter, hstate, hflat, Transducer.after_append]
      | broken chunk channel writer p hrecv hp hadds =>
          have hheld : Holds old (stamped tick clock taken.flatten ++ p)
              (⟨channel, writer⟩ : LogFile C) := holds.adds hadds
          refine .ended _ rfl rfl ?_ (hheld.flushed channel.close)
          have hflat : all.flatten = taken.flatten ++ (chunk ++ channel.queue.flatten) := by
            rw [hall, (Fifo.recv_some hrecv).1]
            simp
          rw [hflat, ← List.append_assoc]
          refine List.IsPrefix.trans ?_ stamped_prefix
          rw [stamped_append, ← hstate]
          exact (List.prefix_append_right_inj _).mpr hp
  | ended p hclosed hempty hp holds =>
      cases take_stamps holds.bounded htake with
      | whole chunk channel writer hrecv | broken chunk channel writer p hrecv =>
          have hqueue := (Fifo.recv_some hrecv).1
          rw [hempty] at hqueue
          cases hqueue

theorem kept_run {outcomes : List (Option Nat)} {actions : List LogAction}
    (hrun : run (step tick) (start old outcomes clock) actions = some log) :
    Kept tick old clock
      (outputs (step tick) SessionLog.accepted (start old outcomes clock) actions) log := by
  induction actions using List.reverseRecOn generalizing log with
  | nil =>
      obtain rfl := Option.some.inj hrun
      exact kept_start old outcomes clock
  | append_singleton actions a ih =>
      obtain ⟨before, hbefore, hstep⟩ := run_concat.mp hrun
      rw [outputs_concat hbefore hstep]
      cases a with
      | write bytes =>
          obtain rfl := Option.some.inj hstep
          exact (ih hbefore).write bytes
      | take =>
          rw [SessionLog.accepted, List.append_nil]
          exact (ih hbefore).take hstep

/-! ## A medium that does not fail -/

/-- The thread runs, and nothing is going to stop it. -/
structure Unfailing (log : LogFile C) : Prop where
  running : log.channel.closed = false
  reliable : log.writer.sink.Reliable

theorem flushed_reliable {writer : LineTimestamper (BufWriter UInt8) C}
    (h : writer.sink.Reliable) (hbounded : writer.sink.Bounded) :
    (SessionLog.flushed BufWriter.flushBuf writer).sink.Reliable ∧
      (SessionLog.flushed BufWriter.flushBuf writer).sink.buffer = [] := by
  have hflush := BufWriter.flushBuf_succeeds h
  have hempty := (BufWriter.flushBuf_appends hbounded).2
  unfold SessionLog.flushed
  rw [EStateM.run]
  cases hw : BufWriter.flushBuf writer.sink with
  | ok _ sink => exact ⟨(congrArg BufWriter.Succeeds hw).mp hflush, (hempty sink hw).1⟩
  | error _ sink => exact ((congrArg BufWriter.Succeeds hw).mp hflush).elim

theorem Unfailing.take (h : Unfailing log) (hbounded : log.writer.sink.Bounded)
    (htake : take tick log = some log') : Unfailing log' := by
  cases take_stamps hbounded htake with
  | whole chunk channel writer hrecv hadds _ hreliable =>
      exact ⟨(Fifo.recv_some hrecv).2.trans h.running,
        (flushed_reliable (hreliable h.reliable) hadds.bounded).1⟩
  | broken chunk channel writer p hrecv hp hadds hfails => exact absurd h.reliable hfails

theorem Unfailing.write (h : Unfailing log) (bytes : Bytes) : Unfailing (log.write bytes) := by
  refine ⟨?_, h.reliable⟩
  rw [SessionLog.write]
  cases hsend : log.channel.trySend bytes with
  | ok channel => exact (Fifo.trySend_ok hsend).2
  | error e => exact h.running

theorem unfailing_run {outcomes : List (Option Nat)} (hreliable : ∀ o ∈ outcomes, o = none)
    {actions : List LogAction}
    (hrun : run (step tick) (start old outcomes clock) actions = some log) : Unfailing log := by
  induction actions using List.reverseRecOn generalizing log with
  | nil =>
      obtain rfl := Option.some.inj hrun
      exact ⟨rfl, hreliable⟩
  | append_singleton actions a ih =>
      obtain ⟨before, hbefore, hstep⟩ := run_concat.mp hrun
      cases a with
      | write bytes =>
          obtain rfl := Option.some.inj hstep
          exact (ih hbefore).write bytes
      | take =>
          obtain ⟨p, -, holds⟩ := (kept_run hbefore).holds
          exact (ih hbefore).take holds.bounded hstep

/-! ## Dropping the log -/

theorem take_queue (hbounded : log.writer.sink.Bounded) (h : take tick log = some log') :
    log'.channel.queue.length < log.channel.queue.length := by
  cases take_stamps hbounded h with
  | whole chunk channel writer hrecv | broken chunk channel writer p hrecv =>
      rw [(Fifo.recv_some hrecv).1]
      simp

/-- The thread works everything off, and fails only where a write does. -/
theorem drain_spec (h : Kept tick old clock all log) (n : Nat)
    (hn : log.channel.queue.length ≤ n) :
    Kept tick old clock all (drain tick n log) ∧ (drain tick n log).channel.queue = [] ∧
      (Unfailing log → Unfailing (drain tick n log)) := by
  induction n generalizing log with
  | zero => exact ⟨h, List.eq_nil_of_length_eq_zero (Nat.le_zero.mp hn), id⟩
  | succ n ih =>
      obtain ⟨p, -, holds⟩ := h.holds
      rw [drain]
      cases htake : take tick log with
      | some log' =>
          have hless := take_queue holds.bounded htake
          obtain ⟨hkept, hempty, hunfailing⟩ := ih (h.take htake) (by omega)
          exact ⟨hkept, hempty, fun hu => hunfailing (hu.take holds.bounded htake)⟩
      | none =>
          have hempty : log.channel.queue = [] :=
            Fifo.recv_eq_none.mp (Option.map_eq_none_iff.mp htake)
          exact ih h (by rw [Option.getD_none, hempty]; exact Nat.zero_le n)

theorem Holds.file_eq {p : Bytes} (h : Holds old p log) :
    ∃ q, q <+: p ∧ log.writer.sink.file = old ++ q := by
  obtain ⟨q, hq⟩ := h.file
  refine ⟨q, ?_, hq.symm⟩
  have hcontents := h.contents
  rw [BufWriter.contents, ← hq, List.append_assoc] at hcontents
  exact ⟨_, List.append_cancel_left hcontents⟩

theorem Holds.close {p : Bytes} (h : Holds old p log) : Holds old p (close log) := by
  have hsame : Holds old p ⟨log.channel, log.writer⟩ := h
  unfold LogFile.close
  split
  · exact hsame.flushed log.channel
  · exact (hsame.flushed log.channel).flushed log.channel

/-- The last flush leaves nothing in the buffer. -/
theorem Unfailing.close_buffer (h : Unfailing log) (hbounded : log.writer.sink.Bounded) :
    (close log).writer.sink.buffer = [] := by
  obtain ⟨hreliable, -⟩ := flushed_reliable h.reliable hbounded
  obtain ⟨hadds, -⟩ := flushed_adds hbounded
  unfold LogFile.close
  rw [h.running]
  exact (flushed_reliable hreliable hadds.bounded).2

/-- At any time the log's file holds, behind what it held, a beginning of the stamped
text of the accepted chunks, and it still does once the log is dropped. If the
medium does not fail it then has all of it. -/
theorem log_file {outcomes : List (Option Nat)} {actions : List LogAction}
    (hrun : run (step tick) (start old outcomes clock) actions = some log) :
    let all := outputs (step tick) SessionLog.accepted (start old outcomes clock) actions
    (∃ p, p <+: stamped tick clock all.flatten ∧ log.writer.sink.file = old ++ p) ∧
      (∃ p, p <+: stamped tick clock all.flatten ∧ drop tick log = old ++ p) ∧
      ((∀ o ∈ outcomes, o = none) → drop tick log = old ++ stamped tick clock all.flatten) := by
  intro all
  have hkept : Kept tick old clock all log := kept_run hrun
  obtain ⟨p, hp, holds⟩ := hkept.holds
  obtain ⟨hdrained, hempty, hunfailing⟩ := drain_spec hkept _ (Nat.le_refl _)
  obtain ⟨q, hq, hend⟩ := hdrained.holds
  obtain ⟨p', hp', hfile⟩ := holds.file_eq
  obtain ⟨q', hq', hdrop⟩ := hend.close.file_eq
  refine ⟨⟨p', hp'.trans hp, hfile⟩, ⟨q', hq'.trans hq, hdrop⟩, fun hreliable => ?_⟩
  have hgood := hunfailing (unfailing_run hreliable hrun)
  have hbuffer := hgood.close_buffer hend.bounded
  cases hdrained with
  | running taken hopen hall holds =>
      have hcontents := holds.close.contents
      rw [BufWriter.contents, hbuffer, List.append_nil] at hcontents
      rw [hempty, List.append_nil] at hall
      rw [drop, hcontents, hall]
  | ended p hclosed =>
      rw [hgood.running] at hclosed
      cases hclosed

/-- Two chunks, and a flush between them that fails after three bytes. -/
theorem log_file_flushFails :
    ∃ log, run (step fun c : Nat => ("T ", c + 1)) (start [35] [some 3] 0)
        [.write (asBytes "ok\n"), .take, .write (asBytes "on")] = some log ∧
      (∃ p, p <+: stamped (fun c : Nat => ("T ", c + 1)) 0 (asBytes "ok\non") ∧
        log.writer.sink.file = [35] ++ p) ∧
      drop (fun c : Nat => ("T ", c + 1)) log = [35] ++ asBytes "T ok\nT on" := by
  refine ⟨_, rfl, ?_, by decide⟩
  have hrun : run (step fun c : Nat => ("T ", c + 1)) (start [35] [some 3] 0)
      [.write (asBytes "ok\n"), .take, .write (asBytes "on")] = some _ := rfl
  exact (log_file hrun).1

end LogFile

end PolyTerm
