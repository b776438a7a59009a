import PolyTerm.KnownHosts
import PolyTerm.Lines
import PolyTerm.LossyUtf8
import PolyTerm.Transducer

/-!
# Timestamps in front of lines

The log of a session has a timestamp in front of every line. The stamping is a
machine over bytes (`stamping`): whatever the sink does, it gets the machine's
writes in order, up to its first failure (`writeBytes_agrees`). How the bytes
are cut into chunks makes no difference, and what the machine writes are the
lines of the stream, each behind the clock's next text (`emits_stamping`).
-/

namespace PolyTerm

def newline : UInt8 := 0x0a

def asBytes (text : String) : Bytes := LossyUtf8.encode text.toList

/-! ## The timestamper -/

/-- `clock` is what the clock, a closure of its own, will go on from. -/
structure LineTimestamper (W C : Type) where
  sink : W
  clock : C
  atLineStart : Bool

namespace LineTimestamper

variable {ε W C : Type}

def new (sink : W) (clock : C) : LineTimestamper W C := ⟨sink, clock, true⟩

variable (writeAll : Bytes → EStateM ε W Unit) (tick : C → String × C)

/-- To the sink; its failure is handed on. -/
def write (bytes : Bytes) : EStateM ε (LineTimestamper W C) Unit := fun t =>
  match writeAll bytes t.sink with
  | .ok () sink => .ok () { t with sink }
  | .error e sink => .error e { t with sink }

def readClock : EStateM ε (LineTimestamper W C) String :=
  modifyGet fun t => ((tick t.clock).1, { t with clock := (tick t.clock).2 })

/-- At the start of a line, the clock's next text. -/
def stampLine : EStateM ε (LineTimestamper W C) Unit := do
  if (← get).atLineStart then
    let text ← readClock tick
    write writeAll (asBytes text)
    modify fun t => { t with atLineStart := false }

def putByte (byte : UInt8) : EStateM ε (LineTimestamper W C) Unit := do
  write writeAll [byte]
  if byte = newline then
    modify fun t => { t with atLineStart := true }

def writeByte (byte : UInt8) : EStateM ε (LineTimestamper W C) Unit := do
  stampLine writeAll tick
  putByte writeAll byte

def writeBytes (bytes : Bytes) : EStateM ε (LineTimestamper W C) Unit :=
  bytes.forM (writeByte writeAll tick)

/-! ## The machine -/

/-- The stamp that is due, and the clock behind it. -/
def due (s : C × Bool) : C × List Bytes :=
  if s.2 then ((tick s.1).2, [asBytes (tick s.1).1]) else (s.1, [])

/-- Each output is one write. -/
def stamping : Transducer (C × Bool) UInt8 Bytes where
  step s byte := (((due tick s).1, byte = newline), (due tick s).2 ++ [[byte]])

def state (t : LineTimestamper W C) : C × Bool := (t.clock, t.atLineStart)

/-- The timestamper has done what was done to the sink, and is in `s` unless it
has failed. -/
def Agrees (s : C × Bool) :
    EStateM.Result ε (LineTimestamper W C) Unit → EStateM.Result ε W Unit → Prop
  | .ok () t, .ok () sink => t.sink = sink ∧ t.state = s
  | .error e t, .error e' sink => e = e' ∧ t.sink = sink
  | _, _ => False

variable {writeAll tick}

theorem Agrees.bind {p q : EStateM ε (LineTimestamper W C) Unit} {m n : EStateM ε W Unit}
    {s s' : C × Bool} {t : LineTimestamper W C} (h : Agrees s (p.run t) (m.run t.sink))
    (hq : ∀ t : LineTimestamper W C, t.state = s → Agrees s' (q.run t) (n.run t.sink)) :
    Agrees s' ((p >>= fun _ => q).run t) ((m >>= fun _ => n).run t.sink) := by
  rw [EStateM.run_bind, EStateM.run_bind]
  cases hp : p.run t with
  | error e t' =>
      rw [hp] at h
      cases hm : m.run t.sink with
      | error e' sink =>
          rw [hm] at h
          exact h
      | ok u sink =>
          rw [hm] at h
          exact h.elim
  | ok u t' =>
      rw [hp] at h
      cases hm : m.run t.sink with
      | error e' sink =>
          rw [hm] at h
          exact h.elim
      | ok u sink =>
          rw [hm] at h
          obtain ⟨rfl, hstate⟩ := h
          exact hq t' hstate

theorem write_agrees (bytes : Bytes) (t : LineTimestamper W C) :
    Agrees t.state ((write writeAll bytes).run t) ((writeAll bytes).run t.sink) := by
  rw [EStateM.run, EStateM.run, write]
  cases writeAll bytes t.sink with
  | ok u sink => exact ⟨rfl, rfl⟩
  | error e sink => exact ⟨rfl, rfl⟩

theorem stampLine_agrees (t : LineTimestamper W C) :
    Agrees ((due tick t.state).1, false) ((stampLine writeAll tick).run t)
      (((due tick t.state).2.forM writeAll).run t.sink) := by
  obtain ⟨sink, clock, atLineStart⟩ := t
  cases atLineStart with
  | false => exact ⟨rfl, rfl⟩
  | true =>
      refine Agrees.bind (write_agrees _ ⟨sink, (tick clock).2, true⟩) fun t ht => ?_
      exact ⟨rfl, congrArg (fun s : C × Bool => (s.1, false)) ht⟩

theorem putByte_agrees (byte : UInt8) {t : LineTimestamper W C} (h : t.atLineStart = false) :
    Agrees (t.clock, byte = newline) ((putByte writeAll byte).run t)
      (([[byte]].forM writeAll).run t.sink) := by
  refine Agrees.bind (write_agrees _ t) fun t' ht' => ?_
  obtain ⟨hclock, hstart⟩ := Prod.mk.inj ht'
  by_cases hnewline : byte = newline
  · simp only [hnewline, if_true, decide_true]
    exact ⟨rfl, congrArg (·, true) hclock⟩
  · simp only [hnewline, if_false, decide_false]
    exact ⟨rfl, Prod.ext hclock (hstart.trans h)⟩

/-- A byte makes the writes of the machine's step. -/
theorem writeByte_agrees (byte : UInt8) (t : LineTimestamper W C) :
    Agrees ((stamping tick).step t.state byte).1 ((writeByte writeAll tick byte).run t)
      ((((stamping tick).step t.state byte).2.forM writeAll).run t.sink) := by
  have hsplit : ((stamping tick).step t.state byte).2.forM writeAll =
      ((due tick t.state).2.forM writeAll >>= fun _ => [[byte]].forM writeAll) :=
    List.forM_append
  rw [hsplit]
  refine Agrees.bind (stampLine_agrees t) fun t' ht' => ?_
  obtain ⟨hclock, hstart⟩ := Prod.mk.inj ht'
  have hput : Agrees (t'.clock, byte = newline) ((putByte writeAll byte).run t')
      (([[byte]].forM writeAll).run t'.sink) := putByte_agrees byte hstart
  rw [hclock] at hput
  exact hput

/-- Bytes make the machine's writes, up to the sink's first failure. -/
theorem writeBytes_agrees (bytes : Bytes) (t : LineTimestamper W C) :
    Agrees ((stamping tick).after t.state bytes) ((writeBytes writeAll tick bytes).run t)
      ((((stamping tick).emits t.state bytes).forM writeAll).run t.sink) := by
  induction bytes generalizing t with
  | nil => exact ⟨rfl, rfl⟩
  | cons byte bytes ih =>
      have hsplit : ((stamping tick).emits t.state (byte :: bytes)).forM writeAll =
          (((stamping tick).step t.state byte).2.forM writeAll >>= fun _ =>
            ((stamping tick).emits ((stamping tick).step t.state byte).1 bytes).forM writeAll) :=
        List.forM_append
      rw [hsplit]
      refine Agrees.bind (writeByte_agrees byte t) fun t' ht' => ?_
      rw [Transducer.after, ← ht']
      exact ih t'

/-- How the bytes are cut into chunks makes no difference. -/
theorem writeBytes_chunks (chunks : List Bytes) :
    chunks.forM (writeBytes writeAll tick) =
      (writeBytes writeAll tick chunks.flatten : EStateM ε (LineTimestamper W C) Unit) := by
  induction chunks with
  | nil => rfl
  | cons chunk chunks ih =>
      have hsplit : writeBytes writeAll tick (chunk ++ chunks.flatten) =
          (writeBytes writeAll tick chunk >>= fun _ => writeBytes writeAll tick chunks.flatten :
            EStateM ε (LineTimestamper W C) Unit) :=
        List.forM_append
      rw [List.flatten_cons, hsplit, ← ih]
      rfl

/-! ## The lines -/

variable (tick)

/-- The clock's texts, one after the other. -/
def reading (clock : C) : Nat → String
  | 0 => (tick clock).1
  | i + 1 => reading (tick clock).2 i

/-- The stream with the clock's texts before its lines, the `i`-th before the
`i`-th. -/
def stamped (clock : C) (stream : Bytes) : Bytes :=
  ((Lines.lines newline stream).mapIdx fun i line => asBytes (reading tick clock i) ++ line).flatten

/-- The writes that make it. -/
def stampedWrites (clock : C) : List Bytes → List Bytes
  | [] => []
  | line :: rest =>
      asBytes (tick clock).1 :: (line.map fun byte => [byte]) ++ stampedWrites (tick clock).2 rest

/-- The writes for what is left of a line and the lines behind it. -/
def continued (clock : C) : List Bytes → List Bytes
  | [] => []
  | line :: rest => (line.map fun byte => [byte]) ++ stampedWrites tick clock rest

variable {tick}

theorem flatten_stampedWrites (clock : C) (ls : List Bytes) :
    (stampedWrites tick clock ls).flatten =
      (ls.mapIdx fun i line => asBytes (reading tick clock i) ++ line).flatten := by
  induction ls generalizing clock with
  | nil => rfl
  | cons line rest ih =>
      have hline : (line.map fun byte => [byte]).flatten = line := List.flatMap_singleton' line
      simp only [stampedWrites, List.mapIdx_cons, reading, List.flatten_cons, List.flatten_append,
        List.cons_append, hline, ih, List.append_assoc]

theorem continued_cons (clock : C) (byte : UInt8) (bytes : Bytes) :
    continued tick clock (Lines.lines newline (byte :: bytes)) =
      [byte] :: if byte = newline then stampedWrites tick clock (Lines.lines newline bytes)
        else continued tick clock (Lines.lines newline bytes) := by
  rw [Lines.lines]
  split
  · rfl
  · cases Lines.lines newline bytes <;> rfl

theorem stampedWrites_cons (clock : C) (byte : UInt8) (bytes : Bytes) :
    stampedWrites tick clock (Lines.lines newline (byte :: bytes)) =
      asBytes (tick clock).1 ::
        continued tick (tick clock).2 (Lines.lines newline (byte :: bytes)) := by
  cases hlines : Lines.lines newline (byte :: bytes) with
  | nil =>
      have hflat : (Lines.lines newline (byte :: bytes)).flatten = byte :: bytes :=
        Lines.flatten_lines _
      rw [hlines] at hflat
      cases hflat
  | cons line rest => rfl

/-- From the start of a line the machine writes the stamped lines; else it
first goes on with the line. -/
theorem emits_stamping (clock : C) (bytes : Bytes) :
    (stamping tick).emits (clock, true) bytes =
        stampedWrites tick clock (Lines.lines newline bytes) ∧
      (stamping tick).emits (clock, false) bytes =
        continued tick clock (Lines.lines newline bytes) := by
  induction bytes generalizing clock with
  | nil => exact ⟨rfl, rfl⟩
  | cons byte bytes ih =>
      have hmid : ∀ clock, (stamping tick).emits (clock, false) (byte :: bytes) =
          continued tick clock (Lines.lines newline (byte :: bytes)) := by
        intro clock
        have hstep : (stamping tick).emits (clock, false) (byte :: bytes) =
            [byte] :: (stamping tick).emits (clock, byte = newline) bytes := rfl
        rw [hstep, continued_cons]
        split
        case isTrue hnewline => rw [decide_eq_true hnewline, (ih clock).1]
        case isFalse hnewline => rw [decide_eq_false hnewline, (ih clock).2]
      have hstart : (stamping tick).emits (clock, true) (byte :: bytes) =
          asBytes (tick clock).1 ::
            (stamping tick).emits ((tick clock).2, false) (byte :: bytes) := rfl
      exact ⟨by rw [hstart, hmid, stampedWrites_cons], hmid clock⟩

theorem flatten_emits (clock : C) (stream : Bytes) :
    ((stamping tick).emits (clock, true) stream).flatten = stamped tick clock stream := by
  rw [(emits_stamping clock stream).1, flatten_stampedWrites]
  rfl

theorem stamped_append (clock : C) (stream more : Bytes) :
    stamped tick clock (stream ++ more) = stamped tick clock stream ++
      ((stamping tick).emits ((stamping tick).after (clock, true) stream) more).flatten := by
  rw [← flatten_emits, ← flatten_emits, Transducer.emits_append, List.flatten_append]

/-! ## The stamps taken out again -/

variable (tick)

/-- Skip what is left of a stamp, copy what is behind it to the end of its
line, and so on with the clock's next text. -/
def unstampFrom : C → Nat → Bytes → Bytes
  | _, _, [] => []
  | clock, skip + 1, _ :: out => unstampFrom clock skip out
  | clock, 0, byte :: out =>
      byte :: if byte = newline then
        unstampFrom (tick clock).2 (asBytes (tick clock).1).length out
      else unstampFrom clock 0 out

def unstamp (clock : C) (out : Bytes) : Bytes :=
  unstampFrom tick (tick clock).2 (asBytes (tick clock).1).length out

variable {tick}

theorem unstampFrom_append (clock : C) (stamp out : Bytes) :
    unstampFrom tick clock stamp.length (stamp ++ out) = unstampFrom tick clock 0 out := by
  induction stamp with
  | nil => rfl
  | cons byte stamp ih => exact ih

theorem unstamp_emits (clock : C) (bytes : Bytes) :
    unstamp tick clock ((stamping tick).emits (clock, true) bytes).flatten = bytes ∧
      unstampFrom tick clock 0 ((stamping tick).emits (clock, false) bytes).flatten = bytes := by
  induction bytes generalizing clock with
  | nil => exact ⟨by cases h : (asBytes (tick clock).1).length <;> rfl, rfl⟩
  | cons byte bytes ih =>
      have hmid : ∀ clock, unstampFrom tick clock 0
          ((stamping tick).emits (clock, false) (byte :: bytes)).flatten = byte :: bytes := by
        intro clock
        have hstep : ((stamping tick).emits (clock, false) (byte :: bytes)).flatten =
            byte :: ((stamping tick).emits (clock, byte = newline) bytes).flatten := rfl
        rw [hstep, unstampFrom]
        split
        case isTrue hnewline =>
          rw [decide_eq_true hnewline]
          exact congrArg (byte :: ·) (ih clock).1
        case isFalse hnewline => rw [decide_eq_false hnewline, (ih clock).2]
      have hstart : ((stamping tick).emits (clock, true) (byte :: bytes)).flatten =
          asBytes (tick clock).1 ++
            ((stamping tick).emits ((tick clock).2, false) (byte :: bytes)).flatten := rfl
      refine ⟨?_, hmid clock⟩
      rw [hstart, unstamp, unstampFrom_append, hmid]

/-! ## What is written -/

/-- What has become of the sink. -/
def written : EStateM.Result ε (LineTimestamper W C) Unit → EStateM.Result ε W Unit
  | .ok () t => .ok () t.sink
  | .error e t => .error e t.sink

theorem Agrees.written_eq {s : C × Bool} {r : EStateM.Result ε (LineTimestamper W C) Unit}
    {w : EStateM.Result ε W Unit} (h : Agrees s r w) : written r = w := by
  cases r with
  | ok u t =>
      cases w with
      | ok u sink => exact congrArg (EStateM.Result.ok ()) h.1
      | error e sink => exact h.elim
  | error e t =>
      cases w with
      | ok u sink => exact h.elim
      | error e' sink =>
          obtain ⟨rfl, rfl⟩ := h
          rfl

/-- A sink in memory. -/
def push (bytes : Bytes) : EStateM ε Bytes Unit := modify (· ++ bytes)

theorem forM_push (writes : List Bytes) (out : Bytes) :
    (writes.forM push : EStateM ε Bytes Unit).run out = .ok () (out ++ writes.flatten) := by
  induction writes generalizing out with
  | nil => exact congrArg (EStateM.Result.ok ()) (List.append_nil out).symm
  | cons bytes writes ih =>
      rw [List.flatten_cons, ← List.append_assoc]
      exact ih (out ++ bytes)

theorem written_chunks (writeAll : Bytes → EStateM ε W Unit) (sink : W) (clock : C)
    (chunks : List Bytes) :
    written ((chunks.forM (writeBytes writeAll tick)).run (new sink clock)) =
      ((stampedWrites tick clock (Lines.lines newline chunks.flatten)).forM writeAll).run sink := by
  have hagrees : Agrees _ ((writeBytes writeAll tick chunks.flatten).run (new sink clock)) _ :=
    writeBytes_agrees chunks.flatten (new sink clock)
  rw [writeBytes_chunks, hagrees.written_eq]
  exact congrArg (fun writes => (writes.forM writeAll).run sink)
    (emits_stamping clock chunks.flatten).1

theorem chunks_stamped (writeAll : Bytes → EStateM ε W Unit) (tick : C → String × C) (sink : W)
    (out : Bytes) (clock : C) (chunks : List Bytes) :
    written ((chunks.forM (writeBytes writeAll tick)).run (new sink clock)) =
        ((stampedWrites tick clock (Lines.lines newline chunks.flatten)).forM writeAll).run sink ∧
      written ((chunks.forM (writeBytes push tick)).run (new out clock)) =
        (.ok () (out ++ stamped tick clock chunks.flatten) : EStateM.Result ε Bytes Unit) ∧
      (∀ ls, Lines.lines newline chunks.flatten = ls ↔
        ls.flatten = chunks.flatten ∧ Lines.AreLines newline ls) ∧
      unstamp tick clock (stamped tick clock chunks.flatten) = chunks.flatten := by
  refine ⟨written_chunks writeAll sink clock chunks, ?_, fun _ => Lines.lines_eq_iff, ?_⟩
  · rw [written_chunks, forM_push, flatten_stampedWrites]
    rfl
  · rw [← flatten_emits]
    exact (unstamp_emits clock chunks.flatten).1

example : stamped (fun c : Unit => ("T ", c)) () (asBytes "one\ntwo") =
    asBytes "T one\nT two" := by decide

end LineTimestamper

end PolyTerm
