import PolyTerm.Settling
import PolyTerm.Transport

/-!
# An SFTP transfer

`download` and `upload` are the same steps on different files: open the source,
ask for its size, create the target, copy chunk by chunk (`copy_with_progress`),
and flush or shut down the target. A step is the answer to the call the transfer
waits for. The pane takes progress reports whenever it likes, or not at all:
they are sent if there is room.
-/

namespace PolyTerm

open Runs

inductive SftpError where
  | unavailable (message : String)
  | io (message : String)
deriving DecidableEq, Repr

structure TransferProgress where
  done : Nat
  total : Option Nat
deriving DecidableEq, Repr

def transferChunk : Nat := 32 * 1024

inductive TransferPhase where
  /-- the source is being opened -/
  | opening
  | measuring
  /-- the target is being created -/
  | creating
  | reading
  /-- in `write_all` of a chunk, with `rest` to go -/
  | writing (chunk rest : Bytes)
  /-- the target is being flushed or shut down -/
  | finishing
  | returned (result : Except SftpError Unit)

structure Transfer where
  phase : TransferPhase
  total : Option Nat
  done : Nat
  progress : Fifo TransferProgress
  /-- what was put into the target since it was created -/
  target : Option Bytes

inductive TransferLabel where
  | opened (answer : Except String Unit)
  | measured (total : Option Nat)
  | created (answer : Except String Unit)
  | read (answer : Except String Bytes)
  | wrote (answer : Except String Nat)
  | finished (answer : Except String Unit)
  /-- the pane takes a report -/
  | takeProgress
  /-- the pane drops its receiver -/
  | dropProgress

/-- The answer to a call, and not a move of the pane. -/
def TransferLabel.isAnswer : TransferLabel → Bool
  | .takeProgress | .dropProgress => false
  | _ => true

namespace Transfer

def start (capacity : Nat) : Transfer where
  phase := .opening
  total := none
  done := 0
  progress := .empty capacity
  target := none

/-- The error of a call is the result. -/
def fail (x : Transfer) (message : String) : Transfer :=
  { x with phase := .returned (.error (.io message)) }

/-- The report is sent if there is room. -/
def report (x : Transfer) : Transfer :=
  { x with progress := (x.progress.trySend ⟨x.done, x.total⟩).toOption.getD x.progress }

/-- An empty read is the end of the source. -/
def read (x : Transfer) : Except String Bytes → Option Transfer
  | .ok bytes =>
      if bytes = [] then some { x with phase := .finishing }
      else if bytes.length ≤ transferChunk then some { x with phase := .writing bytes bytes }
      else none
  | .error message => some (x.fail message)

/-- `write_all` goes on until everything is written; a write of nothing is an error. -/
def wrote (x : Transfer) (chunk rest : Bytes) : Except String Nat → Option Transfer
  | .ok n =>
      if n = 0 then some (x.fail "write zero")
      else if n < rest.length then
        some { x with
          phase := .writing chunk (rest.drop n), target := x.target.map (· ++ rest.take n) }
      else if n = rest.length then
        some ({ x with
          phase := .reading, done := x.done + chunk.length,
          target := x.target.map (· ++ rest) } : Transfer).report
      else none
  | .error message => some (x.fail message)

def step (x : Transfer) (l : TransferLabel) : Option Transfer :=
  match x.phase, l with
  | .opening, .opened (.ok _) => some { x with phase := .measuring }
  | .opening, .opened (.error message) => some (x.fail message)
  | .measuring, .measured total => some { x with phase := .creating, total := total }
  | .creating, .created (.ok _) =>
      some ({ x with phase := .reading, target := some [] } : Transfer).report
  | .creating, .created (.error message) => some (x.fail message)
  | .reading, .read answer => x.read answer
  | .writing chunk rest, .wrote answer => x.wrote chunk rest answer
  | .finishing, .finished (.ok _) => some { x with phase := .returned (.ok ()) }
  | .finishing, .finished (.error message) => some (x.fail message)
  | _, .takeProgress => x.progress.recv.map fun r => { x with progress := r.2 }
  | _, .dropProgress => some { x with progress := x.progress.close }
  | _, _ => none

/-- What a step reads from the source. -/
def reads (_ : Transfer) : TransferLabel → Bytes
  | .read (.ok bytes) => bytes
  | _ => []

/-- The report a step shows the pane. -/
def shows (x : Transfer) : TransferLabel → List TransferProgress
  | .takeProgress => x.progress.queue.head?.toList
  | _ => []

/-- What is in the target, if it was created. -/
def given (x : Transfer) : Bytes := x.target.getD []

/-- What was read and is still to be written. -/
def pending (x : Transfer) : Bytes :=
  match x.phase with
  | .writing _ rest => rest
  | _ => []

end Transfer

/-! ## What a step does -/

/-- The steps of a transfer, one constructor for each outcome. -/
inductive Transfer.Did (x : Transfer) : TransferLabel → Transfer → Prop
  | opened (phase : x.phase = .opening) (u) : Did x (.opened (.ok u)) { x with phase := .measuring }
  | measured (total) (phase : x.phase = .measuring) :
      Did x (.measured total) { x with phase := .creating, total := total }
  | created (phase : x.phase = .creating) (u) :
      Did x (.created (.ok u)) ({ x with phase := .reading, target := some [] } : Transfer).report
  | sourceEnded (phase : x.phase = .reading) :
      Did x (.read (.ok [])) { x with phase := .finishing }
  | read (bytes) (phase : x.phase = .reading) (ne : bytes ≠ []) :
      Did x (.read (.ok bytes)) { x with phase := .writing bytes bytes }
  | wrotePart (chunk rest n) (phase : x.phase = .writing chunk rest) (pos : n ≠ 0)
      (part : n < rest.length) :
      Did x (.wrote (.ok n)) { x with
        phase := .writing chunk (rest.drop n), target := x.target.map (· ++ rest.take n) }
  | wroteAll (chunk rest n) (phase : x.phase = .writing chunk rest) (pos : n ≠ 0)
      (all : n = rest.length) :
      Did x (.wrote (.ok n)) ({ x with
        phase := .reading, done := x.done + chunk.length,
        target := x.target.map (· ++ rest) } : Transfer).report
  | finished (phase : x.phase = .finishing) (u) :
      Did x (.finished (.ok u)) { x with phase := .returned (.ok ()) }
  | failed (l message) (going : ∀ result, x.phase ≠ .returned result) (nothing : x.reads l = [])
      (answer : l.isAnswer = true) : Did x l (x.fail message)
  | tookProgress (p progress) (recv : x.progress.recv = some (p, progress)) :
      Did x .takeProgress { x with progress := progress }
  | droppedProgress : Did x .dropProgress { x with progress := x.progress.close }

namespace Transfer

variable {x y : Transfer} {l : TransferLabel} {labels : List TransferLabel} {capacity : Nat}

theorem did_of_read {answer : Except String Bytes} (hphase : x.phase = .reading)
    (h : x.read answer = some y) : x.Did (.read answer) y := by
  have hgoing : ∀ result, x.phase ≠ .returned result := fun _ => by rw [hphase]; exact nofun
  cases answer with
  | error message => exact Option.some.inj h ▸ .failed _ message hgoing rfl rfl
  | ok bytes =>
      unfold read at h
      dsimp only at h
      split at h
      · rename_i hnil
        subst hnil
        exact Option.some.inj h ▸ .sourceEnded hphase
      · rename_i hne
        obtain ⟨-, heq⟩ := Option.ite_none_right_eq_some.mp h
        exact Option.some.inj heq ▸ .read bytes hphase hne

theorem did_of_wrote {chunk rest : Bytes} {answer : Except String Nat}
    (hphase : x.phase = .writing chunk rest) (h : x.wrote chunk rest answer = some y) :
    x.Did (.wrote answer) y := by
  have hgoing : ∀ result, x.phase ≠ .returned result := fun _ => by rw [hphase]; exact nofun
  cases answer with
  | error message => exact Option.some.inj h ▸ .failed _ message hgoing rfl rfl
  | ok n =>
      unfold wrote at h
      dsimp only at h
      split at h
      · exact Option.some.inj h ▸ .failed _ _ hgoing rfl rfl
      · rename_i hpos
        split at h
        · rename_i hpart
          exact Option.some.inj h ▸ .wrotePart chunk rest n hphase hpos hpart
        · obtain ⟨hall, heq⟩ := Option.ite_none_right_eq_some.mp h
          exact Option.some.inj heq ▸ .wroteAll chunk rest n hphase hpos hall

theorem did_of_step (h : x.step l = some y) : x.Did l y := by
  unfold step at h
  split at h
  · rename_i hphase
    exact Option.some.inj h ▸ .opened hphase _
  · rename_i hphase
    exact Option.some.inj h ▸ .failed _ _ (fun _ => by rw [hphase]; exact nofun) rfl rfl
  · rename_i hphase
    exact Option.some.inj h ▸ .measured _ hphase
  · rename_i hphase
    exact Option.some.inj h ▸ .created hphase _
  · rename_i hphase
    exact Option.some.inj h ▸ .failed _ _ (fun _ => by rw [hphase]; exact nofun) rfl rfl
  · rename_i hphase
    exact did_of_read hphase h
  · rename_i hphase
    exact did_of_wrote hphase h
  · rename_i hphase
    exact Option.some.inj h ▸ .finished hphase _
  · rename_i hphase
    exact Option.some.inj h ▸ .failed _ _ (fun _ => by rw [hphase]; exact nofun) rfl rfl
  · obtain ⟨⟨p, progress⟩, hrecv, rfl⟩ := Option.map_eq_some_iff.mp h
    exact .tookProgress p progress hrecv
  · exact Option.some.inj h ▸ .droppedProgress
  · cases h

/-! ## What a transfer has come to -/

@[simp] theorem report_phase (x : Transfer) : x.report.phase = x.phase := rfl

@[simp] theorem report_target (x : Transfer) : x.report.target = x.target := rfl

@[simp] theorem report_done (x : Transfer) : x.report.done = x.done := rfl

/-- Everything read so far. -/
def source (capacity : Nat) (labels : List TransferLabel) : Bytes :=
  outputs step reads (start capacity) labels

/-- The count that goes with a phase. -/
def Counted (x : Transfer) : Prop :=
  match x.phase with
  | .opening | .measuring | .creating => x.target = none ∧ x.done = 0 ∧ x.progress.queue = []
  | .reading | .finishing | .returned (.ok _) => x.target.isSome = true ∧ x.done = x.given.length
  | .writing chunk rest => x.target.isSome = true ∧
      x.given.length + rest.length = x.done + chunk.length ∧ rest.length ≤ chunk.length ∧ chunk ≠ []
  | .returned (.error _) => x.done ≤ x.given.length

/-- What a transfer put into its target is a beginning of what it read, and unless it has
failed, all but what it is writing. -/
structure Follows (x : Transfer) (source : Bytes) : Prop where
  start : x.given ++ x.pending <+: source
  whole : (∀ e, x.phase ≠ .returned (.error e)) → source = x.given ++ x.pending

theorem given_map {x : Transfer} (h : x.target.isSome = true) (bytes : Bytes) :
    (x.target.map (· ++ bytes)).getD [] = x.given ++ bytes := by
  obtain ⟨target, htarget⟩ := Option.isSome_iff_exists.mp h
  simp [given, htarget]

theorem Counted.done_le (hx : x.Counted) : x.done ≤ x.given.length := by
  unfold Counted at hx
  split at hx
  case h_4 | h_5 | h_6 => exact hx.2.le
  case h_7 => omega
  case h_8 => exact hx
  all_goals exact hx.2.1.le.trans (Nat.zero_le _)

theorem Did.counted (h : x.Did l y) (hx : x.Counted) : y.Counted := by
  have hle := hx.done_le
  unfold Counted at hx
  cases h with
  | opened hphase | measured _ hphase =>
      rw [hphase] at hx
      exact hx
  | created hphase =>
      rw [hphase] at hx
      exact ⟨rfl, hx.2.1⟩
  | sourceEnded hphase | finished hphase =>
      rw [hphase] at hx
      exact hx
  | read bytes hphase hne =>
      rw [hphase] at hx
      obtain ⟨hsome, hcount⟩ := hx
      exact ⟨hsome, by simp only [hcount, given], Nat.le_refl _, hne⟩
  | wrotePart chunk rest n hphase hpos hpart =>
      rw [hphase] at hx
      obtain ⟨hsome, hcount, hle, hne⟩ := hx
      refine ⟨by simpa using hsome, ?_, ?_, hne⟩
      · simp only [given, given_map hsome, List.length_append, List.length_take, List.length_drop]
        simp only [given] at hcount
        omega
      · simp only [List.length_drop]
        omega
  | wroteAll chunk rest n hphase hpos hall =>
      rw [hphase] at hx
      obtain ⟨hsome, hcount, -⟩ := hx
      refine ⟨by simpa using hsome, ?_⟩
      simp only [given, report_target, report_done, given_map hsome, List.length_append]
      simp only [given] at hcount
      omega
  | failed l message => exact hle
  | tookProgress p progress hrecv =>
      have hempty : x.progress.queue ≠ [] := by simp [(Fifo.recv_some hrecv).1]
      unfold Counted
      dsimp only
      split at hx <;> first
        | exact absurd hx.2.2 hempty
        | exact hx
  | droppedProgress =>
      unfold Counted
      dsimp only
      split at hx <;> first
        | exact ⟨hx.1, hx.2.1, rfl⟩
        | exact hx

/-- A step that reads nothing and moves nothing. -/
theorem Follows.same {source : Bytes} (hs : x.Follows source) (hgiven : y.given = x.given)
    (hpending : y.pending = x.pending) (hgoing : ∀ e, x.phase = .returned (.error e) →
      y.phase = .returned (.error e)) : y.Follows source := by
  refine ⟨by rw [hgiven, hpending]; exact hs.start, fun hne => ?_⟩
  rw [hgiven, hpending]
  exact hs.whole fun e he => hne e (hgoing e he)

theorem Did.follows (h : x.Did l y) (hx : x.Counted) {source : Bytes} (hs : x.Follows source) :
    y.Follows (source ++ x.reads l) := by
  have hgoing : ∀ {phase : TransferPhase}, x.phase = phase →
      (∀ e, phase ≠ .returned (.error e)) → source = x.given ++ x.pending := by
    intro phase hphase hne
    exact hs.whole fun e he => hne e (hphase ▸ he)
  have hsame : ∀ {y : Transfer}, y.given ++ y.pending = source → y.Follows (source ++ []) := by
    intro y hy
    rw [List.append_nil]
    exact ⟨hy ▸ List.prefix_refl _, fun _ => hy.symm⟩
  cases h with
  | opened hphase | measured _ hphase | sourceEnded hphase | finished hphase =>
      refine hsame ?_
      rw [hgoing hphase nofun]
      simp [given, pending, hphase]
  | created hphase =>
      unfold Counted at hx
      rw [hphase] at hx
      refine hsame ?_
      rw [hgoing hphase nofun]
      simp [given, pending, hphase, hx.1]
  | read bytes hphase =>
      have hsource := hgoing hphase nofun
      have hy : Transfer.given { x with phase := .writing bytes bytes } ++
          Transfer.pending { x with phase := .writing bytes bytes } = source ++ bytes := by
        rw [hsource]
        simp [given, pending, hphase]
      exact ⟨hy ▸ List.prefix_refl _, fun _ => hy.symm⟩
  | wrotePart chunk rest n hphase =>
      unfold Counted at hx
      rw [hphase] at hx
      refine hsame ?_
      rw [hgoing hphase nofun]
      simp only [given, given_map hx.1, pending, hphase, List.append_assoc, List.take_append_drop]
  | wroteAll chunk rest n hphase =>
      unfold Counted at hx
      rw [hphase] at hx
      refine hsame ?_
      rw [hgoing hphase nofun]
      simp only [given, given_map hx.1, pending, hphase, report_phase, report_target,
        List.append_nil]
  | failed l message _ hnothing =>
      rw [hnothing, List.append_nil]
      have hgiven : x.given <+: source := (List.prefix_append _ _).trans hs.start
      exact ⟨by simpa [given, pending, fail] using hgiven, fun hne => absurd rfl (hne _)⟩
  | tookProgress | droppedProgress =>
      rw [show x.reads _ = [] from rfl, List.append_nil]
      exact hs.same rfl rfl fun _ => id

/-! ## Runs -/

/-- The answers a transfer has had once it is in its phase. -/
structure Past (x : Transfer) (labels : List TransferLabel) : Prop where
  opened : x.phase ≠ .opening → (∀ e, x.phase ≠ .returned (.error e)) ∨ x.target ≠ none →
    .opened (.ok ()) ∈ labels
  created : x.target ≠ none → .created (.ok ()) ∈ labels
  ended : x.phase = .finishing ∨ x.phase = .returned (.ok ()) → .read (.ok []) ∈ labels
  finished : x.phase = .returned (.ok ()) → .finished (.ok ()) ∈ labels

theorem Past.more (hp : x.Past labels) : x.Past (labels ++ [l]) :=
  ⟨fun h h' => List.mem_append_left _ (hp.opened h h'), fun h => List.mem_append_left _ (hp.created h),
    fun h => List.mem_append_left _ (hp.ended h), fun h => List.mem_append_left _ (hp.finished h)⟩

theorem Did.past (h : x.Did l y) (hx : x.Counted) (hp : x.Past labels) :
    y.Past (labels ++ [l]) := by
  have hlast : l ∈ labels ++ [l] := by simp
  have hmore : x.Past (labels ++ [l]) := hp.more
  unfold Counted at hx
  cases h with
  | opened hphase u =>
      rw [hphase] at hx
      exact ⟨fun _ _ => hlast, fun hne => absurd hx.1 hne, fun h => h.elim nofun nofun, nofun⟩
  | measured total hphase =>
      rw [hphase] at hx
      exact ⟨fun _ _ => hmore.opened (by simp [hphase]) (.inl (by simp [hphase])),
        fun hne => absurd hx.1 hne, fun h => h.elim nofun nofun, nofun⟩
  | created hphase u =>
      exact ⟨fun _ _ => hmore.opened (by simp [hphase]) (.inl (by simp [hphase])), fun _ => hlast,
        fun h => h.elim nofun nofun, nofun⟩
  | sourceEnded hphase =>
      exact ⟨fun _ _ => hmore.opened (by simp [hphase]) (.inl (by simp [hphase])),
        hmore.created, fun _ => hlast, nofun⟩
  | read bytes hphase =>
      exact ⟨fun _ _ => hmore.opened (by simp [hphase]) (.inl (by simp [hphase])),
        hmore.created, fun h => h.elim nofun nofun, nofun⟩
  | wrotePart chunk rest n hphase | wroteAll chunk rest n hphase =>
      rw [hphase] at hx
      have hcreated := hmore.created (Option.isSome_iff_ne_none.mp hx.1)
      exact ⟨fun _ _ => hmore.opened (by simp [hphase]) (.inl (by simp [hphase])),
        fun _ => hcreated, fun h => h.elim nofun nofun, nofun⟩
  | finished hphase u =>
      exact ⟨fun _ _ => hmore.opened (by simp [hphase]) (.inl (by simp [hphase])),
        hmore.created, fun _ => hmore.ended (.inl hphase), fun _ => hlast⟩
  | failed l message hgoing =>
      refine ⟨fun _ h => ?_, hmore.created, fun h => h.elim nofun nofun, nofun⟩
      have hne : x.target ≠ none := h.resolve_left fun hall => hall _ rfl
      refine hmore.opened (fun hphase => ?_) (.inr hne)
      rw [hphase] at hx
      exact hne hx.1
  | tookProgress | droppedProgress => exact ⟨hmore.opened, hmore.created, hmore.ended, hmore.finished⟩

theorem counted_start : (start capacity).Counted := ⟨rfl, rfl, rfl⟩

theorem run_counted (hrun : run step (start capacity) labels = some x) : x.Counted :=
  invariant (fun _ _ _ hx h => (did_of_step h).counted hx) counted_start hrun

theorem run_follows (hrun : run step (start capacity) labels = some x) :
    x.Follows (source capacity labels) ∧ x.Past labels := by
  induction labels using List.reverseRecOn generalizing x with
  | nil =>
      obtain rfl := Option.some.inj hrun
      exact ⟨⟨List.nil_prefix, fun _ => rfl⟩,
        ⟨fun h => absurd rfl h, fun h => absurd rfl h, fun h => h.elim nofun nofun, nofun⟩⟩
  | append_singleton labels l ih =>
      obtain ⟨r, hr, hstep⟩ := run_concat.mp hrun
      obtain ⟨hfollows, hpast⟩ := ih hr
      have hdid := did_of_step hstep
      have hcounted := run_counted hr
      rw [source, outputs_concat hr hstep]
      exact ⟨hdid.follows hcounted hfollows, hdid.past hcounted hpast⟩

/-- However a transfer runs, the target is touched only where the source could be opened and
the target created, and holds a beginning of what was read. A transfer that returns
without an error has read its source to the end, put all of it into the target, and
finished that. -/
theorem transfer_whole (hrun : run step (start capacity) labels = some x) :
    (x.target ≠ none → .opened (.ok ()) ∈ labels ∧ .created (.ok ()) ∈ labels) ∧
      x.given <+: source capacity labels ∧
      (x.phase = .returned (.ok ()) →
        x.target = some (source capacity labels) ∧ .read (.ok []) ∈ labels ∧
          .finished (.ok ()) ∈ labels) := by
  have hcounted := run_counted hrun
  obtain ⟨hfollows, hpast⟩ := run_follows hrun
  refine ⟨fun hne => ⟨hpast.opened (fun hphase => ?_) (.inr hne), hpast.created hne⟩,
    (List.prefix_append _ _).trans hfollows.start, fun hphase => ⟨?_, ?_, ?_⟩⟩
  · unfold Counted at hcounted
    rw [hphase] at hcounted
    exact hne hcounted.1
  · unfold Counted at hcounted
    rw [hphase] at hcounted
    obtain ⟨target, htarget⟩ := Option.isSome_iff_exists.mp hcounted.1
    have hwhole := hfollows.whole (by simp [hphase])
    rw [hwhole]
    simp [given, pending, hphase, htarget]
  · exact hpast.ended (.inr hphase)
  · exact hpast.finished hphase

/-- Five bytes in two chunks; the pane looks at the progress once, and then no more. -/
def fiveBytes : List TransferLabel :=
  [.opened (.ok ()), .measured (some 5), .created (.ok ()), .read (.ok [1, 2, 3]), .wrote (.ok 2),
    .wrote (.ok 1), .takeProgress, .read (.ok [4, 5]), .wrote (.ok 2), .dropProgress,
    .read (.ok []), .finished (.ok ())]

theorem transfer_whole_fiveBytes :
    ∃ x, run step (start 1) fiveBytes = some x ∧ x.target = some [1, 2, 3, 4, 5] := by
  have hend : (run step (start 1) fiveBytes).map (·.phase) = some (.returned (.ok ())) := rfl
  obtain ⟨x, hrun, hphase⟩ := Option.map_eq_some_iff.mp hend
  exact ⟨x, hrun, ((transfer_whole hrun).2.2 hphase).1⟩

/-! ## Progress -/

/-- Reports that were shown or are waiting: one after the other, none beyond what is done, and
with the total that was asked for. -/
structure Reports (x : Transfer) (shown : List TransferProgress) : Prop where
  increasing : (shown ++ x.progress.queue).Pairwise (·.done < ·.done)
  done : ∀ p ∈ shown ++ x.progress.queue, p.done ≤ x.done
  total : ∀ p ∈ shown ++ x.progress.queue, p.total = x.total
  fresh : x.target = none → shown ++ x.progress.queue = []

theorem shows_of_isAnswer (hl : l.isAnswer = true) : x.shows l = [] := by
  cases l with
  | takeProgress => cases hl
  | _ => rfl

theorem report_queue (x : Transfer) : x.report.progress.queue = x.progress.queue ∨
    x.report.progress.queue = x.progress.queue ++ [⟨x.done, x.total⟩] := by
  rw [report, Fifo.getD_trySend_queue]
  split
  · exact .inr rfl
  · exact .inl rfl

theorem Reports.report {shown : List TransferProgress} (hx : x.Reports shown)
    (hnew : ∀ p ∈ shown ++ x.progress.queue, p.done < x.done) (htarget : x.target ≠ none) :
    x.report.Reports shown := by
  have hfresh : x.report.target = none → shown ++ x.report.progress.queue = [] :=
    fun h => absurd h htarget
  rcases x.report_queue with hsame | hmore
  · exact ⟨by rw [hsame]; exact hx.increasing, by rw [hsame]; exact hx.done,
      by rw [hsame]; exact hx.total, hfresh⟩
  · have hall : ∀ p ∈ shown ++ x.report.progress.queue,
        p ∈ shown ++ x.progress.queue ∨ p = ⟨x.done, x.total⟩ := by
      intro p hp
      rw [hmore, ← List.append_assoc] at hp
      exact (List.mem_append.mp hp).imp_right List.mem_singleton.mp
    refine ⟨?_, fun p hp => ?_, fun p hp => ?_, hfresh⟩
    · rw [hmore, ← List.append_assoc]
      refine List.pairwise_append.mpr ⟨hx.increasing, List.pairwise_singleton _ _, ?_⟩
      intro p hp q hq
      obtain rfl := List.mem_singleton.mp hq
      exact hnew p hp
    · rcases hall p hp with hold | rfl
      · exact hx.done p hold
      · exact Nat.le_refl _
    · rcases hall p hp with hold | rfl
      · exact hx.total p hold
      · rfl

theorem Did.reports (h : x.Did l y) (hx : x.Counted) {shown : List TransferProgress}
    (hr : x.Reports shown) : y.Reports (shown ++ x.shows l) := by
  unfold Counted at hx
  cases h with
  | opened | sourceEnded | read | finished =>
      rw [show x.shows _ = [] from rfl, List.append_nil]
      exact ⟨hr.increasing, hr.done, hr.total, hr.fresh⟩
  | measured total hphase =>
      rw [hphase] at hx
      have hnone := hr.fresh hx.1
      rw [show x.shows _ = [] from rfl, List.append_nil]
      exact ⟨hr.increasing, hr.done, fun p hp => absurd (hnone ▸ hp) List.not_mem_nil, hr.fresh⟩
  | created hphase =>
      rw [hphase] at hx
      have hnone := hr.fresh hx.1
      have hnever : ∀ {P : TransferProgress → Prop}, ∀ p ∈ shown ++ x.progress.queue, P p :=
        fun p hp => absurd (hnone ▸ hp) List.not_mem_nil
      rw [show x.shows _ = [] from rfl, List.append_nil]
      exact Reports.report (x := { x with phase := .reading, target := some [] })
        ⟨hr.increasing, hnever, hnever, nofun⟩ hnever nofun
  | wrotePart chunk rest n hphase =>
      rw [hphase] at hx
      rw [show x.shows _ = [] from rfl, List.append_nil]
      refine ⟨hr.increasing, hr.done, hr.total, fun h => ?_⟩
      rw [Option.map_eq_none_iff] at h
      exact absurd h (Option.isSome_iff_ne_none.mp hx.1)
  | wroteAll chunk rest n hphase =>
      rw [hphase] at hx
      obtain ⟨hsome, -, -, hne⟩ := hx
      have hpos := List.length_pos_iff.mpr hne
      have htarget : x.target.map (· ++ rest) ≠ none := by
        rw [Ne, Option.map_eq_none_iff]
        exact Option.isSome_iff_ne_none.mp hsome
      have hnew : ∀ p ∈ shown ++ x.progress.queue, p.done < x.done + chunk.length := fun p hp =>
        (hr.done p hp).trans_lt (Nat.lt_add_of_pos_right hpos)
      rw [show x.shows _ = [] from rfl, List.append_nil]
      exact Reports.report (x := { x with
          phase := .reading, done := x.done + chunk.length, target := x.target.map (· ++ rest) })
        ⟨hr.increasing, fun p hp => (hnew p hp).le, hr.total, fun h => absurd h htarget⟩ hnew htarget
  | failed l message _ _ hanswer =>
      rw [shows_of_isAnswer hanswer, List.append_nil]
      exact ⟨hr.increasing, hr.done, hr.total, hr.fresh⟩
  | tookProgress p progress hrecv =>
      obtain ⟨hqueue, -⟩ := Fifo.recv_some hrecv
      have hsame : (shown ++ x.shows .takeProgress) ++ progress.queue = shown ++ x.progress.queue := by
        simp [shows, hqueue]
      exact ⟨by rw [hsame]; exact hr.increasing, by rw [hsame]; exact hr.done,
        by rw [hsame]; exact hr.total, fun h => by rw [hsame]; exact hr.fresh h⟩
  | droppedProgress =>
      have hsub : ∀ p ∈ shown ++ [] ++ [], p ∈ shown ++ x.progress.queue := fun p hp =>
        List.mem_append_left _ (by simpa using hp)
      refine ⟨?_, fun p hp => hr.done p (hsub p hp), fun p hp => hr.total p (hsub p hp), fun h => ?_⟩
      · have hpre := (List.pairwise_append.mp hr.increasing).1
        simpa [shows] using hpre
      · have hnone := (List.append_eq_nil_iff.mp (hr.fresh h)).1
        simp [shows, hnone]

/-- The reports the pane was shown. -/
def shown (capacity : Nat) (labels : List TransferLabel) : List TransferProgress :=
  outputs step shows (start capacity) labels

/-- Whatever reports the pane takes and whenever, they say more and more, the total that was
asked for, and never more than is in the target by then. -/
theorem progress_truthful (hrun : run step (start capacity) labels = some x) :
    (shown capacity labels).Pairwise (·.done < ·.done) ∧
      ∀ p ∈ shown capacity labels, p.total = x.total ∧ p.done ≤ x.given.length := by
  have hreports : x.Reports (shown capacity labels) := by
    induction labels using List.reverseRecOn generalizing x with
    | nil =>
        obtain rfl := Option.some.inj hrun
        exact ⟨.nil, fun p hp => absurd hp List.not_mem_nil,
          fun p hp => absurd hp List.not_mem_nil, fun _ => rfl⟩
    | append_singleton labels l ih =>
        obtain ⟨r, hr, hstep⟩ := run_concat.mp hrun
        rw [shown, outputs_concat hr hstep]
        exact (did_of_step hstep).reports (run_counted hr) (ih hr)
  refine ⟨(List.pairwise_append.mp hreports.increasing).1, fun p hp => ?_⟩
  have hmem := List.mem_append_left x.progress.queue hp
  exact ⟨hreports.total p hmem, (hreports.done p hmem).trans (run_counted hrun).done_le⟩

theorem progress_truthful_fiveBytes :
    ∃ x, run step (start 1) fiveBytes = some x ∧ shown 1 fiveBytes = [⟨0, some 5⟩] ∧
      ∀ p ∈ shown 1 fiveBytes, p.total = x.total ∧ p.done ≤ x.given.length := by
  have hend : (run step (start 1) fiveBytes).isSome = true := rfl
  obtain ⟨x, hrun⟩ := Option.isSome_iff_exists.mp hend
  exact ⟨x, hrun, rfl, (progress_truthful hrun).2⟩

theorem read_with {answer : Except String Bytes} (c : Fifo TransferProgress)
    (h : x.read answer = some y) :
    ∃ c', ({ x with progress := c } : Transfer).read answer = some { y with progress := c' } := by
  cases answer with
  | error message => exact Option.some.inj h ▸ ⟨c, rfl⟩
  | ok bytes =>
      unfold read at h ⊢
      dsimp only at h ⊢
      split at h
      · rename_i hnil
        exact Option.some.inj h ▸ ⟨c, if_pos hnil⟩
      · rename_i hne
        obtain ⟨hchunk, heq⟩ := Option.ite_none_right_eq_some.mp h
        rw [if_neg hne, if_pos hchunk]
        exact Option.some.inj heq ▸ ⟨c, rfl⟩

theorem wrote_with {chunk rest : Bytes} {answer : Except String Nat} (c : Fifo TransferProgress)
    (h : x.wrote chunk rest answer = some y) :
    ∃ c', ({ x with progress := c } : Transfer).wrote chunk rest answer =
      some { y with progress := c' } := by
  cases answer with
  | error message => exact Option.some.inj h ▸ ⟨c, rfl⟩
  | ok n =>
      unfold wrote at h ⊢
      dsimp only at h ⊢
      split at h
      · rename_i hzero
        exact Option.some.inj h ▸ ⟨c, if_pos hzero⟩
      · rename_i hpos
        rw [if_neg hpos]
        split at h
        · rename_i hpart
          rw [if_pos hpart]
          exact Option.some.inj h ▸ ⟨c, rfl⟩
        · rename_i hnot
          obtain ⟨hall, heq⟩ := Option.ite_none_right_eq_some.mp h
          rw [if_neg hnot, if_pos hall]
          exact Option.some.inj heq ▸ ⟨_, rfl⟩

/-- An answer does not look at the reports. -/
theorem step_with (c : Fifo TransferProgress) (hl : l.isAnswer = true) (h : x.step l = some y) :
    ∃ c', ({ x with progress := c } : Transfer).step l = some { y with progress := c' } := by
  unfold step at h ⊢
  split at h
  case h_6 answer hphase =>
    simp only [hphase]
    exact read_with c h
  case h_7 chunk rest answer hphase =>
    simp only [hphase]
    exact wrote_with c h
  case h_10 | h_11 => cases hl
  case h_12 => cases h
  all_goals
    rename_i hphase
    obtain rfl := Option.some.inj h
    simp only [hphase]
    exact ⟨_, rfl⟩

/-- A move of the pane changes nothing but the reports. -/
theorem step_pane (hl : l.isAnswer = false) (h : x.step l = some y) :
    ∃ c, y = { x with progress := c } := by
  cases did_of_step h with
  | tookProgress p progress => exact ⟨progress, rfl⟩
  | droppedProgress => exact ⟨_, rfl⟩
  | failed _ _ _ _ hanswer =>
      rw [hl] at hanswer
      cases hanswer
  | _ => cases hl

/-- The pane has no part in a transfer: with its moves left out, and any other room for
reports, the answers take the transfer to the same place. So a pane that takes no
report does not hold it up. -/
theorem progress_harmless (hrun : run step (start capacity) labels = some x) (capacity' : Nat) :
    ∃ progress, run step (start capacity') (labels.filter TransferLabel.isAnswer) =
      some { x with progress := progress } := by
  induction labels using List.reverseRecOn generalizing x with
  | nil => exact Option.some.inj hrun ▸ ⟨_, rfl⟩
  | append_singleton labels l ih =>
      obtain ⟨r, hr, hstep⟩ := run_concat.mp hrun
      obtain ⟨c, hc⟩ := ih hr
      cases hl : l.isAnswer with
      | false =>
          obtain ⟨c', rfl⟩ := step_pane hl hstep
          exact ⟨c, by rw [List.filter_append, List.filter_singleton, hl]; simpa using hc⟩
      | true =>
          obtain ⟨c', hc'⟩ := step_with c hl hstep
          refine ⟨c', ?_⟩
          rw [List.filter_append, List.filter_singleton, hl]
          exact run_concat.mpr ⟨_, hc, hc'⟩

theorem progress_harmless_fiveBytes :
    ∃ x progress, run step (start 1) fiveBytes = some x ∧
      run step (start 7) (fiveBytes.filter TransferLabel.isAnswer) =
        some { x with progress := progress } := by
  have hend : (run step (start 1) fiveBytes).isSome = true := rfl
  obtain ⟨x, hrun⟩ := Option.isSome_iff_exists.mp hend
  obtain ⟨progress, hsame⟩ := progress_harmless hrun 7
  exact ⟨x, progress, hrun, hsame⟩

end Transfer

end PolyTerm
