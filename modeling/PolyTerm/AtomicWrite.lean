import PolyTerm.Runs
import PolyTerm.SessionFiles
import PolyTerm.Staged

/-!
# Atomic writes, step by step

Saving a file makes the directories above it, writes a temporary file beside
it and renames that over it. Here every system call is a step of its own that
can fail, several processes save at once, and each of them can be killed
between any two steps. Off the temporary files the disk nevertheless changes
only by whole files and new directories (`disk_eq`): the steps are those of
`Staged`, with the temporary files of a process, told apart by its number, as
its scratch keys. A file is made of units `β`, which are bytes.
-/

namespace PolyTerm.Saved

open Runs Writes

variable {β : Type}

/-! ## Names -/

namespace Path

/-- The last component replaced, or put behind a path without a file name. -/
def withFileName (p : Path) (name : String) : Path :=
  { p with
    components :=
      (if p.fileName.isSome then p.components.dropLast else p.components) ++ [.normal name] }

/-- The temporary file beside `p`, for the process `pid`. -/
def temp (p : Path) (pid : Nat) : Path :=
  p.withFileName ("." ++ p.fileName.getD "polyterm" ++ "." ++ toString pid ++ ".tmp")

/-- The directories above `p`, outermost first. -/
def directories (p : Path) : List Path :=
  match p.parent with
  | some dir => dir.components.inits.tail.map fun components => { p with components := components }
  | none => []

theorem fileName_withFileName (p : Path) (name : String) :
    (p.withFileName name).fileName = some name := by
  simp [withFileName, fileName]

end Path

/-! ## One save -/

/-- How far a save is. -/
inductive WriteStage where
  /-- the directories still to be made; then a stale temporary file goes -/
  | directories (rest : List Path)
  | create
  /-- so many bytes are written; once all are, the rename is next -/
  | writing (done : Nat)
  /-- the rename failed -/
  | cleanup (error : String)
deriving DecidableEq, Repr

structure AtomicWrite (β : Type) where
  path : Path
  bytes : List β
  stage : WriteStage
deriving DecidableEq, Repr

/-- What a system call comes to. -/
inductive Outcome where
  | ok
  | wrote (n : Nat)
  | failed (error : String)
deriving DecidableEq, Repr

inductive Progress (β : Type) where
  | running (w : AtomicWrite β)
  | returned (r : Except String Unit)

abbrev Disk (β : Type) := FileId → Entry (List β)

namespace AtomicWrite

variable (fileOf : Path → FileId)

def begin (path : Path) (bytes : List β) : AtomicWrite β :=
  ⟨path, bytes, .directories path.directories⟩

def go (w : AtomicWrite β) (stage : WriteStage) : Progress β := .running { w with stage := stage }

/-- One system call; `none` if it cannot come to that. -/
def step (pid : Nat) (disk : Disk β) (w : AtomicWrite β) (outcome : Outcome) :
    Option (Disk β × Progress β) :=
  let temp := fileOf (w.path.temp pid)
  match w.stage, outcome with
  | .directories (dir :: rest), .ok =>
      match disk (fileOf dir) with
      | .missing =>
          some (Function.update disk (fileOf dir) .directory, w.go (.directories rest))
      | .directory => some (disk, w.go (.directories rest))
      | _ => none
  | .directories (_ :: _), .failed e => some (disk, .returned (.error e))
  | .directories [], .ok =>
      match disk temp with
      | .file _ | .unreadable _ _ => some (Function.update disk temp .missing, w.go .create)
      | _ => none
  | .directories [], .failed _ => some (disk, w.go .create)
  | .create, .ok =>
      match disk temp with
      | .missing | .file _ => some (Function.update disk temp (.file []), w.go (.writing 0))
      | _ => none
  | .create, .failed e => some (disk, .returned (.error e))
  | .writing done, .wrote n =>
      match disk temp with
      | .file written =>
          if 0 < n ∧ done + n ≤ w.bytes.length then
            some (Function.update disk temp (.file (written ++ (w.bytes.drop done).take n)),
              w.go (.writing (done + n)))
          else none
      | _ => none
  | .writing done, .ok =>
      if done = w.bytes.length ∧ !(disk (fileOf w.path)).isDir then
        some (Function.update (Function.update disk (fileOf w.path) (disk temp)) temp .missing,
          .returned (.ok ()))
      else none
  | .writing done, .failed e =>
      -- a failed write leaves the temporary file, a failed rename does not
      if done < w.bytes.length then some (disk, .returned (.error e))
      else some (disk, w.go (.cleanup e))
  | .cleanup e, .ok => some (Function.update disk temp .missing, .returned (.error e))
  | .cleanup e, .failed _ => some (disk, .returned (.error e))
  | _, _ => none

end AtomicWrite

/-! ## Many processes -/

/-- A process that is saving: the save under way, and those to come if it goes
through. -/
structure Process (β : Type) where
  write : AtomicWrite β
  todo : List (Path × List β)
deriving DecidableEq, Repr

/-- The disk, and what the processes are saving, by process number. -/
structure Savers (β : Type) where
  disk : Disk β
  procs : Nat → Option (Process β)

inductive SaveLabel (β : Type) where
  | save (pid : Nat) (path : Path) (bytes : List β) (todo : List (Path × List β))
  | step (pid : Nat) (outcome : Outcome)
  | kill (pid : Nat)
deriving DecidableEq, Repr

namespace Savers

variable (fileOf : Path → FileId)

def set (s : Savers β) (pid : Nat) (proc : Option (Process β)) : Savers β :=
  { s with procs := Function.update s.procs pid proc }

@[simp] theorem set_procs_self (s : Savers β) (pid : Nat) (proc : Option (Process β)) :
    (s.set pid proc).procs pid = proc := Function.update_self ..

theorem set_procs_of_ne (s : Savers β) {pid q : Nat} (h : q ≠ pid) (proc : Option (Process β)) :
    (s.set pid proc).procs q = s.procs q := Function.update_of_ne h ..

/-- What follows a save: the next one, up to the first that fails. -/
def next (todo : List (Path × List β)) : Progress β → Option (Process β)
  | .running w => some ⟨w, todo⟩
  | .returned (.ok _) =>
      match todo with
      | (path, bytes) :: rest => some ⟨.begin path bytes, rest⟩
      | [] => none
  | .returned (.error _) => none

def step (s : Savers β) : SaveLabel β → Option (Savers β)
  | .save pid path bytes todo =>
      match s.procs pid with
      | none => some (s.set pid (some ⟨.begin path bytes, todo⟩))
      | some _ => none
  | .step pid outcome =>
      match s.procs pid with
      | none => none
      | some proc =>
          (proc.write.step fileOf pid s.disk outcome).map fun r =>
            ({ s with disk := r.1 } : Savers β).set pid (next proc.todo r.2)
  | .kill pid => some (s.set pid none)

end Savers

/-- The saves a process takes on. -/
def SaveLabel.saves : SaveLabel β → List (Path × List β)
  | .save _ path bytes todo => (path, bytes) :: todo
  | _ => []

namespace Savers

variable (fileOf : Path → FileId)

/-- What a step changes on the disk, temporary files aside. -/
def changes (s : Savers β) : SaveLabel β → List (FileId × Entry (List β))
  | .step pid .ok =>
      match s.procs pid with
      | some ⟨⟨path, bytes, stage⟩, _⟩ =>
          match stage with
          | .directories (dir :: _) =>
              match s.disk (fileOf dir) with
              | .missing => [(fileOf dir, .directory)]
              | _ => []
          | .writing _ => [(fileOf path, .file bytes)]
          | _ => []
      | none => []
  | _ => []

end Savers

/-! ## The temporary files of a process -/

/-- How the disk compares names: character by character, digits as they are,
and an entry has one name. -/
structure Naming (fileOf : Path → FileId) where
  fold : Char → Char
  fold_digit : ∀ c, c.isDigit = true → fold c = c
  isDigit_of_fold : ∀ c, (fold c).isDigit = true → c.isDigit = true
  same : ∀ p q n m, p.fileName = some n → q.fileName = some m → fileOf p = fileOf q →
    n.map fold = m.map fold

/-- The digits between a mark and a fixed ending can be read back. -/
theorem digits_eq {front front' ending : List Char} {mark : Char} {n m : Nat}
    (hmark : mark.isDigit = false)
    (h : front ++ mark :: (Nat.toDigits 10 n ++ ending) =
      front' ++ mark :: (Nat.toDigits 10 m ++ ending)) : n = m := by
  have hback : ∀ (front : List Char) (n : Nat),
      ((front ++ mark :: Nat.toDigits 10 n).reverse.takeWhile Char.isDigit) =
        (Nat.toDigits 10 n).reverse := by
    intro front n
    have hdigits : ∀ c ∈ (Nat.toDigits 10 n).reverse, c.isDigit = true := fun c hc =>
      Nat.isDigit_of_mem_toDigits (by decide) (by decide) (List.mem_reverse.mp hc)
    rw [List.reverse_append, List.reverse_cons, List.append_assoc,
      List.takeWhile_append_of_pos hdigits, List.singleton_append,
      List.takeWhile_cons_of_neg (by simp [hmark]), List.append_nil]
  have hcut : front ++ mark :: Nat.toDigits 10 n = front' ++ mark :: Nat.toDigits 10 m := by
    rw [← List.cons_append, ← List.cons_append, ← List.append_assoc, ← List.append_assoc] at h
    exact List.append_cancel_right h
  have hdigits : Nat.toDigits 10 n = Nat.toDigits 10 m := by
    rw [← List.reverse_inj, ← hback front n, ← hback front' m, hcut]
  simpa using congrArg (fun cs => Nat.ofDigitChars 10 cs 0) hdigits

namespace Naming

variable {fileOf : Path → FileId} (N : Naming fileOf)

theorem map_fold_digits (n : Nat) : (Nat.toDigits 10 n).map N.fold = Nat.toDigits 10 n :=
  (List.map_congr_left fun c hc => N.fold_digit c
    (Nat.isDigit_of_mem_toDigits (by decide) (by decide) hc)).trans (List.map_id _)

include N in
/-- Temporary files of two processes are two files. -/
theorem temp_apart {p q : Path} {pid pid' : Nat}
    (h : fileOf (p.temp pid) = fileOf (q.temp pid')) : pid = pid' := by
  have hname := congrArg String.toList (N.same _ _ _ _ (p.fileName_withFileName _)
    (q.fileName_withFileName _) h)
  have hmark : (N.fold '.').isDigit = false :=
    Bool.eq_false_iff.mpr fun hdot => absurd (N.isDigit_of_fold '.' hdot) (by decide)
  simp only [String.toList_map, String.toList_append, List.map_append, Nat.toString_eq_repr,
    Nat.toList_repr, N.map_fold_digits] at hname
  have hcut : (N.fold '.' :: (p.fileName.getD "polyterm").toList.map N.fold) ++ N.fold '.' ::
        (Nat.toDigits 10 pid ++ ".tmp".toList.map N.fold) =
      (N.fold '.' :: (q.fileName.getD "polyterm").toList.map N.fold) ++ N.fold '.' ::
        (Nat.toDigits 10 pid' ++ ".tmp".toList.map N.fold) := by
    simpa using hname
  exact digits_eq hmark hcut

/-- A process owns its temporary files. -/
def owners : Staged.Owners FileId Nat where
  owns pid k := ∃ path : Path, fileOf (path.temp pid) = k
  unique pid pid' k := by
    rintro ⟨p, hp⟩ ⟨q, hq⟩
    exact N.temp_apart (hp.trans hq.symm)

end Naming

end PolyTerm.Saved
