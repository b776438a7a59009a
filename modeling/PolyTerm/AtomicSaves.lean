import PolyTerm.AtomicWrite

/-!
# What saving does to the disk

The processes of `AtomicWrite` take the steps of `Staged` (`run_simulates`), so
off the temporary files the disk is at every moment what whole files and new
directories, one after the other, make of the disk at first (`disk_eq`): a
reader, or a process that starts after a crash, never sees part of a file.
-/

namespace PolyTerm.Saved

open Runs Writes

variable {β : Type} {fileOf : Path → FileId}

/-! ## Saves as staged writes -/

namespace AtomicWrite

/-- What `Staged` knows of a save: once the rename has failed, nothing. -/
def job (fileOf : Path → FileId) (pid : Nat) (w : AtomicWrite β) :
    Option (Staged.Job FileId (Entry (List β))) :=
  match w.stage with
  | .directories _ | .create =>
      some ⟨fileOf w.path, .file w.bytes, fileOf (w.path.temp pid), none⟩
  | .writing done =>
      some ⟨fileOf w.path, .file w.bytes, fileOf (w.path.temp pid),
        some (.file (w.bytes.take done))⟩
  | .cleanup _ => none

end AtomicWrite

def Progress.job (fileOf : Path → FileId) (pid : Nat) :
    Progress β → Option (Staged.Job FileId (Entry (List β)))
  | .running w => w.job fileOf pid
  | .returned _ => none

namespace Savers

def staged (fileOf : Path → FileId) (s : Savers β) : Staged.State FileId (Entry (List β)) Nat where
  store := s.disk
  jobs pid := (s.procs pid).bind fun proc => proc.write.job fileOf pid

theorem staged_set (s : Savers β) (pid : Nat) (proc : Option (Process β)) :
    (s.set pid proc).staged fileOf =
      ⟨s.disk, Function.update (s.staged fileOf).jobs pid
        (proc.bind fun proc => proc.write.job fileOf pid)⟩ := by
  simp only [staged, set, Staged.State.mk.injEq, true_and]
  funext q
  by_cases hq : q = pid
  · rw [hq, Function.update_self, Function.update_self]
  · rw [Function.update_of_ne hq, Function.update_of_ne hq]

end Savers

/-! ## Targets -/

namespace Naming

variable (N : Naming fileOf)

/-- Neither `p` nor a directory above it has the name of a temporary file. -/
def Clear (p : Path) : Prop := ∀ q ∈ p :: p.directories, ¬N.owners.Hidden (fileOf q)

def WriteClear (w : AtomicWrite β) : Prop :=
  ¬N.owners.Hidden (fileOf w.path) ∧
    ∀ rest, w.stage = .directories rest → ∀ dir ∈ rest, ¬N.owners.Hidden (fileOf dir)

def ProgressClear : Progress β → Prop
  | .running w => N.WriteClear w
  | .returned _ => True

def ProcessClear (proc : Process β) : Prop :=
  N.WriteClear proc.write ∧ ∀ save ∈ proc.todo, N.Clear save.1

def LabelClear (a : SaveLabel β) : Prop := ∀ save ∈ a.saves, N.Clear save.1

variable {N}

theorem writeClear_begin {path : Path} (h : N.Clear path) (bytes : List β) :
    N.WriteClear (.begin path bytes) := by
  refine ⟨h path List.mem_cons_self, ?_⟩
  rintro rest hrest dir hdir
  obtain rfl := WriteStage.directories.inj hrest
  exact h dir (List.mem_cons_of_mem _ hdir)

theorem writeClear_rest {path : Path} {bytes : List β} {dir : Path} {rest : List Path}
    (h : N.WriteClear (⟨path, bytes, .directories (dir :: rest)⟩ : AtomicWrite β)) :
    N.WriteClear (⟨path, bytes, .directories rest⟩ : AtomicWrite β) := by
  refine ⟨h.1, ?_⟩
  rintro rest' hrest d hd
  obtain rfl := WriteStage.directories.inj hrest
  exact h.2 _ rfl d (List.mem_cons_of_mem _ hd)

end Naming

/-! ## One system call -/

namespace AtomicWrite

/-- What a system call of a save does, and what it changes, temporary files
aside. -/
inductive Call (fileOf : Path → FileId) (pid : Nat) (disk : Disk β) :
    AtomicWrite β → Outcome → Disk β × Progress β → List (FileId × Entry (List β)) → Prop
  | makeDirectory {path : Path} {bytes : List β} {dir : Path} {rest : List Path}
      (h : disk (fileOf dir) = .missing) :
      Call fileOf pid disk ⟨path, bytes, .directories (dir :: rest)⟩ .ok
        (Function.update disk (fileOf dir) .directory, .running ⟨path, bytes, .directories rest⟩)
        [(fileOf dir, .directory)]
  | foundDirectory {path : Path} {bytes : List β} {dir : Path} {rest : List Path}
      (h : disk (fileOf dir) = .directory) :
      Call fileOf pid disk ⟨path, bytes, .directories (dir :: rest)⟩ .ok
        (disk, .running ⟨path, bytes, .directories rest⟩) []
  | noDirectory {path : Path} {bytes : List β} {dir : Path} {rest : List Path} {e : String} :
      Call fileOf pid disk ⟨path, bytes, .directories (dir :: rest)⟩ (.failed e)
        (disk, .returned (.error e)) []
  | removeStale {path : Path} {bytes : List β} :
      Call fileOf pid disk ⟨path, bytes, .directories []⟩ .ok
        (Function.update disk (fileOf (path.temp pid)) .missing, .running ⟨path, bytes, .create⟩) []
  | keepStale {path : Path} {bytes : List β} {e : String} :
      Call fileOf pid disk ⟨path, bytes, .directories []⟩ (.failed e)
        (disk, .running ⟨path, bytes, .create⟩) []
  | create {path : Path} {bytes : List β} :
      Call fileOf pid disk ⟨path, bytes, .create⟩ .ok
        (Function.update disk (fileOf (path.temp pid)) (.file []),
          .running ⟨path, bytes, .writing 0⟩) []
  | noCreate {path : Path} {bytes : List β} {e : String} :
      Call fileOf pid disk ⟨path, bytes, .create⟩ (.failed e) (disk, .returned (.error e)) []
  | write {path : Path} {bytes written : List β} {done n : Nat}
      (h : disk (fileOf (path.temp pid)) = .file written) :
      Call fileOf pid disk ⟨path, bytes, .writing done⟩ (.wrote n)
        (Function.update disk (fileOf (path.temp pid)) (.file (written ++ (bytes.drop done).take n)),
          .running ⟨path, bytes, .writing (done + n)⟩) []
  | rename {path : Path} {bytes : List β} {done : Nat} (h : done = bytes.length) :
      Call fileOf pid disk ⟨path, bytes, .writing done⟩ .ok
        (Function.update (Function.update disk (fileOf path) (disk (fileOf (path.temp pid))))
          (fileOf (path.temp pid)) .missing, .returned (.ok ())) [(fileOf path, .file bytes)]
  | noWrite {path : Path} {bytes : List β} {done : Nat} {e : String} (h : done < bytes.length) :
      Call fileOf pid disk ⟨path, bytes, .writing done⟩ (.failed e) (disk, .returned (.error e)) []
  | noRename {path : Path} {bytes : List β} {done : Nat} {e : String} :
      Call fileOf pid disk ⟨path, bytes, .writing done⟩ (.failed e)
        (disk, .running ⟨path, bytes, .cleanup e⟩) []
  | removed {path : Path} {bytes : List β} {error : String} :
      Call fileOf pid disk ⟨path, bytes, .cleanup error⟩ .ok
        (Function.update disk (fileOf (path.temp pid)) .missing, .returned (.error error)) []
  | notRemoved {path : Path} {bytes : List β} {error e : String} :
      Call fileOf pid disk ⟨path, bytes, .cleanup error⟩ (.failed e)
        (disk, .returned (.error error)) []

/-- A step is one of the calls. -/
theorem call_of_step {s : Savers β} {pid : Nat} {w : AtomicWrite β}
    {todo : List (Path × List β)} {outcome : Outcome} {r : Disk β × Progress β}
    (hproc : s.procs pid = some ⟨w, todo⟩) (h : w.step fileOf pid s.disk outcome = some r) :
    w.Call fileOf pid s.disk outcome r (s.changes fileOf (.step pid outcome)) := by
  obtain ⟨path, bytes, stage⟩ := w
  rcases stage with (_ | ⟨dir, rest⟩) | _ | done | error <;> rcases outcome with _ | n | e <;>
    simp only [step, go, Savers.changes, hproc] at h ⊢
  case directories.nil.ok =>
    split at h
    case h_3 => cases h
    all_goals
      obtain rfl := Option.some.inj h
      exact .removeStale
  case directories.nil.wrote => cases h
  case directories.nil.failed =>
    obtain rfl := Option.some.inj h
    exact .keepStale
  case directories.cons.ok =>
    split at h
    case h_1 hmissing =>
      obtain rfl := Option.some.inj h
      rw [hmissing]
      exact .makeDirectory hmissing
    case h_2 hdir =>
      obtain rfl := Option.some.inj h
      rw [hdir]
      exact .foundDirectory hdir
    case h_3 => cases h
  case directories.cons.wrote => cases h
  case directories.cons.failed =>
    obtain rfl := Option.some.inj h
    exact .noDirectory
  case create.ok =>
    split at h
    case h_3 => cases h
    all_goals
      obtain rfl := Option.some.inj h
      exact .create
  case create.wrote => cases h
  case create.failed =>
    obtain rfl := Option.some.inj h
    exact .noCreate
  case writing.ok =>
    split at h
    case isFalse => cases h
    case isTrue hdone =>
      obtain rfl := Option.some.inj h
      exact .rename hdone.1
  case writing.wrote =>
    split at h
    case h_2 => cases h
    case h_1 written hwritten =>
      split at h
      case isFalse => cases h
      obtain rfl := Option.some.inj h
      exact .write hwritten
  case writing.failed =>
    split at h
    case isTrue hdone =>
      obtain rfl := Option.some.inj h
      exact .noWrite hdone
    case isFalse =>
      obtain rfl := Option.some.inj h
      exact .noRename
  case cleanup.ok =>
    obtain rfl := Option.some.inj h
    exact .removed
  case cleanup.wrote => cases h
  case cleanup.failed =>
    obtain rfl := Option.some.inj h
    exact .notRemoved

end AtomicWrite

/-! ## One step -/

section Step

variable {N : Naming fileOf} {s t : Savers β} {pid : Nat} {w : AtomicWrite β}
  {todo : List (Path × List β)} {outcome : Outcome} {r : Disk β × Progress β}

/-- The state of the writers once `pid` has got to `r`. -/
def Savers.stagedAfter (fileOf : Path → FileId) (s : Savers β) (pid : Nat)
    (r : Disk β × Progress β) : Staged.State FileId (Entry (List β)) Nat :=
  ⟨r.1, Function.update (s.staged fileOf).jobs pid (r.2.job fileOf pid)⟩

theorem Savers.staged_jobs (hproc : s.procs pid = some ⟨w, todo⟩) :
    (s.staged fileOf).jobs pid = w.job fileOf pid := by
  simp only [Savers.staged, hproc, Option.bind_some]

/-- A step that leaves the job alone. -/
theorem Savers.stagedAfter_eq (hproc : s.procs pid = some ⟨w, todo⟩) {prog : Progress β}
    (hsame : prog.job fileOf pid = w.job fileOf pid) (disk : Disk β) :
    s.stagedAfter fileOf pid (disk, prog) = { s.staged fileOf with store := disk } := by
  rw [stagedAfter, hsame, ← staged_jobs hproc, Function.update_eq_self]

theorem Savers.steps_same (hproc : s.procs pid = some ⟨w, todo⟩) {prog : Progress β}
    (hsame : prog.job fileOf pid = w.job fileOf pid) :
    Staged.Steps N.owners (s.staged fileOf) [] (s.stagedAfter fileOf pid (s.disk, prog)) := by
  rw [stagedAfter_eq hproc hsame]
  exact .refl _

/-- A directory is made. -/
theorem Savers.steps_outside (hproc : s.procs pid = some ⟨w, todo⟩) {prog : Progress β}
    (hsame : prog.job fileOf pid = w.job fileOf pid) {k : FileId} (hk : ¬N.owners.Hidden k)
    (v : Entry (List β)) :
    Staged.Steps N.owners (s.staged fileOf) [(k, v)]
      (s.stagedAfter fileOf pid (Function.update s.disk k v, prog)) := by
  rw [stagedAfter_eq hproc hsame]
  exact (Staged.Step.outside (s := s.staged fileOf) k v hk).steps

/-- The temporary file of a save that has staged nothing is put aside. -/
theorem Savers.steps_clobber (hsound : Staged.Sound N.owners (s.staged fileOf))
    (hproc : s.procs pid = some ⟨w, todo⟩) {prog : Progress β}
    (hsame : prog.job fileOf pid = w.job fileOf pid)
    (hnone : ∀ j ∈ w.job fileOf pid, j.staged = none) (path : Path) (v : Entry (List β)) :
    Staged.Steps N.owners (s.staged fileOf) []
      (s.stagedAfter fileOf pid (Function.update s.disk (fileOf (path.temp pid)) v, prog)) := by
  rw [stagedAfter_eq hproc hsame]
  have howns : N.owners.owns pid (fileOf (path.temp pid)) := ⟨path, rfl⟩
  refine (Staged.Step.clobber (s := s.staged fileOf) _ v ⟨pid, howns⟩ ?_).steps
  rintro q j hq hstaged heq
  -- a temporary file of this process is no other's
  obtain rfl := N.owners.unique q pid _ (hsound.owns q j hq) (heq ▸ howns)
  rw [staged_jobs hproc] at hq
  exact hstaged (hnone j hq)

/-- Something is put at the temporary file. -/
theorem Savers.steps_stage (hproc : s.procs pid = some ⟨w, todo⟩) {prog : Progress β}
    {j : Staged.Job FileId (Entry (List β))} (hj : w.job fileOf pid = some j) {v : Entry (List β)}
    (hjob : prog.job fileOf pid = some { j with staged := some v }) :
    Staged.Steps N.owners (s.staged fileOf) []
      (s.stagedAfter fileOf pid (Function.update s.disk j.scratch v, prog)) := by
  rw [stagedAfter, hjob]
  exact (Staged.Step.stage ((staged_jobs hproc).trans hj) v).steps

/-- The save is over, or can only fail. -/
theorem Savers.steps_stop {prog : Progress β} (hjob : prog.job fileOf pid = none) :
    Staged.Steps N.owners (s.staged fileOf) [] (s.stagedAfter fileOf pid (s.disk, prog)) := by
  rw [stagedAfter, hjob]
  exact (Staged.Step.stop (s := s.staged fileOf) pid).steps

/-- While the temporary file is written it has what was written so far. -/
theorem AtomicWrite.held_writing {path : Path} {bytes : List β} {done : Nat}
    (hsound : Staged.Sound N.owners (s.staged fileOf))
    (hproc : s.procs pid = some ⟨⟨path, bytes, .writing done⟩, todo⟩) :
    s.disk (fileOf (path.temp pid)) = .file (bytes.take done) :=
  hsound.held pid _ _ (Savers.staged_jobs hproc) rfl

/-- A system call of a save is a step of its writer, or none. -/
theorem AtomicWrite.Call.simulates {cs : List (FileId × Entry (List β))}
    (h : w.Call fileOf pid s.disk outcome r cs)
    (hsound : Staged.Sound N.owners (s.staged fileOf)) (hproc : s.procs pid = some ⟨w, todo⟩)
    (hclear : N.WriteClear w) :
    Staged.Steps N.owners (s.staged fileOf) cs (s.stagedAfter fileOf pid r) ∧
      N.ProgressClear r.2 := by
  cases h with
  | @makeDirectory path bytes dir rest hmissing =>
      have hdir := hclear.2 _ rfl dir List.mem_cons_self
      exact ⟨Savers.steps_outside hproc rfl hdir .directory, Naming.writeClear_rest hclear⟩
  | foundDirectory hdir => exact ⟨Savers.steps_same hproc rfl, Naming.writeClear_rest hclear⟩
  | removeStale =>
      refine ⟨Savers.steps_clobber hsound hproc rfl (fun j hj => ?_) _ .missing, hclear.1, nofun⟩
      exact Option.some.inj hj ▸ rfl
  | keepStale => exact ⟨Savers.steps_same hproc rfl, hclear.1, nofun⟩
  | create => exact ⟨Savers.steps_stage hproc rfl rfl, hclear.1, nofun⟩
  | @write path bytes written done n hwritten =>
      obtain rfl := Entry.file.inj (hwritten.symm.trans (held_writing hsound hproc))
      rw [← List.take_add]
      exact ⟨Savers.steps_stage hproc rfl rfl, hclear.1, nofun⟩
  | @rename path bytes done hdone =>
      refine ⟨(Staged.Step.publish (Savers.staged_jobs hproc) ?_ .missing).steps, trivial⟩
      simp only [hdone, List.take_length]
  | noDirectory | noCreate | noWrite | notRemoved => exact ⟨Savers.steps_stop rfl, trivial⟩
  | noRename => exact ⟨Savers.steps_stop rfl, hclear.1, nofun⟩
  | removed => exact ⟨Savers.steps_clobber hsound hproc rfl nofun _ .missing, trivial⟩

/-! ## A step of a process, and runs -/

/-- A save that begins is a job. -/
theorem Savers.steps_begin {disk : Disk β}
    {jobs : Nat → Option (Staged.Job FileId (Entry (List β)))} {path : Path}
    (hclear : N.Clear path) (bytes : List β) :
    Staged.Steps N.owners ⟨disk, jobs⟩ []
      ⟨disk, Function.update jobs pid ((AtomicWrite.begin path bytes).job fileOf pid)⟩ :=
  (Staged.Step.start (s := ⟨disk, jobs⟩) _ _ _ (hclear path List.mem_cons_self)
    ⟨path, rfl⟩).steps

/-- What a process goes on to is a job of its own, or none. -/
theorem Savers.simulates_next (hr : N.ProgressClear r.2)
    (htodo : ∀ save ∈ todo, N.Clear save.1) :
    Staged.Steps N.owners (s.stagedAfter fileOf pid r) []
        ((({ s with disk := r.1 } : Savers β).set pid (next todo r.2)).staged fileOf) ∧
      ∀ proc ∈ next todo r.2, N.ProcessClear proc := by
  rw [staged_set]
  obtain ⟨disk, prog⟩ := r
  cases prog with
  | running w =>
      refine ⟨.refl _, fun proc hproc => ?_⟩
      obtain rfl := Option.some.inj hproc
      exact ⟨hr, htodo⟩
  | returned result =>
      cases result with
      | error e => exact ⟨.refl _, nofun⟩
      | ok _ =>
          cases todo with
          | nil => exact ⟨.refl _, nofun⟩
          | cons save rest =>
              have hsave := htodo save List.mem_cons_self
              refine ⟨?_, fun proc hproc => ?_⟩
              · have hbegin : Staged.Steps N.owners
                    ⟨disk, Function.update (s.staged fileOf).jobs pid none⟩ []
                    ⟨disk, Function.update (Function.update (s.staged fileOf).jobs pid none) pid
                      ((AtomicWrite.begin save.1 save.2).job fileOf pid)⟩ :=
                  steps_begin hsave save.2
                rw [Function.update_idem] at hbegin
                exact hbegin
              · obtain rfl := Option.some.inj hproc
                exact ⟨Naming.writeClear_begin hsave save.2,
                  fun other hother => htodo other (List.mem_cons_of_mem _ hother)⟩

/-- No process is about to write to a temporary file's name. -/
def Savers.Clear (N : Naming fileOf) (s : Savers β) : Prop :=
  ∀ pid, ∀ proc ∈ s.procs pid, N.ProcessClear proc

theorem Savers.Clear.set {s : Savers β} (h : s.Clear N) {proc : Option (Process β)}
    (hproc : ∀ p ∈ proc, N.ProcessClear p) : (s.set pid proc).Clear N := by
  intro q p hp
  by_cases hq : q = pid
  · subst hq
    rw [Savers.set_procs_self] at hp
    exact hproc p hp
  · rw [Savers.set_procs_of_ne s hq] at hp
    exact h q p hp

theorem Savers.step_simulates {a : SaveLabel β}
    (hsound : Staged.Sound N.owners (s.staged fileOf)) (hclear : s.Clear N)
    (ha : N.LabelClear a) (h : s.step fileOf a = some t) :
    Staged.Steps N.owners (s.staged fileOf) (s.changes fileOf a) (t.staged fileOf) ∧
      t.Clear N := by
  cases a with
  | save pid path bytes todo =>
      simp only [Savers.step] at h
      split at h
      case h_2 => cases h
      obtain rfl := Option.some.inj h
      refine ⟨?_, hclear.set fun p hp => ?_⟩
      · rw [staged_set]
        exact steps_begin (ha _ List.mem_cons_self) bytes
      · obtain rfl := Option.some.inj hp
        exact ⟨Naming.writeClear_begin (ha _ List.mem_cons_self) bytes,
          fun save hsave => ha save (List.mem_cons_of_mem _ hsave)⟩
  | step pid outcome =>
      simp only [Savers.step] at h
      split at h
      case h_1 => cases h
      case h_2 proc hproc =>
        obtain ⟨r, hr, rfl⟩ := Option.map_eq_some_iff.mp h
        obtain ⟨hwrite, htodo⟩ := hclear pid proc hproc
        obtain ⟨hsteps, hrclear⟩ := (AtomicWrite.call_of_step hproc hr).simulates hsound hproc hwrite
        obtain ⟨hnext, hnclear⟩ := simulates_next (s := s) hrclear htodo
        refine ⟨?_, Clear.set (fun q p hp => hclear q p hp) hnclear⟩
        have hall := hsteps.trans hnext
        rwa [List.append_nil] at hall
  | kill pid =>
      obtain rfl := Option.some.inj h
      refine ⟨?_, hclear.set nofun⟩
      rw [staged_set]
      exact (Staged.Step.stop (s := s.staged fileOf) pid).steps

theorem Savers.run_simulates {as : List (SaveLabel β)}
    (hsound : Staged.Sound N.owners (s.staged fileOf)) (hclear : s.Clear N)
    (has : ∀ a ∈ as, N.LabelClear a) (hrun : run (step fileOf) s as = some t) :
    Staged.Steps N.owners (s.staged fileOf) (outputs (step fileOf) (changes fileOf) s as)
      (t.staged fileOf) := by
  induction as generalizing s with
  | nil =>
      obtain rfl := Option.some.inj hrun
      exact .refl _
  | cons a as ih =>
      obtain ⟨r, hr, hrest⟩ := run_cons_eq_some.mp hrun
      obtain ⟨hsteps, hrclear⟩ := step_simulates hsound hclear (has a List.mem_cons_self) hr
      rw [outputs_cons hr]
      exact hsteps.trans (ih (hsteps.sound hsound) hrclear
        (fun b hb => has b (List.mem_cons_of_mem _ hb)) hrest)

end Step

/-! ## The disk -/

namespace Savers

variable {N : Naming fileOf} {s t : Savers β} {as : List (SaveLabel β)}

theorem sound_of_idle (hidle : ∀ pid, s.procs pid = none) :
    Staged.Sound N.owners (s.staged fileOf) :=
  Staged.sound_idle fun pid => by simp only [staged, hidle, Option.bind_none]

theorem clear_of_idle (hidle : ∀ pid, s.procs pid = none) : s.Clear N := by
  intro pid proc hproc
  rw [hidle] at hproc
  cases hproc

theorem disk_eq (hidle : ∀ pid, s.procs pid = none) (has : ∀ a ∈ as, N.LabelClear a)
    (hrun : run (step fileOf) s as = some t) {k : FileId} (hk : ¬N.owners.Hidden k) :
    t.disk k = apply s.disk (outputs (step fileOf) (changes fileOf) s as) k :=
  (run_simulates (sound_of_idle hidle) (clear_of_idle hidle) has hrun).store_eq
    (sound_of_idle hidle) hk

end Savers

/-! ## What changes -/

/-- One of `saves`; the directories still to be made are above its file. -/
def Among (saves : List (Path × List β)) (w : AtomicWrite β) : Prop :=
  (w.path, w.bytes) ∈ saves ∧
    ∀ rest, w.stage = .directories rest → ∀ dir ∈ rest, dir ∈ w.path.directories

/-- The change is a file saved, whole, or a directory above one. -/
def Whole (fileOf : Path → FileId) (saves : List (Path × List β))
    (c : FileId × Entry (List β)) : Prop :=
  (c.2 = .directory ∧ ∃ save ∈ saves, ∃ dir ∈ save.1.directories, c.1 = fileOf dir) ∨
    ∃ save ∈ saves, c = (fileOf save.1, .file save.2)

variable {saves : List (Path × List β)}

theorem among_begin {save : Path × List β} (h : save ∈ saves) :
    Among saves (.begin save.1 save.2) := by
  refine ⟨h, ?_⟩
  rintro rest hrest dir hdir
  obtain rfl := WriteStage.directories.inj hrest
  exact hdir

namespace AtomicWrite

variable {s : Savers β} {pid : Nat} {w : AtomicWrite β} {outcome : Outcome}
  {r : Disk β × Progress β} {cs : List (FileId × Entry (List β))}

/-- A call goes on with the same save, and changes the disk by a whole file or
a directory. -/
theorem Call.among (h : w.Call fileOf pid s.disk outcome r cs) (hw : Among saves w) :
    (∀ w', r.2 = .running w' → Among saves w') ∧ ∀ c ∈ cs, Whole fileOf saves c := by
  have hrest : ∀ {path : Path} {bytes : List β} {dir : Path} {rest : List Path},
      Among saves ⟨path, bytes, .directories (dir :: rest)⟩ →
        Among saves ⟨path, bytes, .directories rest⟩ := by
    rintro path bytes dir rest ⟨hmem, hdirs⟩
    refine ⟨hmem, ?_⟩
    rintro rest' hrest d hd
    obtain rfl := WriteStage.directories.inj hrest
    exact hdirs _ rfl d (List.mem_cons_of_mem _ hd)
  cases h with
  | @makeDirectory path bytes dir rest hmissing =>
      refine ⟨fun w' hw' => Progress.running.inj hw' ▸ hrest hw, fun c hc => ?_⟩
      obtain rfl := List.mem_singleton.mp hc
      exact .inl ⟨rfl, _, hw.1, dir, hw.2 _ rfl dir List.mem_cons_self, rfl⟩
  | foundDirectory => exact ⟨fun w' hw' => Progress.running.inj hw' ▸ hrest hw, nofun⟩
  | removeStale | keepStale | create | write | noRename =>
      exact ⟨fun w' hw' => Progress.running.inj hw' ▸ ⟨hw.1, nofun⟩, nofun⟩
  | rename =>
      refine ⟨nofun, fun c hc => ?_⟩
      obtain rfl := List.mem_singleton.mp hc
      exact .inr ⟨_, hw.1, rfl⟩
  | noDirectory | noCreate | noWrite | removed | notRemoved => exact ⟨nofun, nofun⟩

end AtomicWrite

namespace Savers

variable {N : Naming fileOf} {s t : Savers β} {as : List (SaveLabel β)}
  {saves : List (Path × List β)}

/-- Every save under way or still to come is one of `saves`. -/
def Within (saves : List (Path × List β)) (s : Savers β) : Prop :=
  ∀ pid, ∀ proc ∈ s.procs pid, Among saves proc.write ∧ ∀ save ∈ proc.todo, save ∈ saves

theorem Within.set (h : s.Within saves) {pid : Nat} {proc : Option (Process β)}
    (hproc : ∀ p ∈ proc, Among saves p.write ∧ ∀ save ∈ p.todo, save ∈ saves) :
    (s.set pid proc).Within saves := by
  intro q p hp
  by_cases hq : q = pid
  · subst hq
    rw [set_procs_self] at hp
    exact hproc p hp
  · rw [set_procs_of_ne s hq] at hp
    exact h q p hp

/-- One step changes the disk by whole files and directories, and takes on no
other saves. -/
theorem Within.step {a : SaveLabel β} (h : s.Within saves) (ha : ∀ save ∈ a.saves, save ∈ saves)
    (hstep : s.step fileOf a = some t) :
    t.Within saves ∧ ∀ c ∈ s.changes fileOf a, Whole fileOf saves c := by
  cases a with
  | save pid path bytes todo =>
      simp only [Savers.step] at hstep
      split at hstep
      case h_2 => cases hstep
      obtain rfl := Option.some.inj hstep
      refine ⟨h.set fun p hp => ?_, nofun⟩
      obtain rfl := Option.some.inj hp
      exact ⟨among_begin (ha _ List.mem_cons_self),
        fun save hsave => ha save (List.mem_cons_of_mem _ hsave)⟩
  | kill pid =>
      obtain rfl := Option.some.inj hstep
      exact ⟨h.set nofun, nofun⟩
  | step pid outcome =>
      simp only [Savers.step] at hstep
      split at hstep
      case h_1 => cases hstep
      case h_2 proc hproc =>
        obtain ⟨⟨disk, prog⟩, hr, rfl⟩ := Option.map_eq_some_iff.mp hstep
        obtain ⟨hwrite, htodo⟩ := h pid proc hproc
        obtain ⟨hgo, hwhole⟩ := (AtomicWrite.call_of_step hproc hr).among hwrite
        refine ⟨Within.set (fun q p hp => h q p hp) fun p hp => ?_, hwhole⟩
        cases prog with
        | running w =>
            obtain rfl := Option.some.inj hp
            exact ⟨hgo w rfl, htodo⟩
        | returned result =>
            obtain ⟨w, todo⟩ := proc
            rcases result with e | _
            · cases hp
            · cases todo with
              | nil => cases hp
              | cons save rest =>
                  obtain rfl := Option.some.inj hp
                  exact ⟨among_begin (htodo save List.mem_cons_self),
                    fun other hother => htodo other (List.mem_cons_of_mem _ hother)⟩

theorem within_of_idle (hidle : ∀ pid, s.procs pid = none) : s.Within saves := by
  intro pid proc hproc
  rw [hidle] at hproc
  cases hproc

/-- At every moment the disk is, off the temporary files, what whole files and
new directories, one after the other, make of the disk at first. -/
theorem disk_whole (N : Naming fileOf) (hidle : ∀ pid, s.procs pid = none)
    (has : ∀ a ∈ as, N.LabelClear a) (hrun : run (step fileOf) s as = some t) {k : FileId}
    (hk : ¬N.owners.Hidden k) :
    t.disk k = apply s.disk (outputs (step fileOf) (changes fileOf) s as) k ∧
      ∀ c ∈ outputs (step fileOf) (changes fileOf) s as,
        Whole fileOf (as.flatMap SaveLabel.saves) c := by
  refine ⟨disk_eq hidle has hrun hk, ?_⟩
  have halong : Along (step fileOf)
      (fun _ a => ∀ save ∈ a.saves, save ∈ as.flatMap SaveLabel.saves) s as :=
    along_iff_split.mpr fun bs a cs _ hsplit _ save hsave =>
      List.mem_flatMap.mpr ⟨a, by simp [hsplit], hsave⟩
  exact outputs_all (fun _ _ _ h ha hstep => (h.step ha hstep).1)
    (fun _ _ _ h ha hstep => (h.step ha hstep).2) (within_of_idle hidle) halong

end Savers

/-! ## A disk to run on -/

/-- The ending of a temporary file's name. -/
theorem Naming.suffix_of_hidden (N : Naming fileOf) {p : Path} {name : String}
    (hname : p.fileName = some name) (h : N.owners.Hidden (fileOf p)) :
    ".tmp".toList.map N.fold <:+ name.toList.map N.fold := by
  obtain ⟨pid, q, hq⟩ := h
  have hsame := N.same _ _ _ _ (q.fileName_withFileName _) hname hq
  rw [← String.toList_map, ← String.toList_map, ← hsame, String.toList_map, String.toList_map]
  refine List.IsSuffix.map _ ?_
  rw [String.toList_append]
  exact List.suffix_append _ _

/-- One directory for all files. -/
def flat (path : Path) : FileId := ⟨path.fileName.getD "/"⟩

def flatNaming : Naming flat where
  fold := id
  fold_digit _ _ := rfl
  isDigit_of_fold _ h := h
  same p q n m hp hq h := by
    simp only [flat, hp, hq, Option.getD_some, FileId.mk.injEq] at h
    rw [h]

/-- The path ends in a name, and not in one of a temporary file. -/
def Path.lasting (p : Path) : Bool :=
  p.fileName.any fun name => !".tmp".toList.isSuffixOf name.toList

theorem flat_not_hidden {p : Path} (h : p.lasting) : ¬flatNaming.owners.Hidden (flat p) := by
  intro hidden
  obtain ⟨name, hname, hlasting⟩ := (Option.any_eq_true _ _).mp h
  have hsuffix := flatNaming.suffix_of_hidden hname hidden
  rw [show flatNaming.fold = id from rfl, List.map_id, List.map_id,
    ← List.isSuffixOf_iff_suffix] at hsuffix
  rw [hsuffix] at hlasting
  cases hlasting

theorem flat_clear {p : Path} (h : (p :: p.directories).all Path.lasting) :
    flatNaming.Clear p :=
  fun q hq => flat_not_hidden (List.all_eq_true.mp h q hq)

def sampleFile : Path := ⟨true, [.normal "home", .normal "sessions.json"]⟩

namespace Savers

/-- Two processes save one file, the second is done first, and the first is
killed half way through. -/
def sampleRun : List (SaveLabel UInt8) :=
  [.save 1 sampleFile [1, 2] [], .step 1 .ok, .save 2 sampleFile [3] [], .step 1 (.failed "none"),
    .step 1 .ok, .step 2 .ok, .step 2 (.failed "none"), .step 2 .ok, .step 1 (.wrote 1),
    .step 2 (.wrote 1), .step 2 .ok, .kill 1]

theorem disk_whole_sample :
    ∃ t, run (step flat) ⟨fun _ => .missing, fun _ => none⟩ sampleRun = some t ∧
      t.disk (flat sampleFile) = .file [3] ∧
      t.disk (flat sampleFile) = apply (fun _ => .missing)
        (outputs (step flat) (changes flat) ⟨fun _ => .missing, fun _ => none⟩ sampleRun)
        (flat sampleFile) := by
  have hfile : (run (step flat) ⟨fun _ => .missing, fun _ => none⟩ sampleRun).map
      (·.disk (flat sampleFile)) = some (.file [3]) := by rfl
  obtain ⟨t, ht, h3⟩ := Option.map_eq_some_iff.mp hfile
  have hsaves : ∀ a ∈ sampleRun, ∀ save ∈ a.saves, save.1 = sampleFile := by decide
  refine ⟨t, ht, h3, (disk_whole flatNaming (fun _ => rfl) (fun a ha save hsave => ?_) ht
    (flat_not_hidden (by decide))).1⟩
  rw [hsaves a ha save hsave]
  exact flat_clear (by decide)

end Savers

end PolyTerm.Saved
