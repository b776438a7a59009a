import PolyTerm.CrashSafety
import PolyTerm.LibraryCalls

/-!
# The session library on a real disk

The session library takes a write to be all or nothing, and stops at the first
that fails. `AtomicSaves` has the writes as system calls; here a process carries
out the saves of one operation, and is stopped after any number of calls. What
it leaves on the disk are the first so many saves, whole (`one_run`), so the
calls do what the library's writes do (`save_refines`), and an operation that
loses no session however its writes are interrupted loses none however its
system calls are (`crash_safe_on_disk`).
-/

namespace PolyTerm.Saved

open Runs Writes

variable {β : Type} {fileOf : Path → FileId}

/-- The saves still to be carried out, the one under way first. -/
def Process.pending (proc : Process β) : List (Path × List β) :=
  (proc.write.path, proc.write.bytes) :: proc.todo

namespace Savers

/-- What a process with these saves left returns, if a system call makes it stop. -/
def finished (todo : List (Path × List β)) : Progress β → List (Except String Unit)
  | .running _ => []
  | .returned r =>
      match next todo (.returned r) with
      | none => [r]
      | some _ => []

/-- What a process that stops saving returns: the last of its saves, or the
first that fails. -/
def returns (fileOf : Path → FileId) (s : Savers β) : SaveLabel β → List (Except String Unit)
  | .step pid outcome =>
      match s.procs pid with
      | some proc =>
          match proc.write.step fileOf pid s.disk outcome with
          | some (_, prog) => finished proc.todo prog
          | none => []
      | none => []
  | _ => []

/-- The process `pid` begins to save, and its system calls come to these. -/
def calls (pid : Nat) : List (Path × List β) → List Outcome → List (SaveLabel β)
  | [], _ => []
  | (path, bytes) :: todo, outcomes => .save pid path bytes todo :: outcomes.map (.step pid)

end Savers

namespace Naming

variable (N : Naming fileOf)

/-- Neither a temporary file, nor a directory above a file that is saved. -/
def Plain (saves : List (Path × List β)) (k : FileId) : Prop :=
  ¬N.owners.Hidden k ∧ ∀ save ∈ saves, ∀ dir ∈ save.1.directories, fileOf dir ≠ k

/-- Plain keys hold what the first `n` saves make of them. -/
def Holds (saves : List (Path × List β)) (disk₀ disk : Disk β) (n : Nat) : Prop :=
  ∀ k, N.Plain saves k → disk k = apply disk₀ ((saves.take n).map (saved fileOf)) k

/-- So many saves have gone through, and this has been returned. -/
def Stopped (saves : List (Path × List β)) (disk₀ disk : Disk β)
    (results : List (Except String Unit)) : Prop :=
  ∃ n, N.Holds saves disk₀ disk n ∧
    ((results = [] ∧ n < saves.length) ∨ (results = [.ok ()] ∧ n = saves.length) ∨
      ∃ e, results = [.error e] ∧ n < saves.length)

end Naming

/-- A file changes only when its save goes through. -/
theorem AtomicWrite.Call.files {pid : Nat} {disk : Disk β} {w : AtomicWrite β}
    {outcome : Outcome} {r : Disk β × Progress β} {cs : List (FileId × Entry (List β))}
    (h : w.Call fileOf pid disk outcome r cs) :
    (∃ w', r.2 = .running w' ∧ w'.path = w.path ∧ w'.bytes = w.bytes ∧
        ∀ c ∈ cs, c.2 = .directory) ∨
      (r.2 = .returned (.ok ()) ∧ cs = [(fileOf w.path, .file w.bytes)]) ∨
      ∃ e, r.2 = .returned (.error e) ∧ cs = [] := by
  cases h with
  | makeDirectory =>
      refine .inl ⟨_, rfl, rfl, rfl, fun c hc => ?_⟩
      obtain rfl := List.mem_singleton.mp hc
      rfl
  | foundDirectory | removeStale | keepStale | create | write | noRename =>
      exact .inl ⟨_, rfl, rfl, rfl, nofun⟩
  | rename => exact .inr (.inl ⟨rfl, rfl⟩)
  | noDirectory | noCreate | noWrite | removed | notRemoved => exact .inr (.inr ⟨_, rfl, rfl⟩)

namespace Savers

variable {N : Naming fileOf} {s t u : Savers β} {pid n : Nat} {saves : List (Path × List β)}
  {disk₀ : Disk β}

/-- The process has carried out the first `n` of the saves and is at the next. -/
structure Going (N : Naming fileOf) (saves : List (Path × List β)) (pid n : Nat)
    (s : Savers β) (proc : Process β) : Prop where
  sound : Staged.Sound N.owners (s.staged fileOf)
  clear : s.Clear N
  proc_eq : s.procs pid = some proc
  pending : proc.pending = saves.drop n
  among : Among saves proc.write

variable {proc : Process β}

theorem Going.lt_length (h : Going N saves pid n s proc) : n < saves.length := by
  have hlen := congrArg List.length h.pending
  rw [Process.pending, List.length_cons, List.length_drop] at hlen
  omega

/-- The save under way is the next in the list. -/
theorem Going.take_succ (h : Going N saves pid n s proc) :
    saves.take (n + 1) = saves.take n ++ [(proc.write.path, proc.write.bytes)] := by
  have hget : saves[n]? = some (proc.write.path, proc.write.bytes) := by
    rw [← List.head?_drop, ← h.pending]
    rfl
  rw [List.take_add_one, hget]
  rfl

/-- One system call of the process: the disk changes, plain keys only, by the
save that goes through. -/
theorem Going.call {outcome : Outcome} (h : Going N saves pid n s proc)
    (hholds : N.Holds saves disk₀ s.disk n) (hstep : s.step fileOf (.step pid outcome) = some t) :
    (∃ m proc', Going N saves pid m t proc' ∧ N.Holds saves disk₀ t.disk m ∧
        s.returns fileOf (.step pid outcome) = []) ∨
      t.procs pid = none ∧
        N.Stopped saves disk₀ t.disk (s.returns fileOf (.step pid outcome)) := by
  have hlabel : N.LabelClear (.step pid outcome : SaveLabel β) := fun save hsave => by cases hsave
  obtain ⟨hsteps, hclear⟩ := step_simulates h.sound h.clear hlabel hstep
  have hsound := hsteps.sound h.sound
  have hdisk : ∀ k, N.Plain saves k →
      t.disk k = apply s.disk (s.changes fileOf (.step pid outcome)) k :=
    fun k hk => hsteps.store_eq h.sound hk.1
  simp only [Savers.step, h.proc_eq] at hstep
  obtain ⟨⟨disk, prog⟩, hr, rfl⟩ := Option.map_eq_some_iff.mp hstep
  have hcall := AtomicWrite.call_of_step h.proc_eq hr
  have hreturns : s.returns fileOf (.step pid outcome) = finished proc.todo prog := by
    simp only [returns, h.proc_eq, hr]
  rw [hreturns]
  rcases hcall.files with ⟨w', hgo, hpath, hbytes, hdirs⟩ | ⟨hok, hchanges⟩ | ⟨e, herror, hchanges⟩
  · -- only a directory is made, and that is no plain key
    obtain rfl := hgo
    left
    refine ⟨n, ⟨w', proc.todo⟩, ⟨hsound, hclear, set_procs_self .., ?_, (hcall.among h.among).1 w' rfl⟩,
      fun k hk => ?_, rfl⟩
    · rw [Process.pending, hpath, hbytes]
      exact h.pending
    · rw [hdisk k hk, apply_of_not_mem, hholds k hk]
      rintro c hc rfl
      rcases (hcall.among h.among).2 c hc with ⟨-, save, hsave, dir, hdir, hkey⟩ | ⟨save, -, hc'⟩
      · exact hk.2 save hsave dir hdir hkey.symm
      · have hfile := hdirs c hc
        rw [hc'] at hfile
        cases hfile
  · obtain rfl := hok
    have hnext : N.Holds saves disk₀ disk (n + 1) := by
      intro k hk
      rw [h.take_succ, List.map_append, apply_append]
      refine (hdisk k hk).trans ?_
      rw [hchanges]
      exact apply_congr _ (hholds k hk)
    have hdrop : proc.todo = saves.drop (n + 1) := by
      rw [← List.tail_drop, ← h.pending]
      rfl
    obtain ⟨w, todo⟩ := proc
    cases todo with
    | nil =>
        right
        refine ⟨set_procs_self .., n + 1, hnext, .inr (.inl ⟨rfl, ?_⟩)⟩
        have hlen := congrArg List.length hdrop
        have hlt := h.lt_length
        simp only [List.length_nil, List.length_drop] at hlen
        omega
    | cons save rest =>
        left
        refine ⟨n + 1, _, ⟨hsound, hclear, set_procs_self .., hdrop, ?_⟩, hnext, rfl⟩
        refine among_begin ?_
        rw [← List.take_append_drop (n + 1) saves]
        exact List.mem_append_right _ (hdrop ▸ List.mem_cons_self)
  · obtain rfl := herror
    right
    refine ⟨set_procs_self .., n, fun k hk => ?_, .inr (.inr ⟨e, rfl, h.lt_length⟩)⟩
    rw [hdisk k hk, hchanges]
    exact hholds k hk

/-- Whatever the system calls of the process come to. -/
theorem Going.stopped {outcomes : List Outcome} (h : Going N saves pid n s proc)
    (hholds : N.Holds saves disk₀ s.disk n)
    (hrun : run (step fileOf) s (outcomes.map (.step pid)) = some t) :
    N.Stopped saves disk₀ t.disk
      (outputs (Savers.step fileOf) (returns fileOf) s (outcomes.map (.step pid))) := by
  induction outcomes generalizing s n proc with
  | nil =>
      obtain rfl := Option.some.inj hrun
      exact ⟨n, hholds, .inl ⟨rfl, h.lt_length⟩⟩
  | cons outcome outcomes ih =>
      obtain ⟨r, hr, hrest⟩ := run_cons_eq_some.mp hrun
      rw [List.map_cons, outputs_cons hr]
      rcases h.call hholds hr with ⟨m, proc', hgo, hm, hnone⟩ | ⟨hidle, hstopped⟩
      · rw [hnone]
        exact ih hgo hm hrest
      · -- the process has stopped, and makes no more calls
        cases outcomes with
        | nil =>
            obtain rfl := Option.some.inj hrest
            simpa [outputs] using hstopped
        | cons outcome' outcomes =>
            obtain ⟨q, hq, -⟩ := run_cons_eq_some.mp hrest
            simp only [Savers.step, hidle] at hq
            cases hq

/-- A process that saves one file after the other, stopped anywhere. -/
theorem one_run (N : Naming fileOf) {outcomes : List Outcome} (hne : saves ≠ [])
    (hidle : ∀ q, s.procs q = none) (hclear : ∀ save ∈ saves, N.Clear save.1)
    (hrun : run (step fileOf) s (calls pid saves outcomes) = some t) :
    N.Stopped saves s.disk t.disk
      (outputs (step fileOf) (returns fileOf) s (calls pid saves outcomes)) := by
  obtain ⟨⟨path, bytes⟩, todo, rfl⟩ := List.exists_cons_of_ne_nil hne
  obtain ⟨r, hr, hrest⟩ := run_cons_eq_some.mp hrun
  rw [calls, outputs_cons hr]
  have hlabel : N.LabelClear (.save pid path bytes todo) := hclear
  obtain ⟨hsteps, hrclear⟩ := step_simulates (sound_of_idle hidle) (clear_of_idle hidle) hlabel hr
  simp only [step, hidle] at hr
  obtain rfl := Option.some.inj hr
  exact Going.stopped (n := 0) ⟨hsteps.sound (sound_of_idle hidle), hrclear, set_procs_self .., rfl,
    among_begin List.mem_cons_self⟩ (fun k _ => rfl) hrest

/-- The system calls of a process that saves one file after the other do what
all-or-nothing writes do, some of which may fail; one that is killed has left the
first few files. -/
theorem save_refines (N : Naming fileOf) {outcomes : List Outcome} (hne : saves ≠ [])
    (hidle : ∀ q, s.procs q = none) (hclear : ∀ save ∈ saves, N.Clear save.1)
    (hrun : run (step fileOf) s (calls pid saves outcomes) = some t) :
    (outputs (step fileOf) (returns fileOf) s (calls pid saves outcomes) = [] ∧
        ∃ n < saves.length, N.Holds saves s.disk t.disk n) ∨
      ∃ r fates m, outputs (step fileOf) (returns fileOf) s (calls pid saves outcomes) = [r] ∧
        Medium.writeAll (saves.map (saved fileOf)) ⟨s.disk, fates, []⟩ =
          (r.mapError StoreError.io, m) ∧
        ∀ k, N.Plain saves k → t.disk k = m.store k := by
  obtain ⟨n, hholds, ⟨hnone, hlt⟩ | ⟨hok, rfl⟩ | ⟨e, herror, hlt⟩⟩ := one_run N hne hidle hclear hrun
  · exact .inl ⟨hnone, n, hlt, hholds⟩
  · obtain ⟨m, hall, hwrote, -⟩ :=
      Medium.writeAll_of_fates_nil (m := ⟨s.disk, ([] : List (Option StoreError)), []⟩) rfl
        (saves.map (saved fileOf))
    refine .inr ⟨_, [], m, hok, hall, fun k hk => ?_⟩
    rw [hholds k hk, hwrote.store, List.take_length]
  · have hfails := Medium.writeAll_fails s.disk (saves.map (saved fileOf)) (StoreError.io e)
      (n := n) (by rwa [List.length_map])
    refine .inr ⟨_, _, _, herror, hfails [], fun k hk => ?_⟩
    rw [hholds k hk, List.map_take]

/-- Two files, the rename of the second fails. -/
def sampleSaves : List (Path × List UInt8) :=
  [(sampleFile, [1, 2]), (⟨true, [.normal "home", .normal "work.json"]⟩, [3])]

def sampleOutcomes : List Outcome :=
  [.ok, .failed "none", .ok, .wrote 2, .ok, .ok, .failed "none", .ok, .wrote 1, .failed "busy", .ok]

theorem save_refines_sample :
    ∃ t, run (step flat) ⟨fun _ => .missing, fun _ => none⟩
        (calls 7 sampleSaves sampleOutcomes) = some t ∧
      ((outputs (step flat) (returns flat) ⟨fun _ => .missing, fun _ => none⟩
            (calls 7 sampleSaves sampleOutcomes) = [] ∧
          ∃ n < sampleSaves.length, flatNaming.Holds sampleSaves (fun _ => .missing) t.disk n) ∨
        ∃ r fates m, outputs (step flat) (returns flat) ⟨fun _ => .missing, fun _ => none⟩
            (calls 7 sampleSaves sampleOutcomes) = [r] ∧
          Medium.writeAll (sampleSaves.map (saved flat)) ⟨fun _ => .missing, fates, []⟩ =
            (r.mapError StoreError.io, m) ∧
          ∀ k, flatNaming.Plain sampleSaves k → t.disk k = m.store k) := by
  have hrun : (run (step flat) ⟨fun _ => .missing, fun _ => none⟩
      (calls 7 sampleSaves sampleOutcomes)).isSome = true := by rfl
  obtain ⟨t, ht⟩ := Option.isSome_iff_exists.mp hrun
  have hnames : ∀ save ∈ sampleSaves, (save.1 :: save.1.directories).all Path.lasting := by
    decide
  exact ⟨t, ht, save_refines flatNaming (by decide) (fun _ => rfl)
    (fun save hsave => flat_clear (hnames save hsave)) ht⟩

end Savers

/-! ## The library -/

section Library

variable {P : Platform (List β)}

/-- The saves that write the files `idxs`. -/
def SessionLibrary.topSaves (P : Platform (List β)) (lib : SessionLibrary) (idxs : List Nat) :
    List (Path × List β) :=
  idxs.filterMap fun i => (lib.tops[i]?).map fun t => (t.path, P.encodeSessions t.data)

theorem SessionLibrary.map_topSaves (lib : SessionLibrary) (idxs : List Nat) :
    (lib.topSaves P idxs).map (saved P.fileOf) = lib.topWrites P idxs := by
  simp only [topSaves, topWrites, List.map_filterMap, Option.map_map]
  rfl

namespace Store

/-- Whichever system calls of an edit or a move fail, and wherever the process
is killed, no session is lost, if none is when whole writes are interrupted. -/
theorem crash_safe_on_disk (P : Platform (List β)) (N : Naming P.fileOf) {s : Store (List β)}
    {spec : SessionSpec} {dest : Nat} {rel : FolderPath} {t : TopFolder}
    (h : Accepts s.lib spec dest rel t)
    (hsafe : CrashSafe P s (·.upsertSession P spec) { spec with folder := rel })
    {saves : List (Path × List β)}
    (hsaves : saves = (s.lib.upserted { spec with folder := rel } dest).topSaves P
      (s.lib.affected spec.id dest))
    (hclear : ∀ save ∈ saves, N.Clear save.1)
    (hplain : ∀ t ∈ s.lib.tops, N.Plain saves (P.fileOf t.path))
    {disk : Savers β} (hdisk : disk.disk = s.world.store) (hidle : ∀ q, disk.procs q = none)
    {pid : Nat} {outcomes : List Outcome} {u : Savers β}
    (hrun : run (Savers.step P.fileOf) disk (Savers.calls pid saves outcomes) = some u) :
    ∀ t ∈ s.lib.tops, ∀ x ∈ P.onDisk s.world.store t.path,
      Survives P s.lib u.disk { spec with folder := rel } x := by
  intro top htop x hx
  have hne : saves ≠ [] := by
    rintro rfl
    have htop : (s.lib.upserted { spec with folder := rel } dest).tops[dest]? = some _ :=
      SessionLibrary.upserted_top h.top
    have hdest : P.topWrite _ ∈ (s.lib.upserted { spec with folder := rel } dest).topWrites P
        (s.lib.affected spec.id dest) :=
      SessionLibrary.mem_topWrites.mpr
        ⟨dest, SessionLibrary.mem_affected.mpr (.inr rfl), _, htop, rfl⟩
    rw [← SessionLibrary.map_topSaves, ← hsaves] at hdest
    cases hdest
  obtain ⟨n, hholds, -⟩ := Savers.one_run N hne hidle hclear hrun
  obtain ⟨k, hwritten, hall⟩ := written_upsert P h []
  have hlost := hsafe [] n top htop x hx
  rw [hwritten, hall rfl, List.take_length, ← SessionLibrary.map_topSaves, ← hsaves,
    ← List.map_take, ← hdisk] at hlost
  obtain ⟨v, hv, y, hy, hform⟩ := hlost
  refine ⟨v, hv, y, ?_, hform⟩
  rw [Platform.onDisk, Platform.loadFile_congr (hholds _ (hplain v hv))]
  exact hy

end Store

namespace Store

def sampleOnDisk : Store (List Document) where
  lib :=
    { indexPath := sampleDir.file "library.json"
      dir := sampleDir
      tops := [⟨"General", sampleDir.file "sessions.json", ⟨[], []⟩, true, none⟩,
        ⟨"Work", sampleDir.file "work.json", ⟨[], [sampleSession []]⟩, true, none⟩] }
  world :=
    { store := fun file =>
        if file.name = "sessions.json" then .file [.sessions ⟨[], []⟩]
        else if file.name = "work.json" then .file [.sessions ⟨[], [sampleSession []]⟩]
        else if file.name = "home" ∨ file.name = ".polyterm" then .directory
        else .missing
      fates := []
      log := [] }

/-- Moved from the second file to the first, and killed in the second save. -/
theorem crash_safe_on_disk_sample :
    ∃ u, run (Savers.step Platform.flat.fileOf) ⟨sampleOnDisk.world.store, fun _ => none⟩
        (Savers.calls 7 ((sampleOnDisk.lib.upserted (sampleSession []) 0).topSaves .flat
          (sampleOnDisk.lib.affected ⟨1⟩ 0))
          [.ok, .ok, .failed "none", .ok, .wrote 1, .ok, .ok, .ok, .failed "none", .ok]) = some u ∧
      ∀ t ∈ sampleOnDisk.lib.tops, ∀ x ∈ Platform.flat.onDisk sampleOnDisk.world.store t.path,
        Survives .flat sampleOnDisk.lib u.disk (sampleSession []) x := by
  have hrun : (run (Savers.step Platform.flat.fileOf) ⟨sampleOnDisk.world.store, fun _ => none⟩
        (Savers.calls 7 ((sampleOnDisk.lib.upserted (sampleSession []) 0).topSaves .flat
          (sampleOnDisk.lib.affected ⟨1⟩ 0))
          [.ok, .ok, .failed "none", .ok, .wrote 1, .ok, .ok, .ok, .failed "none", .ok])).isSome =
      true := by decide +kernel
  obtain ⟨u, hu⟩ := Option.isSome_iff_exists.mp hrun
  have haccepts : Accepts sampleOnDisk.lib (sampleSession ["General"]) 0 [] _ :=
    ⟨by decide +kernel, rfl, rfl, rfl⟩
  have hsafe : CrashSafe .flat sampleOnDisk (·.upsertSession .flat (sampleSession ["General"]))
      (sampleSession []) := by
    refine (upsert_crashSafe_iff .flat (by decide +kernel) haccepts).mpr
      ((covered_of_agrees .flat (by decide +kernel)).mpr fun t ht x hx hid => ?_)
    refine ⟨1, _, rfl, Nat.zero_le _, ?_⟩
    rcases List.mem_cons.mp ht with rfl | ht
    · exact absurd hx List.not_mem_nil
    · obtain rfl := List.mem_singleton.mp ht
      exact ⟨x, hx, .inl rfl⟩
  have hnames : ∀ save ∈ (sampleOnDisk.lib.upserted (sampleSession []) 0).topSaves .flat
      (sampleOnDisk.lib.affected ⟨1⟩ 0), (save.1 :: save.1.directories).all Path.lasting = true ∧
        ∀ t ∈ sampleOnDisk.lib.tops, ∀ dir ∈ save.1.directories, Saved.flat dir ≠ flat t.path := by
    decide +kernel
  have htops : ∀ t ∈ sampleOnDisk.lib.tops, t.path.lasting = true := by decide +kernel
  exact ⟨u, hu, crash_safe_on_disk .flat flatNaming haccepts hsafe rfl
    (fun save hsave => flat_clear (hnames save hsave).1)
    (fun t ht => ⟨flat_not_hidden (htops t ht), fun save hsave => (hnames save hsave).2 t ht⟩)
    rfl (fun _ => rfl) hu⟩

end Store

end Library

end PolyTerm.Saved
