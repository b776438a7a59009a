import PolyTerm.LibraryDisk
import PolyTerm.SessionMap

/-!
# Interrupted edits and moves

An edit or a move rewrites the session's file and every file that held a copy,
in the order of the tree. The process can stop between two of these writes;
the file then settles whether every session is still in some included file.
A move to a file further down the tree takes the session out of its old file
first, so a stop in between loses it (`move_down_loses_session`); the exact
condition is `Covered` (`crash_safe_iff`).
-/

namespace PolyTerm.Saved

open Writes

variable {Text : Type}

/-- The sessions in a file on disk. -/
def Platform.onDisk (P : Platform Text) (disk : FileId → Entry Text) (path : Path) :
    List SessionSpec := (P.loadFile disk path).1.sessions

/-- `y` is `x` as it was, or as the call stores it. -/
def IsForm (stored x y : SessionSpec) : Prop := y = x ∨ (x.id = stored.id ∧ y = stored)

instance (stored x y : SessionSpec) : Decidable (IsForm stored x y) :=
  inferInstanceAs (Decidable (_ ∨ _))

namespace Store

open SessionLibrary

variable (P : Platform Text)

/-- Some included file on disk has `x`, in its old or its new form. -/
def Survives (lib : SessionLibrary) (disk : FileId → Entry Text) (stored x : SessionSpec) : Prop :=
  ∃ t ∈ lib.tops, ∃ y ∈ P.onDisk disk t.path, IsForm stored x y

instance (lib : SessionLibrary) (disk : FileId → Entry Text) (stored x : SessionSpec) :
    Decidable (Survives P lib disk stored x) :=
  inferInstanceAs (Decidable (∃ t ∈ lib.tops, ∃ y ∈ P.onDisk disk t.path, IsForm stored x y))

/-- The writes of a call that went through when these are the outcomes. -/
def written (s : Store Text) (call : Store Text → Except StoreError Unit × Store Text)
    (fates : List (Option StoreError)) : List (FileId × Entry Text) :=
  (call { s with world := { s.world with fates := fates } }).2.world.log.drop s.world.log.length

/-- Whichever writes fail and wherever the process stops, no session is lost. -/
def CrashSafe (s : Store Text) (call : Store Text → Except StoreError Unit × Store Text)
    (stored : SessionSpec) : Prop :=
  ∀ fates k, ∀ t ∈ s.lib.tops, ∀ x ∈ P.onDisk s.world.store t.path,
    Survives P s.lib (apply s.world.store ((s.written call fates).take k)) stored x

/-- The call rewrites this file: the one stored in, and any with a copy. -/
def Rewrites (lib : SessionLibrary) (id : SessionId) (dest i : Nat) : Prop :=
  i = dest ∨ ∃ t, lib.tops[i]? = some t ∧ ∃ y ∈ t.data.sessions, y.id = id

/-- The rewritten file will have `x`. -/
def Keeps (lib : SessionLibrary) (stored : SessionSpec) (dest : Nat) (x : SessionSpec)
    (i : Nat) : Prop :=
  if x.id = stored.id then i = dest else ∃ t, lib.tops[i]? = some t ∧ x ∈ t.data.sessions

/-- Every session on disk is in a file that is not rewritten, or not before a
file that will have it. -/
def Covered (s : Store Text) (stored : SessionSpec) (dest : Nat) : Prop :=
  ∀ t ∈ s.lib.tops, ∀ x ∈ P.onDisk s.world.store t.path,
    ∃ i u, s.lib.tops[i]? = some u ∧
      (∃ y ∈ P.onDisk s.world.store u.path, IsForm stored x y) ∧
      (¬ Rewrites s.lib stored.id dest i ∨
        ∃ j, Rewrites s.lib stored.id dest j ∧ j ≤ i ∧ Keeps s.lib stored dest x j)

theorem rewrites_iff {lib : SessionLibrary} {id : SessionId} {dest i : Nat} :
    Rewrites lib id dest i ↔ i ∈ lib.affected id dest := by
  rw [mem_affected, mem_changed, or_comm]
  rfl

theorem mem_retain {t : TopFolder} {id : SessionId} {x : SessionSpec} :
    x ∈ (t.retain id).data.sessions ↔ x ∈ t.data.sessions ∧ x.id ≠ id := by
  simp [TopFolder.retain]

/-- What the rewritten files have, read off the tree before the call. -/
theorem keeps_iff {lib : SessionLibrary} {stored x : SessionSpec} {dest j : Nat} {t : TopFolder}
    (ht : lib.tops[dest]? = some t) :
    (∃ u, (lib.upserted stored dest).tops[j]? = some u ∧
      ∃ y ∈ u.data.sessions, IsForm stored x y) ↔ Keeps lib stored dest x j := by
  constructor
  · rintro ⟨u, hu, y, hy, hform⟩
    have hj : j < lib.tops.length :=
      upserted_length lib stored dest ▸ (List.getElem?_eq_some_iff.mp hu).1
    have hv : lib.tops[j]? = some lib.tops[j] := List.getElem?_eq_getElem hj
    rw [upserted_top hv, Option.some.injEq] at hu
    subst hu
    by_cases hid : x.id = stored.id
    · -- every other copy has been taken out
      rw [Keeps, if_pos hid]
      by_contra hne
      rw [if_neg (Ne.symm hne), mem_retain] at hy
      rcases hform with rfl | ⟨-, rfl⟩
      · exact hy.2 hid
      · exact hy.2 rfl
    · rw [Keeps, if_neg hid]
      obtain rfl : y = x := hform.resolve_right fun h => hid h.1
      refine ⟨_, hv, ?_⟩
      split at hy
      · rcases List.mem_append.mp hy with hmem | hmem
        · exact (mem_retain.mp hmem).1
        · exact absurd (congrArg SessionSpec.id (List.mem_singleton.mp hmem)) hid
      · exact (mem_retain.mp hy).1
  · intro hkeeps
    by_cases hid : x.id = stored.id
    · rw [Keeps, if_pos hid] at hkeeps
      subst hkeeps
      refine ⟨_, upserted_top ht, stored, ?_, .inr ⟨hid, rfl⟩⟩
      rw [if_pos rfl]
      exact List.mem_append_right _ (List.mem_singleton_self _)
    · rw [Keeps, if_neg hid] at hkeeps
      obtain ⟨v, hv, hx⟩ := hkeeps
      refine ⟨_, upserted_top hv, x, ?_, .inl rfl⟩
      have hretain : x ∈ (v.retain stored.id).data.sessions := mem_retain.mpr ⟨hx, hid⟩
      split
      · exact List.mem_append_left _ hretain
      · exact hretain

/-- The session is in some included file after `k` writes: in a rewritten file
that has it, or in one not yet rewritten that had it. -/
theorem survives_interrupted {s : Store Text} (hapart : s.lib.FilesApart P) (stored : SessionSpec)
    {x : SessionSpec} {dest : Nat} {t : TopFolder} (ht : s.lib.tops[dest]? = some t)
    (hw : t.writable = true) (k : Nat) :
    Survives P s.lib
        (apply s.world.store
          (((s.lib.upserted stored dest).topWrites P (s.lib.affected stored.id dest)).take k))
        stored x ↔
      ∃ i, (i ∈ (s.lib.affected stored.id dest).take k ∧ Keeps s.lib stored dest x i) ∨
        (i ∉ (s.lib.affected stored.id dest).take k ∧
          ∃ u, s.lib.tops[i]? = some u ∧
            ∃ y ∈ P.onDisk s.world.store u.path, IsForm stored x y) := by
  have hedit : Revised s.lib (s.lib.upserted stored dest) (s.lib.affected stored.id dest) :=
    revised_upserted ht hw
  constructor
  · rintro ⟨u, hu, y, hy, hform⟩
    obtain ⟨i, hi⟩ := List.mem_iff_getElem?.mp hu
    obtain ⟨data, hdata, -⟩ := hedit.contents i u hi
    rw [Platform.onDisk, loadFile_interrupted hedit hapart hi hdata] at hy
    refine ⟨i, ?_⟩
    split at hy
    · rename_i hmem
      exact .inl ⟨hmem, (keeps_iff ht).mp ⟨_, hdata, y, hy, hform⟩⟩
    · rename_i hmem
      exact .inr ⟨hmem, u, hi, y, hy, hform⟩
  · rintro ⟨i, ⟨hmem, hkeeps⟩ | ⟨hmem, u, hi, y, hy, hform⟩⟩
    · obtain ⟨u', hu', y, hy, hform⟩ := (keeps_iff ht).mpr hkeeps
      obtain ⟨u, hu, heq, -⟩ := hedit.top hu'
      refine ⟨u, List.mem_of_getElem? hu, y, ?_, hform⟩
      rw [Platform.onDisk, loadFile_interrupted hedit hapart hu hu', if_pos hmem]
      exact hy
    · obtain ⟨data, hdata, -⟩ := hedit.contents i u hi
      refine ⟨u, List.mem_of_getElem? hi, y, ?_, hform⟩
      rw [Platform.onDisk, loadFile_interrupted hedit hapart hi hdata, if_neg hmem]
      exact hy

/-- The writes that went through are the first of those the call makes. -/
theorem written_upsert {s : Store Text} {spec : SessionSpec} {dest : Nat} {rel : FolderPath}
    {t : TopFolder} (h : Accepts s.lib spec dest rel t) (fates : List (Option StoreError)) :
    ∃ k, s.written (·.upsertSession P spec) fates =
      ((s.lib.upserted { spec with folder := rel } dest).topWrites P
        (s.lib.affected spec.id dest)).take k ∧
      (fates = [] → k = ((s.lib.upserted { spec with folder := rel } dest).topWrites P
        (s.lib.affected spec.id dest)).length) := by
  generalize hws : (s.lib.upserted { spec with folder := rel } dest).topWrites P
    (s.lib.affected spec.id dest) = ws
  let s₀ : Store Text := { s with world := { s.world with fates := fates } }
  let lib' := s.lib.upserted { spec with folder := rel } dest
  have hcall : s₀.upsertSession P spec = ({ s₀ with lib := lib' } : Store Text).save ws := by
    rw [← hws]
    exact upsertSession_of_accepts P (s := s₀) h
  have hwritten : ∀ done, Medium.Wrote s₀.world (s₀.upsertSession P spec).2.world done →
      s.written (·.upsertSession P spec) fates = done := by
    intro done hdone
    have hlog : (s₀.upsertSession P spec).2.world.log = s.world.log ++ done := hdone.log
    have hdrop : s.written (·.upsertSession P spec) fates =
        (s₀.upsertSession P spec).2.world.log.drop s.world.log.length := rfl
    rw [hdrop, hlog, List.drop_left]
  rw [hcall] at hwritten
  obtain ⟨done, hpre, hwrote⟩ := save_wrote { s₀ with lib := lib' } ws
  cases fates with
  | nil =>
      have hok := (save_of_fates_nil (s := { s₀ with lib := lib' }) rfl ws).1
      refine ⟨ws.length, ?_, fun _ => rfl⟩
      rw [hwritten ws (save_ok hok), List.take_length]
  | cons fate fates =>
      refine ⟨done.length, ?_, fun h => absurd h (List.cons_ne_nil _ _)⟩
      rw [hwritten done hwrote]
      exact List.prefix_iff_eq_take.mp hpre

theorem upsert_crashSafe_iff {s : Store Text} (hapart : s.lib.FilesApart P) {spec : SessionSpec}
    {dest : Nat} {rel : FolderPath} {t : TopFolder} (h : Accepts s.lib spec dest rel t) :
    CrashSafe P s (·.upsertSession P spec) { spec with folder := rel } ↔
      Covered P s { spec with folder := rel } dest := by
  have hfates : CrashSafe P s (·.upsertSession P spec) { spec with folder := rel } ↔
      ∀ t ∈ s.lib.tops, ∀ x ∈ P.onDisk s.world.store t.path, ∀ k,
        Survives P s.lib (apply s.world.store
          (((s.lib.upserted { spec with folder := rel } dest).topWrites P
            (s.lib.affected spec.id dest)).take k)) { spec with folder := rel } x := by
    constructor
    · intro hsafe t ht x hx k
      obtain ⟨n, hn, hall⟩ := written_upsert P h []
      have hk := hsafe [] k t ht x hx
      rwa [hn, hall rfl, List.take_length] at hk
    · intro hall fates k t ht x hx
      obtain ⟨n, hn, -⟩ := written_upsert P h fates
      rw [hn, List.take_take]
      exact hall t ht x hx _
  rw [hfates]
  refine forall_congr' fun u => forall_congr' fun _ => forall_congr' fun x =>
    forall_congr' fun _ => ?_
  simp only [survives_interrupted P hapart { spec with folder := rel } h.top h.writable]
  have hbound : ∀ i, (∃ u, s.lib.tops[i]? = some u ∧ ∃ y ∈ P.onDisk s.world.store u.path,
      IsForm { spec with folder := rel } x y) → i < s.lib.tops.length := by
    rintro i ⟨u, hu, -⟩
    exact (List.getElem?_eq_some_iff.mp hu).1
  refine (survives_iff (affected_ascending s.lib spec.id dest) hbound).trans ?_
  simp only [← rewrites_iff]
  constructor
  · rintro ⟨i, ⟨u, hu, hy⟩, hkeep⟩
    exact ⟨i, u, hu, hy, hkeep⟩
  · rintro ⟨i, u, hu, hy, hkeep⟩
    exact ⟨i, ⟨u, hu, hy⟩, hkeep⟩

/-- Interrupted anywhere, an edit or a move that passes its checks loses no
session exactly if every session on disk is covered; a move of a session that
is gone writes nothing. -/
theorem crash_safe_iff (s : Store Text) (hapart : s.lib.FilesApart P) :
    (∀ spec dest rel t, Accepts s.lib spec dest rel t →
      (CrashSafe P s (·.upsertSession P spec) { spec with folder := rel } ↔
        Covered P s { spec with folder := rel } dest)) ∧
    (∀ id folder spec dest rel t, s.lib.getSession id = some spec →
      Accepts s.lib { spec with folder := folder } dest rel t →
      (CrashSafe P s (·.moveSession P id folder) { spec with folder := rel } ↔
        Covered P s { spec with folder := rel } dest)) ∧
    ∀ id folder stored, s.lib.getSession id = none →
      CrashSafe P s (·.moveSession P id folder) stored := by
  refine ⟨fun spec dest rel t h => upsert_crashSafe_iff P hapart h,
    fun id folder spec dest rel t hget h => ?_, fun id folder stored hget fates k t ht x hx => ?_⟩
  · rw [← upsert_crashSafe_iff P hapart h]
    have hwritten : ∀ fates, s.written (·.moveSession P id folder) fates =
        s.written (·.upsertSession P { spec with folder := folder }) fates := by
      intro fates
      simp only [written, moveSession, hget]
    simp only [CrashSafe, hwritten]
  · have hwritten : s.written (·.moveSession P id folder) fates = [] := by
      simp only [written, moveSession, hget, List.drop_length]
    rw [hwritten, List.take_nil, apply_nil]
    exact ⟨t, ht, x, hx, .inl rfl⟩

/-- In a library whose memory is what is on disk, only the copies of the
session itself are in danger: each needs a copy in the file stored in or
further down. -/
theorem covered_of_agrees {s : Store Text} {stored : SessionSpec} {dest : Nat}
    (hagrees : ∀ t ∈ s.lib.tops, P.onDisk s.world.store t.path = t.data.sessions) :
    Covered P s stored dest ↔
      ∀ t ∈ s.lib.tops, ∀ x ∈ t.data.sessions, x.id = stored.id →
        ∃ i u, s.lib.tops[i]? = some u ∧ dest ≤ i ∧ ∃ y ∈ u.data.sessions, IsForm stored x y := by
  have hdisk : ∀ {i : Nat} {u : TopFolder}, s.lib.tops[i]? = some u →
      P.onDisk s.world.store u.path = u.data.sessions :=
    fun hu => hagrees _ (List.mem_of_getElem? hu)
  constructor
  · intro h t ht x hx hid
    obtain ⟨i, u, hu, ⟨y, hy, hform⟩, hkeep⟩ := h t ht x (hagrees t ht ▸ hx)
    rw [hdisk hu] at hy
    have hyid : y.id = stored.id := by
      rcases hform with rfl | ⟨-, rfl⟩
      · exact hid
      · rfl
    rcases hkeep with hout | ⟨j, -, hji, hkeeps⟩
    · exact absurd (.inr ⟨u, hu, y, hy, hyid⟩) hout
    · rw [Keeps, if_pos hid] at hkeeps
      exact ⟨i, u, hu, hkeeps ▸ hji, y, hy, hform⟩
  · intro h t ht x hx
    rw [hagrees t ht] at hx
    by_cases hid : x.id = stored.id
    · obtain ⟨i, u, hu, hle, y, hy, hform⟩ := h t ht x hx hid
      refine ⟨i, u, hu, ⟨y, hdisk hu ▸ hy, hform⟩, .inr ⟨dest, .inl rfl, hle, ?_⟩⟩
      rw [Keeps, if_pos hid]
    · obtain ⟨i, hi⟩ := List.mem_iff_getElem?.mp ht
      refine ⟨i, t, hi, ⟨x, hdisk hi ▸ hx, .inl rfl⟩, ?_⟩
      by_cases hrewrites : Rewrites s.lib stored.id dest i
      · refine .inr ⟨i, hrewrites, le_rfl, ?_⟩
        rw [Keeps, if_neg hid]
        exact ⟨t, hi, hx⟩
      · exact .inl hrewrites

/-- Up the tree: from the second file to the first. -/
theorem crash_safe_iff_up :
    CrashSafe .plain (sample [] [sampleSession []])
      (·.upsertSession .plain (sampleSession ["General"])) (sampleSession []) := by
  refine ((crash_safe_iff .plain (sample [] [sampleSession []]) (by decide +kernel)).1
    (sampleSession ["General"]) 0 [] _ ⟨by decide +kernel, rfl, rfl, rfl⟩).mpr ?_
  refine (covered_of_agrees .plain (by decide +kernel)).mpr fun t ht x hx hid => ?_
  refine ⟨1, _, rfl, Nat.zero_le _, ?_⟩
  rcases List.mem_cons.mp ht with rfl | ht
  · exact absurd hx List.not_mem_nil
  · obtain rfl := List.mem_singleton.mp ht
    exact ⟨x, hx, .inl rfl⟩

/-- Down the tree: stopped after the first of its two writes, the move has
taken the session out of its old file and not yet put it into the new one. -/
theorem move_down_loses_session :
    ∃ (s : Store Document) (id : SessionId) (folder : FolderPath) (spec : SessionSpec)
      (dest : Nat) (rel : FolderPath) (t : TopFolder),
      s.lib.FilesApart .plain ∧ s.lib.getSession id = some spec ∧
        Accepts s.lib { spec with folder := folder } dest rel t ∧
        ¬ CrashSafe .plain s (·.moveSession .plain id folder) { spec with folder := rel } := by
  refine ⟨sample [sampleSession []] [], ⟨1⟩, ["Work"], sampleSession ["General"], 1, [], _,
    by decide +kernel, by decide +kernel, ⟨by decide +kernel, rfl, rfl, rfl⟩, fun hsafe => ?_⟩
  have hlost := hsafe [] 1 _ List.mem_cons_self (sampleSession []) (by decide +kernel)
  revert hlost
  decide +kernel

end Store

end PolyTerm.Saved
