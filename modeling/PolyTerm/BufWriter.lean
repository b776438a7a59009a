import Mathlib.Data.List.Basic

/-!
# Buffered writing to a medium that can fail

A writer collects what it is given and passes it on in large pieces. The medium
takes a piece whole, or a beginning of it and then fails; what it did not take
stays in the buffer. What counts is what is in the file and the buffer
together: a write that succeeds adds exactly its bytes there, one that fails a
beginning of them (`writeAll_appends`), and flushing, whatever comes of it,
moves bytes and loses none (`flushBuf_appends`).
-/

structure BufWriter (α : Type) where
  capacity : Nat
  buffer : List α
  file : List α
  /-- how much of each piece to come the medium takes, if not all of it -/
  outcomes : List (Option Nat)

namespace BufWriter

variable {α : Type}

def new (capacity : Nat) (file : List α) (outcomes : List (Option Nat)) : BufWriter α :=
  ⟨capacity, [], file, outcomes⟩

def spare (w : BufWriter α) : Nat := w.capacity - w.buffer.length

/-- How much of a piece of `n` the medium takes. -/
def takes (w : BufWriter α) (n : Nat) : Nat :=
  match w.outcomes with
  | some k :: _ => min k n
  | _ => n

/-- Pass on the buffer. -/
def flushBuf : EStateM Unit (BufWriter α) Unit := fun w =>
  if w.buffer.isEmpty then .ok () w
  else
    let k := w.takes w.buffer.length
    let w' := { w with
      file := w.file ++ w.buffer.take k, buffer := w.buffer.drop k, outcomes := w.outcomes.tail }
    if k = w.buffer.length then .ok () w' else .error () w'

/-- Pass on bytes around the buffer. -/
def direct (bytes : List α) : EStateM Unit (BufWriter α) Unit := fun w =>
  let k := w.takes bytes.length
  let w' := { w with file := w.file ++ bytes.take k, outcomes := w.outcomes.tail }
  if k = bytes.length then .ok () w' else .error () w'

def push (w : BufWriter α) (bytes : List α) : BufWriter α :=
  { w with buffer := w.buffer ++ bytes }

/-- Bytes for which there is no room go behind a flush, and around the buffer if
they would fill it. -/
def writeAll (bytes : List α) : EStateM Unit (BufWriter α) Unit := fun w =>
  if bytes.length < w.spare then .ok () (w.push bytes)
  else
    match if w.spare < bytes.length then flushBuf w else .ok () w with
    | .error e w => .error e w
    | .ok _ w => if w.capacity ≤ bytes.length then direct bytes w else .ok () (w.push bytes)

/-! ## What is kept -/

def contents (w : BufWriter α) : List α := w.file ++ w.buffer

def Bounded (w : BufWriter α) : Prop := w.buffer.length ≤ w.capacity

/-- `p` was added and nothing taken back from the file. -/
structure Adds (w : BufWriter α) (p : List α) (w' : BufWriter α) : Prop where
  contents : w'.contents = w.contents ++ p
  file : w.file <+: w'.file
  bounded : w'.Bounded

/-- The outcome of adding bytes: all of them, or a failure and a beginning of
them. -/
def Appends (w : BufWriter α) (bytes : List α) :
    EStateM.Result Unit (BufWriter α) Unit → Prop
  | .ok _ w' => w.Adds bytes w'
  | .error _ w' => ∃ p, p <+: bytes ∧ w.Adds p w'

variable {w v u : BufWriter α} {bytes p q : List α}

theorem bounded_new (capacity : Nat) (file : List α) (outcomes : List (Option Nat)) :
    (new capacity file outcomes).Bounded := Nat.zero_le _

theorem Adds.refl (h : w.Bounded) : w.Adds [] w :=
  ⟨(List.append_nil _).symm, List.prefix_refl _, h⟩

theorem Adds.trans (h : w.Adds p v) (h' : v.Adds q u) : w.Adds (p ++ q) u :=
  ⟨by rw [h'.contents, h.contents, List.append_assoc], h.file.trans h'.file, h'.bounded⟩

/-- What is added behind nothing is added. -/
theorem Adds.appends (h : w.Adds p v) {r : EStateM.Result Unit (BufWriter α) Unit}
    (hr : v.Appends bytes r) : w.Appends (p ++ bytes) r := by
  cases r with
  | ok _ w' => exact h.trans hr
  | error _ w' =>
      obtain ⟨q, hq, hadds⟩ := hr
      exact ⟨p ++ q, (List.prefix_append_right_inj p).mpr hq, h.trans hadds⟩

/-- A flush that succeeds leaves nothing in the buffer, one that fails loses
nothing. -/
theorem flushBuf_appends (h : w.Bounded) :
    w.Appends [] (flushBuf w) ∧
      ∀ w', flushBuf w = .ok () w' → w'.buffer = [] ∧ w'.capacity = w.capacity := by
  have hkept : w.file ++ w.buffer.take (w.takes w.buffer.length) ++
      w.buffer.drop (w.takes w.buffer.length) = w.contents ++ [] := by
    rw [List.append_assoc, List.take_append_drop, List.append_nil, contents]
  have hless : (w.buffer.drop (w.takes w.buffer.length)).length ≤ w.capacity := by
    rw [List.length_drop]
    unfold Bounded at h
    omega
  unfold flushBuf
  split
  · rename_i hempty
    refine ⟨.refl h, fun w' hw => ?_⟩
    cases hw
    exact ⟨List.isEmpty_iff.mp hempty, rfl⟩
  · dsimp only
    split
    · rename_i hall
      refine ⟨⟨hkept, List.prefix_append _ _, hless⟩, fun w' hw => ?_⟩
      cases hw
      exact ⟨by rw [hall, List.drop_length], rfl⟩
    · exact ⟨⟨[], List.prefix_refl _, hkept, List.prefix_append _ _, hless⟩, nofun⟩

theorem direct_appends (h : w.buffer = []) : w.Appends bytes (direct bytes w) := by
  have hfile : w.contents = w.file := by rw [contents, h, List.append_nil]
  have hless : w.buffer.length ≤ w.capacity := by rw [h]; exact Nat.zero_le _
  unfold direct
  dsimp only
  split
  · rename_i hall
    refine ⟨?_, List.prefix_append _ _, hless⟩
    rw [hfile, contents, h, List.append_nil, hall, List.take_length]
  · refine ⟨bytes.take (w.takes bytes.length), List.take_prefix _ _, ?_, List.prefix_append _ _,
      hless⟩
    rw [hfile, contents, h, List.append_nil]

theorem push_adds (h : w.buffer.length + bytes.length ≤ w.capacity) :
    w.Adds bytes (w.push bytes) := by
  refine ⟨(List.append_assoc _ _ _).symm, List.prefix_refl _, ?_⟩
  rw [Bounded, push, List.length_append]
  exact h

theorem writeAll_appends (h : w.Bounded) (bytes : List α) :
    w.Appends bytes (writeAll bytes w) := by
  unfold Bounded at h
  unfold writeAll
  split
  · rename_i hroom
    unfold spare at hroom
    exact push_adds (by omega)
  · by_cases hfull : w.spare < bytes.length
    · rw [if_pos hfull]
      have hflush := flushBuf_appends h
      cases hw : flushBuf w with
      | ok _ v =>
          rw [hw] at hflush
          obtain ⟨hnil, hcapacity⟩ := hflush.2 v rfl
          dsimp only
          refine hflush.1.appends ?_
          split
          · exact direct_appends hnil
          · refine push_adds ?_
            rw [hnil, List.length_nil]
            omega
      | error _ v =>
          rw [hw] at hflush
          obtain ⟨p, hp, hadds⟩ := hflush.1
          exact ⟨p, hp.trans List.nil_prefix, hadds⟩
    · rw [if_neg hfull]
      unfold spare at hfull
      dsimp only
      split
      · exact direct_appends (List.eq_nil_of_length_eq_zero (by omega))
      · exact push_adds (by omega)

theorem forM_appends (h : w.Bounded) (writes : List (List α)) :
    w.Appends writes.flatten ((writes.forM writeAll).run w) := by
  induction writes generalizing w with
  | nil => exact .refl h
  | cons bytes writes ih =>
      have hfirst := writeAll_appends h bytes
      have hrun : ((bytes :: writes).forM writeAll).run w =
          ((writeAll bytes >>= fun _ => writes.forM writeAll) :
            EStateM Unit (BufWriter α) Unit).run w := rfl
      rw [hrun, EStateM.run_bind, List.flatten_cons]
      cases hw : (writeAll bytes).run w with
      | ok _ v =>
          have hv : w.Adds bytes v := (congrArg (w.Appends bytes) hw).mp hfirst
          exact hv.appends (ih hv.bounded)
      | error _ v =>
          obtain ⟨p, hp, hadds⟩ : w.Appends bytes (.error () v) :=
            (congrArg (w.Appends bytes) hw).mp hfirst
          exact ⟨p, hp.trans (List.prefix_append _ _), hadds⟩

/-! ## A medium that takes everything -/

def Reliable (w : BufWriter α) : Prop := ∀ o ∈ w.outcomes, o = none

/-- It succeeds, and so will what comes after it. -/
def Succeeds : EStateM.Result Unit (BufWriter α) Unit → Prop
  | .ok _ w' => w'.Reliable
  | .error _ _ => False

theorem Reliable.takes (h : w.Reliable) (n : Nat) : w.takes n = n := by
  unfold BufWriter.takes
  split
  · rename_i k rest houtcomes
    cases h (some k) (houtcomes ▸ List.mem_cons_self)
  · rfl

theorem Reliable.tail (h : w.Reliable) : ∀ o ∈ w.outcomes.tail, o = none :=
  fun o ho => h o (List.mem_of_mem_tail ho)

theorem flushBuf_succeeds (h : w.Reliable) : Succeeds (flushBuf w) := by
  unfold flushBuf
  split
  · exact h
  · rw [h.takes, if_pos rfl]
    exact h.tail

theorem writeAll_succeeds (h : w.Reliable) (bytes : List α) : Succeeds (writeAll bytes w) := by
  have hdirect : ∀ v : BufWriter α, v.Reliable →
      Succeeds (if v.capacity ≤ bytes.length then direct bytes v else .ok () (v.push bytes)) := by
    intro v hv
    split
    · rw [direct, hv.takes, if_pos rfl]
      exact hv.tail
    · exact hv
  unfold writeAll
  split
  · exact h
  · split
    · rename_i e v hw
      split at hw
      · exact hw ▸ flushBuf_succeeds h
      · cases hw
    · rename_i v hw
      refine hdirect v ?_
      split at hw
      · have hflush := flushBuf_succeeds h
        rw [hw] at hflush
        exact hflush
      · cases hw
        exact h

theorem forM_succeeds (h : w.Reliable) (writes : List (List α)) :
    Succeeds ((writes.forM writeAll).run w) := by
  induction writes generalizing w with
  | nil => exact h
  | cons bytes writes ih =>
      have hfirst := writeAll_succeeds h bytes
      have hrun : ((bytes :: writes).forM writeAll).run w =
          ((writeAll bytes >>= fun _ => writes.forM writeAll) :
            EStateM Unit (BufWriter α) Unit).run w := rfl
      rw [hrun, EStateM.run_bind]
      cases hw : (writeAll bytes).run w with
      | ok _ v => exact ih ((congrArg Succeeds hw).mp hfirst)
      | error _ v => exact (congrArg Succeeds hw).mp hfirst

end BufWriter
